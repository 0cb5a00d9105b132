import StupidP2P.Client.SendCommand
import StupidP2P.Foundation.Machine
import StupidP2P.Server.Codec

/-!
# From the callers to the server

Callers queue commands and the send thread transmits them.  A buffer passes through the
ring, which is used over and over, and through one array in which longer frames leave
their bytes behind.  What is transmitted is nevertheless, in the order of the calls, one
frame for each command, and the server's codec takes the stream apart into the same
commands.

`send` transmits all it is given here, and buffers are values.
-/

namespace StupidP2P
namespace Client

open Foundation
open Foundation.Framing
open Server (LengthHeaderCodec.receive)

/-- A client and the array of its send thread. -/
structure SendPath where
  node : ClientNode
  buf : Nat → UInt8

inductive SendPathEvent
  /-- A call of `need_to_send` with these bytes; `malloc` is whether it gets its memory. -/
  | call (malloc : Bool) (fd : Int) (command : UInt8) (data : List UInt8)
  /-- A round of the send thread. -/
  | send

namespace SendPath

/-- The record after a call that was admitted, or the same record. -/
def afterCall (s : SendPath) : Admission → SendPath
  | .refused _ => s
  | .queued code sendData size =>
      { s with node := (s.node.awaitFlag code).pushCommand sendData size }

/-- One event, with the bytes it transmits. -/
def exec (s : SendPath) : SendPathEvent → Option (SendPath × List UInt8)
  | .call malloc fd command data =>
      (needToSend (some s.node) (fun _ => malloc) fd command data data.length).map
        fun admission => (s.afterCall admission, [])
  | .send => (sendRound s.node s.buf).map fun (node, buf, bytes) => (⟨node, buf⟩, bytes)

end SendPath

/-- Calls with a known command and at most 256 bytes, as long as fewer than 8192 commands
are pending, in any order with the rounds of the send thread. -/
def sendPathMachine : Machine SendPath SendPathEvent (List UInt8) where
  init := ⟨.fresh, fun _ => 0⟩
  enabled s event :=
    match event with
    | .call _ fd command data =>
        0 < fd ∧ (commandCode command).isSome = true ∧ data.length ≤ 256 ∧
          s.node.sendFifo.num < netSendCommandNum
    | .send => True
  exec := SendPath.exec

/-- The message of an accepted call. -/
def acceptedOf (t : Transition SendPath SendPathEvent (List UInt8)) : Option (List UInt8) :=
  match t.event with
  | .call malloc fd command data =>
      match needToSend (some t.pre.node) (fun _ => malloc) fd command data data.length with
      | some (.queued _ _ _) => some (command :: data)
      | _ => none
  | .send => none

/-- The messages of the accepted calls, in the order in which they were pushed. -/
def accepted (trace : List (Transition SendPath SendPathEvent (List UInt8))) :
    List (List UInt8) :=
  trace.filterMap acceptedOf

/-- The bytes transmitted. -/
def transmitted (trace : List (Transition SendPath SendPathEvent (List UInt8))) :
    List UInt8 :=
  trace.flatMap Transition.output

/-! ## The invariant of the two threads -/

/-- The command waiting for a message. -/
def waitingCommand (message : List UInt8) : NetWorkCommand (List UInt8) :=
  ⟨some message, message.length⟩

/-- `sent` was transmitted and `pending` waits in the ring. -/
structure SendPath.Carries (s : SendPath) (sent pending : List (List UInt8))
    (bytes : List UInt8) : Prop where
  ring : s.node.sendFifo.Holds (pending.map waitingCommand)
  bytes_eq : bytes = encodeAll sent
  goes : s.node.needToRestartFlag = false
  small : ∀ message ∈ sent ++ pending, message.length ≤ 257

namespace SendPath

variable {s s' : SendPath} {sent pending : List (List UInt8)} {bytes more : List UInt8}

/-- A call either changes nothing or adds its message behind the others. -/
theorem Carries.call {malloc : Bool} {fd : Int} {command : UInt8} {data : List UInt8}
    (h : s.Carries sent pending bytes) (hfd : 0 < fd)
    (hcode : (commandCode command).isSome = true) (hlength : data.length ≤ 256)
    (hroom : s.node.sendFifo.num < netSendCommandNum) :
    ∃ admission,
      needToSend (some s.node) (fun _ => malloc) fd command data data.length =
        some admission ∧
      (s.afterCall admission).Carries sent
        (pending ++ if malloc then [command :: data] else []) bytes ∧
      (malloc = true ↔ ∃ code sendData size, admission = .queued code sendData size) := by
  obtain ⟨code, hcode⟩ := Option.isSome_iff_exists.mp hcode
  rw [needToSend_eq h.goes hfd hcode hlength]
  cases malloc with
  | false =>
      refine ⟨_, rfl, ?_, by simp⟩
      rw [if_neg Bool.false_ne_true, List.append_nil]
      exact h
  | true =>
      refine ⟨_, rfl, ?_, by simp⟩
      have hpending : (pending.map waitingCommand).length < netSendCommandNum := by
        have hnum := h.ring.num_eq
        omega
      refine ⟨?_, h.bytes_eq, h.goes, ?_⟩
      · rw [if_pos rfl, List.map_append]
        exact h.ring.push hpending (command :: data) _
      · intro message hmem
        rw [if_pos rfl, ← List.append_assoc, List.mem_append, List.mem_singleton] at hmem
        rcases hmem with hold | rfl
        · exact h.small message hold
        · rw [List.length_cons]
          omega

/-- The send thread transmits the oldest message. -/
theorem Carries.send_oldest {message : List UInt8}
    (h : s.Carries sent (message :: pending) bytes) :
    ∃ node buf, sendRound s.node s.buf = some (node, buf, encodeFrame message) ∧
      SendPath.Carries ⟨node, buf⟩ (sent ++ [message]) pending (bytes ++ encodeFrame message) := by
  have hsmall : message.length ≤ 257 := h.small message (by simp)
  -- 257 bytes and a header fit into the array, so nothing is cut short.
  refine ⟨_, _, sendRound_eq h.ring h.goes (by omega), ?_⟩
  refine ⟨h.ring.pop, ?_, h.goes, ?_⟩
  · rw [h.bytes_eq]
    simp [encodeAll]
  · intro other hother
    refine h.small other ?_
    simpa using hother

/-- A round with nothing to do, or that transmits the oldest message. -/
theorem Carries.send (h : s.Carries sent pending bytes) :
    ∃ node buf more, sendRound s.node s.buf = some (node, buf, more) ∧
      SendPath.Carries ⟨node, buf⟩ (sent ++ pending.take 1) pending.tail (bytes ++ more) := by
  cases pending with
  | nil =>
      have hempty : sendCommandFifoEmpty s.node.sendFifo = true := h.ring.empty_iff.mpr rfl
      refine ⟨s.node, s.buf, [], by rw [sendRound, if_pos hempty], ?_⟩
      rw [List.take_nil, List.append_nil, List.append_nil]
      exact h
  | cons message pending =>
      obtain ⟨node, buf, hsend, hnext⟩ := h.send_oldest
      exact ⟨node, buf, _, hsend, hnext⟩

/-- A step transmits the oldest message, accepts a new one, or does neither. -/
theorem Carries.step {t : Transition SendPath SendPathEvent (List UInt8)}
    (h : t.pre.Carries sent pending bytes) (hstep : sendPathMachine.Step t) :
    ∃ more pending', more.length ≤ 1 ∧
      sent ++ pending ++ (acceptedOf t).toList = sent ++ more ++ pending' ∧
      t.post.Carries (sent ++ more) pending' (bytes ++ t.output) := by
  obtain ⟨pre, event, output, post⟩ := t
  obtain ⟨henabled, hexec⟩ := hstep
  dsimp only at henabled hexec h ⊢
  cases event with
  | call malloc fd command data =>
      obtain ⟨hfd, hcode, hlength, hroom⟩ := henabled
      obtain ⟨admission, hcall, hnext, hqueued⟩ :=
        @Carries.call pre sent pending _ malloc fd command data h hfd hcode hlength hroom
      have hpost : some (pre.afterCall admission, []) = some (post, output) := by
        rw [← hexec]
        show _ = Option.map _ _
        rw [hcall]
        rfl
      obtain ⟨rfl, rfl⟩ := Prod.mk.inj (Option.some.inj hpost)
      refine ⟨[], pending ++ if malloc then [command :: data] else [], Nat.zero_le 1, ?_, ?_⟩
      · rw [List.append_nil, List.append_assoc]
        congr 2
        simp only [acceptedOf, hcall]
        cases admission with
        | refused result =>
            -- Under the guard of the machine only for want of memory.
            have hfalse : ¬ malloc = true := by
              rw [hqueued]
              simp
            rw [if_neg hfalse]
            rfl
        | queued code sendData size =>
            rw [if_pos (hqueued.mpr ⟨code, sendData, size, rfl⟩)]
            rfl
      · rw [List.append_nil, List.append_nil]
        exact hnext
  | send =>
      obtain ⟨node, buf, more, hsend, hnext⟩ := h.send
      have hpost : some (SendPath.mk node buf, more) = some (post, output) := by
        rw [← hexec]
        show _ = Option.map _ _
        rw [hsend]
        rfl
      obtain ⟨rfl, rfl⟩ := Prod.mk.inj (Option.some.inj hpost)
      refine ⟨pending.take 1, pending.tail, List.length_take_le 1 pending, ?_, hnext⟩
      have hsplit : pending.take 1 ++ pending.tail = pending := by
        rw [← List.drop_one, List.take_append_drop]
      show sent ++ pending ++ [] = _
      rw [List.append_nil, List.append_assoc, hsplit]

end SendPath

theorem accepted_concat (trace : List (Transition SendPath SendPathEvent (List UInt8)))
    (t : Transition SendPath SendPathEvent (List UInt8)) :
    accepted (trace ++ [t]) = accepted trace ++ (acceptedOf t).toList := by
  simp only [accepted, List.filterMap_eq_flatMap_toList, List.flatMap_append,
    List.flatMap_singleton]

theorem transmitted_concat (trace : List (Transition SendPath SendPathEvent (List UInt8)))
    (t : Transition SendPath SendPathEvent (List UInt8)) :
    transmitted (trace ++ [t]) = transmitted trace ++ t.output := by
  simp [transmitted]

/-- What was handed to `send`, call by call. -/
def handed (trace : List (Transition SendPath SendPathEvent (List UInt8))) :
    List (List UInt8) :=
  (trace.map Transition.output).filter fun bytes => !bytes.isEmpty

/-- A run keeps the invariant, by induction on its steps, and each call of `send` is handed
the frame of one accepted message, in order. -/
theorem sendPath_handed {trace : List (Transition SendPath SendPathEvent (List UInt8))}
    {s : SendPath} (hrun : sendPathMachine.Run trace s) :
    ∃ sent pending, accepted trace = sent ++ pending ∧ handed trace = sent.map encodeFrame ∧
      s.Carries sent pending (transmitted trace) := by
  induction hrun with
  | start => exact ⟨[], [], rfl, rfl, SendCommandFifo.holds_init, rfl, rfl, by simp⟩
  | @step trace t _ hstep ih =>
      obtain ⟨sent, pending, haccepted, hhanded, hcarries⟩ := ih
      obtain ⟨more, pending', hone, hmore, hnext⟩ := hcarries.step hstep
      refine ⟨sent ++ more, pending', ?_, ?_, ?_⟩
      · rw [accepted_concat, haccepted, hmore]
      · have hconcat : handed (trace ++ [t]) =
            handed trace ++ [t.output].filter fun bytes => !bytes.isEmpty := by
          rw [handed, handed, List.map_append, List.filter_append, List.map_singleton]
        have houtput : t.output = encodeAll more := by
          have hbytes := hnext.bytes_eq
          rw [hcarries.bytes_eq, encodeAll_append] at hbytes
          exact List.append_cancel_left hbytes
        rw [hconcat, hhanded, List.map_append, houtput]
        congr 1
        match more, hone with
        | [], _ => rfl
        | [message], _ => simp [encodeFrame, bigEndian]
      · rw [transmitted_concat]
        exact hnext

/-- **The send path.**  In every run the bytes transmitted are one frame, header and
message, for each of the first accepted calls in the order of the calls, the others being
those still in the ring.  The server's codec, fed with these bytes in any pieces, hands on
exactly these messages.  No step of a caller or of the send thread is undefined, and a round
of the send thread transmits the frame of the oldest message in the ring and takes it
out. -/
theorem send_path_exact {trace : List (Transition SendPath SendPathEvent (List UInt8))}
    {s : SendPath} (hrun : sendPathMachine.Run trace s) :
    ∃ sent pending, accepted trace = sent ++ pending ∧
      s.node.sendFifo.num = pending.length ∧
      transmitted trace = sent.flatMap (fun message => bigEndian message.length ++ message) ∧
      (∀ reads, reads.flatten = transmitted trace →
        LengthHeaderCodec.receive reads = ([], ⟨sent, false⟩)) ∧
      (∀ event, sendPathMachine.enabled s event → (sendPathMachine.exec s event).isSome) ∧
      ∀ message rest, pending = message :: rest → ∃ s',
        sendPathMachine.exec s .send = some (s', bigEndian message.length ++ message) ∧
          s'.node.sendFifo.num = rest.length := by
  obtain ⟨sent, pending, haccepted, -, hcarries⟩ := sendPath_handed hrun
  refine ⟨sent, pending, haccepted, ?_, hcarries.bytes_eq, ?_, ?_, ?_⟩
  · rw [hcarries.ring.num_eq, List.length_map]
  · intro reads hreads
    have hsmall : ∀ message ∈ sent, message.length ≤ 65536 := by
      intro message hmem
      have hlength := hcarries.small message (List.mem_append_left _ hmem)
      omega
    rw [Server.LengthHeaderCodec.receive_eq, hreads, hcarries.bytes_eq]
    have hdecode := Server.LengthHeaderCodec.decode_send hsmall
    rw [show encodeAll sent = sent.flatMap Server.LengthHeaderCodec.send from rfl, hdecode]
  · intro event henabled
    cases event with
    | call malloc fd command data =>
        obtain ⟨hfd, hcode, hlength, hroom⟩ := henabled
        obtain ⟨admission, hcall, -⟩ := @SendPath.Carries.call s sent pending _ malloc fd
          command data hcarries hfd hcode hlength hroom
        show (Option.map _ _).isSome
        rw [hcall]
        rfl
    | send =>
        obtain ⟨node, buf, more, hsend, -⟩ := hcarries.send
        show (Option.map _ _).isSome
        rw [hsend]
        rfl
  · rintro message rest rfl
    obtain ⟨node, buf, hsend, hnext⟩ := hcarries.send_oldest
    refine ⟨⟨node, buf⟩, ?_, ?_⟩
    · show Option.map _ _ = _
      rw [hsend]
      rfl
    · rw [hnext.ring.num_eq, List.length_map]

/-- A caller queues a REGISTER with the id `"a"`. -/
def registerQueued : Transition SendPath SendPathEvent (List UInt8) :=
  ⟨sendPathMachine.init, .call true 1 0x01 [97], [],
    sendPathMachine.init.afterCall (.queued .registerDevice [0x01, 97] 2)⟩

/-- The send thread transmits it. -/
def registerSent : Transition SendPath SendPathEvent (List UInt8) :=
  ⟨registerQueued.post, .send, [0, 0, 0, 2, 0x01, 97],
    { node :=
        { registerQueued.post.node with
          sendFifo := (sendCommandFifoPop registerQueued.post.node.sendFifo).1 }
      buf := store 0 [0, 0, 0, 2, 0x01, 97] fun _ => 0 }⟩

/-- The codec hands the REGISTER on, also when its header arrives in two pieces. -/
theorem send_path_exact_register :
    sendPathMachine.Run [registerQueued, registerSent] registerSent.post ∧
      LengthHeaderCodec.receive [[0, 0], [0, 2, 0x01, 97]] = ([], ⟨[[0x01, 97]], false⟩) := by
  have hcall : sendPathMachine.Step registerQueued := by
    refine ⟨⟨by decide, by decide, by decide, by decide⟩, ?_⟩
    rfl
  have hsend : sendPathMachine.Step registerSent := by
    refine ⟨trivial, ?_⟩
    rfl
  have hrun : sendPathMachine.Run [registerQueued, registerSent] registerSent.post :=
    .step (.step .start hcall) hsend
  refine ⟨hrun, ?_⟩
  obtain ⟨sent, pending, haccepted, hnum, -, hreads, -⟩ := send_path_exact hrun
  have hempty : pending = [] := by
    have hzero : registerSent.post.node.sendFifo.num = 0 := rfl
    rw [hzero] at hnum
    exact List.length_eq_zero_iff.mp (Int.natCast_eq_zero.mp hnum.symm)
  have hone : accepted [registerQueued, registerSent] = [[0x01, 97]] := rfl
  rw [hempty, List.append_nil, hone] at haccepted
  rw [haccepted]
  exact hreads [[0, 0], [0, 2, 0x01, 97]] rfl

end Client
end StupidP2P
