import StupidP2P.Client.HeartBeat
import StupidP2P.Interop.ShortWrites

/-!
# Commands across reconnections

The way of a command from the callers to the server in a C client that loses its connection
and makes new ones.  Four kinds of threads work on one record: any number of callers of
`need_to_send`, the send thread, the receive thread, which asks for a new connection when
`recv` fails, and the check thread, which closes the socket and connects again.  A step is
one statement of one of them that touches what they share; a caller that was admitted may
push its command much later, and the socket may change between the test of
`need_to_restart_flag` and `send`.

A push and a pop are one step each.  The code does not see to that, since
`send_command_fifo_pop` unlocks where it should lock (`Client.SendLock`), and it is not
defined for a push to a slot that was used before, which frees the old buffer again
(`Client.SendFifo`).  Both are assumed away here, and so is a descriptor opened elsewhere in
the process that gets the number of the closed socket.

`send` takes all, a part or nothing of a frame, and nothing while the socket is closed.  The
command is popped in any case.  So a command is never offered twice, and it goes to the
connection of the moment or nowhere (`commands_over_connections`).
-/

namespace StupidP2P
namespace Interop

open Foundation
open Foundation.Framing
open Server (ProtocolCode)
open Server.LengthHeaderCodec (accepts)
open Client

/-! ## The threads -/

/-- The statement the send thread comes to next: the condition of the inner loop, the test of
the flag, `prepend_length_to_buf_s`, `send`, or `send_command_fifo_pop`. -/
inductive SendPoint
  | empty
  | flag
  | frame
  | send
  | pop
deriving DecidableEq

/-- Where the check thread is: anywhere in its loop, behind `close`, or behind a
`start_connection` that has succeeded. -/
inductive CheckPoint
  | loop
  | closed
  | connected
deriving DecidableEq

/-- The record and the array of the send thread; the callers between their tests and their
`send_command_fifo_push`; the connection `socket_fd` belongs to, if it is open, and how many
were made. -/
structure Uplink where
  node : ClientNode
  buf : Nat → UInt8
  sender : SendPoint
  checker : CheckPoint
  callers : List (ProtocolCode × List UInt8 × Int)
  socket : Option Nat
  made : Nat

/-- A call of `send`: the connection, and what is offered and taken. -/
structure Attempt where
  connection : Option Nat
  write : Write UInt8

/-- The command in the frame that is offered. -/
def Attempt.message (a : Attempt) : List UInt8 := a.write.offered.drop 4

/-- What a step pushes, and what it offers to `send`. -/
structure UplinkOutput where
  pushed : List (List UInt8)
  attempts : List Attempt

inductive UplinkEvent
  /-- A caller gets through `need_to_send` up to the push, or is refused. -/
  | request (malloc : Bool) (fd : Int) (command : UInt8) (data : List UInt8)
  | push (call : ProtocolCode × List UInt8 × Int)
  | testEmpty
  | testFlag
  | frame
  /-- `send` would take so many bytes on a connection that is open. -/
  | send (taken : Nat)
  | pop
  /-- The receive thread, or the check thread after three heart beats, sets the flag. -/
  | connectionLost
  | close
  | startConnection (connected : Bool)
  | clearFlag

namespace Uplink

/-- After `stupid_p2p_init`, on the connection number 0. -/
def initial : Uplink where
  node := .fresh
  buf := fun _ => 0
  sender := .empty
  checker := .loop
  callers := []
  socket := some 0
  made := 1

/-- What `send` does with these bytes. -/
def sendTo (socket : Option Nat) (bytes : List UInt8) (taken : Nat) : Attempt where
  connection := socket
  write := ⟨bytes, if socket.isSome then min taken bytes.length else 0, by split <;> omega⟩

def exec (s : Uplink) : UplinkEvent → Option (Uplink × UplinkOutput)
  | .request malloc fd command data =>
      (needToSend (some s.node) (fun _ => malloc) fd command data data.length).map
        fun admission =>
          match admission with
          | .refused _ => (s, ⟨[], []⟩)
          | .queued code sendData size =>
              ({ s with callers := s.callers ++ [(code, sendData, size)] }, ⟨[], []⟩)
  | .push call =>
      some ({ s with
        node := (s.node.awaitFlag call.1).pushCommand call.2.1 call.2.2
        callers := s.callers.erase call }, ⟨[call.2.1], []⟩)
  | .testEmpty =>
      some ({ s with
        sender := if sendCommandFifoEmpty s.node.sendFifo then .empty else .flag }, ⟨[], []⟩)
  | .testFlag =>
      some ({ s with sender := if s.node.needToRestartFlag then .empty else .frame }, ⟨[], []⟩)
  | .frame =>
      let command := sendCommandFifoTop s.node.sendFifo
      command.data.bind fun data =>
        (prependLengthToBufS s.buf sendBufLength data command.size).map fun buf =>
          ({ s with buf := buf, sender := .send }, ⟨[], []⟩)
  | .send taken =>
      let size := (sendCommandFifoTop s.node.sendFifo).size + 4
      if 0 ≤ size ∧ size ≤ sendBufLength then
        let bytes := (List.range size.toNat).map s.buf
        some ({ s with sender := .pop }, ⟨[], [sendTo s.socket bytes taken]⟩)
      else none
  | .pop =>
      some ({ s with
        node := { s.node with sendFifo := (sendCommandFifoPop s.node.sendFifo).1 }
        sender := .empty }, ⟨[], []⟩)
  | .connectionLost => some ({ s with node := s.node.setNeedToRestartFlag true }, ⟨[], []⟩)
  | .close => some ({ s with checker := .closed, socket := none }, ⟨[], []⟩)
  | .startConnection false => some ({ s with checker := .loop }, ⟨[], []⟩)
  | .startConnection true =>
      some ({ s with checker := .connected, socket := some s.made, made := s.made + 1 }, ⟨[], []⟩)
  | .clearFlag =>
      some ({ s with
        node := (s.node.setNeedToRestartFlag false).clearNotReceiveNum
        checker := .loop }, ⟨[], []⟩)

/-- The commands in the ring that were not offered to `send` yet.  Between `send` and
`send_command_fifo_pop` the first one was. -/
def unoffered (s : Uplink) : List (List UInt8) :=
  (s.node.sendFifo.pending.filterMap NetWorkCommand.data).drop
    (if s.sender = .pop then 1 else 0)

end Uplink

/-- Each thread takes its statements in order, and commands are pushed to unused slots. -/
def uplinkEnabled (s : Uplink) : UplinkEvent → Prop
  | .request _ _ _ _ => True
  | .push call => call ∈ s.callers ∧ s.node.sendFifo.HasUnusedSlot
  | .testEmpty => s.sender = .empty
  | .testFlag => s.sender = .flag
  | .frame => s.sender = .frame
  | .send _ => s.sender = .send
  | .pop => s.sender = .pop
  | .connectionLost => True
  | .close => s.checker = .loop ∧ s.node.needToRestartFlag = true
  | .startConnection _ => s.checker = .closed
  | .clearFlag => s.checker = .connected

instance (s : Uplink) (event : UplinkEvent) : Decidable (uplinkEnabled s event) := by
  cases event <;> unfold uplinkEnabled <;> infer_instance

def uplink : Machine Uplink UplinkEvent UplinkOutput where
  init := .initial
  enabled := uplinkEnabled
  exec := Uplink.exec

/-- The commands pushed in a run, in order. -/
def pushedIn (trace : List (Transition Uplink UplinkEvent UplinkOutput)) : List (List UInt8) :=
  trace.flatMap fun t => t.output.pushed

/-- The calls of `send` in a run, in order. -/
def attemptsIn (trace : List (Transition Uplink UplinkEvent UplinkOutput)) : List Attempt :=
  trace.flatMap fun t => t.output.attempts

/-- The calls of `send` on one connection. -/
def attemptsOn (k : Nat) (trace : List (Transition Uplink UplinkEvent UplinkOutput)) :
    List Attempt :=
  (attemptsIn trace).filter fun a => decide (a.connection = some k)

/-! ## The invariant -/

/-- `waiting` are the commands not yet offered to `send`. -/
structure Uplink.Carries (s : Uplink) (waiting : List (List UInt8)) : Prop where
  /-- A command that was offered stays in the ring until it is popped. -/
  ring : ∃ done : List (List UInt8), s.node.sendFifo.Holds ((done ++ waiting).map waitingCommand) ∧
    (s.sender = .pop → done.length = 1) ∧ (s.sender ≠ .pop → done = [])
  busy : s.sender = .flag ∨ s.sender = .frame ∨ s.sender = .send → waiting ≠ []
  framed : s.sender = .send → ∀ first ∈ waiting.head?,
    (List.range (encodeFrame first).length).map s.buf = encodeFrame first
  small : ∀ message ∈ waiting, message.length ≤ 257
  callers : ∀ call ∈ s.callers, call.2.2 = call.2.1.length ∧ call.2.1.length ≤ 257
  socket : ∀ k ∈ s.socket, k + 1 = s.made

/-- What is known about the calls of `send` so far. -/
structure Offered (made : Nat) (attempts : List Attempt) : Prop where
  frames : ∀ a ∈ attempts, a.write.offered = encodeFrame a.message ∧ a.message.length ≤ 257
  nowhere : ∀ a ∈ attempts, a.connection = none → a.write.sent = 0
  onward : (attempts.filterMap Attempt.connection).Pairwise (· ≤ ·)
  numbers : ∀ k ∈ attempts.filterMap Attempt.connection, k < made

namespace Uplink

variable {s s' : Uplink} {waiting : List (List UInt8)} {output : UplinkOutput}

theorem Carries.unoffered_eq (h : s.Carries waiting) : s.unoffered = waiting := by
  obtain ⟨done, hholds, hpop, hother⟩ := h.ring
  have hdata : s.node.sendFifo.pending.filterMap NetWorkCommand.data = done ++ waiting := by
    rw [hholds.pending_eq, List.filterMap_map]
    exact List.filterMap_some
  rw [unoffered, hdata]
  by_cases hsender : s.sender = .pop
  · rw [if_pos hsender, ← hpop hsender, List.drop_left]
  · rw [if_neg hsender, hother hsender]
    rfl

theorem carries_initial : initial.Carries [] where
  ring := ⟨[], SendCommandFifo.holds_init, by simp [initial], fun _ => rfl⟩
  busy := by simp [initial]
  framed := by simp [initial]
  small := by simp
  callers := by simp [initial]
  socket := by simp [initial]

/-- `need_to_send` for a call with as many bytes as it says: it is refused, or the command
byte and the data are queued. -/
theorem needToSend_cases (node : ClientNode) (malloc : Bool) (fd : Int) (command : UInt8)
    (data : List UInt8) :
    (∃ result, needToSend (some node) (fun _ => malloc) fd command data data.length =
        some (.refused result)) ∨
      ∃ code sendData size,
        needToSend (some node) (fun _ => malloc) fd command data data.length =
          some (.queued code sendData size) ∧
        size = sendData.length ∧ sendData.length ≤ 257 := by
  by_cases hadmitted : (data.length : Int) > 256 ∨ fd ≤ 0
  · exact Or.inl ⟨_, by rw [needToSend, if_pos hadmitted]⟩
  cases hflag : node.needToRestartFlag with
  | true =>
      refine Or.inl ⟨.restarting, ?_⟩
      rw [needToSend, if_neg hadmitted]
      simp only [hflag, if_true]
  | false =>
      cases hcode : commandCode command with
      | some code =>
          rw [needToSend_eq hflag (by omega) hcode (by omega)]
          cases malloc with
          | false => exact Or.inl ⟨_, rfl⟩
          | true =>
              refine Or.inr ⟨_, _, _, rfl, rfl, ?_⟩
              rw [List.length_cons]
              omega
      | none =>
          -- The copy is made before the code is looked at, and stays within both buffers.
          have hinside : 1 + ((data.length : Int) % 18446744073709551616).toNat ≤
              (((data.length : Int) + 1) % 18446744073709551616).toNat ∧
              ((data.length : Int) % 18446744073709551616).toNat ≤ data.length := by
            omega
          cases malloc with
          | false =>
              refine Or.inl ⟨.memoryError, ?_⟩
              rw [needToSend, if_neg hadmitted]
              simp only [hflag, Bool.false_eq_true, if_false]
          | true =>
              refine Or.inl ⟨.badParam, ?_⟩
              rw [needToSend, if_neg hadmitted]
              simp only [hflag, hcode, if_pos hinside, Bool.false_eq_true, if_false, if_true]

/-! ## One step -/

/-- A step that leaves the ring and the send thread alone. -/
theorem Carries.aside (h : s.Carries waiting) (hfifo : s'.node.sendFifo = s.node.sendFifo)
    (hbuf : s'.buf = s.buf) (hsender : s'.sender = s.sender)
    (hcallers : ∀ call ∈ s'.callers, call.2.2 = call.2.1.length ∧ call.2.1.length ≤ 257)
    (hsocket : ∀ k ∈ s'.socket, k + 1 = s'.made) : s'.Carries waiting where
  ring := by
    rw [hfifo, hsender]
    exact h.ring
  busy := by
    rw [hsender]
    exact h.busy
  framed := by
    rw [hsender, hbuf]
    exact h.framed
  small := h.small
  callers := hcallers
  socket := hsocket

/-- A caller. -/
theorem Carries.request (h : s.Carries waiting) (malloc : Bool) (fd : Int) (command : UInt8)
    (data : List UInt8) :
    ∃ s', s.exec (.request malloc fd command data) = some (s', ⟨[], []⟩) ∧ s'.Carries waiting ∧
      s'.made = s.made := by
  rcases needToSend_cases s.node malloc fd command data with
    ⟨result, hcall⟩ | ⟨code, sendData, size, hcall, hsize, hsmall⟩
  · refine ⟨s, ?_, h, rfl⟩
    rw [exec, hcall]
    rfl
  · refine ⟨{ s with callers := s.callers ++ [(code, sendData, size)] }, ?_, ?_, rfl⟩
    · rw [exec, hcall]
      rfl
    · refine h.aside rfl rfl rfl ?_ h.socket
      intro call hcall
      rcases List.mem_append.mp hcall with hold | hnew
      · exact h.callers call hold
      · rw [List.mem_singleton.mp hnew]
        exact ⟨hsize, hsmall⟩

/-- **A push** puts a command behind those that wait, also while the send thread is at work
on the first. -/
theorem Carries.push (h : s.Carries waiting) {call : ProtocolCode × List UInt8 × Int}
    (henabled : uplinkEnabled s (.push call)) :
    ∃ s', s.exec (.push call) = some (s', ⟨[call.2.1], []⟩) ∧
      s'.Carries (waiting ++ [call.2.1]) ∧ s'.made = s.made := by
  obtain ⟨hmem, hroom, -⟩ := henabled
  obtain ⟨hsize, hsmall⟩ := h.callers call hmem
  obtain ⟨done, hholds, hone, hnone⟩ := h.ring
  have hlength : ((done ++ waiting).map waitingCommand).length < netSendCommandNum := by
    have hnum := hholds.num_eq
    omega
  have hpushed := hholds.push hlength call.2.1 call.2.2
  refine ⟨_, rfl, ?_, rfl⟩
  constructor
  · refine ⟨done, ?_, hone, hnone⟩
    rw [← List.append_assoc, List.map_append]
    rw [hsize] at hpushed ⊢
    exact hpushed
  · intro _ hnil
    exact absurd hnil (by simp)
  · intro hsend first hfirst
    have hbusy : waiting ≠ [] := h.busy (Or.inr (Or.inr hsend))
    rw [List.head?_append_of_ne_nil _ hbusy] at hfirst
    exact h.framed hsend first hfirst
  · intro message hmessage
    rcases List.mem_append.mp hmessage with hold | hnew
    · exact h.small message hold
    · rw [List.mem_singleton.mp hnew]
      exact hsmall
  · intro other hother
    exact h.callers other (List.mem_of_mem_erase hother)
  · exact h.socket

/-- The condition of the inner loop, and the test of the flag. -/
theorem Carries.testEmpty (h : s.Carries waiting) (henabled : s.sender = .empty) :
    ∃ s', s.exec .testEmpty = some (s', ⟨[], []⟩) ∧ s'.Carries waiting ∧ s'.made = s.made := by
  obtain ⟨done, hholds, -, hnone⟩ := h.ring
  have hdone : done = [] := hnone (by rw [henabled]; decide)
  subst hdone
  rw [List.nil_append] at hholds
  refine ⟨_, rfl, ?_, rfl⟩
  cases hempty : sendCommandFifoEmpty s.node.sendFifo with
  | true =>
      exact ⟨⟨[], hholds, by simp, fun _ => rfl⟩, by simp, by simp, h.small, h.callers, h.socket⟩
  | false =>
      have hbusy : waiting ≠ [] := by
        intro hnil
        rw [hnil] at hholds
        rw [hholds.empty_iff.mpr rfl] at hempty
        exact Bool.noConfusion hempty
      exact ⟨⟨[], hholds, by simp, fun _ => rfl⟩, fun _ => hbusy, by simp, h.small, h.callers,
        h.socket⟩

theorem Carries.testFlag (h : s.Carries waiting) (henabled : s.sender = .flag) :
    ∃ s', s.exec .testFlag = some (s', ⟨[], []⟩) ∧ s'.Carries waiting ∧ s'.made = s.made := by
  obtain ⟨done, hholds, -, hnone⟩ := h.ring
  have hdone : done = [] := hnone (by rw [henabled]; decide)
  subst hdone
  have hbusy : waiting ≠ [] := h.busy (Or.inl henabled)
  refine ⟨_, rfl, ?_, rfl⟩
  cases s.node.needToRestartFlag with
  | true =>
      exact ⟨⟨[], hholds, by simp, fun _ => rfl⟩, by simp, by simp, h.small, h.callers, h.socket⟩
  | false =>
      exact ⟨⟨[], hholds, by simp, fun _ => rfl⟩, fun _ => hbusy, by simp, h.small, h.callers,
        h.socket⟩

/-- `prepend_length_to_buf_s`. -/
theorem Carries.frame (h : s.Carries waiting) (henabled : s.sender = .frame) :
    ∃ s', s.exec .frame = some (s', ⟨[], []⟩) ∧ s'.Carries waiting ∧ s'.made = s.made := by
  obtain ⟨done, hholds, -, hnone⟩ := h.ring
  have hdone : done = [] := hnone (by rw [henabled]; decide)
  subst hdone
  have hbusy : waiting ≠ [] := h.busy (Or.inr (Or.inl henabled))
  obtain ⟨first, rest, rfl⟩ := List.exists_cons_of_ne_nil hbusy
  have htop : sendCommandFifoTop s.node.sendFifo = waitingCommand first := hholds.top_eq
  have hfits : first.length ≤ 257 := h.small first List.mem_cons_self
  refine ⟨{ s with buf := store 0 (encodeFrame first) s.buf, sender := .send }, ?_, ?_, rfl⟩
  · rw [exec, htop, waitingCommand]
    dsimp only
    rw [Option.bind_some, prependLengthToBufS_eq (by omega)]
    rfl
  · refine ⟨⟨[], hholds, by simp, fun _ => rfl⟩, fun _ => hbusy, ?_, h.small, h.callers,
      h.socket⟩
    intro _ other hother
    obtain rfl := Option.some.inj hother
    exact map_store_range (encodeFrame first) s.buf 0

/-- **`send`** is offered the frame of the first command that waits. -/
theorem Carries.send (h : s.Carries waiting) (henabled : s.sender = .send) (taken : Nat) :
    ∃ s' first rest, waiting = first :: rest ∧
      s.exec (.send taken) =
        some (s', ⟨[], [sendTo s.socket (encodeFrame first) taken]⟩) ∧
      first.length ≤ 257 ∧ s'.Carries rest ∧ s'.made = s.made := by
  obtain ⟨done, hholds, -, hnone⟩ := h.ring
  have hdone : done = [] := hnone (by rw [henabled]; decide)
  subst hdone
  obtain ⟨first, rest, rfl⟩ := List.exists_cons_of_ne_nil (h.busy (Or.inr (Or.inr henabled)))
  have htop : sendCommandFifoTop s.node.sendFifo = waitingCommand first := hholds.top_eq
  have hfits : first.length ≤ 257 := h.small first List.mem_cons_self
  have hbytes := h.framed henabled first rfl
  have hsize : sendBufLength = 2048 := rfl
  have hinside : 0 ≤ (first.length : Int) + 4 ∧ (first.length : Int) + 4 ≤ sendBufLength := by
    omega
  have hcount : ((first.length : Int) + 4).toNat = (encodeFrame first).length := by
    rw [length_encodeFrame]
    omega
  refine ⟨{ s with sender := .pop }, first, rest, rfl, ?_, hfits, ?_, rfl⟩
  · rw [exec, htop, waitingCommand]
    dsimp only
    rw [if_pos hinside, hcount, hbytes]
  · refine ⟨⟨[first], hholds, fun _ => rfl, by simp⟩, by simp, by simp, ?_, h.callers, h.socket⟩
    exact fun message hmem => h.small message (List.mem_cons_of_mem _ hmem)

/-- `send_command_fifo_pop` takes off what was offered, whatever `send` made of it. -/
theorem Carries.pop (h : s.Carries waiting) (henabled : s.sender = .pop) :
    ∃ s', s.exec .pop = some (s', ⟨[], []⟩) ∧ s'.Carries waiting ∧ s'.made = s.made := by
  obtain ⟨done, hholds, hone, -⟩ := h.ring
  obtain ⟨offered, rfl⟩ := List.length_eq_one_iff.mp (hone henabled)
  refine ⟨_, rfl, ?_, rfl⟩
  refine ⟨⟨[], hholds.pop, by simp, fun _ => rfl⟩, by simp, by simp, h.small, h.callers, h.socket⟩

/-- Every step is defined, and either keeps the commands that wait, adds one behind them, or
offers the first of them to `send`. -/
theorem Carries.exec (h : s.Carries waiting) {event : UplinkEvent}
    (henabled : uplinkEnabled s event) :
    ∃ s' output waiting', s.exec event = some (s', output) ∧ s'.Carries waiting' ∧
      s.made ≤ s'.made ∧
      (output.attempts = [] ∧ waiting' = waiting ++ output.pushed ∨
        ∃ first taken, output = ⟨[], [sendTo s.socket (encodeFrame first) taken]⟩ ∧
          waiting = first :: waiting' ∧ first.length ≤ 257) := by
  -- All steps but `push` and `send` leave the commands that wait as they are.
  have hquiet : (∃ s', s.exec event = some (s', ⟨[], []⟩) ∧ s'.Carries waiting ∧
      s.made ≤ s'.made) → ∃ s' output waiting', s.exec event = some (s', output) ∧
      s'.Carries waiting' ∧ s.made ≤ s'.made ∧
      (output.attempts = [] ∧ waiting' = waiting ++ output.pushed ∨
        ∃ first taken, output = ⟨[], [sendTo s.socket (encodeFrame first) taken]⟩ ∧
          waiting = first :: waiting' ∧ first.length ≤ 257) := by
    intro ⟨s', hexec, hcarries, hmade⟩
    exact ⟨s', _, waiting, hexec, hcarries, hmade, Or.inl ⟨rfl, (List.append_nil _).symm⟩⟩
  cases event with
  | request malloc fd command data =>
      obtain ⟨s', hexec, hcarries, hmade⟩ := h.request malloc fd command data
      exact hquiet ⟨s', hexec, hcarries, Nat.le_of_eq hmade.symm⟩
  | push call =>
      obtain ⟨s', hexec, hcarries, hmade⟩ := h.push henabled
      exact ⟨s', _, _, hexec, hcarries, Nat.le_of_eq hmade.symm, Or.inl ⟨rfl, rfl⟩⟩
  | testEmpty =>
      obtain ⟨s', hexec, hcarries, hmade⟩ := h.testEmpty henabled
      exact hquiet ⟨s', hexec, hcarries, Nat.le_of_eq hmade.symm⟩
  | testFlag =>
      obtain ⟨s', hexec, hcarries, hmade⟩ := h.testFlag henabled
      exact hquiet ⟨s', hexec, hcarries, Nat.le_of_eq hmade.symm⟩
  | frame =>
      obtain ⟨s', hexec, hcarries, hmade⟩ := h.frame henabled
      exact hquiet ⟨s', hexec, hcarries, Nat.le_of_eq hmade.symm⟩
  | send taken =>
      obtain ⟨s', first, rest, hwaiting, hexec, hsmall, hcarries, hmade⟩ := h.send henabled taken
      exact ⟨s', _, rest, hexec, hcarries, Nat.le_of_eq hmade.symm,
        Or.inr ⟨first, taken, rfl, hwaiting, hsmall⟩⟩
  | pop =>
      obtain ⟨s', hexec, hcarries, hmade⟩ := h.pop henabled
      exact hquiet ⟨s', hexec, hcarries, Nat.le_of_eq hmade.symm⟩
  | connectionLost =>
      exact hquiet ⟨_, rfl, h.aside rfl rfl rfl h.callers h.socket, Nat.le_refl _⟩
  | close =>
      exact hquiet ⟨_, rfl, h.aside rfl rfl rfl h.callers (by simp), Nat.le_refl _⟩
  | startConnection connected =>
      cases connected with
      | false => exact hquiet ⟨_, rfl, h.aside rfl rfl rfl h.callers h.socket, Nat.le_refl _⟩
      | true =>
          exact hquiet ⟨_, rfl, h.aside rfl rfl rfl h.callers (by simp), Nat.le_succ _⟩
  | clearFlag =>
      exact hquiet ⟨_, rfl, h.aside rfl rfl rfl h.callers h.socket, Nat.le_refl _⟩

end Uplink

/-! ## The calls of `send` -/

section

variable {s : Uplink} {attempts : List Attempt} {made : Nat}

theorem message_sendTo (socket : Option Nat) (message : List UInt8) (taken : Nat) :
    (Uplink.sendTo socket (encodeFrame message) taken).message = message := by
  rw [Attempt.message]
  exact List.drop_left' (length_bigEndian _)

/-- A call of `send` on the newest connection, or on none. -/
theorem Offered.concat (h : Offered made attempts) {socket : Option Nat}
    (hsocket : ∀ k ∈ socket, k + 1 = made) {message : List UInt8} (hsmall : message.length ≤ 257)
    (taken : Nat) :
    Offered made (attempts ++ [Uplink.sendTo socket (encodeFrame message) taken]) := by
  have hnumber : ∀ k ∈ [Uplink.sendTo socket (encodeFrame message) taken].filterMap
      Attempt.connection, k ∈ socket := by
    intro k hk
    obtain ⟨a, ha, hconnection⟩ := List.mem_filterMap.mp hk
    rw [List.mem_singleton.mp ha] at hconnection
    exact hconnection
  constructor
  · intro a ha
    rcases List.mem_append.mp ha with hold | hnew
    · exact h.frames a hold
    · rw [List.mem_singleton.mp hnew, message_sendTo]
      exact ⟨rfl, hsmall⟩
  · intro a ha hnone
    rcases List.mem_append.mp ha with hold | hnew
    · exact h.nowhere a hold hnone
    · rw [List.mem_singleton.mp hnew] at hnone ⊢
      have hsocketNone : socket = none := hnone
      rw [hsocketNone]
      rfl
  · rw [List.filterMap_append, List.pairwise_append]
    refine ⟨h.onward, ?_, ?_⟩
    · cases socket with
      | none => exact List.Pairwise.nil
      | some k => exact List.pairwise_singleton _ _
    · intro j hj k hk
      have hbefore := h.numbers j hj
      have hnewest := hsocket k (hnumber k hk)
      omega
  · intro k hk
    rw [List.filterMap_append, List.mem_append] at hk
    rcases hk with hold | hnew
    · exact h.numbers k hold
    · have hnewest := hsocket k (hnumber k hnew)
      omega

theorem Offered.mono {made' : Nat} (h : Offered made attempts) (hle : made ≤ made') :
    Offered made' attempts :=
  ⟨h.frames, h.nowhere, h.onward, fun k hk => Nat.lt_of_lt_of_le (h.numbers k hk) hle⟩

/-- **A run** of the threads. -/
theorem uplink_run {trace : List (Transition Uplink UplinkEvent UplinkOutput)}
    (hrun : uplink.Run trace s) :
    ∃ waiting, s.Carries waiting ∧ Offered s.made (attemptsIn trace) ∧
      pushedIn trace = (attemptsIn trace).map Attempt.message ++ waiting := by
  induction hrun with
  | start =>
      exact ⟨[], Uplink.carries_initial,
        ⟨by simp [attemptsIn], by simp [attemptsIn], List.Pairwise.nil, by simp [attemptsIn]⟩, rfl⟩
  | @step trace t _ hstep ih =>
      obtain ⟨waiting, hcarries, hoffered, hpushed⟩ := ih
      obtain ⟨s', output, waiting', hexec, hcarries', hmade, hcases⟩ := hcarries.exec hstep.1
      have hsame : (t.post, t.output) = (s', output) :=
        Option.some.inj (hstep.2.symm.trans hexec)
      obtain ⟨hpost, houtput⟩ := Prod.mk.inj hsame
      have hattempts : attemptsIn (trace ++ [t]) = attemptsIn trace ++ output.attempts := by
        rw [attemptsIn, List.flatMap_append, List.flatMap_singleton, houtput]
        rfl
      have hpushes : pushedIn (trace ++ [t]) = pushedIn trace ++ output.pushed := by
        rw [pushedIn, List.flatMap_append, List.flatMap_singleton, houtput]
        rfl
      rw [hattempts, hpushes, hpushed, hpost]
      refine ⟨waiting', hcarries', ?_⟩
      rcases hcases with ⟨hnone, rfl⟩ | ⟨first, taken, rfl, rfl, hsmall⟩
      · rw [hnone, List.append_nil]
        exact ⟨hoffered.mono hmade, List.append_assoc _ _ _⟩
      · refine ⟨(hoffered.concat hcarries.socket hsmall taken).mono hmade, ?_⟩
        rw [List.map_append, List.map_singleton, message_sendTo, List.append_nil]
        exact List.append_cons _ _ _

/-! ## What the server gets -/

/-- What gets through when no frame is cut short: the frames that were taken. -/
theorem wire_whole (hframes : ∀ a ∈ attempts, a.write.offered = encodeFrame a.message)
    (hwhole : ∀ a ∈ attempts, ¬ a.write.Short) :
    wire (attempts.map Attempt.write) =
      encodeAll ((attempts.filter fun a => decide (a.write.sent ≠ 0)).map Attempt.message) := by
  induction attempts with
  | nil => rfl
  | cons a attempts ih =>
      obtain ⟨hframe, hframes⟩ := List.forall_mem_cons.mp hframes
      obtain ⟨hnot, hwhole⟩ := List.forall_mem_cons.mp hwhole
      rw [List.map_cons, wire_cons, ih hframes hwhole]
      by_cases hzero : a.write.sent = 0
      · rw [Write.part_of_zero hzero, List.nil_append, List.filter_cons_of_neg (by simp [hzero])]
      · have hall : a.write.sent = a.write.offered.length := by
          rcases a.write.cases with hnone | hall | hshort
          · exact absurd hnone hzero
          · exact hall
          · exact absurd hshort hnot
        rw [Write.part_of_all hall, List.filter_cons_of_pos (by simp [hzero]), List.map_cons,
          hframe]
        rfl

/-- **Commands across reconnections.**  However the statements of callers, send thread, receive
thread and check thread are interleaved, a push and a pop being one step each and no slot of
the ring used twice, and whatever `send` takes of each frame, every command is offered to
`send` at most once, in the order of the pushes, as one whole frame: those offered, followed
by those that are in the ring and still to be offered, are those pushed.  The numbers of the
connections they are offered on never go back, and a command offered while the socket is
closed is lost.
On each connection the framing survives exactly if nothing gets through after a frame that
was cut short; and if none was, the server's codec finds there exactly the commands of which
`send` took something.  The send thread never meets a null buffer or leaves its array. -/
theorem commands_over_connections {trace : List (Transition Uplink UplinkEvent UplinkOutput)}
    (hrun : uplink.Run trace s) :
    pushedIn trace = (attemptsIn trace).map Attempt.message ++ s.unoffered ∧
      (∀ a ∈ attemptsIn trace, a.write.offered = encodeFrame a.message ∧
        (a.connection = none → a.write.sent = 0)) ∧
      ((attemptsIn trace).filterMap Attempt.connection).Pairwise (· ≤ ·) ∧
      (∀ k, FramingKept ((attemptsOn k trace).map Attempt.write)
          ((attemptsOn k trace).map Attempt.message) ↔
        QuietAfterShort ((attemptsOn k trace).map Attempt.write)) ∧
      (∀ k, (∀ a ∈ attemptsOn k trace, ¬ a.write.Short) →
        decode accepts (wire ((attemptsOn k trace).map Attempt.write)) =
          ⟨((attemptsOn k trace).filter fun a => decide (a.write.sent ≠ 0)).map Attempt.message,
            [], false⟩) ∧
      ∀ event, uplinkEnabled s event → (s.exec event).isSome = true := by
  obtain ⟨waiting, hcarries, hoffered, hpushed⟩ := uplink_run hrun
  have hon : ∀ k, ∀ a ∈ attemptsOn k trace,
      a.write.offered = encodeFrame a.message ∧ a.message.length ≤ 257 := by
    intro k a ha
    exact hoffered.frames a (List.mem_of_mem_filter ha)
  refine ⟨by rw [hcarries.unoffered_eq, hpushed], ?_, hoffered.onward, ?_, ?_, ?_⟩
  · intro a ha
    exact ⟨(hoffered.frames a ha).1, hoffered.nowhere a ha⟩
  · intro k
    refine framingKept_iff ?_ ?_ (List.Sublist.refl _)
    · rw [List.map_map, List.map_map]
      exact List.map_congr_left fun a ha => (hon k a ha).1
    · intro message hmem
      obtain ⟨a, ha, rfl⟩ := List.mem_map.mp hmem
      have hsmall := (hon k a ha).2
      omega
  · intro k hwhole
    rw [wire_whole (fun a ha => (hon k a ha).1) hwhole]
    apply decode_encodeAll
    intro message hmem
    obtain ⟨a, ha, rfl⟩ := List.mem_map.mp hmem
    have hsmall := (hon k a (List.mem_of_mem_filter ha)).2
    rw [accepts, decide_eq_true_iff]
    omega
  · intro event henabled
    obtain ⟨s', output, waiting', hexec, -⟩ := hcarries.exec henabled
    rw [hexec]
    rfl

/-- Three commands: one goes out, one is offered to the closed socket, and one goes out on the
next connection. -/
def reconnects : List UplinkEvent :=
  [.request true 1 0x01 [97], .push (.registerDevice, [0x01, 97], 2),
    .testEmpty, .testFlag, .frame, .send 6, .pop,
    .request true 1 0x03 [120], .request true 1 0x03 [121], .push (.sendData, [0x03, 120], 2),
    .testEmpty, .testFlag, .frame, .connectionLost, .close, .send 6, .pop,
    .startConnection true, .clearFlag, .push (.sendData, [0x03, 121], 2),
    .testEmpty, .testFlag, .frame, .send 6, .pop]

theorem reconnects_run : ∃ trace s, uplink.Run trace s ∧
    pushedIn trace = [[0x01, 97], [0x03, 120], [0x03, 121]] ∧ s.unoffered = [] ∧
    (∀ k ∈ [0, 1], ∀ a ∈ attemptsOn k trace, ¬ a.write.Short) ∧
    (∀ k ∈ [0, 1], ((attemptsOn k trace).filter fun a => decide (a.write.sent ≠ 0)).map
      Attempt.message = if k = 0 then [[0x01, 97]] else [[0x03, 121]]) := by
  have hreplay : (uplink.replay (fun s event => decide (uplinkEnabled s event)) reconnects
      .initial).any (fun s => decide (s.unoffered = [])) = true := by
    decide +kernel
  have hready : ∀ s event, decide (uplinkEnabled s event) = true → uplink.enabled s event := by
    intro s event h
    exact of_decide_eq_true (p := uplinkEnabled s event) h
  obtain ⟨s, hrun, -, hempty⟩ := Machine.Run.of_replay hready .start hreplay
  refine ⟨_, s, hrun, ?_, of_decide_eq_true hempty, ?_, ?_⟩
  · decide +kernel
  · unfold Write.Short
    decide +kernel
  · decide +kernel

/-- All three commands are offered, and the second is on neither connection. -/
theorem commands_over_connections_reconnects : ∃ trace s, uplink.Run trace s ∧
    (attemptsIn trace).map Attempt.message = [[0x01, 97], [0x03, 120], [0x03, 121]] ∧
    decode accepts (wire ((attemptsOn 0 trace).map Attempt.write)) = ⟨[[0x01, 97]], [], false⟩ ∧
    decode accepts (wire ((attemptsOn 1 trace).map Attempt.write)) =
      ⟨[[0x03, 121]], [], false⟩ := by
  obtain ⟨trace, s, hrun, hpushed, hempty, hwhole, htaken⟩ := reconnects_run
  obtain ⟨hoffered, -, -, -, hdecode, -⟩ := commands_over_connections hrun
  have hzero := hdecode 0 (hwhole 0 (by decide))
  have hone := hdecode 1 (hwhole 1 (by decide))
  rw [htaken 0 (by decide)] at hzero
  rw [htaken 1 (by decide)] at hone
  rw [hpushed, hempty, List.append_nil] at hoffered
  exact ⟨trace, s, hrun, hoffered.symm, hzero, hone⟩

end

end Interop
end StupidP2P
