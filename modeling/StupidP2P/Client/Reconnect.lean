import StupidP2P.Client.Limits
import StupidP2P.Foundation.Machine

/-!
# Frames across reconnections

`_stupid_p2p_recv_func` and `_stupid_p2p_check_net_func` run as two threads over one client
record.  The first reads from the socket and sets `need_to_restart_flag` when the connection
is lost; the second then closes the socket, connects again and clears the flag.  The receive
ring belongs to the record and not to the connection: it is not emptied, so what a connection
left of an incomplete frame becomes the front of what the next one delivers.

The server's side of a connection is the list of messages it sends there, and what is read
is a part of their encoding from the front.  A call of `recv` is two steps, since the check
thread may reconnect while the call is blocked.
-/

namespace StupidP2P
namespace Client

open Foundation
open Foundation.Framing

/-! ## The check thread -/

def heartBeatMax : Nat := 3

/-- `_stupid_p2p_check_net_func` after `start_connection` has succeeded. -/
def checkNetConnected (node : ClientNode) : ClientNode :=
  { node with
    needToRestartFlag := false
    commandStatus := { node.commandStatus with heartBeatNotReceiveNum := 0 } }

/-- The rest of a round, from the result of `need_to_send`.  The condition
`ret = STUPID_P2P_NET_ERROR` is an assignment, so every result but `STUPID_P2P_NO_ERROR`
counts as a heart beat not answered. -/
def checkNetHeartBeat (node : ClientNode) (ret : StupidP2PResult) : ClientNode :=
  let num :=
    match ret with
    | .noError => 0
    | _ => node.commandStatus.heartBeatNotReceiveNum + 1
  { node with
    needToRestartFlag := node.needToRestartFlag || decide (heartBeatMax ≤ num.toNat)
    commandStatus := { node.commandStatus with heartBeatNotReceiveNum := num } }

/-! ## The two threads -/

/-- The receive thread, the connection its blocked `recv` was called on, the number of the
present connection, and what was read from each connection.  There is no receive thread
any more after an index was out of bounds. -/
structure Session where
  receiver : Option Receiver
  reading : Option Nat
  connection : Nat
  received : Nat → List UInt8

inductive SessionEvent
  | recvCall
  | recvReturn (receipt : Receipt)
  | reconnect (connected : Bool)
  | heartBeat (ret : StupidP2PResult)

/-- What `recv` can give on a connection: bytes the server sent after those already
received, none at the end of the stream, or an error. -/
def Receipt.Possible (receipt : Receipt) (received : List UInt8) (sent : List (List UInt8)) :
    Prop :=
  (receipt.ret = receipt.bytes.length ∧ receipt.bytes.length ≤ 4096 ∧
    received ++ receipt.bytes <+: encodeAll sent) ∨
  (receipt.ret = -1 ∧ receipt.bytes = [])

instance (receipt : Receipt) (received : List UInt8) (sent : List (List UInt8)) :
    Decidable (receipt.Possible received sent) :=
  inferInstanceAs (Decidable (_ ∧ _ ∧ _ <+: _ ∨ _ ∧ _))

namespace Session

/-- Nothing was received yet on the first connection. -/
def start : Session := ⟨some .fresh, none, 0, fun _ => []⟩

def recvReturn (s : Session) (calloc : Calloc) (r : Receiver) (connection : Nat)
    (receipt : Receipt) : Session :=
  { s with
    receiver := afterRecv calloc r receipt
    reading := none
    received := Function.update s.received connection
      (s.received connection ++ receipt.bytes) }

def setNode (s : Session) (r : Receiver) (node : ClientNode) : Session :=
  { s with receiver := some { r with node := node } }

def exec (calloc : Calloc) (s : Session) (event : SessionEvent) : Option Session :=
  match s.receiver with
  | none => none
  | some r =>
      match event with
      | .recvCall => some { s with reading := some s.connection }
      | .recvReturn receipt =>
          match s.reading with
          | none => none
          | some connection => some (s.recvReturn calloc r connection receipt)
      | .reconnect true =>
          some { s.setNode r (checkNetConnected r.node) with connection := s.connection + 1 }
      | .reconnect false => some s
      | .heartBeat ret => some (s.setNode r (checkNetHeartBeat r.node ret))

end Session

/-- A client whose server sends `sent k` on the connection number `k`. -/
def sessionMachine (calloc : Calloc) (sent : Nat → List (List UInt8)) :
    Machine Session SessionEvent Unit where
  init := .start
  enabled s event :=
    match event with
    | .recvCall =>
        s.reading = none ∧ ∃ r ∈ s.receiver, r.node.needToRestartFlag = false
    | .recvReturn receipt =>
        ∃ connection ∈ s.reading, receipt.Possible (s.received connection) (sent connection)
    | .reconnect _ => ∃ r ∈ s.receiver, r.node.needToRestartFlag = true
    | .heartBeat _ => True
  exec s event := (s.exec calloc event).map fun next => (next, ())

instance (calloc : Calloc) (sent : Nat → List (List UInt8)) (s : Session) :
    (event : SessionEvent) → Decidable ((sessionMachine calloc sent).enabled s event)
  | .recvCall => inferInstanceAs (Decidable (_ ∧ ∃ r ∈ s.receiver, _))
  | .recvReturn _ => inferInstanceAs (Decidable (∃ connection ∈ s.reading, _))
  | .reconnect _ => inferInstanceAs (Decidable (∃ r ∈ s.receiver, _))
  | .heartBeat _ => isTrue trivial

/-- The frames whose last byte is among the bytes received. -/
def completeFrames (bytes : List UInt8) : List NetFrame :=
  (decode Server.LengthHeaderCodec.accepts bytes).frames.map fun body => ⟨body.length, body⟩

/-- No index was out of bounds, and what was executed is, connection by connection, what
was received completely. -/
def Session.FramesExact (s : Session) : Prop :=
  ∃ r, s.receiver = some r ∧
    r.executed = (List.range (s.connection + 1)).flatMap fun k => completeFrames (s.received k)

/-- The receive ring is empty when a new connection is made, a `recv` called on an earlier
connection brings no bytes, and no `recv` is interrupted by a signal. -/
def CutBetweenFrames (s : Session) : SessionEvent → Prop
  | .recvReturn receipt =>
      (receipt.ret < 0 → receipt.interrupted = false) ∧
        (receipt.bytes ≠ [] → s.reading = some s.connection)
  | .reconnect true => ∀ r ∈ s.receiver, r.node.recvFifo.length = 0
  | _ => True

instance (s : Session) : (event : SessionEvent) → Decidable (CutBetweenFrames s event)
  | .recvCall => isTrue trivial
  | .recvReturn _ => inferInstanceAs (Decidable (_ ∧ _))
  | .reconnect true => inferInstanceAs (Decidable (∀ r ∈ s.receiver, _))
  | .reconnect false => isTrue trivial
  | .heartBeat _ => isTrue trivial

/-! ## One step -/

theorem selfContained_sent {body : List UInt8} (hsent : Server.Sent body)
    (hfits : body.length ≤ 2048) : SelfContained body := by
  rcases hsent.callback_or_data with ⟨code, result, rfl⟩ | ⟨payload, rfl⟩
  · exact ⟨by simp, by simp, fun _ => by simp⟩
  · exact selfContained_data hfits

/-- What the server sends on a connection can be received. -/
def Receivable (bodies : List (List UInt8)) : Prop :=
  ∀ body ∈ bodies, Server.Sent body ∧ body.length ≤ 2048

section

variable {bodies : List (List UInt8)} {bytes : List UInt8}

theorem Receivable.decode_fits (h : Receivable bodies) (harrived : bytes <+: encodeAll bodies) :
    (decode fits bytes).stopped = false ∧
      ∀ body ∈ (decode fits bytes).frames, SelfContained body := by
  have hfits : ∀ body ∈ bodies, fits body.length = true ∧ body.length < 2147483648 := by
    intro body hbody
    have hle := (h body hbody).2
    constructor
    · simp only [fits, decide_eq_true_eq]
      omega
    · omega
  obtain ⟨hstopped, hframes⟩ := decode_arrived hfits harrived
  refine ⟨hstopped, ?_⟩
  intro body hbody
  obtain ⟨hsent, hle⟩ := h body (hframes.subset hbody)
  exact selfContained_sent hsent hle

theorem Receivable.completeFrames_eq (h : Receivable bodies)
    (harrived : bytes <+: encodeAll bodies) :
    completeFrames bytes = (decode fits bytes).frames.map fun body => ⟨body.length, body⟩ := by
  have hwider : ∀ len, fits len = true → Server.LengthHeaderCodec.accepts len = true := by
    intro len hlen
    simp only [fits, Server.LengthHeaderCodec.accepts, decide_eq_true_eq] at hlen ⊢
    omega
  rw [completeFrames, decode_wider hwider (h.decode_fits harrived).1]

end

namespace Session

/-- Between the steps the ring holds the incomplete frame of the present connection. -/
structure Framed (sent : Nat → List (List UInt8)) (s : Session) (r : Receiver) : Prop where
  receiver : s.receiver = some r
  ring : r.node.recvFifo.Holds (decode fits (s.received s.connection)).rest
  arrived : s.received s.connection <+: encodeAll (sent s.connection)
  later : ∀ k, s.connection < k → s.received k = []
  executed : r.executed =
    (List.range (s.connection + 1)).flatMap fun k => completeFrames (s.received k)

variable {calloc : Calloc} {sent : Nat → List (List UInt8)} {s : Session} {r : Receiver}

/-- A step that leaves the ring, the executed frames and the connection alone. -/
theorem Framed.same {s' : Session} {r' : Receiver} (h : s.Framed sent r)
    (hreceiver : s'.receiver = some r') (hfifo : r'.node.recvFifo = r.node.recvFifo)
    (hexecuted : r'.executed = r.executed) (hconnection : s'.connection = s.connection)
    (hreceived : s'.received = s.received) : s'.Framed sent r' where
  receiver := hreceiver
  ring := by
    rw [hfifo, hconnection, hreceived]
    exact h.ring
  arrived := by
    rw [hconnection, hreceived]
    exact h.arrived
  later := by
    rw [hconnection, hreceived]
    exact h.later
  executed := by
    rw [hexecuted, hconnection, hreceived]
    exact h.executed

/-- What is executed when more bytes arrive on the present connection. -/
theorem flatMap_update (connection : Nat) (received : Nat → List UInt8) (bytes : List UInt8) :
    (List.range (connection + 1)).flatMap
        (fun k => completeFrames (Function.update received connection bytes k)) =
      (List.range connection).flatMap (fun k => completeFrames (received k)) ++
        completeFrames bytes := by
  rw [List.range_succ, List.flatMap_append, List.flatMap_singleton, Function.update_self]
  congr 1
  refine List.flatMap_congr ?_
  intro k hk
  have hlt := List.mem_range.mp hk
  rw [Function.update_of_ne (by omega)]

theorem received_recvReturn (connection : Nat) (receipt : Receipt) :
    (s.recvReturn calloc r connection receipt).received connection =
      s.received connection ++ receipt.bytes :=
  Function.update_self _ _ _

/-- A `recv` without bytes is of no connection. -/
theorem recvReturn_nothing {receipt : Receipt} (hbytes : receipt.bytes = [])
    (connection : Nat) :
    s.recvReturn calloc r connection receipt =
      { s with receiver := afterRecv calloc r receipt, reading := none } := by
  unfold recvReturn
  rw [hbytes, List.append_nil, Function.update_eq_self]

/-- Bytes that arrive on the present connection. -/
theorem Framed.recvReturn_bytes {receipt : Receipt} (h : s.Framed sent r)
    (hsent : Receivable (sent s.connection)) (hret : receipt.ret = receipt.bytes.length)
    (hsmall : receipt.bytes.length ≤ 4096)
    (hgoes : 1 ≤ receipt.bytes.length ∨ receipt.interrupted = true)
    (harrived : s.received s.connection ++ receipt.bytes <+: encodeAll (sent s.connection)) :
    ∃ r', (s.recvReturn calloc r s.connection receipt).Framed sent r' := by
  have hbefore := hsent.decode_fits h.arrived
  have hafter := hsent.decode_fits harrived
  have happend := @decode_append fits (s.received s.connection) receipt.bytes
  rw [happend] at hafter
  obtain ⟨hstopped, hself⟩ := hafter
  have hqueue := @decode_rest fits (s.received s.connection)
  rw [hbefore.1] at hqueue
  obtain ⟨r', fifo, hframes, hleft, hrecv⟩ := @afterRecv_eq calloc r _ receipt h.ring hqueue
    hret hsmall hgoes hstopped (List.forall_mem_append.mp hself).2
  have hexecuted := (foldlM_execFrame_same (List.forall_mem_append.mp hself).2 hframes).1
  refine ⟨r'.setFifo fifo, hrecv, ?_, ?_, ?_, ?_⟩
  · change fifo.Holds
      (decode fits ((s.recvReturn calloc r s.connection receipt).received s.connection)).rest
    rw [received_recvReturn, happend]
    exact hleft
  · change (s.recvReturn calloc r s.connection receipt).received s.connection <+: _
    rw [received_recvReturn]
    exact harrived
  · intro k (hk : s.connection < k)
    change Function.update s.received s.connection _ k = []
    rw [Function.update_of_ne (Nat.ne_of_gt hk)]
    exact h.later k hk
  · change r'.executed = (List.range (s.connection + 1)).flatMap fun k =>
      completeFrames (Function.update s.received s.connection _ k)
    have hold := h.executed
    rw [List.range_succ, List.flatMap_append, List.flatMap_singleton] at hold
    rw [flatMap_update, hexecuted, hold, hsent.completeFrames_eq h.arrived,
      hsent.completeFrames_eq harrived, happend, List.map_append, List.append_assoc]

/-- `recv` returns on the connection it was called on. -/
theorem Framed.recvReturn {receipt : Receipt} {connection : Nat} (h : s.Framed sent r)
    (hsent : Receivable (sent s.connection)) (hreading : s.reading = some connection)
    (hpossible : receipt.Possible (s.received connection) (sent connection))
    (hcond : CutBetweenFrames s (.recvReturn receipt)) :
    ∃ r', (s.recvReturn calloc r connection receipt).Framed sent r' := by
  obtain ⟨hsignal, hpresent⟩ := hcond
  rcases hpossible with ⟨hret, hsmall, harrived⟩ | ⟨hret, hbytes⟩
  · by_cases hbytes : receipt.bytes = []
    · rw [recvReturn_nothing hbytes]
      cases hinterrupted : receipt.interrupted with
      | false =>
          -- The end of the stream.
          have hlost : afterRecv calloc r receipt = some r.askRestart := by
            refine if_pos ⟨?_, hinterrupted⟩
            rw [hret, hbytes]
            exact le_rfl
          exact ⟨_, h.same hlost rfl rfl rfl rfl⟩
      | true =>
          -- `errno` is still `EINTR` from before: the parser runs again on the same ring.
          rw [← recvReturn_nothing hbytes s.connection]
          refine h.recvReturn_bytes hsent hret hsmall (Or.inr hinterrupted) ?_
          rw [hbytes, List.append_nil]
          exact h.arrived
    · obtain rfl : connection = s.connection :=
        Option.some.inj (hreading.symm.trans (hpresent hbytes))
      have hne := List.length_pos_of_ne_nil hbytes
      exact h.recvReturn_bytes hsent hret hsmall (Or.inl hne) harrived
  · rw [recvReturn_nothing hbytes]
    have hlost : afterRecv calloc r receipt = some r.askRestart :=
      if_pos ⟨by omega, hsignal (by omega)⟩
    exact ⟨_, h.same hlost rfl rfl rfl rfl⟩

/-- A new connection is made while the ring is empty. -/
theorem Framed.reconnect (h : s.Framed sent r) (hempty : r.node.recvFifo.length = 0) :
    Framed sent { s.setNode r (checkNetConnected r.node) with connection := s.connection + 1 }
      { r with node := checkNetConnected r.node } := by
  have hnew : s.received (s.connection + 1) = [] := h.later _ (Nat.lt_succ_self _)
  have hrest : (decode fits (s.received s.connection)).rest = [] := by
    have hlength := h.ring.length_eq
    rw [hempty] at hlength
    exact List.eq_nil_of_length_eq_zero (by omega)
  refine ⟨rfl, ?_, ?_, ?_, ?_⟩
  · change r.node.recvFifo.Holds (decode fits (s.received (s.connection + 1))).rest
    rw [hnew, decode_of_short rfl, ← hrest]
    exact h.ring
  · change s.received (s.connection + 1) <+: _
    rw [hnew]
    exact List.nil_prefix
  · intro k hk
    exact h.later k (Nat.lt_of_succ_lt hk)
  · change r.executed = (List.range (s.connection + 1 + 1)).flatMap fun k =>
      completeFrames (s.received k)
    rw [List.range_succ, List.flatMap_append, List.flatMap_singleton, hnew, completeFrames,
      decode_of_short rfl, List.map_nil, List.append_nil]
    exact h.executed

/-- **One step.**  A step that meets the condition keeps the frames of the connections
apart. -/
theorem Framed.step {t : Transition Session SessionEvent Unit}
    (hsent : ∀ k, Receivable (sent k)) (hstep : (sessionMachine calloc sent).Step t)
    (h : ∃ r, t.pre.Framed sent r) (hcond : CutBetweenFrames t.pre t.event) :
    ∃ r, t.post.Framed sent r := by
  have hnext := hstep.of_map fun _ _ => rfl
  have henabled := hstep.1
  obtain ⟨pre, event, output, post⟩ := t
  obtain ⟨r, hframed⟩ := h
  dsimp only at hframed henabled hnext hcond ⊢
  rw [exec, hframed.receiver] at hnext
  cases event with
  | recvCall =>
      obtain rfl := Option.some.inj hnext
      exact ⟨r, hframed.same rfl rfl rfl rfl rfl⟩
  | recvReturn receipt =>
      obtain ⟨connection, hreading, hpossible⟩ := henabled
      rw [hreading] at hnext
      obtain rfl := Option.some.inj hnext
      exact hframed.recvReturn (hsent _) hreading hpossible hcond
  | reconnect connected =>
      cases connected with
      | true =>
          obtain rfl := Option.some.inj hnext
          exact ⟨_, hframed.reconnect (hcond r hframed.receiver)⟩
      | false =>
          obtain rfl := Option.some.inj hnext
          exact ⟨r, hframed⟩
  | heartBeat ret =>
      obtain rfl := Option.some.inj hnext
      exact ⟨_, hframed.same rfl rfl rfl rfl rfl⟩

end Session

/-! ## Runs -/

/-- The answer to a registration on the first connection, to a subscription on the next. -/
def twoAnswers (k : Nat) : List (List UInt8) :=
  if k = 0 then [[0x81, 0x01]] else [[0x82, 0x00]]

theorem receivable_twoAnswers (k : Nat) : Receivable (twoAnswers k) := by
  intro body hbody
  unfold twoAnswers at hbody
  split at hbody
  · obtain rfl := List.mem_singleton.mp hbody
    exact ⟨⟨.initial, _, 0, [0x01], 0, _, 0, rfl, List.mem_singleton.mpr rfl⟩, by decide⟩
  · obtain rfl := List.mem_singleton.mp hbody
    exact ⟨⟨.initial, _, 0, [0x02], 0, _, 0, rfl, List.mem_singleton.mpr rfl⟩, by decide⟩

/-- **Frames across reconnections.**  If the server sends no message of more than 2048 bytes
and every step of a run meets the condition, then in every state of the run what was
executed is, connection by connection, what was received completely. -/
theorem frames_exact_across_reconnections {calloc : Calloc} {sent : Nat → List (List UInt8)}
    {trace : List (Transition Session SessionEvent Unit)} {s : Session}
    (hsent : ∀ k, Receivable (sent k)) (hrun : (sessionMachine calloc sent).Run trace s)
    (hcond : ∀ t ∈ trace, CutBetweenFrames t.pre t.event) :
    ∀ σ ∈ (sessionMachine calloc sent).visited trace, σ.FramesExact := by
  have hinit : ∃ r, (sessionMachine calloc sent).init.Framed sent r := by
    have hdecode : ∀ admits, decode admits [] = ⟨[], [], false⟩ :=
      fun admits => decode_of_short rfl
    refine ⟨.fresh, rfl, ?_, List.nil_prefix, fun _ _ => rfl, ?_⟩
    · change Receiver.fresh.node.recvFifo.Holds (decode fits []).rest
      rw [hdecode]
      exact RecvDataFifo.holds_init _
    · change [] = completeFrames [] ++ []
      rw [completeFrames, hdecode]
      rfl
  intro σ hσ
  obtain ⟨r, hframed⟩ := hrun.conditional_visited (fun σ => ∃ r, σ.Framed sent r)
    CutBetweenFrames hinit
    (fun _ hstep _ hpre hmeets => Session.Framed.step hsent hstep hpre hmeets) hcond σ hσ
  exact ⟨r, hframed.receiver, hframed.executed⟩

/-- A run in which the first connection is lost after so many bytes of its answer, and the
answer on the second connection is received. -/
def losesConnectionAfter (bytes : List UInt8) : List SessionEvent :=
  [.recvCall, .recvReturn (.chunk bytes), .recvCall, .recvReturn ⟨0, [], false⟩,
    .reconnect true, .recvCall, .recvReturn (.chunk [0, 0, 0, 2, 0x82, 0x00])]

theorem frames_exact_two_connections :
    ∃ trace s, (sessionMachine (fun _ _ => true) twoAnswers).Run trace s ∧
      trace.map Transition.event = losesConnectionAfter [0, 0, 0, 2, 0x81, 0x01] ∧
      s.receiver.map (fun r => r.executed) = some [⟨2, [0x81, 0x01]⟩, ⟨2, [0x82, 0x00]⟩] ∧
      ∀ σ ∈ (sessionMachine (fun _ _ => true) twoAnswers).visited trace, σ.FramesExact := by
  have hreplay : ∃ s, (sessionMachine (fun _ _ => true) twoAnswers).replay
      (fun s event => decide ((sessionMachine (fun _ _ => true) twoAnswers).enabled s event ∧
        CutBetweenFrames s event))
      (losesConnectionAfter [0, 0, 0, 2, 0x81, 0x01]) .start = some s ∧
      s.receiver.map (fun r => r.executed) =
        some [⟨2, [0x81, 0x01]⟩, ⟨2, [0x82, 0x00]⟩] := ⟨_, rfl, rfl⟩
  obtain ⟨s, hs, hexecuted⟩ := hreplay
  obtain ⟨trace, hrun, hevents, hguards⟩ :=
    Machine.Run.replay (fun _ _ hready => (of_decide_eq_true hready).1) .start hs
  refine ⟨trace, s, hrun, hevents, hexecuted, ?_⟩
  exact frames_exact_across_reconnections receivable_twoAnswers hrun
    (fun t ht => (of_decide_eq_true (hguards t ht)).2)

/-- The first connection is lost before the last byte of its frame: the client then takes
the first byte of the second connection for it. -/
theorem frames_mixed_after_reconnection :
    (∀ k, Receivable (twoAnswers k)) ∧
      ∃ s, (sessionMachine (fun _ _ => true) twoAnswers).Reachable s ∧
        s.receiver.map (fun r => r.executed) = some [⟨2, [0x81, 0x00]⟩] ∧ ¬ s.FramesExact := by
  refine ⟨receivable_twoAnswers, ?_⟩
  have hreplay : ∃ s, (sessionMachine (fun _ _ => true) twoAnswers).replay
      (fun s event => decide ((sessionMachine (fun _ _ => true) twoAnswers).enabled s event))
      (losesConnectionAfter [0, 0, 0, 2, 0x81]) .start = some s ∧
      s.receiver.map (fun r => r.executed) = some [⟨2, [0x81, 0x00]⟩] ∧
      s.connection = 1 ∧ s.received 0 = [0, 0, 0, 2, 0x81] ∧
      s.received 1 = [0, 0, 0, 2, 0x82, 0x00] := ⟨_, rfl, rfl, rfl, rfl, rfl⟩
  obtain ⟨s, hs, hexecuted, hconnection, hfirst, hsecond⟩ := hreplay
  refine ⟨s, Machine.Reachable.replay (fun _ _ => of_decide_eq_true) ⟨[], .start⟩ hs,
    hexecuted, ?_⟩
  have hvalue : headerValue 0 0 0 2 = 2 := by decide
  have hshort : completeFrames [0, 0, 0, 2, 0x81] = [] := by
    have hhead := @head_cons Server.LengthHeaderCodec.accepts 0 0 0 2 [0x81]
    rw [hvalue] at hhead
    rw [completeFrames, decode_of_short hhead]
    rfl
  have hwhole : completeFrames [0, 0, 0, 2, 0x82, 0x00] = [⟨2, [0x82, 0x00]⟩] := by
    have hhead := @head_cons Server.LengthHeaderCodec.accepts 0 0 0 2 [0x82, 0x00]
    rw [hvalue] at hhead
    rw [completeFrames, decode_of_frame hhead, decode_of_short rfl]
    rfl
  rintro ⟨r, hr, hexact⟩
  rw [hr] at hexecuted
  have hmixed : r.executed = [⟨2, [0x81, 0x00]⟩] := Option.some.inj hexecuted
  have hframes : (List.range (1 + 1)).flatMap (fun k => completeFrames (s.received k)) =
      completeFrames (s.received 0) ++ (completeFrames (s.received 1) ++ []) := rfl
  rw [hconnection, hframes, hfirst, hsecond, hshort, hwhole, hmixed] at hexact
  exact absurd hexact (by decide)

end Client
end StupidP2P
