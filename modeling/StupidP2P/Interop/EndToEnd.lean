import StupidP2P.Interop.Wiring

/-!
# From the caller at one end to the application at the other

The system refines the server: in every state it reaches, the server has made a run of its
own machine in which the messages taken from each connection are the first messages that
its client accepted, and the frames written to each connection are those the client reads.
What was proved of the runs of the server alone therefore holds with clients, threads, byte
streams and a network around it:

* what a client has stored for its application is made up of payloads that other
  applications sent; those of one sender are in order, unaltered and stored at most once;
* the callbacks a client has read answer its commands, one each and in order;
* no step of a client is undefined, but for a call of `stupid_p2p_recv_data` that finds more
  messages than its array has room for.
-/

namespace StupidP2P
namespace Interop

open Foundation
open Foundation.Framing
open Server (P2PServer Conn Message CodecSend ProtocolCode Frame dataPayloads isData
  isCallback Answers messagesOf writtenTo messageOf writtenBy deliveries
  LengthHeaderCodec.accepts)

section

variable {setting : Setting} {w w' : World} {conn : Conn}
variable {trace : List (Transition P2PServer Server.Event (List CodecSend))}

/-! ## A run with two clients -/

/-- Connection 1 has a Python client, every other connection a C client. -/
def mixed : Setting where
  idleSeconds := 300
  usesPython := fun conn => decide (conn = 1)
  calloc := fun _ _ _ => true
  consumed := fun _ _ => 0

/-- The guard of the system, for the events of the run below. -/
def worldReady (w : World) : WorldEvent → Bool
  | .up conn _ => decide (w.server.state conn = .kConnecting)
  | .read conn count _ =>
      w.server.live conn && decide (1 ≤ count ∧ count ≤ (w.toServer conn).length)
  | .call conn _ fd command data =>
      (match w.peer conn with
        | .c receiver _ _ => decide receiver.node.sendFifo.HasUnusedSlot
        | .python _ => false) &&
        decide (0 < fd ∧ (Client.commandCode command).isSome = true ∧ data.length ≤ 256)
  | .transmit conn =>
      match w.peer conn with
      | .c _ _ _ => true
      | .python _ => false
  | .command conn _ data env =>
      (match w.peer conn with
        | .c _ _ _ => false
        | .python _ => true) &&
        decide (data.length < 2048 ∧ (env.sock = .error ∨ env.sock = .sent (data.length + 5)))
  | .recv conn count =>
      decide (1 ≤ count ∧ count ≤ (w.toClient conn).length ∧ count ≤ (w.peer conn).recvLimit)
  | .recvDataCall conn =>
      match w.peer conn with
      | .c _ _ reader => reader.dataBuf.isNone
      | .python _ => false
  | .recvDataRound conn =>
      match w.peer conn with
      | .c _ _ reader => reader.dataBuf.isSome
      | .python _ => false
  | .down _ => false
  | .timer _ _ => false

theorem enabled_of_worldReady {event : WorldEvent} (h : worldReady w event = true) :
    networkEnabled w event := by
  cases event with
  | up c now =>
      rw [worldReady, decide_eq_true_iff] at h
      exact h
  | down c => exact absurd h Bool.false_ne_true
  | timer now lock => exact absurd h Bool.false_ne_true
  | read c count time =>
      rw [worldReady, Bool.and_eq_true, decide_eq_true_iff] at h
      exact h
  | call c malloc fd command data =>
      rw [worldReady, Bool.and_eq_true, decide_eq_true_iff] at h
      obtain ⟨hroom, hrest⟩ := h
      cases hpeer : w.peer c with
      | c receiver buf reader =>
          rw [hpeer] at hroom
          exact ⟨⟨receiver, buf, reader, hpeer, of_decide_eq_true hroom⟩, hrest⟩
      | python client =>
          rw [hpeer] at hroom
          exact absurd hroom Bool.false_ne_true
  | transmit c =>
      rw [worldReady] at h
      cases hpeer : w.peer c with
      | c receiver buf reader => exact ⟨receiver, buf, reader, hpeer⟩
      | python client =>
          rw [hpeer] at h
          exact absurd h Bool.false_ne_true
  | command c code data env =>
      rw [worldReady, Bool.and_eq_true, decide_eq_true_iff] at h
      obtain ⟨hpython, hrest⟩ := h
      cases hpeer : w.peer c with
      | c receiver buf reader =>
          rw [hpeer] at hpython
          exact absurd hpython Bool.false_ne_true
      | python client => exact ⟨⟨client, hpeer⟩, hrest⟩
  | recv c count =>
      rw [worldReady, decide_eq_true_iff] at h
      exact h
  | recvDataCall c =>
      rw [worldReady] at h
      cases hpeer : w.peer c with
      | c receiver buf reader =>
          rw [hpeer] at h
          exact ⟨receiver, buf, reader, hpeer, Option.isNone_iff_eq_none.mp h⟩
      | python client =>
          rw [hpeer] at h
          exact absurd h Bool.false_ne_true
  | recvDataRound c =>
      rw [worldReady] at h
      cases hpeer : w.peer c with
      | c receiver buf reader =>
          rw [hpeer] at h
          exact ⟨receiver, buf, reader, hpeer, Option.isSome_iff_ne_none.mp h⟩
      | python client =>
          rw [hpeer] at h
          exact absurd h Bool.false_ne_true

/-- A C client registers as `"a"`, a Python client subscribes, and the C client sends `"x"`.
The server reads the data in two pieces, and so does the Python client what comes of it. -/
def sendsX : List WorldEvent :=
  [.up 0 0, .up 1 0,
    .call 0 true 1 0x01 [97], .transmit 0, .read 0 6 0,
    .command 1 .subscribeDevice [97] ⟨.sent 6, fun _ => 0⟩, .read 1 6 0, .recv 1 6,
    .call 0 true 1 0x03 [120], .transmit 0, .read 0 3 0, .read 0 3 0,
    .recv 1 5, .recv 1 1]

/-- The run is made, and its end is this. -/
theorem sendsX_reached :
    ∃ w, (network mixed).Reachable w ∧ (w.peer 1).stored = [[120]] ∧
      w.accepted 0 = [[0x01, 97], [0x03, 120]] ∧ w.accepted 1 = [[0x02, 97]] ∧
      w.arrived 1 = [0, 0, 0, 2, 0x82, 1, 0, 0, 0, 2, 0x03, 120] ∧ w.toServer 0 = [] ∧
      (w.peer 0).waiting = 0 ∧ w.server.live 0 = true := by
  have hreplay : ((network mixed).replay worldReady sendsX (World.initial mixed)).any
      (fun w => decide ((w.peer 1).stored = [[120]]) &&
        (decide (w.accepted 0 = [[0x01, 97], [0x03, 120]]) &&
        (decide (w.accepted 1 = [[0x02, 97]]) &&
        (decide (w.arrived 1 = [0, 0, 0, 2, 0x82, 1, 0, 0, 0, 2, 0x03, 120]) &&
        (decide (w.toServer 0 = []) &&
        (decide ((w.peer 0).waiting = 0) && w.server.live 0)))))) = true := by
    decide +kernel
  obtain ⟨w, hrun, -, hend⟩ := Machine.Run.of_replay
    (fun _ _ hready => enabled_of_worldReady hready) .start hreplay
  simp only [Bool.and_eq_true, decide_eq_true_iff] at hend
  exact ⟨w, ⟨_, hrun⟩, hend⟩

/-! ## What holds in every state -/

/-- What has arrived at a client decodes to the first of the frames written to it. -/
theorem Wired.arrived_first (h : Wired setting w trace conn)
    (hframes : ∀ message ∈ writtenTo conn trace, Relayed message) :
    (decode LengthHeaderCodec.accepts (w.arrived conn)).frames <+: writtenTo conn trace :=
  (decode_relayed hframes ⟨_, h.way_down⟩).2.2.2

/-- The payloads at a client are among those of the frames that have arrived. -/
theorem Wired.stored_sublist (h : Wired setting w trace conn) :
    (w.peer conn).stored.Sublist
      (dataPayloads (decode LengthHeaderCodec.accepts (w.arrived conn)).frames) := by
  have hreads := h.reads
  cases hpeer : w.peer conn with
  | c receiver buf reader =>
      rw [hpeer] at hreads
      exact hreads.2.2.1
  | python client =>
      rw [hpeer] at hreads
      exact hreads.2

/-- Once everything on the way up has been read, the server has taken all messages. -/
theorem Wired.messagesOf_all (h : Wired setting w trace conn)
    (hwaiting : (w.peer conn).waiting = 0) (hempty : w.toServer conn = []) :
    messagesOf conn trace = w.accepted conn ∧ (w.inputBuffer conn).contents = [] := by
  obtain ⟨sent, pending, read, haccepted, hcarries, hdecode⟩ := h.way_up
  rw [hcarries.waiting_eq, List.length_eq_zero_iff] at hwaiting
  have hread : read = encodeAll sent := by
    have hbytes := hcarries.bytes_eq
    rwa [hempty, List.append_nil] at hbytes
  have hall := @decode_encodeAll LengthHeaderCodec.accepts sent (by
    intro message hmem
    have hsmall := hcarries.small message hmem
    rw [LengthHeaderCodec.accepts, decide_eq_true_iff]
    omega)
  rw [← hread, hdecode, Decoding.mk.injEq] at hall
  rw [haccepted, hwaiting, List.append_nil]
  exact ⟨hall.1, hall.2.1⟩

/-- Once everything on the way down has been read, all frames have arrived. -/
theorem Wired.arrived_all (h : Wired setting w trace conn)
    (hframes : ∀ message ∈ writtenTo conn trace, Relayed message)
    (hempty : w.toClient conn = []) :
    (decode LengthHeaderCodec.accepts (w.arrived conn)).frames = writtenTo conn trace := by
  have harrived : w.arrived conn = encodeAll (writtenTo conn trace) := by
    have hdown := h.way_down
    rwa [hempty, List.append_nil] at hdown
  rw [harrived, decode_encodeAll]
  intro message hmem
  obtain ⟨frame, hframe, hlimit⟩ := hframes message hmem
  rw [LengthHeaderCodec.accepts, decide_eq_true_iff]
  omega

/-- A C client with memory has stored all the payloads that have arrived. -/
theorem Wired.stored_all (h : Wired setting w trace conn)
    (hcalloc : ∀ k size, setting.calloc conn k size = true) {receiver : Client.Receiver}
    {buf : Nat → UInt8} {reader : Reader}
    (hpeer : w.peer conn = .c receiver buf reader) :
    (w.peer conn).stored =
      dataPayloads (decode LengthHeaderCodec.accepts (w.arrived conn)).frames := by
  have hreads := h.reads
  rw [hpeer] at hreads ⊢
  exact hreads.2.2.2.1 hcalloc

/-- **The system refines the server.**  In every state the system reaches, the server has
made a run of its own in which it took from each connection the first messages that the
client there accepted, and all of them when none waits in the client or in the network.
What each client has decoded are the first frames written to it in that run, and all of
them when none is under way; what it has stored for its application are payloads of these,
in order, and all of them at a C client that gets the memory it asks for. -/
theorem system_refines_server (hreach : (network setting).Reachable w) :
    ∃ trace, (Server.machine setting.idleSeconds).Run trace w.server ∧
      (∀ p, messagesOf p trace <+: w.accepted p ∧
        ((w.peer p).waiting = 0 → w.toServer p = [] →
          messagesOf p trace = w.accepted p ∧ (w.inputBuffer p).contents = [])) ∧
      ∀ s, (decode LengthHeaderCodec.accepts (w.arrived s)).frames <+: writtenTo s trace ∧
        (w.toClient s = [] →
          (decode LengthHeaderCodec.accepts (w.arrived s)).frames = writtenTo s trace) ∧
        (w.peer s).stored.Sublist
          (dataPayloads (decode LengthHeaderCodec.accepts (w.arrived s)).frames) ∧
        ((∀ k size, setting.calloc s k size = true) →
          (∃ receiver buf reader, w.peer s = .c receiver buf reader) →
          (w.peer s).stored =
            dataPayloads (decode LengthHeaderCodec.accepts (w.arrived s)).frames) := by
  obtain ⟨trace, hrun, hwired⟩ := reachable_refines hreach
  refine ⟨trace, hrun, ?_, ?_⟩
  · intro p
    exact ⟨(hwired p).messagesOf_first.1, (hwired p).messagesOf_all⟩
  · intro s
    have hframes := relayed_of_wired hrun hwired s
    refine ⟨(hwired s).arrived_first hframes, (hwired s).arrived_all hframes,
      (hwired s).stored_sublist, ?_⟩
    rintro hcalloc ⟨receiver, buf, reader, hpeer⟩
    exact (hwired s).stored_all hcalloc hpeer

/-- When `"x"` has been sent, nothing waits on the way up, so the server has taken both
messages of the sender. -/
theorem system_refines_server_sendsX :
    ∃ w, (network mixed).Reachable w ∧ ∃ trace, (Server.machine 300).Run trace w.server ∧
      messagesOf 0 trace = [[0x01, 97], [0x03, 120]] := by
  obtain ⟨w, hreach, -, haccepted, -, -, hempty, hwaiting, -⟩ := sendsX_reached
  obtain ⟨trace, hrun, hup, -⟩ := system_refines_server hreach
  refine ⟨w, hreach, trace, hrun, ?_⟩
  rw [((hup 0).2 hwaiting hempty).1, haccepted]

/-- **From application to application.**  In every state the system reaches, what a client has
stored for its application are payloads of which each comes from one connection; those from
one connection are a subsequence of what was accepted from the callers there: unaltered,
in order, and each at most once. -/
theorem payloads_end_to_end (hreach : (network setting).Reachable w) (s : Conn) :
    ∃ origins : List (Conn × List UInt8), origins.map Prod.snd = (w.peer s).stored ∧
      ∀ p, ((origins.filter fun origin => decide (origin.1 = p)).map Prod.snd).Sublist
        (dataPayloads (w.accepted p)) := by
  obtain ⟨trace, hrun, hwired⟩ := reachable_refines hreach
  obtain ⟨hall, horigin⟩ := Server.deliveries_exact hrun s
  -- The payloads written to the client, each with the connection it came from.
  have hwritten : (w.peer s).stored.Sublist
      (((deliveries s trace).map fun d => (d.1, d.2.drop 1)).map Prod.snd) := by
    have hpayloads : ((deliveries s trace).map fun d => (d.1, d.2.drop 1)).map Prod.snd =
        dataPayloads (writtenTo s trace) := by
      rw [dataPayloads, ← hall, List.map_map, List.map_map]
      rfl
    rw [hpayloads]
    refine (hwired s).stored_sublist.trans ?_
    exact (((hwired s).arrived_first (relayed_of_wired hrun hwired s)).sublist.filter _).map _
  obtain ⟨origins, hsub, hstored⟩ := List.sublist_map_iff.mp hwritten
  refine ⟨origins, hstored.symm, ?_⟩
  intro p
  have hkept : ((origins.filter fun origin => decide (origin.1 = p)).map Prod.snd).Sublist
      ((((deliveries s trace).map fun d => (d.1, d.2.drop 1)).filter
        fun origin => decide (origin.1 = p)).map Prod.snd) := (hsub.filter _).map _
  have htagged : (((deliveries s trace).map fun d => (d.1, d.2.drop 1)).filter
      fun origin => decide (origin.1 = p)).map Prod.snd =
        (((deliveries s trace).filter fun d => decide (d.1 = p)).map Prod.snd).map
          (List.drop 1) := by
    rw [List.filter_map, List.map_map, List.map_map]
    rfl
  rw [htagged] at hkept
  refine hkept.trans (((horigin p).map _).trans ?_)
  exact ((hwired p).messagesOf_first.1.sublist.filter _).map _

/-- The Python client has `"x"`, which the C client was asked to send. -/
theorem payloads_end_to_end_sendsX :
    ∃ w, (network mixed).Reachable w ∧ (w.peer 1).stored = [[120]] ∧
      ∃ origins : List (Conn × List UInt8), origins.map Prod.snd = [[120]] ∧
        ∀ p, ((origins.filter fun origin => decide (origin.1 = p)).map Prod.snd).Sublist
          (dataPayloads (w.accepted p)) := by
  obtain ⟨w, hreach, hstored, -⟩ := sendsX_reached
  obtain ⟨origins, hall, horigin⟩ := payloads_end_to_end hreach 1
  exact ⟨w, hreach, hstored, origins, hall.trans hstored, horigin⟩

/-- A relation to the first values of a function is one to the first arguments. -/
theorem forall₂_of_filterMap {α β γ : Type} {f : α → Option β} {R : β → γ → Prop}
    {xs : List α} {ys : List β} {zs : List γ} (hknown : ∀ x ∈ xs, (f x).isSome = true)
    (hfirst : ys <+: xs.filterMap f) (h : List.Forall₂ R ys zs) :
    List.Forall₂ (fun x z => ∃ y, f x = some y ∧ R y z) (xs.take zs.length) zs := by
  induction xs generalizing ys zs with
  | nil =>
      obtain rfl := List.prefix_nil.mp hfirst
      cases h
      exact .nil
  | cons x xs ih =>
      obtain ⟨hx, hxs⟩ := List.forall_mem_cons.mp hknown
      obtain ⟨y, hy⟩ := Option.isSome_iff_exists.mp hx
      rw [List.filterMap_cons_some hy] at hfirst
      cases h with
      | nil => exact .nil
      | cons hrelated hlater =>
          obtain ⟨rfl, hothers⟩ := List.cons_prefix_cons.mp hfirst
          rw [List.length_cons, List.take_succ_cons]
          exact .cons ⟨_, hy, hrelated⟩ (ih hxs hothers hlater)

/-- **Callbacks end to end.**  In every state the system reaches, the callbacks that have
arrived at a client answer its commands: the first callback the first message that was
accepted, and so on, with no callback missing, repeated or out of order. -/
theorem callbacks_end_to_end (hreach : (network setting).Reachable w) (s : Conn) :
    List.Forall₂ (fun message frame => ∃ code, ProtocolCode.ofByte (message.headD 0) = some code ∧
        Answers code frame)
      ((w.accepted s).take
        ((decode LengthHeaderCodec.accepts (w.arrived s)).frames.filter isCallback).length)
      ((decode LengthHeaderCodec.accepts (w.arrived s)).frames.filter isCallback) := by
  obtain ⟨trace, hrun, hwired⟩ := reachable_refines hreach
  obtain ⟨requests, hfirst, hanswers⟩ := Server.callbacks_written hrun s
    ((hwired s).arrived_first (relayed_of_wired hrun hwired s))
  refine forall₂_of_filterMap (hwired s).known ?_ hanswers
  rw [Server.requestsOf_eq] at hfirst
  exact hfirst.trans ((hwired s).messagesOf_first.1.filterMap _)

/-- The Python client has the answer to its SUBSCRIBE. -/
theorem callbacks_end_to_end_sendsX :
    ∃ w, (network mixed).Reachable w ∧ w.accepted 1 = [[0x02, 97]] ∧
      List.Forall₂ (fun message frame => ∃ code,
        ProtocolCode.ofByte (message.headD 0) = some code ∧ Answers code frame)
        [[0x02, 97]] [[0x82, 1]] := by
  obtain ⟨w, hreach, -, -, haccepted, harrived, -⟩ := sendsX_reached
  refine ⟨w, hreach, haccepted, ?_⟩
  have hcallbacks := callbacks_end_to_end hreach 1
  have hdecode : decode LengthHeaderCodec.accepts (w.arrived 1) =
      ⟨[[0x82, 1], [0x03, 120]], [], false⟩ := by
    rw [harrived]
    exact @decode_encodeAll LengthHeaderCodec.accepts [[0x82, 1], [0x03, 120]] (by decide)
  rw [hdecode, haccepted] at hcallbacks
  exact hcallbacks

/-! ## Where a step is undefined -/

/-- A read of the server brings a SEND_DATA whose receivers are not all connected when it is
handled. -/
def ReadsUndefined (w : World) : WorldEvent → Prop
  | .read conn count time =>
      MeetsClosedReceiverIn conn time ⟨w.server, w.toClient⟩ (w.complete conn count)
  | _ => False

/-- What a read of the server does, if it is defined. -/
theorem serverRead_eq_some (hreach : (network setting).Reachable w) {count : Nat} {time : Int}
    (hlive : w.server.live conn = true) :
    (ReadsUndefined w (.read conn count time) ∧ w.serverRead conn count time = none) ∨
      ¬ ReadsUndefined w (.read conn count time) ∧
      ∃ w', w.serverRead conn count time = some w' ∧ w'.peer = w.peer ∧
        (∀ c, w'.server.live c = w.server.live c) ∧
        w'.toServer = Function.update w.toServer conn ((w.toServer conn).drop count) := by
  obtain ⟨trace, hrun, hwired⟩ := reachable_refines hreach
  obtain ⟨frames, buffer, rfl, hread, -⟩ :=
    @serverRead_eq setting w conn trace count time (hwired conn)
  have hnone := @foldl_handle_eq_none_iff setting.idleSeconds conn time (w.complete conn count)
    trace ⟨w.server, w.toClient⟩ hrun hlive
  cases hserved : (w.complete conn count).foldl (handle conn time)
      (some ⟨w.server, w.toClient⟩) with
  | none =>
      rw [hserved, Option.map_none] at hread
      exact Or.inl ⟨hnone.mp hserved, hread⟩
  | some served =>
      rw [hserved, Option.map_some] at hread
      obtain ⟨more, -, hstays, -⟩ := foldl_handle_run hrun hlive hserved
      refine Or.inr ⟨?_, _, hread, rfl, hstays, rfl⟩
      intro hundefined
      rw [hnone.mpr hundefined] at hserved
      exact absurd hserved (by simp)

/-- **Where the system is defined.**  In any state it reaches, only two steps are undefined: a
read of the server, exactly if `sendDataFunc` meets a receiver that is not connected, and a
round of `stupid_p2p_recv_data`, exactly if it finds a message when its call has taken 1024.
No ring is read or written out of its bounds, and no parser leaves its array or its deque. -/
theorem system_defined (hreach : (network setting).Reachable w) {event : WorldEvent}
    (henabled : networkEnabled w event) :
    (w.exec setting event).isSome = true ↔ ¬ ReadsUndefined w event ∧ ¬ Overruns w event := by
  obtain ⟨run, hnetwork⟩ := hreach
  have hrefines := run_refines hnetwork
  have hserver : ∀ serverEvent, Server.enabled w.server serverEvent →
      (∀ c message time, serverEvent ≠ .message c message time) →
      (w.serverStep setting serverEvent).isSome = true := by
    intro serverEvent hserverEnabled hquiet
    obtain ⟨trace, hrun, -⟩ := hrefines
    rw [World.serverStep, Option.isSome_map,
      Server.exec_isSome_iff ⟨trace, hrun⟩ hserverEnabled]
    cases serverEvent with
    | message c message time => exact absurd rfl (hquiet c message time)
    | up | down | invalidLength | timer => exact id
  have hclient : (∃ w', w.exec setting event = some w' ∧
      Refines setting w' (serverEventsOf run)) → (w.exec setting event).isSome = true := by
    rintro ⟨w', hw', -⟩
    rw [hw']
    rfl
  cases event with
  | up c now => exact iff_of_true (hserver (.up c now) henabled (by simp)) ⟨id, id⟩
  | down c => exact iff_of_true (hserver (.down c) henabled (by simp)) ⟨id, id⟩
  | timer now lock =>
      exact iff_of_true (hserver (.timer now lock) henabled (by simp)) ⟨id, id⟩
  | read c count time =>
      rw [World.exec]
      rcases @serverRead_eq_some setting w c ⟨run, hnetwork⟩ count time henabled.1 with
        ⟨hundefined, hnone⟩ | ⟨hdefined, w', hsome, -⟩
      · rw [hnone]
        exact iff_of_false (by simp) fun hdefined => hdefined.1 hundefined
      · rw [hsome]
        exact iff_of_true rfl ⟨hdefined, id⟩
  | call c malloc fd command data =>
      exact iff_of_true (hclient (refines_call hrefines henabled)) ⟨id, id⟩
  | transmit c => exact iff_of_true (hclient (refines_transmit hrefines henabled)) ⟨id, id⟩
  | command c code data env =>
      exact iff_of_true (hclient (refines_command hrefines henabled)) ⟨id, id⟩
  | recv c count => exact iff_of_true (hclient (refines_recv hrefines henabled)) ⟨id, id⟩
  | recvDataCall c =>
      exact iff_of_true (hclient (refines_recvDataCall hrefines henabled)) ⟨id, id⟩
  | recvDataRound c =>
      rcases refines_recvDataRound hrefines henabled with ⟨hover, hnone⟩ | ⟨hfits, hsome⟩
      · rw [hnone]
        exact iff_of_false (by simp) fun hdefined => hdefined.2 hover
      · exact iff_of_true (hclient hsome) ⟨id, hfits⟩

/-- After the run above the sender can go down. -/
theorem system_defined_sendsX :
    ∃ w, (network mixed).Reachable w ∧ networkEnabled w (.down 0) ∧
      (w.exec mixed (.down 0)).isSome = true := by
  obtain ⟨w, hreach, -, -, -, -, -, -, hlive⟩ := sendsX_reached
  exact ⟨w, hreach, hlive, (@system_defined mixed w hreach (.down 0) hlive).mpr ⟨id, id⟩⟩

end

end Interop
end StupidP2P
