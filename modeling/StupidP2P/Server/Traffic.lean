import StupidP2P.Server.Frame
import StupidP2P.Server.SendData

/-!
# What passes over each connection

A run of the server, seen from the network: the messages that came in over a connection,
and the frames that were written to it.  muduo writes only to a connection that is
connected, so what is written to a connection is less than what is handed to the codec
for it.  As a connection that has stopped being connected never becomes so again, it is
the first part of it (`writtenTo_first`), and with this the facts about what the server
sends become facts about what arrives.
-/

namespace StupidP2P
namespace Server

open Foundation

/-! ## Who is connected -/

namespace P2PServer

theorem state_up {σ σ' : P2PServer} {conn : Conn} {now : Int}
    (h : (σ.setState conn .kConnected).onConnection conn now = some σ') :
    σ'.state = Function.update σ.state conn .kConnected := by
  have hconnected : (σ.setState conn .kConnected).connected conn = true := by
    simp [connected, setState]
  rw [onConnection, if_pos hconnected, Option.some.injEq] at h
  rw [← h]
  rfl

theorem state_down {σ σ' : P2PServer} {conn : Conn} {now : Int}
    (h : (σ.setState conn .kDisconnected).onConnection conn now = some σ') :
    σ'.state = Function.update σ.state conn .kDisconnected := by
  have hconnected : ¬ (σ.setState conn .kDisconnected).connected conn = true := by
    simp [connected, setState]
  rw [onConnection, if_neg hconnected, Option.map_eq_some_iff] at h
  obtain ⟨erased, -, h⟩ := h
  rw [← h, state_unregisterDeviceFunc]
  rfl

/-- Handling a message connects nobody. -/
theorem connected_onMessage {σ σ' : P2PServer} {conn : Conn} {message : Message} {time : Int}
    {sends : List CodecSend} (h : σ.onMessage conn message time = some (σ', sends))
    {other : Conn} (hother : σ'.connected other = true) : σ.connected other = true := by
  have hkeep : σ'.state = σ.state → σ.connected other = true := by
    intro hstate
    rwa [connected, hstate] at hother
  unfold onMessage at h
  cases hcode : ProtocolCode.ofByte (message.headD 0) with
  | none =>
      simp only [hcode, Option.some.injEq, Prod.mk.injEq] at h
      exact hkeep (by rw [← h.1])
  | some code =>
      cases code with
      | registerDevice =>
          simp only [hcode, Option.some.injEq, Prod.mk.injEq] at h
          rw [← h.1, connected_registerDeviceFunc] at hother
          exact hother.1
      | subscribeDevice =>
          simp only [hcode, Option.some.injEq, Prod.mk.injEq] at h
          exact hkeep (by rw [← h.1, state_subscribeDeviceFunc])
      | sendData =>
          simp only [hcode, Option.map_eq_some_iff, Prod.mk.injEq] at h
          obtain ⟨⟨τ, sent⟩, hsend, rfl, -⟩ := h
          exact hkeep (state_sendDataFunc hsend)
      | unregisterDevice =>
          simp only [hcode, Option.some.injEq, Prod.mk.injEq] at h
          exact hkeep (by rw [← h.1, state_unregisterDeviceFunc])
      | unsubscribeDevice =>
          simp only [hcode, Option.some.injEq, Prod.mk.injEq] at h
          exact hkeep (by rw [← h.1, state_unsubscribeDeviceFunc])
      | checkDeviceAlive =>
          simp only [hcode, Option.some.injEq, Prod.mk.injEq] at h
          exact hkeep (by rw [← h.1])
      | heartBeat =>
          simp only [hcode, Option.map_eq_some_iff, Prod.mk.injEq] at h
          obtain ⟨τ, hbeat, rfl, -⟩ := h
          exact hkeep (state_heartBeatFunc hbeat)

/-- Only REGISTER closes a connection. -/
theorem state_onMessage {σ σ' : P2PServer} {conn : Conn} {message : Message} {time : Int}
    {sends : List CodecSend} (h : σ.onMessage conn message time = some (σ', sends))
    (hcode : ProtocolCode.ofByte (message.headD 0) ≠ some .registerDevice) :
    σ'.state = σ.state := by
  unfold onMessage at h
  cases hother : ProtocolCode.ofByte (message.headD 0) with
  | none =>
      simp only [hother, Option.some.injEq, Prod.mk.injEq] at h
      rw [← h.1]
  | some code =>
      cases code with
      | registerDevice => exact absurd hother hcode
      | subscribeDevice =>
          simp only [hother, Option.some.injEq, Prod.mk.injEq] at h
          rw [← h.1, state_subscribeDeviceFunc]
      | sendData =>
          simp only [hother, Option.map_eq_some_iff, Prod.mk.injEq] at h
          obtain ⟨⟨τ, sent⟩, hsend, rfl, -⟩ := h
          exact state_sendDataFunc hsend
      | unregisterDevice =>
          simp only [hother, Option.some.injEq, Prod.mk.injEq] at h
          rw [← h.1, state_unregisterDeviceFunc]
      | unsubscribeDevice =>
          simp only [hother, Option.some.injEq, Prod.mk.injEq] at h
          rw [← h.1, state_unsubscribeDeviceFunc]
      | checkDeviceAlive =>
          simp only [hother, Option.some.injEq, Prod.mk.injEq] at h
          rw [← h.1]
      | heartBeat =>
          simp only [hother, Option.map_eq_some_iff, Prod.mk.injEq] at h
          obtain ⟨τ, hbeat, rfl, -⟩ := h
          exact state_heartBeatFunc hbeat

/-- A SEND_DATA that is handled to its end finds all its receivers connected. -/
theorem connected_of_mem_receivers {σ σ' : P2PServer} {conn : Conn} {message : Message}
    {time : Int} {sends : List CodecSend} {code : ProtocolCode}
    (h : σ.onMessage conn message time = some (σ', sends))
    (hcode : ProtocolCode.ofByte (message.headD 0) = some code) {receiver : Conn}
    (hmem : receiver ∈ σ.receivers conn code) : σ.connected receiver = true := by
  obtain rfl := sendData_of_mem_receivers hmem
  rw [onMessage] at h
  simp only [hcode, Option.map_eq_some_iff] at h
  obtain ⟨⟨τ, sent⟩, hsend, -⟩ := h
  rw [sendDataFunc] at hsend
  simp only [sendDataLoop_start σ conn message _ (Nat.lt_succ_self _)] at hsend
  by_cases hall : ∀ d ∈ (σ.context conn).sendToList.values, σ.connected d = true
  · exact hall receiver hmem
  · rw [if_neg hall] at hsend
    exact absurd hsend (by simp)

end P2PServer

open P2PServer

section

variable {idleSeconds : Int} {t : Transition P2PServer Event (List CodecSend)}
variable {trace : List (Transition P2PServer Event (List CodecSend))} {σ : P2PServer}

/-- Not closed by the server and not by the client: the connection is still coming up, or
is connected. -/
def P2PServer.isOpen (σ : P2PServer) (conn : Conn) : Prop :=
  σ.state conn = .kConnecting ∨ σ.state conn = .kConnected

theorem connecting_iff_phase {σ : P2PServer} {conn : Conn} :
    σ.state conn = .kConnecting ↔ σ.toRegistry.phase conn = .fresh := by
  show _ ↔ (σ.state conn).phase = .fresh
  cases σ.state conn <;> simp [TcpState.phase]

/-- A connection that is not up yet was not up before. -/
theorem connecting_of_step (hstep : (machine idleSeconds).Step t) {conn : Conn}
    (hconnecting : t.post.state conn = .kConnecting) : t.pre.state conn = .kConnecting := by
  rw [connecting_iff_phase, exec_toRegistry hstep.2] at hconnecting
  rw [connecting_iff_phase]
  by_cases hlife : (∀ c, opOf t.event ≠ .connect c) ∧ ∀ c, opOf t.event ≠ .disconnect c
  · rwa [Registry.phase_apply _ _ hlife.1 hlife.2] at hconnecting
  · -- Coming up and going down end in another phase.
    cases hop : opOf t.event with
    | connect c =>
        rw [hop] at hconnecting
        change Function.update t.pre.toRegistry.phase c .live conn = .fresh at hconnecting
        by_cases hc : conn = c
        · simp [hc] at hconnecting
        · rwa [Function.update_of_ne hc] at hconnecting
    | disconnect c =>
        rw [hop] at hconnecting
        change Function.update t.pre.toRegistry.phase c .gone conn = .fresh at hconnecting
        by_cases hc : conn = c
        · simp [hc] at hconnecting
        · rwa [Function.update_of_ne hc] at hconnecting
    | register | subscribe | unsubscribe | unregister | idle =>
        exact absurd ⟨by simp [hop], by simp [hop]⟩ hlife

/-- **A connection that is no longer open stays so.** -/
theorem isOpen_of_step (hstep : (machine idleSeconds).Step t)
    (hreach : (machine idleSeconds).Reachable t.pre) {conn : Conn}
    (hopen : t.post.isOpen conn) : t.pre.isOpen conn := by
  rcases hopen with hconnecting | hup
  · exact Or.inl (connecting_of_step hstep hconnecting)
  rw [← connected_eq_true_iff] at hup
  obtain ⟨pre, event, output, post⟩ := t
  obtain ⟨henabled, hexec⟩ := hstep
  dsimp only at henabled hexec hreach hup ⊢
  cases event with
  | up c now =>
      simp only [machine, exec, Option.map_eq_some_iff, Prod.mk.injEq] at hexec
      obtain ⟨τ, hτ, rfl, -⟩ := hexec
      by_cases hc : conn = c
      · rw [hc]
        exact Or.inl henabled
      · rw [connected_eq_true_iff, state_up hτ, Function.update_of_ne hc] at hup
        exact Or.inr hup
  | down c =>
      simp only [machine, exec, Option.map_eq_some_iff, Prod.mk.injEq] at hexec
      obtain ⟨τ, hτ, rfl, -⟩ := hexec
      rw [connected_eq_true_iff, state_down hτ] at hup
      by_cases hc : conn = c
      · simp [hc] at hup
      · rw [Function.update_of_ne hc] at hup
        exact Or.inr hup
  | message c message time =>
      exact Or.inr (connected_eq_true_iff.mp (connected_onMessage hexec hup))
  | invalidLength c =>
      simp only [machine, exec, Option.some.injEq, Prod.mk.injEq] at hexec
      rw [← hexec.1, connected_shutdown] at hup
      exact Or.inr (connected_eq_true_iff.mp hup.1)
  | timer now lock =>
      simp only [machine, exec, Option.map_eq_some_iff, Prod.mk.injEq] at hexec
      obtain ⟨τ, hτ, rfl, -⟩ := hexec
      rw [onTimer_eq (@Placed.lock_of_enabled pre (reachable_placed hreach) now lock henabled),
        Option.some.injEq] at hτ
      rw [← hτ, connected_swept] at hup
      exact Or.inr (connected_eq_true_iff.mp hup.1)

/-- Nothing is sent to a connection that is not up yet. -/
theorem stepFramesTo_of_connecting (hstep : (machine idleSeconds).Step t) {conn : Conn}
    (hconnecting : t.pre.state conn = .kConnecting) : stepFramesTo conn t = [] := by
  rcases step_output hstep with ⟨c, message, time, code, result, hevent, hcode, hout⟩ |
      ⟨hnil, -⟩
  · obtain ⟨henabled, hexec⟩ := hstep
    rw [hevent] at henabled hexec
    have hsender : c ≠ conn := by
      rintro rfl
      have hlive : t.pre.live c = true := henabled
      simp [live, hconnecting] at hlive
    have hnot : conn ∉ t.pre.receivers c code := by
      intro hmem
      have hconnected := connected_of_mem_receivers hexec hcode hmem
      rw [connected_eq_true_iff, hconnecting] at hconnected
      exact absurd hconnected (by decide)
    rw [stepFramesTo_request hout, List.count_eq_zero_of_not_mem hnot, if_neg hsender]
    rfl
  · rw [stepFramesTo, hnil]
    rfl

/-! ## When a step is defined -/

/-- The event brings SEND_DATA from a connection in whose list somebody is not
connected. -/
def MeetsClosedReceiver (σ : P2PServer) : Event → Prop
  | .message conn message _ =>
      ProtocolCode.ofByte (message.headD 0) = some .sendData ∧
        ∃ receiver ∈ (σ.context conn).sendToList.values, σ.connected receiver = false
  | _ => False

theorem sendDataFunc_isSome_iff (σ : P2PServer) (conn : Conn) (message : Message) :
    (σ.sendDataFunc conn message).isSome = true ↔
      ∀ receiver ∈ (σ.context conn).sendToList.values, σ.connected receiver = true := by
  rw [sendDataFunc, Option.isSome_map, sendDataLoop_start σ conn message _ (Nat.lt_succ_self _)]
  split
  · exact iff_of_true rfl (by assumption)
  · exact iff_of_false (by simp) (by assumption)

/-- While the list and the iterators agree, a step is undefined only if `sendDataFunc` meets a
receiver that is not connected. -/
theorem P2PServer.Placed.exec_isSome_iff (hplaced : σ.Placed) {event : Event}
    (henabled : enabled σ event) :
    (exec idleSeconds σ event).isSome = true ↔ ¬ MeetsClosedReceiver σ event := by
  cases event with
  | up conn now =>
      have hconnected : (σ.setState conn .kConnected).connected conn = true := by
        simp [connected, setState]
      rw [exec, Option.isSome_map, onConnection, if_pos hconnected]
      exact iff_of_true rfl id
  | down conn =>
      obtain ⟨σ', hdown, -⟩ := @down_listing σ conn conn 0 (hplaced.mem_nodes henabled)
      rw [exec, Option.isSome_map, hdown]
      exact iff_of_true rfl id
  | invalidLength conn => exact iff_of_true rfl id
  | timer now lock =>
      rw [exec, Option.isSome_map, onTimer_eq (hplaced.lock_of_enabled henabled)]
      exact iff_of_true rfl id
  | message conn message time =>
      rw [exec, P2PServer.onMessage, MeetsClosedReceiver]
      cases hcode : ProtocolCode.ofByte (message.headD 0) with
      | none => exact iff_of_true rfl (by simp)
      | some code =>
          cases code with
          | sendData =>
              dsimp only
              rw [Option.isSome_map, sendDataFunc_isSome_iff]
              simp
          | heartBeat =>
              obtain ⟨σ', hbeat, -⟩ := hplaced.heartBeatFunc_eq henabled time
              dsimp only
              rw [hbeat]
              exact iff_of_true rfl (by simp)
          | registerDevice | subscribeDevice | unregisterDevice | unsubscribeDevice
          | checkDeviceAlive => exact iff_of_true rfl (by simp)

/-- **The only undefined step** of the server is the one in which `sendDataFunc` meets a
receiver that is not connected. -/
theorem exec_isSome_iff (hreach : (machine idleSeconds).Reachable σ) {event : Event}
    (henabled : enabled σ event) :
    (exec idleSeconds σ event).isSome = true ↔ ¬ MeetsClosedReceiver σ event :=
  (reachable_placed hreach).exec_isSome_iff henabled

/-! ## Answers -/

/-- The result in the callback to a request. -/
def P2PServer.answer (σ : P2PServer) (conn : Conn) (id : DeviceId) :
    ProtocolCode → CallBackStatus
  | .subscribeDevice =>
      if (σ.toRegistry.accepts conn id).isSome then .execSuccess else .execFail
  | .checkDeviceAlive => σ.checkDeviceAliveFunc id
  | _ => .execSuccess

/-- The answer to a SUBSCRIBE says whether it was accepted. -/
theorem subscribeDeviceFunc_answer (σ : P2PServer) (conn : Conn) (id : DeviceId) :
    (σ.subscribeDeviceFunc conn id).2 = σ.answer conn id .subscribeDevice := by
  show _ = if (if id = (σ.context conn).deviceId then none
    else σ.connections id).isSome then CallBackStatus.execSuccess else .execFail
  unfold subscribeDeviceFunc
  cases σ.connections id with
  | none => simp
  | some owner =>
      by_cases hname : id = (σ.context conn).deviceId
      · simp [← hname]
      · simp [hname]

/-- What handling a request sends, the result included. -/
theorem onMessage_output {σ σ' : P2PServer} {conn : Conn} {message : Message} {time : Int}
    {sends : List CodecSend} {code : ProtocolCode}
    (h : σ.onMessage conn message time = some (σ', sends))
    (hcode : ProtocolCode.ofByte (message.headD 0) = some code) :
    sends = (σ.receivers conn code).map (fun receiver => ⟨receiver, message⟩) ++
      [callbackFunc conn code (σ.answer conn (message.drop 1) code)] := by
  unfold onMessage at h
  cases code with
  | sendData =>
      simp only [hcode, Option.map_eq_some_iff, Prod.mk.injEq] at h
      obtain ⟨⟨τ, sent⟩, hsend, -, rfl⟩ := h
      rw [(sendDataFunc_eq_some hsend).2]
      rfl
  | heartBeat =>
      simp only [hcode, Option.map_eq_some_iff, Prod.mk.injEq] at h
      obtain ⟨τ, -, -, rfl⟩ := h
      rfl
  | subscribeDevice =>
      simp only [hcode, Option.some.injEq, Prod.mk.injEq] at h
      rw [← h.2, subscribeDeviceFunc_answer]
      rfl
  | registerDevice | unregisterDevice | unsubscribeDevice | checkDeviceAlive =>
      simp only [hcode, Option.some.injEq, Prod.mk.injEq] at h
      rw [← h.2]
      rfl

/-- Two servers with the same list of receivers and the same answer send the same. -/
theorem onMessage_sends_congr {σ σ' σ₁ σ₁' : P2PServer} {conn : Conn} {message : Message}
    {time : Int} {sends sends' : List CodecSend}
    (h : σ.onMessage conn message time = some (σ₁, sends))
    (h' : σ'.onMessage conn message time = some (σ₁', sends'))
    (hlist : (σ'.context conn).sendToList.values = (σ.context conn).sendToList.values)
    (hanswer : ∀ code, ProtocolCode.ofByte (message.headD 0) = some code →
      σ'.answer conn (message.drop 1) code = σ.answer conn (message.drop 1) code) :
    sends' = sends := by
  cases hcode : ProtocolCode.ofByte (message.headD 0) with
  | none =>
      have hnil := onMessage_sends h
      have hnil' := onMessage_sends h'
      rw [hcode] at hnil hnil'
      exact hnil'.trans hnil.symm
  | some code =>
      have hreceivers : σ'.receivers conn code = σ.receivers conn code := by
        unfold receivers
        rw [hlist]
      rw [onMessage_output h hcode, onMessage_output h' hcode, hreceivers, hanswer code hcode]

/-! ## In and out -/

/-- The message a step takes from `conn`. -/
def messageOf (conn : Conn) (t : Transition P2PServer Event (List CodecSend)) :
    Option Message :=
  match t.event with
  | .message c message _ => if c = conn then some message else none
  | _ => none

/-- The messages taken from `conn`, in order. -/
def messagesOf (conn : Conn) (trace : List (Transition P2PServer Event (List CodecSend))) :
    List Message :=
  trace.filterMap (messageOf conn)

/-- The frames a step writes to `conn`: what it hands to the codec, if `conn` is
connected. -/
def writtenBy (conn : Conn) (t : Transition P2PServer Event (List CodecSend)) :
    List Message :=
  if t.post.connected conn then stepFramesTo conn t else []

/-- The frames written to `conn`, in order. -/
def writtenTo (conn : Conn) (trace : List (Transition P2PServer Event (List CodecSend))) :
    List Message :=
  trace.flatMap (writtenBy conn)

theorem messagesOf_append (conn : Conn)
    (first second : List (Transition P2PServer Event (List CodecSend))) :
    messagesOf conn (first ++ second) = messagesOf conn first ++ messagesOf conn second :=
  List.filterMap_append

theorem writtenTo_append (conn : Conn)
    (first second : List (Transition P2PServer Event (List CodecSend))) :
    writtenTo conn (first ++ second) = writtenTo conn first ++ writtenTo conn second :=
  List.flatMap_append

theorem framesTo_append (conn : Conn)
    (first second : List (Transition P2PServer Event (List CodecSend))) :
    framesTo conn (first ++ second) = framesTo conn first ++ framesTo conn second :=
  List.flatMap_append

/-- **What is written is the first part of what is sent**, and all of it as long as the
connection is open. -/
theorem writtenTo_first (hrun : (machine idleSeconds).Run trace σ) (conn : Conn) :
    writtenTo conn trace <+: framesTo conn trace ∧
      (σ.isOpen conn → writtenTo conn trace = framesTo conn trace) := by
  induction hrun with
  | start => exact ⟨List.prefix_rfl, fun _ => rfl⟩
  | @step trace t hrun hstep ih =>
      obtain ⟨hbefore, hall⟩ := ih
      have hwritten : writtenTo conn [t] = writtenBy conn t := List.flatMap_singleton _ t
      have hframes : framesTo conn [t] = stepFramesTo conn t := List.flatMap_singleton _ t
      rw [writtenTo_append, framesTo_append, hwritten, hframes, writtenBy]
      by_cases hopen : t.pre.isOpen conn
      · rw [hall hopen]
        by_cases hconnected : t.post.connected conn = true
        · rw [if_pos hconnected]
          exact ⟨List.prefix_rfl, fun _ => rfl⟩
        · rw [if_neg hconnected, List.append_nil]
          refine ⟨List.prefix_append _ _, ?_⟩
          intro hpost
          -- Open and not connected: it is still coming up, and nothing is sent to it.
          rcases hpost with hconnecting | hup
          · rw [stepFramesTo_of_connecting hstep (connecting_of_step hstep hconnecting),
              List.append_nil]
          · exact absurd (connected_eq_true_iff.mpr hup) hconnected
      · have hpost : ¬ t.post.isOpen conn :=
          fun h => hopen (isOpen_of_step hstep ⟨trace, hrun⟩ h)
        have hconnected : ¬ t.post.connected conn = true :=
          fun h => hpost (Or.inr (connected_eq_true_iff.mp h))
        rw [if_neg hconnected, List.append_nil]
        exact ⟨hbefore.trans (List.prefix_append _ _), fun h => absurd h hpost⟩

/-! ## Data and its origin -/

/-- The payloads of the data messages, in order. -/
def dataPayloads (messages : List Message) : List (List UInt8) :=
  (messages.filter isData).map (List.drop 1)

theorem dataPayloads_append (first second : List Message) :
    dataPayloads (first ++ second) = dataPayloads first ++ dataPayloads second := by
  rw [dataPayloads, List.filter_append, List.map_append]
  rfl

/-- The data frames a step writes to `s`, each with the connection it came from. -/
def dataBy (s : Conn) (t : Transition P2PServer Event (List CodecSend)) :
    List (Conn × Message) :=
  match t.event with
  | .message p _ _ => ((writtenBy s t).filter isData).map fun message => (p, message)
  | _ => []

/-- The data frames written to `s` in a run, each with its origin. -/
def deliveries (s : Conn) (trace : List (Transition P2PServer Event (List CodecSend))) :
    List (Conn × Message) :=
  trace.flatMap (dataBy s)

/-- A step that takes no message writes nothing. -/
theorem writtenBy_of_messageOf (hstep : (machine idleSeconds).Step t)
    (hnone : ∀ conn, messageOf conn t = none) (s : Conn) : writtenBy s t = [] := by
  rcases step_output hstep with ⟨c, message, time, code, result, hevent, -⟩ | ⟨hnil, -⟩
  · have hsome : messageOf c t = some message := by
      rw [messageOf, hevent]
      exact if_pos rfl
    exact absurd (hsome.symm.trans (hnone c)) (by simp)
  · rw [writtenBy, stepFramesTo, hnil]
    exact ite_self []

theorem dataBy_map_snd (hstep : (machine idleSeconds).Step t) (s : Conn) :
    (dataBy s t).map Prod.snd = (writtenBy s t).filter isData := by
  cases hevent : t.event with
  | message p message time =>
      simp only [dataBy, hevent, List.map_map]
      exact List.map_id _
  | up | down | invalidLength | timer =>
      have hnone : ∀ conn, messageOf conn t = none := by
        intro conn
        simp only [messageOf, hevent]
      simp only [dataBy, hevent, writtenBy_of_messageOf hstep hnone]
      rfl

/-- What a step writes to `s` of a message from `p` is that message, once or not at all. -/
theorem dataBy_filter_sublist (hstep : (machine idleSeconds).Step t)
    (hreach : (machine idleSeconds).Reachable t.pre) (p s : Conn) :
    (((dataBy s t).filter fun d => decide (d.1 = p)).map Prod.snd).Sublist
      ((messageOf p t).toList.filter isData) := by
  have hforwarded := forwarded_sublist hstep
    (fun q => (reachable_lists_nodup hreach q).1) p s
  cases hevent : t.event with
  | message c message time =>
      simp only [dataBy, messageOf, forwarded, sendDataOf, hevent] at hforwarded ⊢
      by_cases hc : c = p
      · have hkept : ((writtenBy s t).filter isData).Sublist
            ((stepFramesTo s t).filter isData) := by
          refine List.Sublist.filter _ ?_
          unfold writtenBy
          split
          · exact List.Sublist.refl _
          · exact List.nil_sublist _
        have hdata : (if ProtocolCode.ofByte (message.headD 0) = some .sendData then [message]
            else []).Sublist ([message].filter isData) := by
          split
          · rename_i hcode
            rw [List.filter_cons_of_pos (not_isCallback_sendData hcode).2]
            exact List.Sublist.refl _
          · exact List.nil_sublist _
        simp only [hc, true_and, if_true] at hforwarded
        have hall : (((writtenBy s t).filter isData).map fun m => (c, m)).filter
            (fun d => decide (d.1 = p)) = ((writtenBy s t).filter isData).map fun m => (c, m) := by
          rw [List.filter_eq_self]
          intro d hd
          obtain ⟨m, -, rfl⟩ := List.mem_map.mp hd
          exact decide_eq_true hc
        rw [hall, List.map_map, if_pos hc, Option.toList_some]
        show (((writtenBy s t).filter isData).map id).Sublist _
        rw [List.map_id]
        exact hkept.trans (hforwarded.trans hdata)
      · have hnone : (((writtenBy s t).filter isData).map fun m => (c, m)).filter
            (fun d => decide (d.1 = p)) = [] := by
          rw [List.filter_eq_nil_iff]
          intro d hd
          obtain ⟨m, -, rfl⟩ := List.mem_map.mp hd
          simpa using hc
        rw [hnone]
        exact List.nil_sublist _
  | up | down | invalidLength | timer =>
      simp only [dataBy, hevent]
      exact List.nil_sublist _

/-- **Every data frame has an origin.**  The data written to `s` are messages taken from
other connections; those that came from one connection are a subsequence of the data
messages taken from it. -/
theorem deliveries_exact (hrun : (machine idleSeconds).Run trace σ) (s : Conn) :
    (deliveries s trace).map Prod.snd = (writtenTo s trace).filter isData ∧
      ∀ p, (((deliveries s trace).filter fun d => decide (d.1 = p)).map Prod.snd).Sublist
        ((messagesOf p trace).filter isData) := by
  have hsteps := hrun.step_of_mem
  clear hrun
  induction trace with
  | nil => exact ⟨rfl, fun _ => List.Sublist.refl _⟩
  | cons t trace ih =>
      obtain ⟨⟨hstep, hreach⟩, hrest⟩ := List.forall_mem_cons.mp hsteps
      obtain ⟨hall, horigin⟩ := ih hrest
      have hdeliveries : deliveries s (t :: trace) = dataBy s t ++ deliveries s trace := rfl
      have hwritten : writtenTo s (t :: trace) = writtenBy s t ++ writtenTo s trace := rfl
      have hmessages : ∀ p, messagesOf p (t :: trace) =
          (messageOf p t).toList ++ messagesOf p trace := by
        intro p
        simp only [messagesOf, List.filterMap_eq_flatMap_toList, List.flatMap_cons]
      constructor
      · rw [hdeliveries, hwritten, List.map_append, List.filter_append, hall,
          dataBy_map_snd hstep]
      · intro p
        rw [hdeliveries, hmessages, List.filter_append, List.filter_append, List.map_append]
        exact (dataBy_filter_sublist hstep hreach p s).append (horigin p)

/-! ## Callbacks -/

/-- The requests of a connection are the codes of its messages. -/
theorem requestsOf_eq (conn : Conn)
    (trace : List (Transition P2PServer Event (List CodecSend))) :
    requestsOf conn trace =
      (messagesOf conn trace).filterMap fun message => ProtocolCode.ofByte (message.headD 0) := by
  rw [requestsOf, messagesOf, List.filterMap_filterMap]
  congr 1
  funext t
  unfold requestOf messageOf
  cases t.event with
  | message c message time =>
      dsimp only
      split <;> rfl
  | up | down | invalidLength | timer => rfl

/-- **The callbacks written to a connection** answer its first requests, one each and in
order. -/
theorem callbacks_written (hrun : (machine idleSeconds).Run trace σ) (conn : Conn)
    {arrived : List Message} (harrived : arrived <+: writtenTo conn trace) :
    ∃ requests, requests <+: requestsOf conn trace ∧
      List.Forall₂ Answers requests (arrived.filter isCallback) := by
  have hall := callbacks_of_steps (fun t ht => (hrun.step_of_mem t ht).1) conn
  obtain ⟨more, hmore⟩ := harrived.trans (writtenTo_first hrun conn).1
  rw [← hmore, List.filter_append] at hall
  have hfirst := List.forall₂_take (arrived.filter isCallback).length hall
  rw [List.take_left] at hfirst
  exact ⟨_, List.take_prefix _ _, hfirst⟩

end

end Server
end StupidP2P
