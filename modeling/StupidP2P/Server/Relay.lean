import StupidP2P.Server.Subscription
import Mathlib.Data.List.Flatten
import Mathlib.Data.List.Forall2

/-!
# What the server sends

A step of the server sends something only when it handles a request: the data it
forwards, followed by one callback to the sender of the request.  From this one
fact about steps two results about runs follow:

* what one connection forwards to another is a subsequence of what it was asked to
  send, since no receiver is twice in a list;
* the frames sent to a connection are one callback for each of its requests, in
  order, and messages that somebody sent as data.

A run ends before a `sendDataFunc` that meets a receiver which is not connected, as
such a step is not defined.
-/

namespace StupidP2P
namespace Server

open Foundation

/-- The request an event brings from `conn`. -/
def requestOf (conn : Conn) : Event → Option ProtocolCode
  | .message c message _ =>
      if c = conn then ProtocolCode.ofByte (message.headD 0) else none
  | _ => none

/-- The frames handed to the codec for `conn` in one step. -/
def stepFramesTo (conn : Conn) (t : Transition P2PServer Event (List CodecSend)) :
    List Message :=
  (t.output.filter fun send => decide (send.conn = conn)).map CodecSend.message

/-- The first byte carries `CALL_BACK_MASK`. -/
def isCallback (frame : Message) : Bool :=
  decide (callBackMask ≤ frame.headD 0)

/-- The first byte is `SEND_DATA`. -/
def isData (frame : Message) : Bool :=
  decide (frame.headD 0 = ProtocolCode.sendData.toByte)

theorem isCallback_callback (code : ProtocolCode) (result : CallBackStatus) :
    isCallback [code.toByte ||| callBackMask, result.toByte] = true := by
  cases code <;> rfl

theorem isData_callback (code : ProtocolCode) (result : CallBackStatus) :
    isData [code.toByte ||| callBackMask, result.toByte] = false := by
  cases code <;> rfl

theorem not_isCallback_sendData {message : Message}
    (h : ProtocolCode.ofByte (message.headD 0) = some .sendData) :
    isCallback message = false ∧ isData message = true := by
  have hfirst := ProtocolCode.ofByte_eq_some h
  unfold isCallback isData
  rw [hfirst]
  exact ⟨rfl, rfl⟩

/-- **One step.**  Either it handles a request, and sends the forwarded data and one
callback, or it sends nothing and brings no request. -/
theorem step_output {idleSeconds : Int} {t : Transition P2PServer Event (List CodecSend)}
    (hstep : (machine idleSeconds).Step t) :
    (∃ conn message time code result, t.event = .message conn message time ∧
        ProtocolCode.ofByte (message.headD 0) = some code ∧
        t.output = (t.pre.receivers conn code).map (fun receiver => ⟨receiver, message⟩) ++
          [P2PServer.callbackFunc conn code result]) ∨
      t.output = [] ∧ ∀ conn, requestOf conn t.event = none := by
  obtain ⟨pre, event, output, post⟩ := t
  have hexec := hstep.2
  dsimp only at hexec ⊢
  cases event with
  | message conn message time =>
      have hsends := onMessage_sends hexec
      cases hcode : ProtocolCode.ofByte (message.headD 0) with
      | none =>
          rw [hcode] at hsends
          refine Or.inr ⟨hsends, ?_⟩
          intro c
          show ite _ (ProtocolCode.ofByte (message.headD 0)) none = none
          rw [hcode, ite_self]
      | some code =>
          rw [hcode] at hsends
          obtain ⟨result, hsends⟩ := hsends
          exact Or.inl ⟨conn, message, time, code, result, rfl, hcode, hsends⟩
  | up conn now | down conn | timer now lock =>
      simp only [machine, exec, Option.map_eq_some_iff, Prod.mk.injEq] at hexec
      obtain ⟨-, -, -, hnil⟩ := hexec
      exact Or.inr ⟨hnil.symm, fun _ => rfl⟩
  | invalidLength conn =>
      simp only [machine, exec, Option.some.injEq, Prod.mk.injEq] at hexec
      exact Or.inr ⟨hexec.2.symm, fun _ => rfl⟩

/-- The frames for one connection, when a request is handled: the message once for
each place the connection has in the list, and the callback if it sent the request. -/
theorem stepFramesTo_request {t : Transition P2PServer Event (List CodecSend)}
    {conn : Conn} {message : Message} {code : ProtocolCode} {result : CallBackStatus}
    (hout : t.output = (t.pre.receivers conn code).map (fun receiver => ⟨receiver, message⟩) ++
      [P2PServer.callbackFunc conn code result]) (c : Conn) :
    stepFramesTo c t =
      List.replicate ((t.pre.receivers conn code).count c) message ++
        if conn = c then [[code.toByte ||| callBackMask, result.toByte]] else [] := by
  unfold stepFramesTo
  rw [hout, List.filter_append, List.map_append]
  congr 1
  · rw [List.filter_map, List.map_map]
    show ((t.pre.receivers conn code).filter fun d => decide (d = c)).map (fun _ => message) = _
    rw [List.map_const', ← List.countP_eq_length_filter, List.count]
    congr 1
  · by_cases hconn : conn = c
    · simp [P2PServer.callbackFunc, hconn]
    · simp [P2PServer.callbackFunc, hconn]

/-! ## At most once, in order, unaltered -/

/-- The data frames a step forwards from `p` to `s`. -/
def forwarded (p s : Conn) (t : Transition P2PServer Event (List CodecSend)) : List Message :=
  match t.event with
  | .message conn _ _ => if conn = p then (stepFramesTo s t).filter isData else []
  | _ => []

/-- The SEND_DATA message of `p` a step handles. -/
def sendDataOf (p : Conn) (t : Transition P2PServer Event (List CodecSend)) : List Message :=
  match t.event with
  | .message conn message _ =>
      if conn = p ∧ ProtocolCode.ofByte (message.headD 0) = some .sendData then [message]
      else []
  | _ => []

/-- Without duplicates in the list of `p`, a step forwards its message once or not
at all. -/
theorem forwarded_sublist {idleSeconds : Int}
    {t : Transition P2PServer Event (List CodecSend)} (hstep : (machine idleSeconds).Step t)
    (hnodup : ∀ p, (t.pre.context p).sendToList.values.Nodup) (p s : Conn) :
    (forwarded p s t).Sublist (sendDataOf p t) := by
  rcases step_output hstep with ⟨conn, message, time, code, result, hevent, hcode, hout⟩ |
      ⟨hnil, -⟩
  · unfold forwarded sendDataOf
    rw [hevent]
    dsimp only
    by_cases hconn : conn = p
    · rw [if_pos hconn, stepFramesTo_request hout, List.filter_append]
      have hcallback : (if conn = s then [[code.toByte ||| callBackMask, result.toByte]]
          else []).filter isData = [] := by
        split
        · rw [List.filter_cons_of_neg (by rw [isData_callback]; simp), List.filter_nil]
        · rfl
      rw [hcallback, List.append_nil]
      by_cases hdata : code = .sendData
      · -- As many copies as `s` has places in the list, so one at most.
        subst hdata
        rw [if_pos ⟨hconn, hcode⟩]
        have hcount : (t.pre.receivers conn .sendData).count s ≤ 1 := by
          show (t.pre.context conn).sendToList.values.count s ≤ 1
          rw [(hnodup conn).count]
          split <;> omega
        exact List.filter_sublist.trans ((List.replicate_sublist_replicate message).mpr hcount)
      · -- Other requests forward nothing.
        have hnobody : t.pre.receivers conn code = [] := if_neg hdata
        rw [hnobody]
        exact List.nil_sublist _
    · rw [if_neg hconn]
      exact List.nil_sublist _
  · have hnone : forwarded p s t = [] := by
      unfold forwarded stepFramesTo
      rw [hnil]
      split
      · split <;> rfl
      · rfl
    rw [hnone]
    exact List.nil_sublist _

/-- No list of the server has a duplicate in a state it reaches. -/
theorem reachable_lists_nodup {idleSeconds : Int} {σ : P2PServer}
    (hreach : (machine idleSeconds).Reachable σ) (conn : Conn) :
    (σ.context conn).sendToList.values.Nodup ∧ (σ.context conn).subscribeIdList.Nodup := by
  refine ⟨?_, (reachable_inv hreach).subs_nodup conn⟩
  refine hreach.invariant (fun σ : P2PServer => ∀ p, (σ.toRegistry.sendTo p).Nodup) ?_ ?_ conn
  · intro p
    exact List.nodup_nil
  · intro t hstep hpre
    rw [exec_toRegistry hstep.2]
    exact Registry.sendTo_nodup_apply hpre (opOf t.event)

/-- **The relay.**  What is forwarded from one connection to another in a run is a
subsequence of the SEND_DATA messages of the first, byte for byte and in order.  No
list ever has a duplicate, and a message is forwarded to a receiver at most once. -/
theorem relay_at_most_once {idleSeconds : Int} {σ : P2PServer}
    {trace : List (Transition P2PServer Event (List CodecSend))}
    (hrun : (machine idleSeconds).Run trace σ) :
    (∀ p s, (trace.flatMap (forwarded p s)).Sublist (trace.flatMap (sendDataOf p))) ∧
      (∀ τ ∈ (machine idleSeconds).visited trace, ∀ conn,
        (τ.context conn).sendToList.values.Nodup ∧ (τ.context conn).subscribeIdList.Nodup) ∧
      ∀ t ∈ trace, ∀ p s, (forwarded p s t).length ≤ 1 := by
  have hsteps := hrun.step_of_mem
  have hsublist : ∀ p s, ∀ t ∈ trace, (forwarded p s t).Sublist (sendDataOf p t) := by
    intro p s t ht
    obtain ⟨hstep, hreach⟩ := hsteps t ht
    exact forwarded_sublist hstep (fun q => (reachable_lists_nodup hreach q).1) p s
  refine ⟨?_, ?_, ?_⟩
  · intro p s
    exact List.Sublist.flatMap_right trace (hsublist p s)
  · intro τ hτ
    exact reachable_lists_nodup (hrun.reachable_of_visited τ hτ)
  · intro t ht p s
    refine Nat.le_trans (hsublist p s t ht).length_le ?_
    unfold sendDataOf
    split
    · split <;> simp
    · simp

/-- Connection 0 sends data to its subscriber, connection 1, which gets it once. -/
theorem relay_at_most_once_ownerSends :
    ∃ trace, (machine 300).Run trace ownerSends.post ∧
      trace.flatMap (forwarded 0 1) = [[3, 120]] ∧
      (trace.flatMap (forwarded 0 1)).Sublist (trace.flatMap (sendDataOf 0)) := by
  exact ⟨_, run_ownerSends, by decide, (relay_at_most_once run_ownerSends).1 0 1⟩

/-! ## One reply for each request -/

/-- The requests of `conn`, in the order in which they are handled. -/
def requestsOf (conn : Conn) (trace : List (Transition P2PServer Event (List CodecSend))) :
    List ProtocolCode :=
  trace.filterMap fun t => requestOf conn t.event

/-- The frames sent to `conn`, in order. -/
def framesTo (conn : Conn) (trace : List (Transition P2PServer Event (List CodecSend))) :
    List Message :=
  trace.flatMap (stepFramesTo conn)

/-- The frame answers a request: its code with the mask, and a status. -/
def Answers (code : ProtocolCode) (frame : Message) : Prop :=
  ∃ result : CallBackStatus, frame = [code.toByte ||| callBackMask, result.toByte]

/-- The callbacks among the frames of a step answer the request of that step. -/
theorem callbacks_of_step {idleSeconds : Int}
    {t : Transition P2PServer Event (List CodecSend)} (hstep : (machine idleSeconds).Step t)
    (conn : Conn) :
    List.Forall₂ Answers (requestOf conn t.event).toList
      ((stepFramesTo conn t).filter isCallback) := by
  rcases step_output hstep with ⟨c, message, time, code, result, hevent, hcode, hout⟩ |
      ⟨hnil, hnone⟩
  · -- What is forwarded starts with SEND_DATA, below the range of the callbacks.
    have hdata : (List.replicate ((t.pre.receivers c code).count conn) message).filter
        isCallback = [] := by
      rw [List.filter_eq_nil_iff]
      intro frame hframe
      obtain ⟨hcount, rfl⟩ := List.mem_replicate.mp hframe
      obtain rfl := P2PServer.sendData_of_mem_receivers
        (List.count_pos_iff.mp (Nat.pos_of_ne_zero hcount))
      rw [(not_isCallback_sendData hcode).1]
      simp
    rw [stepFramesTo_request hout, List.filter_append, hdata, List.nil_append, hevent]
    unfold requestOf
    dsimp only
    by_cases hc : c = conn
    · rw [if_pos hc, if_pos hc, hcode,
        List.filter_cons_of_pos (isCallback_callback code result), List.filter_nil]
      exact .cons ⟨result, rfl⟩ .nil
    · rw [if_neg hc, if_neg hc]
      exact .nil
  · rw [hnone conn, stepFramesTo, hnil]
    exact .nil

/-- A frame that is not a callback is the message the step handles, and is data. -/
theorem data_of_step {idleSeconds : Int}
    {t : Transition P2PServer Event (List CodecSend)} (hstep : (machine idleSeconds).Step t)
    {conn : Conn} {frame : Message} (hmem : frame ∈ stepFramesTo conn t) :
    (∃ code result, frame = [ProtocolCode.toByte code ||| callBackMask,
        CallBackStatus.toByte result]) ∨
      ∃ p time, t.event = .message p frame time ∧
        ProtocolCode.ofByte (frame.headD 0) = some .sendData := by
  rcases step_output hstep with ⟨c, message, time, code, result, hevent, hcode, hout⟩ |
      ⟨hnil, -⟩
  · rw [stepFramesTo_request hout, List.mem_append] at hmem
    rcases hmem with hdata | hcallback
    · obtain ⟨hcount, rfl⟩ := List.mem_replicate.mp hdata
      obtain rfl := P2PServer.sendData_of_mem_receivers
        (List.count_pos_iff.mp (Nat.pos_of_ne_zero hcount))
      exact Or.inr ⟨c, time, hevent, hcode⟩
    · left
      split at hcallback
      · exact ⟨code, result, List.mem_singleton.mp hcallback⟩
      · simp at hcallback
  · simp [stepFramesTo, hnil] at hmem

/-- The callbacks of a run, step by step. -/
theorem callbacks_of_steps {idleSeconds : Int}
    {trace : List (Transition P2PServer Event (List CodecSend))}
    (hsteps : ∀ t ∈ trace, (machine idleSeconds).Step t) (conn : Conn) :
    List.Forall₂ Answers (requestsOf conn trace) ((framesTo conn trace).filter isCallback) := by
  induction trace with
  | nil => exact .nil
  | cons t trace ih =>
      rw [List.forall_mem_cons] at hsteps
      have hrequests : requestsOf conn (t :: trace) =
          (requestOf conn t.event).toList ++ requestsOf conn trace := by
        simp only [requestsOf, List.filterMap_eq_flatMap_toList, List.flatMap_cons]
      rw [hrequests, framesTo, List.flatMap_cons, List.filter_append]
      exact List.rel_append (callbacks_of_step hsteps.1 conn) (ih hsteps.2)

/-- **The frames sent to a connection.**  The callbacks among them answer the requests
of that connection, one each and in order; every other frame is, byte for byte, a
SEND_DATA message that was handled in the run.  So each frame has a first byte, and
has two bytes if the first one is in the range of callbacks. -/
theorem output_grammar {idleSeconds : Int} {σ : P2PServer}
    {trace : List (Transition P2PServer Event (List CodecSend))}
    (hrun : (machine idleSeconds).Run trace σ) (conn : Conn) :
    List.Forall₂ Answers (requestsOf conn trace) ((framesTo conn trace).filter isCallback) ∧
      (∀ frame ∈ framesTo conn trace, isCallback frame = false →
        (∃ t ∈ trace, ∃ p time, t.event = .message p frame time) ∧
          ∃ payload, frame = 0x03 :: payload) ∧
      ∀ frame ∈ framesTo conn trace, 1 ≤ frame.length ∧
        (0x81 ≤ frame.headD 0 → frame.headD 0 ≤ 0x87 → frame.length = 2) := by
  have hsteps : ∀ t ∈ trace, (machine idleSeconds).Step t :=
    fun t ht => (hrun.step_of_mem t ht).1
  have hframe : ∀ frame ∈ framesTo conn trace,
      (∃ code result, frame = [ProtocolCode.toByte code ||| callBackMask,
        CallBackStatus.toByte result]) ∨
      ((∃ t ∈ trace, ∃ p time, t.event = .message p frame time) ∧
        ∃ payload, frame = 0x03 :: payload) := by
    intro frame hmem
    obtain ⟨t, ht, hmem⟩ := List.mem_flatMap.mp hmem
    rcases data_of_step (hsteps t ht) hmem with hcallback | ⟨p, time, hevent, hcode⟩
    · exact Or.inl hcallback
    · exact Or.inr ⟨⟨t, ht, p, time, hevent⟩, ProtocolCode.sendData_message hcode⟩
  refine ⟨callbacks_of_steps hsteps conn, ?_, ?_⟩
  · intro frame hmem hdata
    rcases hframe frame hmem with ⟨code, result, rfl⟩ | hsent
    · rw [isCallback_callback] at hdata
      simp at hdata
    · exact hsent
  · intro frame hmem
    rcases hframe frame hmem with ⟨code, result, rfl⟩ | ⟨-, payload, rfl⟩
    · exact ⟨by simp, fun _ _ => rfl⟩
    · refine ⟨by simp, ?_⟩
      intro hlow
      change (0x81 : UInt8) ≤ 0x03 at hlow
      exact absurd hlow (by decide)

/-- Connection 1 gets the answer to its subscription, and then the data. -/
theorem output_grammar_ownerSends :
    ∃ trace, (machine 300).Run trace ownerSends.post ∧
      framesTo 1 trace = [[0x82, 1], [3, 120]] ∧
      List.Forall₂ Answers (requestsOf 1 trace) ((framesTo 1 trace).filter isCallback) := by
  exact ⟨_, run_ownerSends, by decide, (output_grammar run_ownerSends 1).1⟩

end Server
end StupidP2P
