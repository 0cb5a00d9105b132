import StupidP2P.Foundation.Since
import StupidP2P.Server.Traffic

/-!
# Who is sent what

`relay_at_most_once` bounds what a subscriber is sent; this module says what it is sent.  The
list `sendToList` of a connection is read off the history of the server: `s` is in the list of
`p` when `s` subscribed with success to an id `p` owned then, and nothing has taken it out since
(`mem_sendToList_since`).  A step that handles SEND_DATA of `p` forwards it to `s` exactly once
in that case and not at all otherwise (`forwarded_since`), and in a part of a run in which
nothing takes `s` out, `s` is sent all of `p`'s data (`delivered_in_full`).

What takes `s` out is little: DOWN or UNREGISTER of `p`, and DOWN, UNREGISTER or UNSUBSCRIBE of
`s` as long as `p` owns an id among those given up.  In particular no REGISTER does, of whatever
connection and whatever id, and nothing any third connection does.
-/

namespace StupidP2P
namespace Server

open Foundation

/-! ## One operation -/

namespace Registry

variable {C I : Type} [DecidableEq C] [DecidableEq I]
variable {sentinel : I} {r : Registry C I}

omit [DecidableEq C] in
/-- A subscription is accepted by the owner of the id. -/
theorem accepts_eq_some {c p : C} {id : I} (h : r.accepts c id = some p) :
    r.owner id = some p := by
  unfold accepts at h
  split at h
  · exact absurd h (by simp)
  · exact h

/-- The operation puts `s` into the list of `p`. -/
def Links (r : Registry C I) (p s : C) : Op C I → Prop
  | .subscribe c id => c = s ∧ r.accepts s id = some p
  | _ => False

/-- The operation takes `s` out of the list of `p`. -/
def Unlinks (r : Registry C I) (p s : C) : Op C I → Prop
  | .connect c => c = p
  | .unsubscribe c id => c = s ∧ id ∈ r.subs s ∧ r.owner id = some p
  | .unregister c => c = p ∨ c = s ∧ ∃ id ∈ r.subs s, r.owner id = some p
  | .disconnect c => c = p ∨ c = s ∧ ∃ id ∈ r.subs s, r.owner id = some p
  | _ => False

theorem mem_sendTo_unregister_iff {p s c : C} :
    s ∈ (r.unregister sentinel c).sendTo p ↔
      s ∈ r.sendTo p ∧ ¬ (c = p ∨ c = s ∧ ∃ id ∈ r.subs s, r.owner id = some p) := by
  rw [mem_sendTo_unregister]
  constructor
  · rintro ⟨hp, hs, hnone⟩
    refine ⟨hs, ?_⟩
    rintro (rfl | ⟨rfl, id, hid, howner⟩)
    · exact hp rfl
    · exact hnone rfl id hid howner
  · rintro ⟨hs, hnot⟩
    refine ⟨fun hp => hnot (Or.inl hp.symm), hs, ?_⟩
    rintro rfl id hid howner
    exact hnot (Or.inr ⟨rfl, id, hid, howner⟩)

/-- **One operation.**  `s` is in the list of `p` after it exactly if the operation put it
there, or it was there and the operation does not take it out. -/
theorem mem_sendTo_apply_iff (p s : C) (op : Op C I) :
    s ∈ (r.apply sentinel op).sendTo p ↔
      r.Links p s op ∨ s ∈ r.sendTo p ∧ ¬ r.Unlinks p s op := by
  cases op with
  | connect c =>
      simp only [apply, connect, Links, Unlinks, false_or]
      by_cases hc : c = p
      · simp [hc]
      · rw [Function.update_of_ne (Ne.symm hc)]
        simp [hc]
  | register c id => simp [apply, register, Links, Unlinks]
  | subscribe c id =>
      simp only [apply, subscribe, Links, Unlinks, not_false_eq_true, and_true]
      cases haccept : r.accepts c id with
      | none =>
          constructor
          · exact Or.inr
          · rintro (⟨rfl, hsome⟩ | hs)
            · rw [haccept] at hsome
              exact absurd hsome (by simp)
            · exact hs
      | some q =>
          simp only [Function.update_apply]
          by_cases hq : p = q
          · subst hq
            rw [if_pos rfl, mem_addNew, or_comm]
            constructor
            · rintro (rfl | hs)
              · exact Or.inl ⟨rfl, haccept⟩
              · exact Or.inr hs
            · rintro (⟨rfl, -⟩ | hs)
              · exact Or.inl rfl
              · exact Or.inr hs
          · rw [if_neg hq]
            constructor
            · exact Or.inr
            · rintro (⟨rfl, hsome⟩ | hs)
              · rw [haccept, Option.some.injEq] at hsome
                exact absurd hsome.symm hq
              · exact hs
  | unsubscribe c id =>
      simp only [apply, unsubscribe, Links, Unlinks, false_or]
      by_cases hid : id ∈ r.subs c
      · rw [if_pos hid]
        dsimp only
        by_cases howner : r.owner id = some p
        · rw [if_pos howner, List.mem_filter, decide_eq_true_eq]
          constructor
          · rintro ⟨hs, hne⟩
            exact ⟨hs, fun h => hne h.1.symm⟩
          · rintro ⟨hs, hnot⟩
            refine ⟨hs, ?_⟩
            rintro rfl
            exact hnot ⟨rfl, hid, howner⟩
        · rw [if_neg howner]
          simp [howner]
      · rw [if_neg hid]
        constructor
        · intro hs
          refine ⟨hs, ?_⟩
          rintro ⟨rfl, hmem, -⟩
          exact hid hmem
        · exact And.left
  | unregister c =>
      simp only [Links, Unlinks, false_or]
      exact mem_sendTo_unregister_iff
  | disconnect c =>
      simp only [Links, Unlinks, false_or]
      exact @mem_sendTo_unregister_iff C I _ _ sentinel r p s c
  | idle => simp [apply, Links, Unlinks]

/-- A connection that has not come up yet has nobody in its list. -/
def Unread (r : Registry C I) : Prop :=
  ∀ p s, s ∈ r.sendTo p → r.phase p ≠ .fresh

theorem fresh_of_apply {op : Op C I} {d : C} (h : (r.apply sentinel op).phase d = .fresh) :
    r.phase d = .fresh := by
  by_cases hlife : (∃ c, op = .connect c) ∨ ∃ c, op = .disconnect c
  · rcases hlife with ⟨c, rfl⟩ | ⟨c, rfl⟩ <;>
    · by_cases hdc : d = c
      · simp [apply, connect, disconnect, hdc] at h
      · simpa [apply, connect, disconnect, unregister, Function.update_of_ne hdc] using h
  · push Not at hlife
    rwa [phase_apply sentinel r hlife.1 hlife.2] at h

theorem unread_apply (hinv : r.Inv sentinel) (hunread : r.Unread) (op : Op C I) :
    (r.apply sentinel op).Unread := by
  intro p s hs hfresh
  rcases mem_sendTo_apply hs with hold | ⟨id, -, haccept⟩
  · exact hunread p s hold (fresh_of_apply hfresh)
  · exact hinv.owner_not_fresh id p (accepts_eq_some haccept) (fresh_of_apply hfresh)

end Registry

/-! ## One step of the server -/

/-- A SUBSCRIBE of `s` to an id that `p` owns, answered with success. -/
def SubscribesTo (p s : Conn) (t : Transition P2PServer Event (List CodecSend)) : Prop :=
  ∃ id time, t.event = .message s (ProtocolCode.subscribeDevice.toByte :: id) time ∧
    t.pre.connections id = some p ∧
    t.output = [P2PServer.callbackFunc s .subscribeDevice .execSuccess]

/-- DOWN or UNREGISTER of `conn` ends what `p` sends to `s`: it is `p`, or it is `s` and `p`
owns an id it subscribed to. -/
def GivesUp (p s : Conn) (σ : P2PServer) (conn : Conn) : Prop :=
  conn = p ∨ conn = s ∧ ∃ id ∈ (σ.context s).subscribeIdList, σ.connections id = some p

/-- The steps after which `p`'s data no longer goes to `s`. -/
def EndsDelivery (p s : Conn) (t : Transition P2PServer Event (List CodecSend)) : Prop :=
  match t.event with
  | .down conn => GivesUp p s t.pre conn
  | .message conn message _ =>
      match ProtocolCode.ofByte (message.headD 0) with
      | some .unregisterDevice => GivesUp p s t.pre conn
      | some .unsubscribeDevice =>
          conn = s ∧ message.drop 1 ∈ (t.pre.context s).subscribeIdList ∧
            t.pre.connections (message.drop 1) = some p
      | _ => False
  | _ => False

/-- A message with a known code starts with the byte of that code. -/
theorem ProtocolCode.eq_cons_of_ofByte {message : Message} {code : ProtocolCode}
    (h : ofByte (message.headD 0) = some code) : message = code.toByte :: message.drop 1 := by
  have hfirst := ofByte_eq_some h
  cases message with
  | nil => cases code <;> exact absurd hfirst (by decide)
  | cons first rest => exact congrArg (· :: rest) hfirst

theorem ProtocolCode.ofByte_toByte (code : ProtocolCode) : ofByte code.toByte = some code := by
  cases code <;> rfl

section

variable {idleSeconds : Int} {σ : P2PServer}
variable {t : Transition P2PServer Event (List CodecSend)}

theorem links_iff_subscribesTo (hstep : (machine idleSeconds).Step t) (p s : Conn) :
    t.pre.toRegistry.Links p s (opOf t.event) ↔ SubscribesTo p s t := by
  obtain ⟨pre, event, output, post⟩ := t
  have hexec := hstep.2
  unfold SubscribesTo
  dsimp only at hexec ⊢
  cases event with
  | up conn now | down conn | invalidLength conn | timer now lock =>
      simp [opOf, Registry.Links]
  | message conn message time =>
      by_cases hcode : ProtocolCode.ofByte (message.headD 0) = some .subscribeDevice
      · have hop : opOf (.message conn message time) = .subscribe conn (message.drop 1) := by
          simp only [opOf, hcode]
        have hout : output = [P2PServer.callbackFunc conn .subscribeDevice
            (pre.answer conn (message.drop 1) .subscribeDevice)] := onMessage_output hexec hcode
        rw [hop]
        constructor
        · rintro ⟨rfl, haccept⟩
          refine ⟨message.drop 1, time, ?_, Registry.accepts_eq_some haccept, ?_⟩
          · rw [← ProtocolCode.eq_cons_of_ofByte hcode]
          · rw [hout]
            simp only [P2PServer.answer, haccept, Option.isSome_some, if_true]
        · rintro ⟨id, time', hevent, howner, hsuccess⟩
          obtain ⟨rfl, rfl, rfl⟩ := Event.message.inj hevent
          refine ⟨rfl, ?_⟩
          rw [hout] at hsuccess
          -- Accepted, or the answer differs in its second byte.
          cases haccept : pre.toRegistry.accepts conn id with
          | some q =>
              have hq : some q = some p := (Registry.accepts_eq_some haccept).symm.trans howner
              exact haccept.trans hq
          | none =>
              simp only [P2PServer.answer, List.drop_succ_cons, List.drop_zero, haccept,
                Option.isSome_none, Bool.false_eq_true, if_false] at hsuccess
              exact absurd hsuccess (by simp [P2PServer.callbackFunc, CallBackStatus.toByte])
      · have hlinks : ¬ pre.toRegistry.Links p s (opOf (.message conn message time)) := by
          simp only [opOf]
          split <;> first | exact id | (rename_i h; exact absurd h hcode)
        refine iff_of_false hlinks ?_
        rintro ⟨id, time', hevent, -⟩
        obtain ⟨-, rfl, -⟩ := Event.message.inj hevent
        exact hcode (ProtocolCode.ofByte_toByte .subscribeDevice)

theorem unlinks_iff_endsDelivery (t : Transition P2PServer Event (List CodecSend))
    (p s : Conn) :
    t.pre.toRegistry.Unlinks p s (opOf t.event) ↔
      EndsDelivery p s t ∨ ∃ now, t.event = .up p now := by
  obtain ⟨pre, event, output, post⟩ := t
  unfold EndsDelivery
  dsimp only
  cases event with
  | up conn now =>
      simp [opOf, Registry.Unlinks]
  | down conn =>
      simp only [opOf, reduceCtorEq, exists_false, or_false]
      exact Iff.rfl
  | invalidLength conn | timer now lock => simp [opOf, Registry.Unlinks]
  | message conn message time =>
      simp only [opOf, reduceCtorEq, exists_false, or_false]
      cases ProtocolCode.ofByte (message.headD 0) with
      | none => exact Iff.rfl
      | some code => cases code <;> exact Iff.rfl

/-! ## Whole runs -/

theorem reachable_unread (hreach : (machine idleSeconds).Reachable σ) :
    σ.toRegistry.Unread := by
  suffices h : σ.toRegistry.Inv deleteId ∧ σ.toRegistry.Unread from h.2
  refine Machine.Reachable.invariant
    (fun σ => σ.toRegistry.Inv deleteId ∧ σ.toRegistry.Unread) ?_ ?_ hreach
  · refine ⟨Registry.inv_initial, ?_⟩
    intro p s hs
    exact absurd hs (by simp [machine, P2PServer.initial, P2PServer.toRegistry,
      ConnInfo.blank, NodeList.empty, NodeList.values])
  · rintro t hstep ⟨hinv, hunread⟩
    rw [exec_toRegistry hstep.2]
    exact ⟨Registry.inv_apply hinv (allowed_opOf hstep.1), Registry.unread_apply hinv hunread _⟩

/-- **The list of a connection in terms of the history.** -/
theorem mem_sendToList_since {trace : List (Transition P2PServer Event (List CodecSend))}
    (hrun : (machine idleSeconds).Run trace σ) (p s : Conn) :
    s ∈ (σ.context p).sendToList.values ↔
      Since (SubscribesTo p s) (EndsDelivery p s) trace := by
  refine hrun.since_iff (fun σ => s ∈ (σ.context p).sendToList.values) ?_ ?_
  · simp [machine, P2PServer.initial, ConnInfo.blank, NodeList.empty, NodeList.values]
  · intro t hstep hreach
    have hone := @Registry.mem_sendTo_apply_iff Conn DeviceId _ _ deleteId t.pre.toRegistry p s
      (opOf t.event)
    rw [← exec_toRegistry hstep.2, links_iff_subscribesTo hstep, unlinks_iff_endsDelivery] at hone
    refine hone.trans (or_congr Iff.rfl (and_congr_right ?_))
    intro hs
    -- A connection comes up only once, before anybody is in its list.
    rw [not_or, and_iff_left_iff_imp]
    rintro - ⟨now, hup⟩
    have hfresh : t.pre.state p = .kConnecting := by
      have henabled := hstep.1
      rw [hup] at henabled
      exact henabled
    refine reachable_unread hreach p s hs ?_
    show (t.pre.state p).phase = .fresh
    rw [hfresh]
    rfl

/-- What a step forwards to `s`, given whether `s` is in the list. -/
theorem forwarded_eq (hstep : (machine idleSeconds).Step t)
    (hnodup : ∀ p, (t.pre.context p).sendToList.values.Nodup) (p s : Conn) :
    forwarded p s t =
      if s ∈ (t.pre.context p).sendToList.values then sendDataOf p t else [] := by
  rcases step_output hstep with ⟨conn, message, time, code, result, hevent, hcode, hout⟩ |
      ⟨hnil, hnorequest⟩
  · unfold forwarded sendDataOf
    rw [hevent]
    dsimp only
    by_cases hconn : conn = p
    · subst hconn
      have hcallback : (if conn = s then [[code.toByte ||| callBackMask, result.toByte]]
          else []).filter isData = [] := by
        split
        · rw [List.filter_cons_of_neg (by rw [isData_callback]; simp), List.filter_nil]
        · rfl
      rw [if_pos rfl, stepFramesTo_request hout, List.filter_append, hcallback, List.append_nil]
      by_cases hdata : code = .sendData
      · subst hdata
        have hreceivers : t.pre.receivers conn .sendData =
            (t.pre.context conn).sendToList.values := if_pos rfl
        have hkept : [message].filter isData = [message] :=
          List.filter_cons_of_pos (not_isCallback_sendData hcode).2
        have hsent : conn = conn ∧ ProtocolCode.ofByte (message.headD 0) = some .sendData :=
          ⟨rfl, hcode⟩
        rw [hreceivers, (hnodup conn).count, if_pos hsent]
        by_cases hs : s ∈ (t.pre.context conn).sendToList.values
        · rw [if_pos hs, if_pos hs]
          exact hkept
        · rw [if_neg hs, if_neg hs]
          rfl
      · have hnobody : t.pre.receivers conn code = [] := if_neg hdata
        have hsent : ¬ (conn = conn ∧
            ProtocolCode.ofByte (message.headD 0) = some .sendData) := by
          rintro ⟨-, hsend⟩
          rw [hcode, Option.some.injEq] at hsend
          exact hdata hsend
        rw [hnobody, if_neg hsent, ite_self]
        rfl
    · have hsent : ¬ (conn = p ∧ ProtocolCode.ofByte (message.headD 0) = some .sendData) :=
        fun h => hconn h.1
      rw [if_neg hconn, if_neg hsent, ite_self]
  · have hforwarded : forwarded p s t = [] := by
      unfold forwarded stepFramesTo
      rw [hnil]
      split
      · split <;> rfl
      · rfl
    have hsent : sendDataOf p t = [] := by
      have hnone := hnorequest p
      unfold sendDataOf
      split
      · rename_i conn message time hevent
        rw [hevent] at hnone
        rw [if_neg]
        rintro ⟨rfl, hcode⟩
        rw [requestOf, if_pos rfl, hcode] at hnone
        exact absurd hnone (by simp)
      · rfl
    rw [hforwarded, hsent, ite_self]

theorem forwarded_of_since
    {before after : List (Transition P2PServer Event (List CodecSend))} {p s : Conn}
    (hrun : (machine idleSeconds).Run (before ++ t :: after) σ)
    (hsince : Since (SubscribesTo p s) (EndsDelivery p s) before) :
    forwarded p s t = sendDataOf p t := by
  obtain ⟨hbefore, hstep⟩ := hrun.to_step
  have hnodup := fun q => (reachable_lists_nodup ⟨before, hbefore⟩ q).1
  rw [forwarded_eq hstep hnodup, if_pos ((mem_sendToList_since hbefore p s).mpr hsince)]

/-- **Who is sent what.**  A step that handles SEND_DATA of `p` forwards the message to `s`,
once, if `s` subscribed with success to an id `p` owned then and nothing has ended it since;
otherwise it forwards nothing to `s`. -/
theorem forwarded_since {before after : List (Transition P2PServer Event (List CodecSend))}
    (hrun : (machine idleSeconds).Run (before ++ t :: after) σ) (p s : Conn) :
    (Since (SubscribesTo p s) (EndsDelivery p s) before → forwarded p s t = sendDataOf p t) ∧
      (¬ Since (SubscribesTo p s) (EndsDelivery p s) before → forwarded p s t = []) := by
  refine ⟨forwarded_of_since hrun, ?_⟩
  intro hnot
  obtain ⟨hbefore, hstep⟩ := hrun.to_step
  have hnodup := fun q => (reachable_lists_nodup ⟨before, hbefore⟩ q).1
  rw [forwarded_eq hstep hnodup, if_neg (mt (mem_sendToList_since hbefore p s).mp hnot)]

/-- Connection 1 subscribed to `"a"`, so it is sent what its owner sends; connection 2 did
not. -/
theorem forwarded_since_ownerSends :
    (machine 300).Run ([comesUp, registersA, secondUp, subscribesA] ++ ownerSends :: [])
        ownerSends.post ∧
      forwarded 0 1 ownerSends = [[3, 120]] ∧ forwarded 0 2 ownerSends = [] := by
  have hsubscribes : SubscribesTo 0 1 subscribesA := ⟨[97], 0, rfl, rfl, rfl⟩
  have hnever : ¬ Since (SubscribesTo 0 2) (EndsDelivery 0 2)
      [comesUp, registersA, secondUp, subscribesA] := by
    rintro ⟨before, t, after, hsplit, ⟨id, time, hevent, -⟩, -⟩
    have hmem : t ∈ [comesUp, registersA, secondUp, subscribesA] := by
      rw [hsplit]
      simp
    simp only [List.mem_cons, List.not_mem_nil, or_false] at hmem
    rcases hmem with rfl | rfl | rfl | rfl
    · exact absurd hevent (by simp [comesUp, stepAfter])
    · exact absurd hevent (by simp [registersA, stepAfter])
    · exact absurd hevent (by simp [secondUp, stepAfter])
    · exact absurd hevent (by simp [subscribesA, stepAfter])
  have hsince : Since (SubscribesTo 0 1) (EndsDelivery 0 1)
      [comesUp, registersA, secondUp, subscribesA] :=
    ⟨[comesUp, registersA, secondUp], subscribesA, [], rfl, hsubscribes, by simp⟩
  have hrun : (machine 300).Run
      ([comesUp, registersA, secondUp, subscribesA] ++ ownerSends :: []) ownerSends.post :=
    run_ownerSends
  exact ⟨hrun, (forwarded_since hrun 0 1).1 hsince, (forwarded_since hrun 0 2).2 hnever⟩

/-- While `s` stays in the list of `p`, it is sent all that `p` sends. -/
theorem forwarded_while {p s : Conn}
    {before during after : List (Transition P2PServer Event (List CodecSend))}
    (hrun : (machine idleSeconds).Run (before ++ (during ++ after)) σ)
    (hsince : Since (SubscribesTo p s) (EndsDelivery p s) before)
    (hduring : ∀ u ∈ during, ¬ EndsDelivery p s u) :
    during.flatMap (forwarded p s) = during.flatMap (sendDataOf p) := by
  induction during generalizing before with
  | nil => rfl
  | cons u during ih =>
      have hfirst : forwarded p s u = sendDataOf p u := forwarded_of_since hrun hsince
      have hone : ¬ EndsDelivery p s u := hduring u (by simp)
      have hsince' : Since (SubscribesTo p s) (EndsDelivery p s) (before ++ [u]) :=
        hsince.append (by simpa using hone)
      rw [List.cons_append, List.append_cons] at hrun
      rw [List.flatMap_cons, List.flatMap_cons, hfirst, ih hrun hsince']
      intro v hv
      exact hduring v (List.mem_cons_of_mem _ hv)

/-- **Delivery in full.**  From a SUBSCRIBE of `s` to an id of `p` that was answered with
success, and as long as nothing ends it, everything `p` sends is forwarded to `s`, once and in
order, whatever `p`, `s` and all other connections register and subscribe to meanwhile. -/
theorem delivered_in_full {p s : Conn}
    {before during after : List (Transition P2PServer Event (List CodecSend))}
    (hrun : (machine idleSeconds).Run (before ++ t :: (during ++ after)) σ)
    (hsubscribes : SubscribesTo p s t) (hduring : ∀ u ∈ during, ¬ EndsDelivery p s u) :
    during.flatMap (forwarded p s) = during.flatMap (sendDataOf p) := by
  have hsince : Since (SubscribesTo p s) (EndsDelivery p s) (before ++ [t]) :=
    since_of_opens hsubscribes (by simp)
  rw [List.append_cons] at hrun
  exact forwarded_while hrun hsince hduring

/-- What connection 0 sends after the SUBSCRIBE of connection 1 is all forwarded to it. -/
theorem delivered_in_full_ownerSends :
    (machine 300).Run ([comesUp, registersA, secondUp] ++ subscribesA :: ([ownerSends] ++ []))
        ownerSends.post ∧
      [ownerSends].flatMap (forwarded 0 1) = [[3, 120]] := by
  have hsubscribes : SubscribesTo 0 1 subscribesA := ⟨[97], 0, rfl, rfl, rfl⟩
  have hrun : (machine 300).Run
      ([comesUp, registersA, secondUp] ++ subscribesA :: ([ownerSends] ++ []))
        ownerSends.post := run_ownerSends
  refine ⟨hrun, delivered_in_full hrun hsubscribes ?_⟩
  intro u hu
  rw [List.mem_singleton] at hu
  subst hu
  exact id

/-! ## Data while nothing parts two connections -/

/-- Events with which `p` or `s` may end what `p` sends to `s`. -/
def Parts (p s : Conn) : Event → Prop
  | .down conn => conn = p ∨ conn = s
  | .message conn message _ =>
      (conn = p ∨ conn = s) ∧
        ProtocolCode.ofByte (message.headD 0) = some .unregisterDevice ∨
      conn = s ∧ ProtocolCode.ofByte (message.headD 0) = some .unsubscribeDevice
  | _ => False

theorem parts_of_endsDelivery {p s : Conn}
    {t : Transition P2PServer Event (List CodecSend)} (h : EndsDelivery p s t) :
    Parts p s t.event := by
  have hgives : ∀ conn, GivesUp p s t.pre conn → conn = p ∨ conn = s :=
    fun conn hgives => hgives.imp id And.left
  obtain ⟨pre, event, output, post⟩ := t
  unfold EndsDelivery at h
  dsimp only at h hgives ⊢
  cases event with
  | up conn now | invalidLength conn | timer now lock => exact h.elim
  | down conn => exact hgives conn h
  | message conn message time =>
      dsimp only at h
      cases hcode : ProtocolCode.ofByte (message.headD 0) with
      | none =>
          rw [hcode] at h
          exact h.elim
      | some code =>
          rw [hcode] at h
          cases code with
          | unregisterDevice => exact Or.inl ⟨hgives conn h, hcode⟩
          | unsubscribeDevice => exact Or.inr ⟨h.1, hcode⟩
          | registerDevice | subscribeDevice | sendData | checkDeviceAlive | heartBeat =>
              exact h.elim

theorem isData_iff {message : Message} :
    ProtocolCode.ofByte (message.headD 0) = some .sendData ↔ isData message = true := by
  rw [isData, decide_eq_true_iff]
  constructor
  · intro h
    exact ProtocolCode.ofByte_eq_some h
  · intro h
    rw [h]
    rfl

theorem sendDataOf_eq (p : Conn) (t : Transition P2PServer Event (List CodecSend)) :
    sendDataOf p t = (messageOf p t).toList.filter isData := by
  obtain ⟨pre, event, output, post⟩ := t
  cases event with
  | message conn message time =>
      simp only [sendDataOf, messageOf, isData_iff]
      by_cases hconn : conn = p
      · simp only [hconn, true_and, if_true, Option.toList_some, List.filter_singleton,
          Bool.cond_eq_ite]
      · simp [hconn]
  | up | down | invalidLength | timer => rfl

/-- The data messages taken from `p`. -/
theorem flatMap_sendDataOf (p : Conn)
    (trace : List (Transition P2PServer Event (List CodecSend))) :
    trace.flatMap (sendDataOf p) = (messagesOf p trace).filter isData := by
  induction trace with
  | nil => rfl
  | cons t trace ih =>
      rw [List.flatMap_cons, ih, sendDataOf_eq, messagesOf, messagesOf, List.filterMap_cons]
      cases messageOf p t with
      | none => rfl
      | some message =>
          rw [Option.toList_some, ← List.filter_append]
          rfl

theorem flatMap_forwarded_sublist (p s : Conn)
    (trace : List (Transition P2PServer Event (List CodecSend))) :
    (trace.flatMap (forwarded p s)).Sublist ((framesTo s trace).filter isData) := by
  induction trace with
  | nil => exact List.Sublist.refl _
  | cons t trace ih =>
      have hframes : framesTo s (t :: trace) = stepFramesTo s t ++ framesTo s trace :=
        List.flatMap_cons
      rw [List.flatMap_cons, hframes, List.filter_append]
      refine List.Sublist.append ?_ ih
      unfold forwarded
      split
      · split
        · exact List.Sublist.refl _
        · exact List.nil_sublist _
      · exact List.nil_sublist _

/-- Server-side delivery: after `before`, at whose end `s` is in the list of `p`, and as long as
nothing parts them, the data messages of `p` are among the frames sent to `s`. -/
theorem data_sublist_framesTo {σ₁ : P2PServer} {p s : Conn}
    {before during : List (Transition P2PServer Event (List CodecSend))}
    (hrun : (machine idleSeconds).Run (before ++ during) σ)
    (hbefore : (machine idleSeconds).Run before σ₁)
    (hlinked : s ∈ (σ₁.context p).sendToList.values)
    (hstay : ∀ u ∈ during, ¬ Parts p s u.event) :
    ((messagesOf p during).filter isData).Sublist ((framesTo s during).filter isData) := by
  have hsince := (mem_sendToList_since hbefore p s).mp hlinked
  have hall : during.flatMap (forwarded p s) = during.flatMap (sendDataOf p) := by
    have hrun' : (machine idleSeconds).Run (before ++ (during ++ [])) σ := by
      rw [List.append_nil]
      exact hrun
    exact forwarded_while hrun' hsince fun u hu hends =>
      hstay u hu (parts_of_endsDelivery hends)
  rw [← flatMap_sendDataOf, ← hall]
  exact flatMap_forwarded_sublist p s during

end

end Server
end StupidP2P
