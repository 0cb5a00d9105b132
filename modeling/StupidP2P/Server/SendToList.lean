import StupidP2P.Server.Subscription

/-!
# Who may be in a list of receivers

A `sendToList` holds owning pointers.  Two kinds of entry should not be there: a
connection that is closed, which could not be released, and the connection the list
belongs to.

* Closed connections: clean-up walks the ids of the leaving subscriber and looks
  each one up in `_connections`.  A list that is not found that way keeps the
  subscriber.  Without takeovers of ids that somebody subscribed to, every list is
  found.
* Self-subscription: the guard of `subscribeDeviceFunc` compares with the current
  `deviceId` only, so a connection that registered a second id can subscribe to the
  first.
-/

namespace StupidP2P
namespace Server

open Foundation

/-! ## Closed connections -/

/-- No `sendToList` has a connection whose DOWN was processed. -/
def NoClosedReceiver (σ : P2PServer) : Prop :=
  ∀ conn p, σ.state conn = .kDisconnected → conn ∉ (σ.context p).sendToList.values

/-- When a connection goes down, every other connection that has it in its
`sendToList` owns an id it subscribed to. -/
def FoundByCleanUp (σ : P2PServer) (event : Event) : Prop :=
  σ.toRegistry.ClearedCond (opOf event)

/-- A REGISTER takes an id over from another connection only if everyone in the list
of that connection subscribed to a second id it owns. -/
def TakesOverNoReceiver (σ : P2PServer) (event : Event) : Prop :=
  σ.toRegistry.TakeoverCond (opOf event)

theorem noClosedReceiver_iff_cleared (σ : P2PServer) :
    NoClosedReceiver σ ↔ σ.toRegistry.Cleared := by
  have hgone : ∀ conn, σ.toRegistry.phase conn = .gone ↔ σ.state conn = .kDisconnected := by
    intro conn
    show (σ.state conn).phase = .gone ↔ _
    cases σ.state conn <;> simp [TcpState.phase]
  simp only [NoClosedReceiver, Registry.Cleared, hgone]
  rfl

theorem noClosedReceiver_initial : NoClosedReceiver P2PServer.initial := by
  intro conn p hstate
  simp [P2PServer.initial] at hstate

/-- A run whose takeovers all leave the receivers a second id has no closed receiver. -/
theorem noClosedReceiver_of_takeovers {idleSeconds : Int} {σ : P2PServer}
    {trace : List (Transition P2PServer Event (List CodecSend))}
    (hrun : (machine idleSeconds).Run trace σ)
    (hcond : ∀ t ∈ trace, TakesOverNoReceiver t.pre t.event) :
    ∀ τ ∈ (machine idleSeconds).visited trace, NoClosedReceiver τ := by
  have hall := hrun.conditional_visited
    (fun σ => σ.toRegistry.Inv deleteId ∧ ∀ p, σ.toRegistry.Justified p)
    TakesOverNoReceiver ?_ ?_ hcond
  · intro τ hτ
    rw [noClosedReceiver_iff_cleared]
    exact Registry.cleared_of_justified (hall τ hτ).1 (hall τ hτ).2
  · refine ⟨Registry.inv_initial, ?_⟩
    intro p s hs
    change s ∈ [] at hs
    simp at hs
  · intro t hstep _ hpre ht
    rw [exec_toRegistry hstep.2]
    exact ⟨Registry.inv_apply hpre.1 (allowed_opOf hstep.1),
      Registry.justified_apply hpre.1 hpre.2 (allowed_opOf hstep.1) ht⟩

/-- **No closed receiver.**  All states of a run are free of closed receivers exactly
when every connection that goes down is found by its clean-up.  It always is in a run
whose takeovers all meet `TakesOverNoReceiver`. -/
theorem no_closed_receiver_iff {idleSeconds : Int} {σ : P2PServer}
    {trace : List (Transition P2PServer Event (List CodecSend))}
    (hrun : (machine idleSeconds).Run trace σ) :
    ((∀ τ ∈ (machine idleSeconds).visited trace, NoClosedReceiver τ) ↔
        ∀ t ∈ trace, FoundByCleanUp t.pre t.event) ∧
      ((∀ t ∈ trace, TakesOverNoReceiver t.pre t.event) →
        ∀ τ ∈ (machine idleSeconds).visited trace, NoClosedReceiver τ) := by
  refine ⟨?_, noClosedReceiver_of_takeovers hrun⟩
  refine hrun.exact_visited NoClosedReceiver FoundByCleanUp noClosedReceiver_initial ?_
  -- One step, seen in the registry.
  intro t hstep _ hpre
  rw [noClosedReceiver_iff_cleared, exec_toRegistry hstep.2]
  exact Registry.cleared_apply_iff ((noClosedReceiver_iff_cleared _).mp hpre)
    (allowed_opOf hstep.1)

/-- Connection 2, subscribed to `"a"` before the takeover, is closed. -/
def closedAfterTakeover : List Event :=
  subscribedThenTaken ++ [.down 2]

/-- The displaced connection 0 keeps connection 2 in its list. -/
theorem closed_receiver_after_takeover :
    ¬ ∀ σ, (machine 300).Reachable σ → NoClosedReceiver σ := by
  intro h
  exact h _ (reachable_after closedAfterTakeover) 2 0 (by decide +kernel) (by decide +kernel)

/-- The subscriber of `"a"` goes down, with no takeover before. -/
def subscriberLeaves : Transition P2PServer Event (List CodecSend) :=
  stepAfter [.up 0 0, .message 0 [1, 97] 0, .up 1 0, .message 1 [2, 97] 0] (.down 1) []

theorem no_closed_receiver_subscriberLeaves :
    subscriberLeaves.post.state 1 = .kDisconnected ∧
      ∀ τ ∈ (machine 300).visited
          [comesUp, registersA, secondUp, subscribesA, subscriberLeaves],
        NoClosedReceiver τ := by
  have hstep : (machine 300).Step subscriberLeaves := ⟨rfl, rfl⟩
  have hrun : (machine 300).Run
      [comesUp, registersA, secondUp, subscribesA, subscriberLeaves] subscriberLeaves.post :=
    .step run_subscribesA hstep
  refine ⟨by decide +kernel, (no_closed_receiver_iff hrun).2 ?_⟩
  intro t ht
  simp only [List.mem_cons, List.not_mem_nil, or_false] at ht
  rcases ht with rfl | rfl | rfl | rfl | rfl
  · trivial
  · -- Nobody owned `"a"` before.
    intro old hold
    change (none : Option Conn) = some old at hold
    simp at hold
  · trivial
  · trivial
  · trivial

/-! ## Self-subscription -/

/-- No connection is in its own `sendToList`. -/
def NoSelfReceiver (σ : P2PServer) : Prop :=
  ∀ conn, conn ∉ (σ.context conn).sendToList.values

/-- If the step handles a SEND_DATA message, it is not sent back to its sender. -/
def NotSentBack (t : Transition P2PServer Event (List CodecSend)) : Prop :=
  ∀ p message time σ' sends, t.event = .message p message time →
    ProtocolCode.ofByte (message.headD 0) = some .sendData →
    t.pre.sendDataFunc p message = some (σ', sends) → ∀ send ∈ sends, send.conn ≠ p

/-- A connection that subscribes to an id it owns asks for its current `deviceId`. -/
def SubscribesNoOldId (σ : P2PServer) (event : Event) : Prop :=
  σ.toRegistry.SelflessCond (opOf event)

theorem notSentBack_of_noSelfReceiver {t : Transition P2PServer Event (List CodecSend)}
    (hpre : NoSelfReceiver t.pre) : NotSentBack t := by
  intro p message time σ' sends _ _ hsend send hmem
  rw [(P2PServer.sendDataFunc_eq_some hsend).2] at hmem
  obtain ⟨receiver, hreceiver, rfl⟩ := List.mem_map.mp hmem
  intro heq
  dsimp only at heq
  rw [heq] at hreceiver
  exact hpre p hreceiver

/-- **No self-subscription.**  In a run no connection is ever in its own list, and no
data is sent back to its sender, exactly when nobody subscribes to an id it owns
other than its `deviceId`. -/
theorem no_self_subscription_iff {idleSeconds : Int} {σ : P2PServer}
    {trace : List (Transition P2PServer Event (List CodecSend))}
    (hrun : (machine idleSeconds).Run trace σ) :
    ((∀ τ ∈ (machine idleSeconds).visited trace, NoSelfReceiver τ) ∧
        ∀ t ∈ trace, NotSentBack t) ↔
      ∀ t ∈ trace, SubscribesNoOldId t.pre t.event := by
  refine hrun.exact_visited_and NoSelfReceiver NotSentBack SubscribesNoOldId ?_ ?_
  · intro conn hmem
    change conn ∈ [] at hmem
    simp at hmem
  · intro t hstep _ hpre
    -- The data of this step goes to the list before it, so only the list after it counts.
    have hself : t.pre.toRegistry.Selfless := hpre
    rw [and_iff_left (notSentBack_of_noSelfReceiver hpre)]
    show t.post.toRegistry.Selfless ↔ _
    rw [exec_toRegistry hstep.2]
    exact Registry.selfless_apply_iff hself

/-- Connection 0 registers `"a"`, then `"b"`, then subscribes to `"a"`. -/
def subscribesToItself : List Event :=
  registersTwice ++ [.message 0 [2, 97] 0]

theorem self_subscription_after_second_register :
    ¬ ∀ σ, (machine 300).Reachable σ → NoSelfReceiver σ := by
  intro h
  exact h _ (reachable_after subscribesToItself) 0 (by decide +kernel)

theorem no_self_subscription_subscribesA :
    (machine 300).Run [comesUp, registersA, secondUp, subscribesA] subscribesA.post ∧
      (∀ τ ∈ (machine 300).visited [comesUp, registersA, secondUp, subscribesA],
        NoSelfReceiver τ) ∧
      ∀ t ∈ [comesUp, registersA, secondUp, subscribesA], NotSentBack t := by
  refine ⟨run_subscribesA, (no_self_subscription_iff run_subscribesA).mpr ?_⟩
  intro t ht
  simp only [List.mem_cons, List.not_mem_nil, or_false] at ht
  rcases ht with rfl | rfl | rfl | rfl
  · trivial
  · trivial
  · trivial
  · -- `"a"` is owned by connection 0, the subscriber is connection 1.
    intro howner
    change some 0 = some 1 at howner
    simp at howner

end Server
end StupidP2P
