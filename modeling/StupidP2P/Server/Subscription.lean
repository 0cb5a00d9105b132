import StupidP2P.Server.Agreement

/-!
# Who receives the data of an id

A subscription is stored twice: as an id in the `subscribeIdList` of the
subscriber and as a connection in the `sendToList` of the owner of the id.  Only
`sendToList` decides where data goes.

* Completeness: a subscriber of an id is in the list of its owner.  A change of
  owner does not move the list, UNSUBSCRIBE removes the subscriber whatever else it
  subscribed to, and a departing owner clears its list but may keep an entry; apart
  from these three cases completeness is kept.
* Soundness: data reaches a connection only on account of an id it subscribed to
  and the sender owns.  Only a takeover can break it: the displaced connection keeps
  its list and can still send.
-/

namespace StupidP2P
namespace Server

open Foundation

/-- Every live subscriber of an owned id is in the owner's list. -/
def SubscriptionComplete (σ : P2PServer) : Prop :=
  ∀ s p id, s ≠ p → σ.live s = true → id ∈ (σ.context s).subscribeIdList →
    σ.connections id = some p → s ∈ (σ.context p).sendToList.values

/-- The requests that keep `SubscriptionComplete`:
a REGISTER of a new id finds all other subscribers of that id in the list of the
registering connection; an UNSUBSCRIBE comes from a subscriber with no second id of
the same owner; an UNREGISTER or DOWN comes from a connection that owns no id,
except the one it erases, to which another connection subscribed. -/
def KeepsSubscribers (σ : P2PServer) (event : Event) : Prop :=
  σ.toRegistry.CompleteCond deleteId (opOf event)

theorem subscriptionComplete_iff_complete {σ : P2PServer}
    (hinv : σ.toRegistry.Inv deleteId) :
    SubscriptionComplete σ ↔ σ.toRegistry.Complete := by
  constructor
  · intro h s p id hsp hid howner
    have hlive : σ.toRegistry.phase s = .live := by
      by_contra hdead
      rw [hinv.subs_of_not_live s hdead] at hid
      simp at hid
    exact h s p id hsp (phase_live_iff.mp hlive) hid howner
  · intro h s p id hsp _ hid howner
    exact h s p id hsp hid howner

theorem subscriptionComplete_initial : SubscriptionComplete P2PServer.initial := by
  intro s p id _ hlive
  simp [P2PServer.live, P2PServer.initial] at hlive

/-- **Subscription completeness.**  A run passes through complete states only,
exactly when all its steps meet `KeepsSubscribers`. -/
theorem subscription_complete_iff {idleSeconds : Int} {σ : P2PServer}
    {trace : List (Transition P2PServer Event (List CodecSend))}
    (hrun : (machine idleSeconds).Run trace σ) :
    (∀ τ ∈ (machine idleSeconds).visited trace, SubscriptionComplete τ) ↔
      ∀ t ∈ trace, KeepsSubscribers t.pre t.event := by
  refine hrun.exact_visited SubscriptionComplete KeepsSubscribers
    subscriptionComplete_initial ?_
  intro t hstep hreach hpre
  have hinv := reachable_inv hreach
  rw [subscriptionComplete_iff_complete (reachable_inv (hreach.step hstep)),
    exec_toRegistry hstep.2]
  exact Registry.complete_apply_iff hinv
    ((subscriptionComplete_iff_complete hinv).mp hpre) (allowed_opOf hstep.1)

/-- Connection 2 subscribes to `"a"`, owned by 0; then 1 takes `"a"` over. -/
def subscribedThenTaken : List Event :=
  [.up 0 0, .up 1 0, .up 2 0, .message 0 [1, 97] 0, .message 2 [2, 97] 0,
    .message 1 [1, 97] 0]

/-- The subscriber is not in the list of the new owner, although it was never shut
down. -/
theorem subscription_complete_fails_after_takeover :
    ¬ ∀ σ, (machine 300).Reachable σ → ∀ s p id, s ≠ p → σ.connected s = true →
      id ∈ (σ.context s).subscribeIdList → σ.connections id = some p →
      s ∈ (σ.context p).sendToList.values := by
  intro h
  have hmem := h _ (reachable_after subscribedThenTaken) 2 1 [97] (by decide)
    (by decide +kernel) (by decide +kernel) (by decide +kernel)
  exact absurd hmem (by decide +kernel)

/-- Connection 1 comes up after connection 0 registered `"a"`, and subscribes. -/
def secondUp : Transition P2PServer Event (List CodecSend) :=
  stepAfter [.up 0 0, .message 0 [1, 97] 0] (.up 1 0) []

def subscribesA : Transition P2PServer Event (List CodecSend) :=
  stepAfter [.up 0 0, .message 0 [1, 97] 0, .up 1 0] (.message 1 [2, 97] 0)
    [P2PServer.callbackFunc 1 .subscribeDevice .execSuccess]

theorem run_subscribesA :
    (machine 300).Run [comesUp, registersA, secondUp, subscribesA] subscribesA.post := by
  have hup : (machine 300).Step secondUp := ⟨rfl, rfl⟩
  have hsubscribe : (machine 300).Step subscribesA := ⟨rfl, rfl⟩
  exact .step (.step run_registersA hup) hsubscribe

/-- Nobody but connection 0 is up when `"a"` is registered, so there is no
subscriber to lose. -/
theorem keepsSubscribers_registersA : KeepsSubscribers registersA.pre registersA.event := by
  intro _ s hs hid
  have hfresh : registersA.pre.toRegistry.phase s ≠ .live := by
    have hstate : registersA.pre.state =
        Function.update P2PServer.initial.state 0 .kConnected := rfl
    simp [P2PServer.toRegistry, hstate, Function.update_of_ne hs, P2PServer.initial,
      TcpState.phase]
  have hempty := (reachable_inv (reachable_after [.up 0 0])).subs_of_not_live s hfresh
  rw [show registersA.pre.toRegistry.subs s = [] from hempty] at hid
  simp at hid

theorem subscription_complete_subscribesA :
    (machine 300).Run [comesUp, registersA, secondUp, subscribesA] subscribesA.post ∧
      ∀ τ ∈ (machine 300).visited [comesUp, registersA, secondUp, subscribesA],
        SubscriptionComplete τ := by
  refine ⟨run_subscribesA, (subscription_complete_iff run_subscribesA).mpr ?_⟩
  intro t ht
  simp only [List.mem_cons, List.not_mem_nil, or_false] at ht
  rcases ht with rfl | rfl | rfl | rfl
  · trivial
  · exact keepsSubscribers_registersA
  · trivial
  · trivial

/-! ## Soundness -/

/-- If the step handles a SEND_DATA message of `p`, whoever it is forwarded to
subscribed to an id that `p` owns. -/
def ForwardsToSubscribers (t : Transition P2PServer Event (List CodecSend)) : Prop :=
  ∀ p message time σ' sends, t.event = .message p message time →
    ProtocolCode.ofByte (message.headD 0) = some .sendData →
    t.pre.sendDataFunc p message = some (σ', sends) →
    ∀ send ∈ sends, ∃ id ∈ (t.pre.context send.conn).subscribeIdList,
      t.pre.connections id = some p

/-- A REGISTER takes an id over from another live connection only if everyone in
the list of that connection subscribed to a second id it owns. -/
def TakesOverNoSubscriber (σ : P2PServer) (event : Event) : Prop :=
  σ.toRegistry.SoundCond (opOf event)

/-- **Subscription soundness.**  In a run whose steps all meet
`TakesOverNoSubscriber`, data is forwarded to subscribers only. -/
theorem subscription_sound {idleSeconds : Int} {σ : P2PServer}
    {trace : List (Transition P2PServer Event (List CodecSend))}
    (hrun : (machine idleSeconds).Run trace σ)
    (hcond : ∀ t ∈ trace, TakesOverNoSubscriber t.pre t.event) :
    ∀ t ∈ trace, ForwardsToSubscribers t := by
  have hsound := (hrun.conditional (fun σ => σ.toRegistry.Sound) TakesOverNoSubscriber
    ?_ ?_ hcond).2
  · intro t ht p message time σ' sends hevent hcode hsend send hmem
    obtain ⟨⟨henabled, -⟩, -⟩ := hrun.step_of_mem t ht
    rw [hevent] at henabled
    have hlive : t.pre.toRegistry.phase p = .live := phase_live_iff.mpr henabled
    rw [(P2PServer.sendDataFunc_eq_some hsend).2] at hmem
    obtain ⟨receiver, hreceiver, rfl⟩ := List.mem_map.mp hmem
    exact (hsound t ht).1 p receiver hlive hreceiver
  · intro p s hlive
    change Phase.fresh = Phase.live at hlive
    simp at hlive
  · intro t hstep hreach hpre ht
    rw [exec_toRegistry hstep.2]
    exact (Registry.sound_apply_iff (reachable_inv hreach) hpre (allowed_opOf hstep.1)).mpr ht

/-- The displaced connection 0 sends data, which still reaches connection 2. -/
def displacedSends : Transition P2PServer Event (List CodecSend) :=
  stepAfter subscribedThenTaken (.message 0 [3, 120] 0)
    [⟨2, [3, 120]⟩, P2PServer.callbackFunc 0 .sendData .execSuccess]

theorem subscription_sound_fails_after_takeover :
    ¬ ∀ trace σ, (machine 300).Run trace σ → ∀ t ∈ trace, ForwardsToSubscribers t := by
  intro h
  obtain ⟨trace, hrun⟩ := reachable_after subscribedThenTaken
  have hrun : (machine 300).Run trace displacedSends.pre := hrun
  have hstep : (machine 300).Step displacedSends := ⟨rfl, rfl⟩
  have hforward := h _ _ (.step hrun hstep) displacedSends (by simp) 0 [3, 120] 0
    displacedSends.post [⟨2, [3, 120]⟩] rfl rfl rfl ⟨2, [3, 120]⟩ (by simp)
  exact absurd hforward (by decide +kernel)

/-- Connection 0 sends data after connection 1 subscribed to `"a"`. -/
def ownerSends : Transition P2PServer Event (List CodecSend) :=
  stepAfter [.up 0 0, .message 0 [1, 97] 0, .up 1 0, .message 1 [2, 97] 0]
    (.message 0 [3, 120] 0)
    [⟨1, [3, 120]⟩, P2PServer.callbackFunc 0 .sendData .execSuccess]

theorem run_ownerSends :
    (machine 300).Run [comesUp, registersA, secondUp, subscribesA, ownerSends]
      ownerSends.post := by
  have hstep : (machine 300).Step ownerSends := ⟨rfl, rfl⟩
  exact .step run_subscribesA hstep

theorem subscription_sound_ownerSends :
    (machine 300).Run [comesUp, registersA, secondUp, subscribesA, ownerSends]
        ownerSends.post ∧
      ∀ t ∈ [comesUp, registersA, secondUp, subscribesA, ownerSends],
        ForwardsToSubscribers t := by
  refine ⟨run_ownerSends, subscription_sound run_ownerSends ?_⟩
  intro t ht
  simp only [List.mem_cons, List.not_mem_nil, or_false] at ht
  rcases ht with rfl | rfl | rfl | rfl | rfl
  · trivial
  · intro old hold
    change (none : Option Conn) = some old at hold
    simp at hold
  · trivial
  · trivial
  · trivial

end Server
end StupidP2P
