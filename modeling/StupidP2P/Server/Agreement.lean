import StupidP2P.Server.Refinement

/-!
# Who owns an id

`registerDeviceFunc` writes the map `_connections` and the `deviceId` of a
connection, and `unregisterDeviceFunc` erases the entry of that `deviceId` only.
Two questions are settled here, over all runs of the server:

* does an entry always lead to a connection that is not down and carries the id?
  It does exactly as long as nobody registers a second id without unregistering
  the first, and nobody who registered the id `"delete"` leaves;
* can a connection that leaves take the entry of another one with it?  Never.
-/

namespace StupidP2P
namespace Server

open Foundation

/-- Every entry of `_connections` leads to a connection that has not gone down and
whose context names the id of the entry. -/
def RegistryAgreement (σ : P2PServer) : Prop :=
  ∀ id conn, σ.connections id = some conn →
    σ.state conn ≠ .kDisconnected ∧ (σ.context conn).deviceId = id

/-- The event is the UNREGISTER request or the DOWN of `conn`. -/
def Leaves (conn : Conn) : Event → Prop
  | .down c => c = conn
  | .message c message _ =>
      c = conn ∧ ProtocolCode.ofByte (message.headD 0) = some .unregisterDevice
  | _ => False

/-- No entry survives the UNREGISTER or the disconnection of its connection. -/
def NoEntrySurvives (t : Transition P2PServer Event (List CodecSend)) : Prop :=
  ∀ conn, Leaves conn t.event → ∀ id, t.post.connections id ≠ some conn

/-- A REGISTER comes from a connection that owns no other id, and neither an
UNREGISTER nor a DOWN comes from a connection that owns the id `"delete"`. -/
def RegistersOneId (σ : P2PServer) (event : Event) : Prop :=
  σ.toRegistry.AgreesCond deleteId (opOf event)

theorem registryAgreement_iff_agrees (σ : P2PServer) :
    RegistryAgreement σ ↔ σ.toRegistry.Agrees := by
  have hgone : ∀ conn, σ.toRegistry.phase conn ≠ .gone ↔ σ.state conn ≠ .kDisconnected := by
    intro conn
    unfold P2PServer.toRegistry
    cases hstate : σ.state conn <;> simp [TcpState.phase, hstate]
  simp only [RegistryAgreement, Registry.Agrees, hgone]
  rfl

theorem leaves_iff_opOf (conn : Conn) (event : Event) :
    Leaves conn event ↔ opOf event = .unregister conn ∨ opOf event = .disconnect conn := by
  cases event with
  | up c now => simp [Leaves, opOf]
  | down c => simp [Leaves, opOf]
  | message c message time =>
      simp only [Leaves, opOf]
      cases hcode : ProtocolCode.ofByte (message.headD 0) with
      | none => simp
      | some code => cases code <;> simp
  | invalidLength c => simp [Leaves, opOf]
  | timer now lock => simp [Leaves, opOf]

theorem noEntrySurvives_iff_departs (t : Transition P2PServer Event (List CodecSend)) :
    NoEntrySurvives t ↔ t.post.toRegistry.Departs (opOf t.event) := by
  simp only [NoEntrySurvives, leaves_iff_opOf]
  cases hop : opOf t.event with
  | unregister c => simp [Registry.Departs, P2PServer.toRegistry]
  | disconnect c => simp [Registry.Departs, P2PServer.toRegistry]
  | connect c => simp [Registry.Departs]
  | register c id => simp [Registry.Departs]
  | subscribe c id => simp [Registry.Departs]
  | unsubscribe c id => simp [Registry.Departs]
  | idle => simp [Registry.Departs]

theorem registryAgreement_initial : RegistryAgreement P2PServer.initial := by
  intro id conn h
  simp [P2PServer.initial] at h

/-- **Registry agreement.**  In a run of the server every state agrees, and no
entry survives the departure of its connection, exactly when all steps of the run
meet `RegistersOneId`. -/
theorem registry_agreement_iff {idleSeconds : Int} {σ : P2PServer}
    {trace : List (Transition P2PServer Event (List CodecSend))}
    (hrun : (machine idleSeconds).Run trace σ) :
    ((∀ τ ∈ (machine idleSeconds).visited trace, RegistryAgreement τ) ∧
        ∀ t ∈ trace, NoEntrySurvives t) ↔
      ∀ t ∈ trace, RegistersOneId t.pre t.event := by
  refine hrun.exact_visited_and RegistryAgreement NoEntrySurvives RegistersOneId
    registryAgreement_initial ?_
  intro t hstep hreach hpre
  rw [registryAgreement_iff_agrees, noEntrySurvives_iff_departs, exec_toRegistry hstep.2]
  exact Registry.agrees_apply_iff (reachable_inv hreach)
    ((registryAgreement_iff_agrees _).mp hpre) (allowed_opOf hstep.1)

/-- The guard of the server for events other than the timer. -/
def ready (σ : P2PServer) : Event → Bool
  | .up conn _ => decide (σ.state conn = .kConnecting)
  | .down conn => σ.live conn
  | .message conn _ _ => σ.live conn
  | .invalidLength conn => σ.live conn
  | .timer _ _ => false

theorem enabled_of_ready (σ : P2PServer) (event : Event) (h : ready σ event = true) :
    enabled σ event := by
  cases event with
  | up conn now => simpa [ready, enabled] using h
  | down conn => exact h
  | message conn message time => exact h
  | invalidLength conn => exact h
  | timer now lock => simp [ready] at h

/-- The server after some events, or the initial server if one of them cannot
happen or has no defined effect. -/
def after (events : List Event) : P2PServer :=
  ((machine 300).replay ready events P2PServer.initial).getD P2PServer.initial

theorem reachable_after (events : List Event) : (machine 300).Reachable (after events) := by
  have hinit : (machine 300).Reachable P2PServer.initial := ⟨[], .start⟩
  unfold after
  cases hreplay : (machine 300).replay ready events P2PServer.initial with
  | none => exact hinit
  | some σ => exact hinit.replay enabled_of_ready hreplay

/-- One connection registers `"a"`, then `"b"`. -/
def registersTwice : List Event :=
  [.up 0 0, .message 0 [1, 97] 0, .message 0 [1, 98] 0]

/-- The entry of the first id stays, and no longer agrees with the context. -/
theorem registry_agreement_fails_after_second_register :
    ¬ ∀ σ, (machine 300).Reachable σ → RegistryAgreement σ := by
  intro h
  have hagree := (h _ (reachable_after registersTwice) [97] 0 (by decide +kernel)).2
  exact absurd hagree (by decide +kernel)

/-- The next event after some others, with what it sends. -/
def stepAfter (events : List Event) (event : Event) (sends : List CodecSend) :
    Transition P2PServer Event (List CodecSend) :=
  ⟨after events, event, sends, after (events ++ [event])⟩

/-- Connection 0 comes up. -/
def comesUp : Transition P2PServer Event (List CodecSend) :=
  stepAfter [] (.up 0 0) []

/-- Then it registers `"a"`. -/
def registersA : Transition P2PServer Event (List CodecSend) :=
  stepAfter [.up 0 0] (.message 0 [1, 97] 0)
    [P2PServer.callbackFunc 0 .registerDevice .execSuccess]

theorem run_registersA : (machine 300).Run [comesUp, registersA] registersA.post := by
  have hup : (machine 300).Step comesUp := ⟨rfl, rfl⟩
  have hregister : (machine 300).Step registersA := ⟨rfl, rfl⟩
  exact .step (.step .start hup) hregister

theorem registry_agreement_registersA :
    (∀ τ ∈ (machine 300).visited [comesUp, registersA], RegistryAgreement τ) ∧
      ∀ t ∈ [comesUp, registersA], NoEntrySurvives t := by
  apply (registry_agreement_iff run_registersA).mpr
  intro t ht
  rcases List.mem_cons.mp ht with rfl | ht
  · trivial
  · rw [List.mem_singleton] at ht
    subst ht
    intro id hid
    change (none : Option Conn) = some 0 at hid
    simp at hid

/-! ## Leaving -/

/-- **No foreign deregistration.**  In every state the server reaches, a
connection that carries an id other than `"delete"` owns it.  So an UNREGISTER or
DOWN takes no entry away from another connection, whatever takeovers and second
registrations came before. -/
theorem no_foreign_deregistration {idleSeconds : Int} {σ : P2PServer}
    (hreach : (machine idleSeconds).Reachable σ) :
    (∀ conn id, (σ.context conn).deviceId = id → id ≠ deleteId →
        σ.connections id = some conn) ∧
      ∀ conn event σ' sends, Leaves conn event →
        exec idleSeconds σ event = some (σ', sends) →
        ∀ id other, other ≠ conn → σ.connections id = some other →
          σ'.connections id = some other := by
  have hinv := reachable_inv hreach
  constructor
  · rintro conn id rfl hid
    exact hinv.owner_name conn hid
  · intro conn event σ' sends hleaves hexec id other hother howner
    have hpost := congrArg Registry.owner (exec_toRegistry hexec)
    have hkept : (σ.toRegistry.unregister deleteId conn).owner id = some other := by
      rw [Registry.owner_unregister_eq_some]
      refine ⟨howner, ?_⟩
      by_cases hname : σ.toRegistry.name conn = deleteId
      · exact Or.inl hname
      · right
        rintro rfl
        exact hother (Option.some.inj (howner.symm.trans (hinv.owner_name conn hname)))
    change σ'.toRegistry.owner id = some other
    rw [hpost]
    rcases (leaves_iff_opOf conn event).mp hleaves with hop | hop
    · rw [hop]
      exact hkept
    · rw [hop]
      exact hkept

/-- Connection 1 takes `"a"` over from connection 0, which is still read. -/
def takesOver : List Event :=
  [.up 0 0, .up 1 0, .message 0 [1, 97] 0, .message 1 [1, 97] 0]

/-- The late DOWN of the displaced connection leaves the new owner registered. -/
theorem no_foreign_deregistration_takesOver :
    (after takesOver).connections [97] = some 1 ∧
      ((after (takesOver ++ [.down 0])).connections [97] = some 1) := by
  have howner : (after takesOver).connections [97] = some 1 := by decide +kernel
  refine ⟨howner, ?_⟩
  exact (no_foreign_deregistration (reachable_after takesOver)).2 0 (.down 0)
    (after (takesOver ++ [.down 0])) [] rfl rfl [97] 1 (by decide) howner

end Server
end StupidP2P
