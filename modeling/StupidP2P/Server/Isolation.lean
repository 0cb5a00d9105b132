import StupidP2P.Server.KeepAlive
import StupidP2P.Server.Delivery

/-!
# Groups of connections that share no id

Choose some connections and some device ids, and call them inside.  If connections inside name
only ids inside, and connections outside only ids outside, neither side can tell that the other
exists: the server sends to the connections inside exactly what it would send them if the others
had never been there (`isolation`).  This holds for every run, with registrations taken over,
connections going down, data forwarded and idle connections swept on both sides, as long as the
clock is not set back.  It does not hold when the clock is set back: then the sweep dates a
connection anew, or does not, according to who stands before it in the list.

The proof runs the server twice, once with all events and once with those inside, and relates
the two states.  The stores are related in terms of the registry, so node identities, which
differ, do not enter.
-/

namespace StupidP2P
namespace Server

open Foundation

/-! ## The registry -/

namespace Registry

variable {C I : Type} [DecidableEq C] [DecidableEq I]
variable {sentinel : I} {inside : C → Prop} {ids : I → Prop} {r r' : Registry C I}

/-- Both stores relate connections and ids of one side only. -/
structure Separated (sentinel : I) (inside : C → Prop) (ids : I → Prop) (r : Registry C I) :
    Prop where
  owner : ∀ id c, r.owner id = some c → (ids id ↔ inside c)
  name : ∀ c, r.name c ≠ sentinel → (ids (r.name c) ↔ inside c)
  subs : ∀ c, ∀ id ∈ r.subs c, (ids id ↔ inside c)
  sendTo : ∀ p, ∀ s ∈ r.sendTo p, (inside s ↔ inside p)

/-- The operation names an id of the side of its connection. -/
def Apart (inside : C → Prop) (ids : I → Prop) : Op C I → Prop
  | .register c id => ids id ↔ inside c
  | .subscribe c id => ids id ↔ inside c
  | .unsubscribe c id => ids id ↔ inside c
  | _ => True

/-- The connection an operation is about. -/
def actor : Op C I → Option C
  | .connect c => some c
  | .register c _ => some c
  | .subscribe c _ => some c
  | .unsubscribe c _ => some c
  | .unregister c => some c
  | .disconnect c => some c
  | .idle => none

omit [DecidableEq C] [DecidableEq I] in
theorem separated_initial : Separated sentinel inside ids (initial sentinel) where
  owner := by simp [initial]
  name := by simp [initial]
  subs := by simp [initial]
  sendTo := by simp [initial]

/-- The members of the lists stay on one side. -/
theorem Separated.sendTo_apply (h : r.Separated sentinel inside ids) {op : Op C I}
    (hop : Apart inside ids op) :
    ∀ p, ∀ s ∈ (r.apply sentinel op).sendTo p, (inside s ↔ inside p) := by
  intro p s hs
  rcases mem_sendTo_apply hs with hold | ⟨id, rfl, haccept⟩
  · exact h.sendTo p s hold
  · have hid : ids id ↔ inside s := hop
    exact hid.symm.trans (h.owner id p (accepts_eq_some haccept))

theorem Separated.unregister (h : r.Separated sentinel inside ids) (c : C) :
    (r.unregister sentinel c).Separated sentinel inside ids where
  owner := by
    intro id d hd
    exact h.owner id d (owner_unregister_eq_some.mp hd).1
  name := by
    intro d hd
    by_cases hdc : d = c
    · simp [Registry.unregister, hdc] at hd
    · simp only [Registry.unregister, Function.update_of_ne hdc] at hd ⊢
      exact h.name d hd
  subs := by
    intro d id hid
    by_cases hdc : d = c
    · simp [Registry.unregister, hdc] at hid
    · simp only [Registry.unregister, Function.update_of_ne hdc] at hid
      exact h.subs d id hid
  sendTo := h.sendTo_apply (show Apart inside ids (.unregister c) from trivial)

/-- **One operation** keeps the sides separated. -/
theorem Separated.apply (h : r.Separated sentinel inside ids) {op : Op C I}
    (hop : Apart inside ids op) : (r.apply sentinel op).Separated sentinel inside ids := by
  have hsendTo := h.sendTo_apply hop
  cases op with
  | connect c =>
      refine ⟨h.owner, ?_, ?_, hsendTo⟩
      · intro d hd
        by_cases hdc : d = c
        · simp [Registry.apply, connect, hdc] at hd
        · simp only [Registry.apply, connect, Function.update_of_ne hdc] at hd ⊢
          exact h.name d hd
      · intro d id hid
        by_cases hdc : d = c
        · simp [Registry.apply, connect, hdc] at hid
        · simp only [Registry.apply, connect, Function.update_of_ne hdc] at hid
          exact h.subs d id hid
  | register c id =>
      refine ⟨?_, ?_, h.subs, hsendTo⟩
      · intro id' d hd
        by_cases hid : id' = id
        · simp only [Registry.apply, register, hid, Function.update_self,
            Option.some.injEq] at hd
          rw [hid, ← hd]
          exact hop
        · simp only [Registry.apply, register, Function.update_of_ne hid] at hd
          exact h.owner id' d hd
      · intro d hd
        simp only [Registry.apply, register] at hd ⊢
        by_cases hdc : d = c
        · rw [if_pos hdc, hdc]
          exact hop
        · rw [if_neg hdc] at hd ⊢
          by_cases hold : r.owner id = some d
          · rw [if_pos hold] at hd
            exact absurd rfl hd
          · rw [if_neg hold] at hd ⊢
            exact h.name d hd
  | subscribe c id =>
      simp only [Registry.apply, subscribe] at hsendTo ⊢
      cases haccept : r.accepts c id with
      | none => exact h
      | some p =>
          rw [haccept] at hsendTo
          refine ⟨h.owner, h.name, ?_, hsendTo⟩
          intro d id' hid'
          by_cases hdc : d = c
          · simp only [hdc, Function.update_self] at hid'
            rcases mem_addNew.mp hid' with hold | rfl
            · rw [hdc]
              exact h.subs c id' hold
            · rw [hdc]
              exact hop
          · simp only [Function.update_of_ne hdc] at hid'
            exact h.subs d id' hid'
  | unsubscribe c id =>
      simp only [Registry.apply, unsubscribe] at hsendTo ⊢
      by_cases hmem : id ∈ r.subs c
      · rw [if_pos hmem] at hsendTo ⊢
        refine ⟨h.owner, h.name, ?_, hsendTo⟩
        intro d id' hid'
        by_cases hdc : d = c
        · simp only [hdc, Function.update_self] at hid'
          rw [hdc]
          exact h.subs c id' (List.mem_of_mem_erase hid')
        · simp only [Function.update_of_ne hdc] at hid'
          exact h.subs d id' hid'
      · rw [if_neg hmem]
        exact h
  | unregister c => exact h.unregister c
  | disconnect c =>
      have hun := h.unregister c
      exact ⟨hun.owner, hun.name, hun.subs, hun.sendTo⟩
  | idle => exact h

/-- An operation changes nobody's life but that of the connection it is about. -/
theorem phase_apply_of_ne_actor {op : Op C I} {d : C} {phase : Phase}
    (hd : actor op ≠ some d) (hphase : r.phase d = phase) :
    (r.apply sentinel op).phase d = phase := by
  cases op with
  | connect c =>
      have hdc : d ≠ c := fun h => hd (congrArg some h.symm)
      show Function.update r.phase c .live d = phase
      rw [Function.update_of_ne hdc, hphase]
  | disconnect c =>
      have hdc : d ≠ c := fun h => hd (congrArg some h.symm)
      show Function.update r.phase c .gone d = phase
      rw [Function.update_of_ne hdc, hphase]
  | register | subscribe | unsubscribe | unregister | idle =>
      rw [phase_apply sentinel r (by simp) (by simp), hphase]

/-- The same stores, as far as the inside goes. -/
structure SameInside (inside : C → Prop) (ids : I → Prop) (r r' : Registry C I) : Prop where
  owner : ∀ id, ids id → r'.owner id = r.owner id
  name : ∀ c, inside c → r'.name c = r.name c
  subs : ∀ c, inside c → r'.subs c = r.subs c
  sendTo : ∀ c, inside c → r'.sendTo c = r.sendTo c
  phase : ∀ c, inside c → r'.phase c = r.phase c

omit [DecidableEq C] in
theorem SameInside.accepts (h : SameInside inside ids r r') {c : C} {id : I}
    (hc : inside c) (hid : ids id) : r'.accepts c id = r.accepts c id := by
  unfold Registry.accepts
  rw [h.name c hc, h.owner id hid]

/-- Two functions that agree inside still do after the same write. -/
theorem update_inside {α : Type} {f g : C → α} (h : ∀ d, inside d → g d = f d) (c : C)
    {x y : α} (hxy : inside c → y = x) :
    ∀ d, inside d → Function.update g c y d = Function.update f c x d := by
  intro d hd
  by_cases hdc : d = c
  · subst hdc
    rw [Function.update_self, Function.update_self]
    exact hxy hd
  · rw [Function.update_of_ne hdc, Function.update_of_ne hdc]
    exact h d hd

/-- A write outside is not seen inside. -/
theorem update_outside {α : Type} {f g : C → α} (h : ∀ d, inside d → g d = f d) {c : C}
    (hc : ¬ inside c) (x : α) : ∀ d, inside d → g d = Function.update f c x d := by
  intro d hd
  have hdc : d ≠ c := by
    rintro rfl
    exact hc hd
  rw [Function.update_of_ne hdc]
  exact h d hd

theorem SameInside.unregister (h : SameInside inside ids r r')
    (hsep : r.Separated sentinel inside ids) {c : C} (hc : inside c) :
    SameInside inside ids (r.unregister sentinel c) (r'.unregister sentinel c) where
  owner := by
    intro id hid
    simp only [Registry.unregister, h.name c hc, h.owner id hid]
  name := update_inside h.name c fun _ => rfl
  subs := update_inside h.subs c fun _ => rfl
  sendTo := by
    intro p hp
    have howner : (∃ id ∈ r'.subs c, r'.owner id = some p) ↔
        ∃ id ∈ r.subs c, r.owner id = some p := by
      rw [h.subs c hc]
      refine exists_congr fun id => and_congr_right fun hid => ?_
      rw [h.owner id ((hsep.subs c id hid).mpr hc)]
    simp only [Registry.unregister, howner, h.sendTo p hp]
  phase := h.phase

/-- **An operation inside** does the same to both. -/
theorem SameInside.apply (h : SameInside inside ids r r')
    (hsep : r.Separated sentinel inside ids) {op : Op C I} (hop : Apart inside ids op)
    (hactor : ∀ c ∈ actor op, inside c) :
    SameInside inside ids (r.apply sentinel op) (r'.apply sentinel op) := by
  cases op with
  | connect c =>
      exact ⟨h.owner, update_inside h.name c fun _ => rfl, update_inside h.subs c fun _ => rfl,
        update_inside h.sendTo c fun _ => rfl, update_inside h.phase c fun _ => rfl⟩
  | register c id =>
      have hid : ids id := hop.mpr (hactor c rfl)
      refine ⟨?_, ?_, h.subs, h.sendTo, h.phase⟩
      · intro id' hid'
        simp only [Registry.apply, register, Function.update_apply, h.owner id' hid']
      · intro d hd
        simp only [Registry.apply, register, h.owner id hid, h.name d hd]
  | subscribe c id =>
      have hc : inside c := hactor c rfl
      have hid : ids id := hop.mpr hc
      simp only [Registry.apply, subscribe, h.accepts hc hid]
      cases r.accepts c id with
      | none => exact h
      | some p =>
          refine ⟨h.owner, h.name, update_inside h.subs c fun hc => ?_,
            update_inside h.sendTo p fun hp => ?_, h.phase⟩
          · rw [h.subs c hc]
          · rw [h.sendTo p hp]
  | unsubscribe c id =>
      have hc : inside c := hactor c rfl
      have hid : ids id := hop.mpr hc
      simp only [Registry.apply, unsubscribe, h.subs c hc, h.owner id hid]
      by_cases hmem : id ∈ r.subs c
      · rw [if_pos hmem, if_pos hmem]
        refine ⟨h.owner, h.name, update_inside h.subs c fun _ => rfl, ?_, h.phase⟩
        intro p hp
        simp only [h.sendTo p hp]
      · rw [if_neg hmem, if_neg hmem]
        exact h
  | unregister c => exact h.unregister hsep (hactor c rfl)
  | disconnect c =>
      have hun := h.unregister hsep (hactor c rfl)
      exact ⟨hun.owner, hun.name, hun.subs, hun.sendTo, update_inside h.phase c fun _ => rfl⟩
  | idle => exact h

theorem SameInside.unregister_outside (h : SameInside inside ids r r')
    (hsep : r.Separated sentinel inside ids) {c : C} (hc : ¬ inside c) :
    SameInside inside ids (r.unregister sentinel c) r' where
  owner := by
    intro id hid
    have hother : ¬ (r.name c ≠ sentinel ∧ id = r.name c) := by
      rintro ⟨hname, rfl⟩
      exact hc ((hsep.name c hname).mp hid)
    simp only [Registry.unregister, if_neg hother]
    exact h.owner id hid
  name := update_outside h.name hc _
  subs := update_outside h.subs hc _
  sendTo := by
    intro p hp
    have hpc : p ≠ c := by
      rintro rfl
      exact hc hp
    have hnone : ¬ ∃ id ∈ r.subs c, r.owner id = some p := by
      rintro ⟨id, hid, howner⟩
      exact hc ((hsep.subs c id hid).mp ((hsep.owner id p howner).mpr hp))
    simp only [Registry.unregister, if_neg hpc, if_neg hnone]
    exact h.sendTo p hp
  phase := h.phase

/-- **An operation outside** is not seen inside. -/
theorem SameInside.apply_outside (h : SameInside inside ids r r')
    (hsep : r.Separated sentinel inside ids) {op : Op C I} (hop : Apart inside ids op)
    (hactor : ∀ c ∈ actor op, ¬ inside c) :
    SameInside inside ids (r.apply sentinel op) r' := by
  cases op with
  | connect c =>
      have hc := hactor c rfl
      exact ⟨h.owner, update_outside h.name hc _, update_outside h.subs hc _,
        update_outside h.sendTo hc _, update_outside h.phase hc _⟩
  | register c id =>
      have hc := hactor c rfl
      have hid : ¬ ids id := mt hop.mp hc
      refine ⟨?_, ?_, h.subs, h.sendTo, h.phase⟩
      · intro id' hid'
        have hne : id' ≠ id := by
          rintro rfl
          exact hid hid'
        simp only [Registry.apply, register, Function.update_of_ne hne]
        exact h.owner id' hid'
      · intro d hd
        have hdc : d ≠ c := by
          rintro rfl
          exact hc hd
        -- The connection that loses the id is outside as well.
        have hold : r.owner id ≠ some d := by
          intro howner
          exact hid ((hsep.owner id d howner).mpr hd)
        simp only [Registry.apply, register, if_neg hdc, if_neg hold]
        exact h.name d hd
  | subscribe c id =>
      have hc := hactor c rfl
      have hid : ¬ ids id := mt hop.mp hc
      simp only [Registry.apply, subscribe]
      cases haccept : r.accepts c id with
      | none => exact h
      | some p =>
          have hp : ¬ inside p := mt (hsep.owner id p (accepts_eq_some haccept)).mpr hid
          exact ⟨h.owner, h.name, update_outside h.subs hc _, update_outside h.sendTo hp _,
            h.phase⟩
  | unsubscribe c id =>
      have hc := hactor c rfl
      have hid : ¬ ids id := mt hop.mp hc
      simp only [Registry.apply, unsubscribe]
      by_cases hmem : id ∈ r.subs c
      · rw [if_pos hmem]
        refine ⟨h.owner, h.name, update_outside h.subs hc _, ?_, h.phase⟩
        intro p hp
        have howner : r.owner id ≠ some p := by
          intro howner
          exact hid ((hsep.owner id p howner).mpr hp)
        simp only [if_neg howner]
        exact h.sendTo p hp
      · rw [if_neg hmem]
        exact h
  | unregister c => exact h.unregister_outside hsep (hactor c rfl)
  | disconnect c =>
      have hc := hactor c rfl
      have hun := h.unregister_outside hsep hc
      exact ⟨hun.owner, hun.name, hun.subs, hun.sendTo, update_outside h.phase hc _⟩
  | idle => exact h

end Registry

open P2PServer

/-! ## What an event does to the connections -/

/-- The connection an event makes connected. -/
def gains : Event → Option Conn
  | .up conn _ => some conn
  | _ => none

/-- The connections an event takes off the connected ones. -/
def loses (idleSeconds : Int) (σ : P2PServer) : Event → List Conn
  | .up _ _ => []
  | .down conn => [conn]
  | .message conn message _ =>
      if ProtocolCode.ofByte (message.headD 0) = some .registerDevice then
        (σ.connections (message.drop 1)).toList.filter fun oldConn => decide (oldConn ≠ conn)
      else []
  | .invalidLength conn => [conn]
  | .timer now _ => σ.idle idleSeconds now

/-- **One event**, as far as being connected goes. -/
theorem connected_exec {idleSeconds : Int} {σ σ' : P2PServer} {event : Event}
    {sends : List CodecSend} (hplaced : σ.Placed) (hsorted : σ.toRoster.Sorted)
    (henabled : enabled σ event) (hpast : NotAhead σ event)
    (hexec : exec idleSeconds σ event = some (σ', sends)) (conn : Conn) :
    σ'.connected conn = true ↔
      gains event = some conn ∨ σ.connected conn = true ∧ conn ∉ loses idleSeconds σ event := by
  cases event with
  | up c now =>
      simp only [exec, Option.map_eq_some_iff, Prod.mk.injEq] at hexec
      obtain ⟨τ, hup, rfl, -⟩ := hexec
      rw [connected_eq_true_iff, connected_eq_true_iff, state_up hup, gains, loses]
      by_cases hc : conn = c
      · simp [hc]
      · simp [hc, Ne.symm hc]
  | down c =>
      simp only [exec, Option.map_eq_some_iff, Prod.mk.injEq] at hexec
      obtain ⟨τ, hdown, rfl, -⟩ := hexec
      rw [connected_eq_true_iff, connected_eq_true_iff, state_down hdown]
      simp only [gains, loses, reduceCtorEq, false_or]
      by_cases hc : conn = c
      · simp [hc]
      · simp [hc]
  | message c message time =>
      simp only [gains, loses, reduceCtorEq, false_or]
      by_cases hcode : ProtocolCode.ofByte (message.headD 0) = some .registerDevice
      · rw [if_pos hcode]
        simp only [exec, onMessage, hcode, Option.some.injEq, Prod.mk.injEq] at hexec
        rw [← hexec.1]
        exact connected_registerDeviceFunc σ c (message.drop 1) conn
      · rw [if_neg hcode, connected, state_onMessage hexec hcode]
        simp [connected]
  | invalidLength c =>
      simp only [exec, Option.some.injEq, Prod.mk.injEq] at hexec
      rw [← hexec.1, connected_shutdown]
      simp [gains, loses]
  | timer now lock =>
      simp only [exec, Option.map_eq_some_iff, Prod.mk.injEq] at hexec
      obtain ⟨τ, htimer, rfl, -⟩ := hexec
      rw [onTimer_past hplaced henabled hsorted hpast, Option.some.injEq] at htimer
      rw [← htimer, connected_swept]
      simp [gains, loses]

/-! ## Two servers -/

/-- Whether an event is one of the inside.  The timer is everybody's. -/
def concerns (inside : Conn → Bool) : Event → Bool
  | .up conn _ => inside conn
  | .down conn => inside conn
  | .message conn _ _ => inside conn
  | .invalidLength conn => inside conn
  | .timer _ _ => true

/-- The connection that makes a request, and the id it names. -/
def namedId : Event → Option (Conn × DeviceId)
  | .message conn message _ =>
      match ProtocolCode.ofByte (message.headD 0) with
      | some .registerDevice => some (conn, message.drop 1)
      | some .subscribeDevice => some (conn, message.drop 1)
      | some .unsubscribeDevice => some (conn, message.drop 1)
      | some .checkDeviceAlive => some (conn, message.drop 1)
      | _ => none
  | _ => none

/-- Connections inside name ids inside, the others ids outside. -/
def KeepsApart (inside : Conn → Bool) (ids : DeviceId → Prop) (event : Event) : Prop :=
  ∀ conn id, namedId event = some (conn, id) → (ids id ↔ inside conn = true)

/-- The second server has seen the events inside only, and agrees with the first about the
connections and ids inside. -/
structure Alike (inside : Conn → Bool) (ids : DeviceId → Prop) (σ σ' : P2PServer) : Prop where
  stores : Registry.SameInside (fun conn => inside conn = true) ids σ.toRegistry σ'.toRegistry
  connected : ∀ conn, inside conn = true → σ'.connected conn = σ.connected conn
  time : ∀ conn, inside conn = true →
    (σ'.context conn).lastReceiveTime = (σ.context conn).lastReceiveTime
  away : ∀ conn, inside conn = false → σ'.state conn = .kConnecting

section

variable {idleSeconds : Int} {inside : Conn → Bool} {ids : DeviceId → Prop}
variable {σ σ' σ₁ σ₁' : P2PServer} {event : Event} {sends sends' : List CodecSend}

theorem KeepsApart.apart (h : KeepsApart inside ids event) :
    Registry.Apart (fun conn => inside conn = true) ids (opOf event) := by
  cases event with
  | message conn message time =>
      have hnamed := h conn (message.drop 1)
      simp only [namedId] at hnamed
      simp only [opOf]
      cases hcode : ProtocolCode.ofByte (message.headD 0) with
      | none => trivial
      | some code =>
          rw [hcode] at hnamed
          cases code with
          | registerDevice | subscribeDevice | unsubscribeDevice => exact hnamed rfl
          | sendData | unregisterDevice | checkDeviceAlive | heartBeat => trivial
  | up conn now | down conn | invalidLength conn | timer now lock => trivial

/-- The operation an event amounts to is about the connection the event is about. -/
theorem inside_actor (inside : Conn → Bool) {conn : Conn}
    (hactor : Registry.actor (opOf event) = some conn) :
    inside conn = concerns inside event := by
  cases event with
  | message c message time =>
      simp only [opOf] at hactor
      have hc : conn = c := by
        cases hcode : ProtocolCode.ofByte (message.headD 0) with
        | none =>
            rw [hcode] at hactor
            exact absurd hactor (by simp [Registry.actor])
        | some code =>
            rw [hcode] at hactor
            cases code <;> simp [Registry.actor] at hactor <;> exact hactor.symm
      rw [hc]
      rfl
  | up c now | down c =>
      rw [← Option.some.inj hactor]
      rfl
  | invalidLength c | timer now lock => exact absurd hactor (by simp [opOf, Registry.actor])

theorem inside_of_heardTime (inside : Conn → Bool) {conn : Conn} {time : Int}
    (h : heardTime conn event = some time) : inside conn = concerns inside event := by
  cases event with
  | up c now =>
      simp only [heardTime] at h
      split at h
      · rename_i hc
        rw [← hc]
        rfl
      · exact absurd h (by simp)
  | message c message received =>
      simp only [heardTime] at h
      split at h
      · rename_i hc
        rw [← hc.1]
        rfl
      · exact absurd h (by simp)
  | down c | invalidLength c | timer now lock => exact absurd h (by simp [heardTime])

theorem alike_initial : Alike inside ids initial initial where
  stores := ⟨fun _ _ => rfl, fun _ _ => rfl, fun _ _ => rfl, fun _ _ => rfl, fun _ _ => rfl⟩
  connected := fun _ _ => rfl
  time := fun _ _ => rfl
  away := fun _ _ => rfl

theorem Alike.live (h : Alike inside ids σ σ') {conn : Conn} (hconn : inside conn = true) :
    σ'.live conn = σ.live conn :=
  live_congr (h.stores.phase conn hconn)

theorem Alike.inside_of_live (h : Alike inside ids σ σ') {conn : Conn}
    (hlive : σ'.live conn = true) : inside conn = true := by
  rw [← Bool.not_eq_false]
  intro hout
  rw [P2PServer.live, decide_eq_true_iff, h.away conn hout] at hlive
  exact absurd hlive (by decide)

/-- What can happen inside can happen to both. -/
theorem Alike.enabled (h : Alike inside ids σ σ') (hinside : concerns inside event = true)
    (henabled : enabled σ event) : Server.enabled σ' event := by
  cases event with
  | up conn now =>
      show σ'.state conn = .kConnecting
      rw [connecting_iff_phase, h.stores.phase conn hinside, ← connecting_iff_phase]
      exact henabled
  | down conn => exact (h.live hinside).trans henabled
  | message conn message time => exact (h.live hinside).trans henabled
  | invalidLength conn => exact (h.live hinside).trans henabled
  | timer now lock =>
      intro conn hlive
      refine henabled conn ?_
      rw [← h.live (h.inside_of_live hlive)]
      exact hlive

/-- The receivers inside are the same, and as many of them are connected. -/
theorem Alike.meets (h : Alike inside ids σ σ')
    (hsep : σ.toRegistry.Separated deleteId (fun conn => inside conn = true) ids)
    (hinside : concerns inside event = true) (hmeets : MeetsClosedReceiver σ' event) :
    MeetsClosedReceiver σ event := by
  cases event with
  | message conn message time =>
      obtain ⟨hcode, receiver, hmem, hclosed⟩ := hmeets
      have hlist : (σ'.context conn).sendToList.values = (σ.context conn).sendToList.values :=
        h.stores.sendTo conn hinside
      rw [hlist] at hmem
      refine ⟨hcode, receiver, hmem, ?_⟩
      rw [← h.connected receiver ((hsep.sendTo conn receiver hmem).mpr hinside)]
      exact hclosed
  | up | down | invalidLength | timer => exact hmeets

theorem Alike.notAhead (h : Alike inside ids σ σ') (hpast : NotAhead σ event) :
    NotAhead σ' event := by
  cases event with
  | timer now lock =>
      intro conn hlive
      have hconn := h.inside_of_live hlive
      rw [h.time conn hconn]
      refine hpast conn ?_
      rw [← h.live hconn]
      exact hlive
  | up | down | message | invalidLength => trivial

/-- An event inside takes the same connections inside off both. -/
theorem Alike.mem_loses (h : Alike inside ids σ σ') (hplaced : σ.Placed) (hplaced' : σ'.Placed)
    (hinside : concerns inside event = true) (hapart : KeepsApart inside ids event)
    {conn : Conn} (hconn : inside conn = true) :
    conn ∈ loses idleSeconds σ' event ↔ conn ∈ loses idleSeconds σ event := by
  cases event with
  | up | down | invalidLength => exact Iff.rfl
  | message c message time =>
      unfold loses
      dsimp only
      by_cases hcode : ProtocolCode.ofByte (message.headD 0) = some .registerDevice
      · have hid : ids (message.drop 1) := by
          refine (hapart c (message.drop 1) ?_).mpr hinside
          simp only [namedId, hcode]
        have howner : σ'.connections (message.drop 1) = σ.connections (message.drop 1) :=
          h.stores.owner _ hid
        rw [if_pos hcode, if_pos hcode, howner]
      · rw [if_neg hcode, if_neg hcode]
  | timer now lock =>
      show conn ∈ σ'.idle idleSeconds now ↔ conn ∈ σ.idle idleSeconds now
      rw [mem_idle hplaced', mem_idle hplaced, h.live hconn, h.time conn hconn]

/-- An event outside takes no connection inside off. -/
theorem notMem_loses
    (hsep : σ.toRegistry.Separated deleteId (fun conn => inside conn = true) ids)
    (houtside : concerns inside event = false) (hapart : KeepsApart inside ids event)
    {conn : Conn} (hconn : inside conn = true) : conn ∉ loses idleSeconds σ event := by
  have hother : ∀ c, inside c = false → conn ≠ c := by
    rintro c hc rfl
    rw [hconn] at hc
    exact absurd hc (by decide)
  cases event with
  | up c now => simp [loses]
  | down c => simpa [loses] using hother c houtside
  | invalidLength c => simpa [loses] using hother c houtside
  | message c message time =>
      unfold loses
      dsimp only
      by_cases hcode : ProtocolCode.ofByte (message.headD 0) = some .registerDevice
      · rw [if_pos hcode, List.mem_filter, Option.mem_toList]
        rintro ⟨howner, -⟩
        have hid : ids (message.drop 1) ↔ inside c = true := by
          refine hapart c (message.drop 1) ?_
          simp only [namedId, hcode]
        have hc : inside c = true := hid.mp ((hsep.owner (message.drop 1) conn howner).mpr hconn)
        rw [show inside c = false from houtside] at hc
        exact absurd hc (by decide)
      · rw [if_neg hcode]
        exact List.not_mem_nil
  | timer now lock => exact absurd houtside (by simp [concerns])

/-- **An event inside** leaves both servers alike. -/
theorem Alike.exec (h : Alike inside ids σ σ') (hplaced : σ.Placed) (hplaced' : σ'.Placed)
    (hsorted : σ.toRoster.Sorted) (hsorted' : σ'.toRoster.Sorted)
    (hsep : σ.toRegistry.Separated deleteId (fun conn => inside conn = true) ids)
    (henabled : Server.enabled σ event) (hpast : NotAhead σ event)
    (hinside : concerns inside event = true) (hapart : KeepsApart inside ids event)
    (hexec : Server.exec idleSeconds σ event = some (σ₁, sends))
    (hexec' : Server.exec idleSeconds σ' event = some (σ₁', sends')) :
    Alike inside ids σ₁ σ₁' := by
  have henabled' := h.enabled hinside henabled
  have hpast' := h.notAhead hpast
  refine ⟨?_, ?_, ?_, ?_⟩
  · rw [exec_toRegistry hexec, exec_toRegistry hexec']
    refine h.stores.apply hsep hapart.apart ?_
    intro conn hactor
    rw [inside_actor inside hactor]
    exact hinside
  · intro conn hconn
    rw [Bool.eq_iff_iff, connected_exec hplaced' hsorted' henabled' hpast' hexec',
      connected_exec hplaced hsorted henabled hpast hexec, h.connected conn hconn,
      h.mem_loses hplaced hplaced' hinside hapart hconn]
  · intro conn hconn
    rw [lastReceiveTime_exec hplaced' hsorted' henabled' hpast' hexec',
      lastReceiveTime_exec hplaced hsorted henabled hpast hexec, h.time conn hconn]
  · intro conn hconn
    -- Whoever is outside has not come up in the second server.
    have hfresh := h.away conn hconn
    rw [connecting_iff_phase] at hfresh ⊢
    rw [exec_toRegistry hexec']
    refine Registry.phase_apply_of_ne_actor ?_ hfresh
    intro hactor
    rw [inside_actor inside hactor, hinside] at hconn
    exact absurd hconn (by decide)

/-- **An event outside** is not seen by the second server, which need not take it. -/
theorem Alike.exec_outside (h : Alike inside ids σ σ') (hplaced : σ.Placed)
    (hsorted : σ.toRoster.Sorted)
    (hsep : σ.toRegistry.Separated deleteId (fun conn => inside conn = true) ids)
    (henabled : Server.enabled σ event) (hpast : NotAhead σ event)
    (houtside : concerns inside event = false) (hapart : KeepsApart inside ids event)
    (hexec : Server.exec idleSeconds σ event = some (σ₁, sends)) :
    Alike inside ids σ₁ σ' := by
  refine ⟨?_, ?_, ?_, h.away⟩
  · rw [exec_toRegistry hexec]
    refine h.stores.apply_outside hsep hapart.apart ?_
    intro conn hactor hconn
    rw [inside_actor inside hactor, houtside] at hconn
    exact absurd hconn (by decide)
  · intro conn hconn
    have hgains : gains event ≠ some conn := by
      cases event with
      | up c now =>
          intro hc
          rw [gains, Option.some.injEq] at hc
          rw [concerns, hc, hconn] at houtside
          exact absurd houtside (by decide)
      | down | message | invalidLength | timer => simp [gains]
    rw [Bool.eq_iff_iff, connected_exec hplaced hsorted henabled hpast hexec,
      h.connected conn hconn]
    constructor
    · intro hconnected
      exact Or.inr ⟨hconnected, notMem_loses hsep houtside hapart hconn⟩
    · rintro (hup | ⟨hconnected, -⟩)
      · exact absurd hup hgains
      · exact hconnected
  · intro conn hconn
    rw [lastReceiveTime_exec hplaced hsorted henabled hpast hexec, h.time conn hconn]
    have hnone : heardTime conn event = none := by
      cases hheard : heardTime conn event with
      | none => rfl
      | some time =>
          rw [inside_of_heardTime inside hheard, houtside] at hconn
          exact absurd hconn (by decide)
    rw [hnone]
    rfl

/-- What is sent on account of an event inside is the same. -/
theorem Alike.output (h : Alike inside ids σ σ')
    (hsep : σ.toRegistry.Separated deleteId (fun conn => inside conn = true) ids)
    (hinside : concerns inside event = true) (hapart : KeepsApart inside ids event)
    (hexec : Server.exec idleSeconds σ event = some (σ₁, sends))
    (hexec' : Server.exec idleSeconds σ' event = some (σ₁', sends')) : sends' = sends := by
  cases event with
  | up c now | down c | timer now lock =>
      simp only [Server.exec, Option.map_eq_some_iff, Prod.mk.injEq] at hexec hexec'
      obtain ⟨-, -, -, rfl⟩ := hexec
      obtain ⟨-, -, -, rfl⟩ := hexec'
      rfl
  | invalidLength c =>
      simp only [Server.exec, Option.some.injEq, Prod.mk.injEq] at hexec hexec'
      rw [← hexec.2, ← hexec'.2]
  | message c message time =>
      refine onMessage_sends_congr hexec hexec' (h.stores.sendTo c hinside) ?_
      intro code hcode
      have hnamed := hapart c (message.drop 1)
      simp only [namedId, hcode] at hnamed
      cases code with
      | subscribeDevice =>
          have hid := (hnamed rfl).mpr hinside
          simp only [answer, h.stores.accepts hinside hid]
      | checkDeviceAlive =>
          have howner : σ'.connections (message.drop 1) = σ.connections (message.drop 1) :=
            h.stores.owner _ ((hnamed rfl).mpr hinside)
          simp only [answer, checkDeviceAliveFunc, howner]
          cases hsome : σ.connections (message.drop 1) with
          | none => rfl
          | some owner =>
              have hinsideOwner : inside owner = true :=
                (hsep.owner _ owner hsome).mp ((hnamed rfl).mpr hinside)
              simp only [h.connected owner hinsideOwner]
      | registerDevice | sendData | unregisterDevice | unsubscribeDevice | heartBeat => rfl

/-- Nothing is sent to the inside on account of an event outside. -/
theorem outside_output {t : Transition P2PServer Event (List CodecSend)}
    (hstep : (machine idleSeconds).Step t)
    (hsep : t.pre.toRegistry.Separated deleteId (fun conn => inside conn = true) ids)
    (houtside : concerns inside t.event = false) {conn : Conn} (hconn : inside conn = true) :
    stepFramesTo conn t = [] := by
  rcases step_output hstep with ⟨c, message, time, code, result, hevent, hcode, hout⟩ |
      ⟨hnil, -⟩
  · rw [hevent] at houtside
    have hsender : c ≠ conn := by
      rintro rfl
      rw [concerns, hconn] at houtside
      exact absurd houtside (by decide)
    have hnot : conn ∉ t.pre.receivers c code := by
      intro hmem
      obtain rfl := sendData_of_mem_receivers hmem
      have hc := (hsep.sendTo c conn hmem).mp hconn
      rw [show inside c = false from houtside] at hc
      exact absurd hc (by decide)
    rw [stepFramesTo_request hout, List.count_eq_zero_of_not_mem hnot, if_neg hsender]
    rfl
  · rw [stepFramesTo, hnil]
    rfl

end

/-! ## Whole runs -/

section

variable {idleSeconds : Int} {inside : Conn → Bool} {ids : DeviceId → Prop} {σ : P2PServer}
variable {trace : List (Transition P2PServer Event (List CodecSend))}

theorem run_separated (hrun : (machine idleSeconds).Run trace σ)
    (hapart : ∀ t ∈ trace, KeepsApart inside ids t.event) :
    σ.toRegistry.Separated deleteId (fun conn => inside conn = true) ids := by
  induction hrun with
  | start => exact Registry.separated_initial
  | @step trace t hrun hstep ih =>
      rw [exec_toRegistry hstep.2]
      have hbefore := ih fun u hu => hapart u (List.mem_append_left _ hu)
      exact hbefore.apply (hapart t (by simp)).apart

/-- The clock of part of the events is not set back either. -/
theorem ClockForward.filter {events : List Event} (h : ClockForward events)
    (keep : Event → Bool) : ClockForward (events.filter keep) :=
  List.Pairwise.sublist (List.filter_sublist.filterMap _) h

/-- **Isolation.**  If connections inside name only ids inside and the others only ids outside,
then the events inside, alone, are a run of the server as well, in which every connection inside
is sent the same frames in the same order, and after which the server agrees with the one that
took all events about the ids and connections inside. -/
theorem isolation (hidle : 0 ≤ idleSeconds) (hrun : (machine idleSeconds).Run trace σ)
    (hclock : ClockForward (trace.map Transition.event))
    (hapart : ∀ t ∈ trace, KeepsApart inside ids t.event) :
    ∃ trace' σ', (machine idleSeconds).Run trace' σ' ∧
      trace'.map Transition.event = (trace.map Transition.event).filter (concerns inside) ∧
      (∀ conn, inside conn = true → framesTo conn trace' = framesTo conn trace) ∧
      Alike inside ids σ σ' := by
  induction hrun with
  | start => exact ⟨[], initial, .start, rfl, fun _ _ => rfl, alike_initial⟩
  | @step trace t hrun hstep ih =>
      rw [List.map_append, List.map_singleton] at hclock
      obtain ⟨hforward, hlate⟩ := clockForward_concat.mp hclock
      have hbefore : ∀ u ∈ trace, KeepsApart inside ids u.event :=
        fun u hu => hapart u (List.mem_append_left _ hu)
      obtain ⟨trace', σ', hrun', hevents, hframes, halike⟩ := ih hforward hbefore
      have hsep := run_separated hrun hbefore
      have hplaced := reachable_placed ⟨trace, hrun⟩
      have hsorted := (run_dated hidle hrun hforward.recordedTimes).1
      have hpast := (run_heard hidle hrun hforward).notAhead hlate
      have hlast := hapart t (by simp)
      cases hside : concerns inside t.event with
      | false =>
          refine ⟨trace', σ', hrun', ?_, ?_, ?_⟩
          · rw [hevents, List.map_append, List.filter_append, List.map_singleton,
              List.filter_cons_of_neg (by simp [hside]), List.filter_nil, List.append_nil]
          · intro conn hconn
            rw [framesTo_append, hframes conn hconn]
            simp [framesTo, outside_output hstep hsep hside hconn]
          · exact halike.exec_outside hplaced hsorted hsep hstep.1 hpast hside hlast hstep.2
      | true =>
          have hreach' : (machine idleSeconds).Reachable σ' := ⟨trace', hrun'⟩
          have hforward' : ClockForward (trace'.map Transition.event) := by
            rw [hevents]
            exact hforward.filter _
          have henabled' := halike.enabled hside hstep.1
          -- The second server can take the event, for the first one could.
          have hdefined : (exec idleSeconds σ' t.event).isSome = true := by
            rw [exec_isSome_iff hreach' henabled']
            intro hmeets
            refine (exec_isSome_iff ⟨trace, hrun⟩ hstep.1).mp ?_ (halike.meets hsep hside hmeets)
            rw [show exec idleSeconds t.pre t.event = _ from hstep.2]
            rfl
          obtain ⟨⟨post, output⟩, hexec'⟩ := Option.isSome_iff_exists.mp hdefined
          have hsame : output = t.output := halike.output hsep hside hlast hstep.2 hexec'
          refine ⟨trace' ++ [⟨σ', t.event, output, post⟩], post, ?_, ?_, ?_, ?_⟩
          · exact .step hrun' ⟨henabled', hexec'⟩
          · rw [List.map_append, List.map_append, List.filter_append, hevents,
              List.map_singleton, List.map_singleton, List.filter_cons_of_pos hside,
              List.filter_nil]
          · intro conn hconn
            rw [framesTo_append, framesTo_append, hframes conn hconn]
            simp [framesTo, stepFramesTo, hsame]
          · exact halike.exec hplaced (reachable_placed hreach') hsorted
              (run_dated hidle hrun' hforward'.recordedTimes).1 hsep hstep.1 hpast hside hlast
              hstep.2 hexec'

/-- Connection 1 subscribes to `"a"`, which connection 0 registers; connection 2 registers
`"b"` and sends data. -/
def twoGroups : List Event :=
  [.up 0 0, .up 1 0, .up 2 0, .message 0 [1, 97] 0, .message 2 [1, 98] 0, .message 1 [2, 97] 0,
    .message 2 [3, 121] 0, .message 0 [3, 120] 0]

/-- Without connection 2 the other two are sent the same. -/
theorem isolation_twoGroups :
    ∃ trace, (machine 300).Run trace (after twoGroups) ∧
      trace.map Transition.event = twoGroups ∧
      ∃ trace' σ', (machine 300).Run trace' σ' ∧
        trace'.map Transition.event =
          [.up 0 0, .up 1 0, .message 0 [1, 97] 0, .message 1 [2, 97] 0, .message 0 [3, 120] 0] ∧
        framesTo 1 trace' = framesTo 1 trace := by
  have hreplay : (machine 300).replay ready twoGroups initial = some (after twoGroups) := rfl
  have hstart : (machine 300).Run [] initial := .start
  obtain ⟨trace, hrun, hevents, -⟩ := hstart.replay enabled_of_ready hreplay
  rw [List.nil_append] at hrun
  have hclock : ClockForward (trace.map Transition.event) := by
    rw [hevents]
    show List.Pairwise (· ≤ ·) [0, 0, 0]
    decide
  have hapart : ∀ t ∈ trace,
      KeepsApart (fun conn => decide (conn < 2)) (fun id => id = [97]) t.event := by
    intro t ht conn id hnamed
    have hmem : t.event ∈ twoGroups := by
      rw [← hevents]
      exact List.mem_map_of_mem ht
    simp only [twoGroups, List.mem_cons, List.not_mem_nil, or_false] at hmem
    rcases hmem with h | h | h | h | h | h | h | h <;>
      (rw [h] at hnamed; revert hnamed) <;>
      simp [namedId, ProtocolCode.ofByte] <;> rintro rfl rfl <;> decide
  obtain ⟨trace', σ', hrun', hevents', hframes, -⟩ :=
    isolation (by decide) hrun hclock hapart
  refine ⟨trace, hrun, hevents, trace', σ', hrun', ?_, hframes 1 rfl⟩
  rw [hevents', hevents]
  rfl

end

end Server
end StupidP2P
