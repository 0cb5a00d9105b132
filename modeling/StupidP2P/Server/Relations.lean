import StupidP2P.Server.Registry

/-!
# Relations between the stores of a registry

Relations between the stores of a `Registry`:

* `Agrees`: an id is owned by a connection that is not gone and carries that id
  as its name;
* `Complete`: a subscriber of an owned id is in the owner's list;
* `Sound`: whoever is in the list of a live connection subscribed to an id that
  connection owns;
* `Cleared`: no list has a connection that is gone;
* `Selfless`: no connection is in its own list.

None of them is kept by every operation.  For each one there is a condition on
the operation and on the registry before it that decides whether the operation
keeps it.
-/

namespace StupidP2P
namespace Server

open Foundation
namespace Registry

variable {C I : Type} [DecidableEq C] [DecidableEq I]
variable (sentinel : I) (r : Registry C I)

def Agrees : Prop :=
  ∀ id c, r.owner id = some c → r.phase c ≠ .gone ∧ r.name c = id

/-- Nobody leaves an entry behind: read on the registry after the operation. -/
def Departs : Op C I → Prop
  | .unregister c => ∀ id, r.owner id ≠ some c
  | .disconnect c => ∀ id, r.owner id ≠ some c
  | _ => True

/-- A connection registers only while it owns no other id, and no connection
unregisters or goes down while it owns the sentinel. -/
def AgreesCond : Op C I → Prop
  | .register c id => ∀ id', r.owner id' = some c → id' = id
  | .unregister c => r.owner sentinel ≠ some c
  | .disconnect c => r.owner sentinel ≠ some c
  | _ => True

def Complete : Prop :=
  ∀ s p id, s ≠ p → id ∈ r.subs s → r.owner id = some p → s ∈ r.sendTo p

/-- A connection becomes the owner of an id only if all other subscribers of the
id are in its list already; a subscriber gives up an id only if it subscribed to
no second id of the same owner; a connection that leaves keeps no id that others
subscribed to. -/
def CompleteCond : Op C I → Prop
  | .register c id =>
      r.owner id ≠ some c → ∀ s, s ≠ c → id ∈ r.subs s → s ∈ r.sendTo c
  | .unsubscribe s id =>
      id ∈ r.subs s → ∀ p, r.owner id = some p → p ≠ s →
        ∀ id' ∈ r.subs s, r.owner id' = some p → id' = id
  | .unregister c =>
      ∀ id, r.owner id = some c → (r.name c = sentinel ∨ id ≠ r.name c) →
        ∀ s, s ≠ c → id ∉ r.subs s
  | .disconnect c =>
      ∀ id, r.owner id = some c → (r.name c = sentinel ∨ id ≠ r.name c) →
        ∀ s, s ≠ c → id ∉ r.subs s
  | _ => True

def Sound : Prop :=
  ∀ p s, r.phase p = .live → s ∈ r.sendTo p → ∃ id ∈ r.subs s, r.owner id = some p

/-- An id is taken over from another live connection only if everyone in that
connection's list subscribed to a second id it owns. -/
def SoundCond : Op C I → Prop
  | .register c id =>
      ∀ old, r.owner id = some old → old ≠ c → r.phase old = .live → ∀ s ∈ r.sendTo old,
        ∃ id' ∈ r.subs s, id' ≠ id ∧ r.owner id' = some old
  | _ => True

variable {sentinel r}

/-- The entries left after `c` unregistered. -/
theorem owner_unregister_eq_some {c d : C} {id : I} :
    (r.unregister sentinel c).owner id = some d ↔
      r.owner id = some d ∧ (r.name c = sentinel ∨ id ≠ r.name c) := by
  simp only [unregister]
  by_cases hname : r.name c = sentinel
  · simp [hname]
  · by_cases hid : id = r.name c
    · simp [hname, hid]
    · simp [hid]

/-- The lists left after `c` unregistered. -/
theorem mem_sendTo_unregister {c p s : C} :
    s ∈ (r.unregister sentinel c).sendTo p ↔
      p ≠ c ∧ s ∈ r.sendTo p ∧ (s = c → ∀ id ∈ r.subs c, r.owner id ≠ some p) := by
  simp only [unregister]
  by_cases hp : p = c
  · simp [hp]
  · rw [if_neg hp]
    by_cases hex : ∃ id ∈ r.subs c, r.owner id = some p
    · rw [if_pos hex, List.mem_filter, decide_eq_true_eq]
      obtain ⟨id, hid, howner⟩ := hex
      constructor
      · rintro ⟨hs, hsc⟩
        exact ⟨hp, hs, fun h => absurd h hsc⟩
      · rintro ⟨-, hs, hnone⟩
        exact ⟨hs, fun h => hnone h id hid howner⟩
    · rw [if_neg hex]
      push Not at hex
      exact ⟨fun hs => ⟨hp, hs, fun _ => hex⟩, fun h => h.2.1⟩

/-! ## Agreement -/

omit [DecidableEq I] in
theorem agrees_connect (h : r.Inv sentinel) (ha : r.Agrees) {c : C}
    (hc : r.phase c = .fresh) : (r.connect sentinel c).Agrees := by
  intro id d hd
  have hdc : d ≠ c := by
    rintro rfl
    exact h.owner_not_fresh id d hd hc
  simp only [connect, Function.update_of_ne hdc]
  exact ha id d hd

theorem agrees_register_iff (ha : r.Agrees) {c : C} (hc : r.phase c = .live) (id : I) :
    (r.register sentinel c id).Agrees ↔ ∀ id', r.owner id' = some c → id' = id := by
  constructor
  · -- An entry under another id stays, and carries the new name.
    intro hpost id' hid'
    by_contra hne
    have howner : (r.register sentinel c id).owner id' = some c := by
      simp only [register, Function.update_of_ne hne]
      exact hid'
    have hname := (hpost id' c howner).2
    simp only [register] at hname
    exact hne hname.symm
  · intro hcond id' d hd
    by_cases hid : id' = id
    · subst hid
      simp only [register, Function.update_self, Option.some.injEq] at hd
      subst hd
      simp [register, hc]
    · simp only [register, Function.update_of_ne hid] at hd ⊢
      have hdc : d ≠ c := by
        rintro rfl
        exact hid (hcond id' hd)
      -- the old owner of `id` owned nothing else
      have hold : r.owner id ≠ some d := by
        intro hold
        exact hid ((ha id' d hd).2.symm.trans (ha id d hold).2)
      rw [if_neg hdc, if_neg hold]
      exact ha id' d hd

theorem departs_unregister_iff (ha : r.Agrees) {c : C} :
    (∀ id, (r.unregister sentinel c).owner id ≠ some c) ↔ r.owner sentinel ≠ some c := by
  constructor
  · intro hgone hs
    apply hgone sentinel
    rw [owner_unregister_eq_some]
    exact ⟨hs, Or.inl (ha sentinel c hs).2⟩
  · intro hs id hid
    obtain ⟨hold, hkept⟩ := owner_unregister_eq_some.mp hid
    have hname := (ha id c hold).2
    rcases hkept with hsentinel | hne
    · rw [← hname, hsentinel] at hold
      exact hs hold
    · exact hne hname.symm

theorem agrees_unregister (ha : r.Agrees) {c : C} (hs : r.owner sentinel ≠ some c) :
    (r.unregister sentinel c).Agrees := by
  intro id d hd
  have hdc : d ≠ c := by
    rintro rfl
    exact (departs_unregister_iff ha).mpr hs id hd
  obtain ⟨hold, -⟩ := owner_unregister_eq_some.mp hd
  simp only [unregister, Function.update_of_ne hdc]
  exact ha id d hold

theorem agrees_disconnect (ha : r.Agrees) {c : C} (hs : r.owner sentinel ≠ some c) :
    (r.disconnect sentinel c).Agrees := by
  intro id d hd
  have hdc : d ≠ c := by
    rintro rfl
    exact (departs_unregister_iff ha).mpr hs id hd
  simp only [disconnect, Function.update_of_ne hdc]
  exact agrees_unregister ha hs id d hd

/-- **Agreement, one operation.**  `AgreesCond` decides whether agreement is kept
and a departing connection leaves no entry behind. -/
theorem agrees_apply_iff (h : r.Inv sentinel) (ha : r.Agrees) {op : Op C I}
    (hop : r.Allowed op) :
    ((r.apply sentinel op).Agrees ∧ (r.apply sentinel op).Departs op) ↔
      r.AgreesCond sentinel op := by
  cases op with
  | connect c => exact iff_of_true ⟨agrees_connect h ha hop, trivial⟩ trivial
  | register c id =>
      simp only [apply, Departs, and_true, AgreesCond]
      exact agrees_register_iff ha hop id
  | subscribe c id =>
      refine iff_of_true ⟨?_, trivial⟩ trivial
      simp only [apply, subscribe]
      split
      · exact ha
      · exact ha
  | unsubscribe c id =>
      refine iff_of_true ⟨?_, trivial⟩ trivial
      simp only [apply, unsubscribe]
      split
      · exact ha
      · exact ha
  | unregister c =>
      simp only [apply, Departs, AgreesCond]
      rw [departs_unregister_iff ha]
      exact and_iff_right_of_imp fun hs => agrees_unregister ha hs
  | disconnect c =>
      simp only [apply, Departs, AgreesCond]
      rw [show (∀ id, (r.disconnect sentinel c).owner id ≠ some c) ↔
        r.owner sentinel ≠ some c from departs_unregister_iff ha]
      exact and_iff_right_of_imp fun hs => agrees_disconnect ha hs
  | idle => exact iff_of_true ⟨ha, trivial⟩ trivial

/-! ## Completeness -/

omit [DecidableEq I] in
theorem complete_connect (h : r.Inv sentinel) (hcomp : r.Complete) {c : C}
    (hc : r.phase c = .fresh) : (r.connect sentinel c).Complete := by
  intro s p id hsp hid howner
  have hpc : p ≠ c := by
    rintro rfl
    exact h.owner_not_fresh id p howner hc
  have hsc : s ≠ c := by
    rintro rfl
    simp [connect] at hid
  simp only [connect, Function.update_of_ne hpc, Function.update_of_ne hsc] at hid ⊢
  exact hcomp s p id hsp hid howner

theorem complete_register_iff (hcomp : r.Complete) (c : C) (id : I) :
    (r.register sentinel c id).Complete ↔
      (r.owner id ≠ some c → ∀ s, s ≠ c → id ∈ r.subs s → s ∈ r.sendTo c) := by
  constructor
  · intro hpost _ s hsc hid
    exact hpost s c id hsc hid (by simp [register])
  · intro hcond s p id' hsp hid' howner
    by_cases hid : id' = id
    · -- The new owner must already send to the subscribers of its predecessor.
      subst hid
      simp only [register, Function.update_self, Option.some.injEq] at howner
      subst howner
      by_cases hown : r.owner id' = some c
      · exact hcomp s c id' hsp hid' hown
      · exact hcond hown s hsp hid'
    · simp only [register, Function.update_of_ne hid] at howner
      exact hcomp s p id' hsp hid' howner

theorem complete_subscribe (hcomp : r.Complete) (c : C) (id : I) :
    (r.subscribe c id).Complete := by
  unfold subscribe
  cases haccept : r.accepts c id with
  | none => exact hcomp
  | some q =>
      intro s p id' hsp hid' howner
      have hid_owner : r.owner id = some q := by
        unfold accepts at haccept
        split at haccept
        · exact absurd haccept (by simp)
        · exact haccept
      have hold : id' ∈ r.subs s → s ∈ r.sendTo p := fun hmem =>
        hcomp s p id' hsp hmem howner
      simp only [Function.update_apply] at hid' ⊢
      by_cases hsc : s = c
      · subst hsc
        rw [if_pos rfl] at hid'
        rcases mem_addNew.mp hid' with hmem | rfl
        · split
          · exact mem_addNew.mpr (Or.inl (by subst p; exact hold hmem))
          · exact hold hmem
        · have hpq : p = q := Option.some.inj (howner.symm.trans hid_owner)
          rw [if_pos hpq]
          exact mem_addNew.mpr (Or.inr rfl)
      · rw [if_neg hsc] at hid'
        split
        · exact mem_addNew.mpr (Or.inl (by subst p; exact hold hid'))
        · exact hold hid'

theorem complete_unsubscribe_iff (h : r.Inv sentinel) (hcomp : r.Complete) (c : C) (id : I) :
    (r.unsubscribe c id).Complete ↔
      (id ∈ r.subs c → ∀ p, r.owner id = some p → p ≠ c →
        ∀ id' ∈ r.subs c, r.owner id' = some p → id' = id) := by
  unfold unsubscribe
  by_cases hmem : id ∈ r.subs c
  · rw [if_pos hmem]
    constructor
    · intro hpost _ p howner hpc id' hid' howner'
      by_contra hne
      have hkept : id' ∈ (r.subs c).erase id :=
        (h.subs_nodup c).mem_erase_iff.mpr ⟨hne, hid'⟩
      have := hpost c p id' hpc.symm (by simpa using hkept) howner'
      simp [howner] at this
    · intro hcond s p id' hsp hid' howner'
      simp only [Function.update_apply] at hid' ⊢
      have hold : id' ∈ r.subs s := by
        split at hid'
        · subst s
          exact ((h.subs_nodup c).mem_erase_iff.mp hid').2
        · exact hid'
      have hin : s ∈ r.sendTo p := hcomp s p id' hsp hold howner'
      split
      · rename_i howner
        rw [List.mem_filter, decide_eq_true_eq]
        refine ⟨hin, ?_⟩
        rintro rfl
        rw [if_pos rfl, (h.subs_nodup s).mem_erase_iff] at hid'
        exact hid'.1 (hcond hmem p howner hsp.symm id' hid'.2 howner')
      · exact hin
  · rw [if_neg hmem]
    exact iff_of_true hcomp fun habs => absurd habs hmem

theorem complete_unregister_iff (hcomp : r.Complete) (c : C) :
    (r.unregister sentinel c).Complete ↔
      ∀ id, r.owner id = some c → (r.name c = sentinel ∨ id ≠ r.name c) →
        ∀ s, s ≠ c → id ∉ r.subs s := by
  have hsubs : ∀ s id, id ∈ (r.unregister sentinel c).subs s ↔ s ≠ c ∧ id ∈ r.subs s := by
    intro s id
    by_cases hsc : s = c
    · subst hsc
      simp [unregister]
    · simp [unregister, hsc]
  constructor
  · intro hpost id howner hkept s hsc hid
    have hin := hpost s c id hsc ((hsubs s id).mpr ⟨hsc, hid⟩)
      (owner_unregister_eq_some.mpr ⟨howner, hkept⟩)
    exact (mem_sendTo_unregister.mp hin).1 rfl
  · intro hcond s p id hsp hid howner
    obtain ⟨hsc, hold⟩ := (hsubs s id).mp hid
    obtain ⟨hown, hkept⟩ := owner_unregister_eq_some.mp howner
    rw [mem_sendTo_unregister]
    refine ⟨?_, hcomp s p id hsp hold hown, fun hs => absurd hs hsc⟩
    rintro rfl
    exact hcond id hown hkept s hsc hold

/-- **Completeness, one operation.** -/
theorem complete_apply_iff (h : r.Inv sentinel) (hcomp : r.Complete) {op : Op C I}
    (hop : r.Allowed op) :
    (r.apply sentinel op).Complete ↔ r.CompleteCond sentinel op := by
  cases op with
  | connect c => exact iff_of_true (complete_connect h hcomp hop) trivial
  | register c id => exact complete_register_iff hcomp c id
  | subscribe c id => exact iff_of_true (complete_subscribe hcomp c id) trivial
  | unsubscribe c id => exact complete_unsubscribe_iff h hcomp c id
  | unregister c => exact complete_unregister_iff hcomp c
  | disconnect c => exact complete_unregister_iff hcomp c
  | idle => exact iff_of_true hcomp trivial

/-! ## Soundness -/

/-- The list of `p` is accounted for: whoever is in it subscribed to an id `p` owns. -/
def Justified (r : Registry C I) (p : C) : Prop :=
  ∀ s ∈ r.sendTo p, ∃ id ∈ r.subs s, r.owner id = some p

omit [DecidableEq I] in
theorem justified_connect_self (c : C) : (r.connect sentinel c).Justified c := by
  intro s hs
  simp [connect] at hs

omit [DecidableEq I] in
theorem justified_connect (h : r.Inv sentinel) {c p : C} (hc : r.phase c = .fresh)
    (hp : r.Justified p) : (r.connect sentinel c).Justified p := by
  by_cases hpc : p = c
  · subst hpc
    exact justified_connect_self p
  · intro s hs
    simp only [connect, Function.update_of_ne hpc] at hs
    obtain ⟨id, hid, howner⟩ := hp s hs
    have hsc : s ≠ c := by
      rintro rfl
      rw [h.subs_of_not_live s (by simp [hc])] at hid
      exact absurd hid (by simp)
    refine ⟨id, ?_, howner⟩
    simpa [connect, Function.update_of_ne hsc] using hid

/-- Only the list of the displaced owner can lose its account. -/
theorem justified_register_iff {p : C} (hp : r.Justified p) (c : C) (id : I) :
    (r.register sentinel c id).Justified p ↔
      (r.owner id = some p → p ≠ c → ∀ s ∈ r.sendTo p,
        ∃ id' ∈ r.subs s, id' ≠ id ∧ r.owner id' = some p) := by
  constructor
  · intro hpost hold hne s hs
    obtain ⟨id', hid', howner⟩ := hpost s hs
    have hid : id' ≠ id := by
      rintro rfl
      simp only [register, Function.update_self, Option.some.injEq] at howner
      exact hne howner.symm
    simp only [register, Function.update_of_ne hid] at howner
    exact ⟨id', hid', hid, howner⟩
  · intro hcond s hs
    obtain ⟨id', hid', howner⟩ := hp s hs
    by_cases hid : id' = id
    · subst hid
      by_cases hpc : p = c
      · subst hpc
        exact ⟨id', hid', by simp [register]⟩
      · obtain ⟨id'', hid'', hne, howner''⟩ := hcond howner hpc s hs
        exact ⟨id'', hid'', by simpa [register, Function.update_of_ne hne] using howner''⟩
    · exact ⟨id', hid', by simpa [register, Function.update_of_ne hid] using howner⟩

theorem justified_subscribe {p : C} (hp : r.Justified p) (c : C) (id : I) :
    (r.subscribe c id).Justified p := by
  unfold subscribe
  cases haccept : r.accepts c id with
  | none => exact hp
  | some q =>
      have hid_owner : r.owner id = some q := by
        unfold accepts at haccept
        split at haccept
        · exact absurd haccept (by simp)
        · exact haccept
      -- a subscription already there stays there
      have hkeep : ∀ s id', id' ∈ r.subs s →
          id' ∈ Function.update r.subs c (addNew id (r.subs c)) s := by
        intro s id' hid'
        rw [Function.update_apply]
        split
        · subst s
          exact mem_addNew.mpr (Or.inl hid')
        · exact hid'
      intro s hs
      have hcase : s ∈ r.sendTo p ∨ (p = q ∧ s = c) := by
        simp only [Function.update_apply] at hs
        split at hs
        · subst p
          rcases mem_addNew.mp hs with hold | hnew
          · exact Or.inl hold
          · exact Or.inr ⟨rfl, hnew⟩
        · exact Or.inl hs
      rcases hcase with hold | ⟨rfl, rfl⟩
      · obtain ⟨id', hid', howner⟩ := hp s hold
        exact ⟨id', hkeep s id' hid', howner⟩
      · exact ⟨id, by simp, hid_owner⟩

theorem justified_unsubscribe {p : C} (hp : r.Justified p) (c : C) (id : I) :
    (r.unsubscribe c id).Justified p := by
  unfold unsubscribe
  by_cases hmem : id ∈ r.subs c
  · rw [if_pos hmem]
    intro s hs
    have hs' : s ∈ r.sendTo p ∧ (r.owner id = some p → s ≠ c) := by
      dsimp only at hs
      split at hs
      · rw [List.mem_filter, decide_eq_true_eq] at hs
        exact ⟨hs.1, fun _ => hs.2⟩
      · rename_i hne
        exact ⟨hs, fun h => absurd h hne⟩
    obtain ⟨id', hid', howner⟩ := hp s hs'.1
    refine ⟨id', ?_, howner⟩
    by_cases hsc : s = c
    · subst hsc
      -- the witness is not the id given up: its owner's list no longer has `c`
      have hne : id' ≠ id := by
        rintro rfl
        exact hs'.2 howner rfl
      simpa using (List.mem_erase_of_ne hne).mpr hid'
    · simpa [Function.update_of_ne hsc] using hid'
  · rw [if_neg hmem]
    exact hp

theorem justified_unregister (h : r.Inv sentinel) {p : C} (hp : r.Justified p) (c : C) :
    (r.unregister sentinel c).Justified p := by
  intro s hs
  obtain ⟨hpc, hold, hc⟩ := mem_sendTo_unregister.mp hs
  obtain ⟨id, hid, howner⟩ := hp s hold
  have hsc : s ≠ c := by
    rintro rfl
    exact hc rfl id hid howner
  refine ⟨id, by simpa [unregister, Function.update_of_ne hsc] using hid, ?_⟩
  rw [owner_unregister_eq_some]
  refine ⟨howner, ?_⟩
  by_cases hname : r.name c = sentinel
  · exact Or.inl hname
  · right
    rintro rfl
    exact hpc (Option.some.inj (howner.symm.trans (h.owner_name c hname)))

/-- **Soundness, one operation.**  Only the lists of live connections count; a
connection that comes up has an empty one. -/
theorem sound_apply_iff (h : r.Inv sentinel) (hsound : r.Sound) {op : Op C I}
    (hop : r.Allowed op) :
    (r.apply sentinel op).Sound ↔ r.SoundCond op := by
  have hjust : ∀ p, r.phase p = .live → r.Justified p := fun p hp s hs => hsound p s hp hs
  cases op with
  | connect c =>
      refine iff_of_true ?_ trivial
      intro p s hp hs
      by_cases hpc : p = c
      · subst hpc
        exact justified_connect_self p s hs
      · have hlive : r.phase p = .live := by
          simpa [apply, connect, Function.update_of_ne hpc] using hp
        exact justified_connect h hop (hjust p hlive) s hs
  | register c id =>
      constructor
      · intro hpost old hold hne hlive
        exact (justified_register_iff (hjust old hlive) c id).mp (hpost old · hlive) hold hne
      · intro hcond p s hp
        exact (justified_register_iff (hjust p hp) c id).mpr
          (fun hold hne => hcond p hold hne hp) s
  | subscribe c id =>
      refine iff_of_true ?_ trivial
      intro p s hp
      rw [phase_apply sentinel r (by simp) (by simp)] at hp
      exact justified_subscribe (hjust p hp) c id s
  | unsubscribe c id =>
      refine iff_of_true ?_ trivial
      intro p s hp
      rw [phase_apply sentinel r (by simp) (by simp)] at hp
      exact justified_unsubscribe (hjust p hp) c id s
  | unregister c =>
      exact iff_of_true (fun p s hp => justified_unregister h (hjust p hp) c s) trivial
  | disconnect c =>
      refine iff_of_true ?_ trivial
      intro p s hp hs
      change s ∈ (r.unregister sentinel c).sendTo p at hs
      have hpc : p ≠ c := (mem_sendTo_unregister.mp hs).1
      have hlive : r.phase p = .live := by
        simpa [apply, disconnect, Function.update_of_ne hpc] using hp
      exact justified_unregister h (hjust p hlive) c s hs
  | idle => exact iff_of_true hsound trivial

/-! ## Connections that are gone -/

/-- No list has a connection that is gone. -/
def Cleared (r : Registry C I) : Prop :=
  ∀ c p, r.phase c = .gone → c ∉ r.sendTo p

/-- A connection that goes down is reached: whoever else has it in its list owns an
id it subscribed to. -/
def ClearedCond (r : Registry C I) : Op C I → Prop
  | .disconnect c =>
      ∀ p, p ≠ c → c ∈ r.sendTo p → ∃ id ∈ r.subs c, r.owner id = some p
  | _ => True

/-- An id is taken over from another connection, live or gone, only if everyone in
that connection's list subscribed to a second id it owns. -/
def TakeoverCond (r : Registry C I) : Op C I → Prop
  | .register c id =>
      ∀ old, r.owner id = some old → old ≠ c → ∀ s ∈ r.sendTo old,
        ∃ id' ∈ r.subs s, id' ≠ id ∧ r.owner id' = some old
  | _ => True

omit [DecidableEq C] [DecidableEq I] in
/-- A list all of whose members subscribed has nobody who is gone. -/
theorem cleared_of_justified (h : r.Inv sentinel) (hall : ∀ p, r.Justified p) :
    r.Cleared := by
  intro c p hgone hmem
  obtain ⟨id, hid, -⟩ := hall p c hmem
  rw [h.subs_of_not_live c (by simp [hgone])] at hid
  simp at hid

theorem justified_apply (h : r.Inv sentinel) (hall : ∀ p, r.Justified p) {op : Op C I}
    (hop : r.Allowed op) (hcond : r.TakeoverCond op) :
    ∀ p, (r.apply sentinel op).Justified p := by
  intro p
  cases op with
  | connect c => exact justified_connect h hop (hall p)
  | register c id => exact (justified_register_iff (hall p) c id).mpr (hcond p)
  | subscribe c id => exact justified_subscribe (hall p) c id
  | unsubscribe c id => exact justified_unsubscribe (hall p) c id
  | unregister c => exact justified_unregister h (hall p) c
  | disconnect c => exact justified_unregister h (hall p) c
  | idle => exact hall p

/-- The members an operation leaves in the lists were there before, except for the
subscriber of a SUBSCRIBE. -/
theorem mem_sendTo_apply {op : Op C I} {p s : C}
    (hs : s ∈ (r.apply sentinel op).sendTo p) :
    s ∈ r.sendTo p ∨ ∃ id, op = .subscribe s id ∧ r.accepts s id = some p := by
  cases op with
  | connect c =>
      left
      by_cases hpc : p = c
      · simp [apply, connect, hpc] at hs
      · simpa [apply, connect, Function.update_of_ne hpc] using hs
  | register c id => exact Or.inl hs
  | subscribe c id =>
      simp only [apply, subscribe] at hs
      cases haccept : r.accepts c id with
      | none =>
          rw [haccept] at hs
          exact Or.inl hs
      | some q =>
          rw [haccept] at hs
          simp only [Function.update_apply] at hs
          split at hs
          · subst p
            rcases mem_addNew.mp hs with hold | rfl
            · exact Or.inl hold
            · exact Or.inr ⟨id, rfl, haccept⟩
          · exact Or.inl hs
  | unsubscribe c id =>
      left
      simp only [apply, unsubscribe] at hs
      split at hs
      · dsimp only at hs
        split at hs
        · exact List.mem_of_mem_filter hs
        · exact hs
      · exact hs
  | unregister c => exact Or.inl (mem_sendTo_unregister.mp hs).2.1
  | disconnect c =>
      change s ∈ (r.unregister sentinel c).sendTo p at hs
      exact Or.inl (mem_sendTo_unregister.mp hs).2.1
  | idle => exact Or.inl hs

/-- Only going down makes a connection gone. -/
theorem gone_of_apply {op : Op C I} (hdown : ∀ c, op ≠ .disconnect c) {d : C}
    (hgone : (r.apply sentinel op).phase d = .gone) : r.phase d = .gone := by
  by_cases hup : ∃ c, op = .connect c
  · obtain ⟨c, rfl⟩ := hup
    by_cases hdc : d = c
    · simp [apply, connect, hdc] at hgone
    · simpa [apply, connect, Function.update_of_ne hdc] using hgone
  · push Not at hup
    rwa [phase_apply sentinel r hup hdown] at hgone

/-- **Clean-up, one operation.** -/
theorem cleared_apply_iff (hcleared : r.Cleared) {op : Op C I}
    (hop : r.Allowed op) :
    (r.apply sentinel op).Cleared ↔ r.ClearedCond op := by
  -- Whoever becomes gone does so by this operation; everybody else was cleared before.
  have hkeep : ∀ c p, r.phase c = .gone → c ∉ (r.apply sentinel op).sendTo p := by
    intro c p hgone hmem
    rcases mem_sendTo_apply hmem with hold | ⟨id, rfl, -⟩
    · exact hcleared c p hgone hold
    · rw [show r.phase c = .live from hop] at hgone
      simp at hgone
  by_cases hdown : ∃ c, op = .disconnect c
  · obtain ⟨c, rfl⟩ := hdown
    constructor
    · intro hpost p hpc hmem
      by_contra hnone
      push Not at hnone
      have hgone : (r.disconnect sentinel c).phase c = .gone := by simp [disconnect]
      refine hpost c p hgone ?_
      show c ∈ (r.unregister sentinel c).sendTo p
      exact mem_sendTo_unregister.mpr ⟨hpc, hmem, fun _ => hnone⟩
    · intro hcond d p hgone
      by_cases hdc : d = c
      · subst hdc
        intro hmem
        change d ∈ (r.unregister sentinel d).sendTo p at hmem
        obtain ⟨hpd, hold, hnone⟩ := mem_sendTo_unregister.mp hmem
        obtain ⟨id, hid, howner⟩ := hcond p hpd hold
        exact hnone rfl id hid howner
      · refine hkeep d p ?_
        simpa [apply, disconnect, Function.update_of_ne hdc] using hgone
  · push Not at hdown
    refine iff_of_true ?_ ?_
    · intro d p hgone
      exact hkeep d p (gone_of_apply hdown hgone)
    · cases op with
      | disconnect c => exact absurd rfl (hdown c)
      | _ => trivial

/-! ## Subscribing to oneself -/

/-- Nobody is in its own list. -/
def Selfless (r : Registry C I) : Prop :=
  ∀ c, c ∉ r.sendTo c

/-- A connection that subscribes to an id it owns asks for its name, and is refused. -/
def SelflessCond (r : Registry C I) : Op C I → Prop
  | .subscribe c id => r.owner id = some c → id = r.name c
  | _ => True

/-- **Selflessness, one operation.** -/
theorem selfless_apply_iff (hself : r.Selfless) {op : Op C I} :
    (r.apply sentinel op).Selfless ↔ r.SelflessCond op := by
  have hiff : (r.apply sentinel op).Selfless ↔
      ∀ c id, op = .subscribe c id → r.accepts c id ≠ some c := by
    constructor
    · rintro hpost c id rfl haccept
      refine hpost c ?_
      simp [apply, subscribe, haccept]
    · intro hrefused c hmem
      rcases mem_sendTo_apply hmem with hold | ⟨id, hop, haccept⟩
      · exact hself c hold
      · exact hrefused c id hop haccept
  rw [hiff]
  cases op with
  | subscribe c id =>
      have haccepts : r.accepts c id ≠ some c ↔ (r.owner id = some c → id = r.name c) := by
        unfold accepts
        by_cases hname : id = r.name c
        · simp [hname]
        · simp [hname]
      rw [SelflessCond, ← haccepts]
      simp
  | _ => simp [SelflessCond]

end Registry
end Server
end StupidP2P
