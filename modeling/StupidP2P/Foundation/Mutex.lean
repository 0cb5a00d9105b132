import Mathlib.Logic.Function.Basic

/-!
# Sections around a mutex

Threads that each have a section of code, and a mutex with an owner.  Where a thread stands
in its section is a value of a type of the protocol's own; outside it is `none`.

Taking and releasing the mutex and moving through the section are separate operations, so
that a protocol can put them together wrongly.  `Exclusive` says that at most one thread is
in its section, `Owned` that a thread there owns the mutex, which implies it.
-/

namespace StupidP2P
namespace Foundation

universe u v

/-- The owner of the mutex, and where each thread stands. -/
structure Sections (T : Type u) (σ : Type v) where
  owner : Option T
  place : T → Option σ

namespace Sections

variable {T : Type u} {σ : Type v}

/-- The mutex is free and no thread is in its section. -/
def idle : Sections T σ := ⟨none, fun _ => none⟩

/-- The thread is between the entry and the exit of its section. -/
def Inside (s : Sections T σ) (t : T) : Prop := s.place t ≠ none

/-- At most one thread is. -/
def Exclusive (s : Sections T σ) : Prop := ∀ t u, s.Inside t → s.Inside u → t = u

/-- A thread in its section owns the mutex. -/
def Owned (s : Sections T σ) : Prop := ∀ t, s.Inside t → s.owner = some t

theorem Owned.exclusive {s : Sections T σ} (h : s.Owned) : s.Exclusive := by
  intro t u ht hu
  exact Option.some.inj ((h t ht).symm.trans (h u hu))

theorem not_inside_idle (t : T) : ¬ (idle : Sections T σ).Inside t :=
  fun h => h rfl

theorem inside_of_place {s : Sections T σ} {t : T} {x : σ} (h : s.place t = some x) :
    s.Inside t := by
  rw [Inside, h]
  exact Option.some_ne_none x

/-- The mutex changes hands. -/
def setOwner (s : Sections T σ) (owner : Option T) : Sections T σ := { s with owner := owner }

@[simp] theorem place_setOwner (s : Sections T σ) (owner : Option T) :
    (s.setOwner owner).place = s.place := rfl

@[simp] theorem inside_setOwner (s : Sections T σ) (owner : Option T) (t : T) :
    (s.setOwner owner).Inside t ↔ s.Inside t := Iff.rfl

@[simp] theorem exclusive_setOwner (s : Sections T σ) (owner : Option T) :
    (s.setOwner owner).Exclusive ↔ s.Exclusive := Iff.rfl

variable [DecidableEq T]

/-- A thread goes on to `x`, or out of its section. -/
def move (s : Sections T σ) (t : T) (x : Option σ) : Sections T σ :=
  { s with place := Function.update s.place t x }

variable {s : Sections T σ} {t u : T} {x : Option σ}

@[simp] theorem place_move_self : (s.move t x).place t = x := by
  simp only [move, Function.update_self]

theorem place_move_of_ne (h : u ≠ t) : (s.move t x).place u = s.place u := by
  simp only [move, Function.update_of_ne h]

theorem inside_move_of_ne (h : u ≠ t) : (s.move t x).Inside u ↔ s.Inside u := by
  rw [Inside, place_move_of_ne h, Inside]

/-- A thread that moves on in its section, or out of it, lets no other in. -/
theorem inside_of_move (ht : s.Inside t) (hu : (s.move t x).Inside u) : s.Inside u := by
  by_cases h : u = t
  · exact h ▸ ht
  · exact (inside_move_of_ne h).mp hu

theorem Exclusive.move (h : s.Exclusive) (ht : s.Inside t) (x : Option σ) :
    (s.move t x).Exclusive := by
  intro a b ha hb
  exact h a b (inside_of_move ht ha) (inside_of_move ht hb)

/-- When the one thread in its section leaves it, none is left. -/
theorem Exclusive.not_inside_leave (h : s.Exclusive) (ht : s.Inside t) (u : T) :
    ¬ (s.move t none).Inside u := by
  intro hu
  obtain rfl := h u t (inside_of_move ht hu) ht
  exact hu place_move_self

/-- **Entering** keeps exclusion exactly if no thread is in its section. -/
theorem exclusive_enter_iff {y : σ} (ht : ¬ s.Inside t) :
    (s.move t (some y)).Exclusive ↔ ∀ u, ¬ s.Inside u := by
  have henter : (s.move t (some y)).Inside t := inside_of_place place_move_self
  constructor
  · intro h u hu
    have hne : u ≠ t := fun heq => ht (heq ▸ hu)
    exact hne (h u t ((inside_move_of_ne hne).mpr hu) henter)
  · intro hnone a b ha hb
    have halone : ∀ c, (s.move t (some y)).Inside c → c = t := by
      intro c hc
      by_contra hne
      exact hnone c ((inside_move_of_ne hne).mp hc)
    rw [halone a ha, halone b hb]

end Sections
end Foundation
end StupidP2P
