import Mathlib.Data.List.Nodup
import Mathlib.Logic.Function.Basic
import Mathlib.Tactic.Basic

/-!
# The roster: who is up, and when it was last heard of

What the connection list of the server is for.  A roster is the sequence of the
connections that are up together with the time at which each was last heard of.
A connection enters at the end; being heard of moves it to the end; the idle
sweep runs from the front and stops at the first connection that is neither
expired nor dated in the future.

The sweep may stop early because the roster is sorted by time.  This module says
what keeps it sorted (`sorted_connect`, `sorted_disconnect`, `sorted_sweep`) and
what the sweep then does (`sweep_expired`, `sweep_time`).
-/

namespace StupidP2P
namespace Server

universe u

/-- The connections that are up, and when each was last heard of. -/
structure Roster (C : Type u) where
  order : List C
  time : C → Int

namespace Roster

variable {C : Type u} [DecidableEq C]

/-- A connection comes up at time `now`. -/
def connect (r : Roster C) (c : C) (now : Int) : Roster C where
  order := r.order ++ [c]
  time := Function.update r.time c now

/-- A connection goes down. -/
def disconnect (r : Roster C) (c : C) : Roster C where
  order := r.order.filter fun d => decide (d ≠ c)
  time := r.time

/-- A connection is heard of at time `now`: it goes to the end. -/
def beat (r : Roster C) (c : C) (now : Int) : Roster C :=
  (r.disconnect c).connect c now

/-- The sweep over a sequence of connections: those found expired, and the times
afterwards. -/
def sweep (limit now : Int) : List C → (C → Int) → List C × (C → Int)
  | [], time => ([], time)
  | c :: rest, time =>
      if now - time c > limit then
        (c :: (sweep limit now rest time).1, (sweep limit now rest time).2)
      else if now - time c < 0 then sweep limit now rest (Function.update time c now)
      else ([], time)

/-- Nobody was heard of later than a connection behind it. -/
def Sorted (r : Roster C) : Prop :=
  r.order.Pairwise fun c d => r.time c ≤ r.time d

/-! ## Coming, going and being heard of -/

omit [DecidableEq C] in
/-- Only the times of the connections in the roster count. -/
theorem pairwise_congr {order : List C} {time time' : C → Int}
    (heq : ∀ c ∈ order, time' c = time c) :
    (order.Pairwise fun c d => time' c ≤ time' d) ↔
      order.Pairwise fun c d => time c ≤ time d := by
  refine List.Pairwise.iff_of_mem ?_
  intro c d hc hd
  rw [heq c hc, heq d hd]

theorem update_of_mem {order : List C} {time : C → Int} {c d : C} {now : Int}
    (hfresh : c ∉ order) (hd : d ∈ order) : Function.update time c now d = time d := by
  refine Function.update_of_ne ?_ _ _
  intro heq
  exact hfresh (heq ▸ hd)

theorem sorted_connect {r : Roster C} {c : C} {now : Int} (hsorted : r.Sorted)
    (hfresh : c ∉ r.order) (hlate : ∀ d ∈ r.order, r.time d ≤ now) :
    (r.connect c now).Sorted := by
  show (r.order ++ [c]).Pairwise _
  rw [List.pairwise_append]
  refine ⟨?_, List.pairwise_singleton _ _, ?_⟩
  · exact (pairwise_congr fun d hd => update_of_mem hfresh hd).mpr hsorted
  · intro d hd e he
    rw [List.mem_singleton] at he
    subst he
    show Function.update r.time e now d ≤ Function.update r.time e now e
    rw [update_of_mem hfresh hd, Function.update_self]
    exact hlate d hd

theorem sorted_disconnect {r : Roster C} (c : C) (hsorted : r.Sorted) :
    (r.disconnect c).Sorted :=
  List.Pairwise.sublist List.filter_sublist hsorted

theorem mem_disconnect {r : Roster C} {c d : C} :
    d ∈ (r.disconnect c).order ↔ d ∈ r.order ∧ d ≠ c := by
  simp [disconnect]

/-! ## The sweep -/

section Sweep

variable {limit now : Int}

/-- The sweep changes only times that lie in the future, and sets them to `now`. -/
theorem sweep_time (order : List C) (time : C → Int) (d : C) :
    (sweep limit now order time).2 d = time d ∨
      now < time d ∧ (sweep limit now order time).2 d = now := by
  induction order generalizing time with
  | nil => exact Or.inl rfl
  | cons c rest ih =>
      by_cases hexpired : now - time c > limit
      · simp only [sweep, if_pos hexpired]
        exact ih time
      · by_cases hfuture : now - time c < 0
        · simp only [sweep, if_neg hexpired, if_pos hfuture]
          have hrest := ih (Function.update time c now)
          by_cases hd : d = c
          · -- Reset here; what follows can only set the time to `now` once more.
            subst hd
            rw [Function.update_self] at hrest
            right
            rcases hrest with hkept | ⟨hlt, -⟩
            · exact ⟨by omega, hkept⟩
            · omega
          · rwa [Function.update_of_ne hd] at hrest
        · left
          simp only [sweep, if_neg hexpired, if_neg hfuture]

/-- A connection that is not swept over keeps its time. -/
theorem sweep_time_of_notMem {order : List C} {d : C} (hd : d ∉ order) (time : C → Int) :
    (sweep limit now order time).2 d = time d := by
  induction order generalizing time with
  | nil => rfl
  | cons c rest ih =>
      rw [List.mem_cons, not_or] at hd
      simp only [sweep]
      split
      · exact ih hd.2 time
      · split
        · rw [ih hd.2, Function.update_of_ne hd.1]
        · rfl

/-- **The early exit hides nothing.**  On a sorted roster the sweep finds exactly
the expired connections. -/
theorem sweep_expired {order : List C} {time : C → Int}
    (hnodup : order.Nodup) (hsorted : order.Pairwise fun c d => time c ≤ time d) :
    (sweep limit now order time).1 =
      order.filter fun c => decide (now - time c > limit) := by
  induction order generalizing time with
  | nil => rfl
  | cons c rest ih =>
      rw [List.nodup_cons] at hnodup
      rw [List.pairwise_cons] at hsorted
      by_cases hexpired : now - time c > limit
      · simp only [sweep, if_pos hexpired]
        rw [ih hnodup.2 hsorted.2, List.filter_cons_of_pos (by simpa using hexpired)]
      · rw [List.filter_cons_of_neg (by simpa using hexpired)]
        by_cases hfuture : now - time c < 0
        · -- The reset of `c` is not seen by the rest.
          have hkept : ∀ d ∈ rest, Function.update time c now d = time d :=
            fun d hd => update_of_mem hnodup.1 hd
          simp only [sweep, if_neg hexpired, if_pos hfuture]
          rw [ih hnodup.2 ((pairwise_congr hkept).mpr hsorted.2)]
          refine List.filter_congr ?_
          intro d hd
          rw [hkept d hd]
        · -- The break: everybody behind `c` was heard of at least as recently.
          simp only [sweep, if_neg hexpired, if_neg hfuture]
          symm
          rw [List.filter_eq_nil_iff]
          intro d hd
          have hle := hsorted.1 d hd
          rw [decide_eq_true_iff]
          omega

/-- The sweep keeps the roster sorted.  With a negative limit it would not: a
connection dated in the future could be passed over and the one behind it reset. -/
theorem sorted_sweep (hlimit : 0 ≤ limit) {order : List C} {time : C → Int}
    (hnodup : order.Nodup) (hsorted : order.Pairwise fun c d => time c ≤ time d) :
    order.Pairwise fun c d =>
      (sweep limit now order time).2 c ≤ (sweep limit now order time).2 d := by
  induction order generalizing time with
  | nil => exact List.Pairwise.nil
  | cons c rest ih =>
      rw [List.nodup_cons] at hnodup
      rw [List.pairwise_cons] at hsorted
      by_cases hexpired : now - time c > limit
      · simp only [sweep, if_pos hexpired]
        refine List.pairwise_cons.mpr ⟨?_, ih hnodup.2 hsorted.2⟩
        intro d hd
        have hle := hsorted.1 d hd
        rw [sweep_time_of_notMem hnodup.1]
        rcases @sweep_time C _ limit now rest time d with hkept | ⟨-, hreset⟩ <;> omega
      · by_cases hfuture : now - time c < 0
        · have hkept : ∀ d ∈ rest, Function.update time c now d = time d :=
            fun d hd => update_of_mem hnodup.1 hd
          simp only [sweep, if_neg hexpired, if_pos hfuture]
          refine List.pairwise_cons.mpr
            ⟨?_, ih hnodup.2 ((pairwise_congr hkept).mpr hsorted.2)⟩
          intro d hd
          have hle := hsorted.1 d hd
          rw [sweep_time_of_notMem hnodup.1, Function.update_self]
          have hrest := @sweep_time C _ limit now rest (Function.update time c now) d
          rw [hkept d hd] at hrest
          rcases hrest with hsame | ⟨-, hreset⟩ <;> omega
        · simp only [sweep, if_neg hexpired, if_neg hfuture]
          exact List.pairwise_cons.mpr hsorted

end Sweep

end Roster
end Server
end StupidP2P
