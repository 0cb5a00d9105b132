import Mathlib.Data.List.Induction
import Mathlib.Tactic.Basic

/-!
# The most recent events of a history

A history is a list with the oldest event first.  `AllRecent n p` says that it has at least `n`
events and that the `n` most recent ones all satisfy `p`.

A counter that is increased by an event with `p` and reset by any other holds the number of
events with `p` in a row at the end of the history, `streak p`; one that is never reset holds
their number in all.  `le_streak_iff` and `AllRecent.le_countP` say what the two can tell about
the recent events.
-/

namespace StupidP2P
namespace Foundation

variable {α : Type} {p : α → Bool} {history : List α} {x : α} {n : Nat}

/-- The `n` most recent events all satisfy `p`. -/
def AllRecent (n : Nat) (p : α → Bool) (history : List α) : Prop :=
  ∃ before recent, history = before ++ recent ∧ recent.length = n ∧ ∀ x ∈ recent, p x = true

/-- The number of events with `p` since the last one without. -/
def streak (p : α → Bool) (history : List α) : Nat := (history.reverse.takeWhile p).length

@[simp] theorem streak_nil : streak p [] = 0 := rfl

theorem streak_concat (p : α → Bool) (history : List α) (x : α) :
    streak p (history ++ [x]) = if p x then streak p history + 1 else 0 := by
  rw [streak, streak, List.reverse_concat, List.takeWhile_cons]
  by_cases hx : p x = true
  · rw [if_pos hx, if_pos hx, List.length_cons]
  · rw [if_neg hx, if_neg hx, List.length_nil]

theorem allRecent_zero : AllRecent 0 p history := ⟨history, [], by simp, rfl, by simp⟩

theorem not_allRecent_nil : ¬ AllRecent (n + 1) p [] := by
  rintro ⟨before, recent, hnil, hlength, -⟩
  obtain ⟨-, rfl⟩ := List.append_eq_nil_iff.mp hnil.symm
  simp at hlength

theorem allRecent_concat :
    AllRecent (n + 1) p (history ++ [x]) ↔ p x = true ∧ AllRecent n p history := by
  constructor
  · rintro ⟨before, recent, hsplit, hlength, hall⟩
    -- The last of the recent events is `x`.
    obtain ⟨earlier, y, rfl⟩ : ∃ earlier y, recent = earlier ++ [y] := by
      have hne : recent ≠ [] := by
        rintro rfl
        simp at hlength
      exact ⟨_, _, (List.dropLast_concat_getLast hne).symm⟩
    rw [← List.append_assoc] at hsplit
    obtain ⟨hhistory, hlast⟩ := List.append_inj' hsplit rfl
    obtain rfl : x = y := List.singleton_inj.mp hlast
    refine ⟨hall x (by simp), before, earlier, hhistory, ?_, ?_⟩
    · simpa using hlength
    · intro y hy
      exact hall y (List.mem_append_left _ hy)
  · rintro ⟨hx, before, recent, rfl, hlength, hall⟩
    refine ⟨before, recent ++ [x], by simp, by simpa using hlength, ?_⟩
    intro y hy
    rcases List.mem_append.mp hy with hearlier | hlast
    · exact hall y hearlier
    · rw [List.mem_singleton.mp hlast]
      exact hx

/-- The `n` most recent events satisfy `p` exactly if there are `n` in a row at the end. -/
theorem le_streak_iff : n ≤ streak p history ↔ AllRecent n p history := by
  induction history using List.reverseRecOn generalizing n with
  | nil =>
      cases n with
      | zero => exact iff_of_true (Nat.zero_le _) allRecent_zero
      | succ n => exact iff_of_false (by simp) not_allRecent_nil
  | append_singleton history x ih =>
      cases n with
      | zero => exact iff_of_true (Nat.zero_le _) allRecent_zero
      | succ n =>
          rw [allRecent_concat, ← ih, streak_concat]
          by_cases hx : p x = true
          · rw [if_pos hx, and_iff_right hx]
            omega
          · rw [if_neg hx]
            exact iff_of_false (by omega) fun h => hx h.1

instance : Decidable (AllRecent n p history) := decidable_of_iff _ le_streak_iff

/-- The recent events are among all events with `p`. -/
theorem AllRecent.le_countP (h : AllRecent n p history) : n ≤ history.countP p := by
  obtain ⟨before, recent, rfl, hlength, hall⟩ := h
  have hrecent : recent.countP p = recent.length := List.countP_eq_length.mpr hall
  rw [List.countP_append, hrecent]
  omega

end Foundation
end StupidP2P
