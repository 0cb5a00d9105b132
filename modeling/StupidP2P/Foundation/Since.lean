import StupidP2P.Foundation.Machine

/-!
# What has held since

A fact about a state that one kind of step establishes and another kind ends can be read off
the history: it holds when a step established it and no step has ended it since.  `Since` is
that statement about a list of steps, and `Machine.Run.since_iff` replaces a fact about the
state a run ends in by one about the run itself.
-/

namespace StupidP2P
namespace Foundation

universe u v w

/-- Some entry opens, and none after it closes. -/
def Since {α : Type u} (opens closes : α → Prop) (history : List α) : Prop :=
  ∃ before a after, history = before ++ a :: after ∧ opens a ∧ ∀ b ∈ after, ¬ closes b

section

variable {α : Type u} {opens closes : α → Prop} {history more : List α} {a : α}

theorem not_since_nil : ¬ Since opens closes [] := by
  rintro ⟨before, a, after, hsplit, -⟩
  exact absurd hsplit (by simp)

theorem Since.append (h : Since opens closes history) (hmore : ∀ b ∈ more, ¬ closes b) :
    Since opens closes (history ++ more) := by
  obtain ⟨before, a, after, rfl, hopens, hafter⟩ := h
  refine ⟨before, a, after ++ more, by simp, hopens, ?_⟩
  intro b hb
  rcases List.mem_append.mp hb with hold | hnew
  · exact hafter b hold
  · exact hmore b hnew

theorem since_of_opens (hopens : opens a) (hmore : ∀ b ∈ more, ¬ closes b) :
    Since opens closes (history ++ a :: more) :=
  ⟨history, a, more, rfl, hopens, hmore⟩

/-- An entry of a list is the last one, or stands before it. -/
theorem split_concat {before after : List α} {b : α}
    (hsplit : history ++ [a] = before ++ b :: after) :
    (after = [] ∧ history = before ∧ a = b) ∨
      ∃ init, after = init ++ [a] ∧ history = before ++ b :: init := by
  rcases List.eq_nil_or_concat' after with rfl | ⟨init, last, rfl⟩
  · obtain ⟨hbefore, hlast⟩ := List.append_inj' hsplit rfl
    exact Or.inl ⟨rfl, hbefore, List.singleton_inj.mp hlast⟩
  · rw [← List.cons_append, ← List.append_assoc] at hsplit
    obtain ⟨hinit, hlast⟩ := List.append_inj' hsplit rfl
    obtain rfl := List.singleton_inj.mp hlast
    exact Or.inr ⟨init, rfl, hinit⟩

theorem since_concat :
    Since opens closes (history ++ [a]) ↔ opens a ∨ Since opens closes history ∧ ¬ closes a := by
  constructor
  · rintro ⟨before, b, after, hsplit, hopens, hafter⟩
    rcases split_concat hsplit with ⟨-, -, rfl⟩ | ⟨init, rfl, rfl⟩
    · exact Or.inl hopens
    · refine Or.inr ⟨⟨before, b, init, rfl, hopens, ?_⟩, hafter a (by simp)⟩
      intro c hc
      exact hafter c (List.mem_append_left _ hc)
  · rintro (hopens | ⟨hsince, hcloses⟩)
    · exact since_of_opens hopens (by simp)
    · refine hsince.append ?_
      intro b hb
      rw [List.mem_singleton] at hb
      rw [hb]
      exact hcloses

/-- A function that selects less selects part of the history. -/
theorem filterMap_sublist_filterMap {β : Type v} {f g : α → Option β}
    (h : ∀ a b, f a = some b → g a = some b) (history : List α) :
    (history.filterMap f).Sublist (history.filterMap g) := by
  induction history with
  | nil => exact List.Sublist.slnil
  | cons a history ih =>
      cases hf : f a with
      | some b =>
          rw [List.filterMap_cons_some hf, List.filterMap_cons_some (h a b hf)]
          exact ih.cons_cons b
      | none =>
          rw [List.filterMap_cons_none hf]
          cases hg : g a with
          | none =>
              rw [List.filterMap_cons_none hg]
              exact ih
          | some b =>
              rw [List.filterMap_cons_some hg]
              exact ih.cons b

/-- What is never closed has held since it was first opened. -/
theorem since_never : Since opens (fun _ => False) history ↔ ∃ a ∈ history, opens a := by
  constructor
  · rintro ⟨before, a, after, rfl, hopens, -⟩
    exact ⟨a, by simp, hopens⟩
  · rintro ⟨a, hmem, hopens⟩
    obtain ⟨before, after, rfl⟩ := List.append_of_mem hmem
    exact since_of_opens hopens fun _ _ h => h

end

namespace Machine

variable {State : Type u} {Event : Type v} {Output : Type w}
variable {machine : Machine State Event Output}
variable {before after : List (Transition State Event Output)} {s : State}
variable {t : Transition State Event Output}

/-- The part of a run before one of its steps is a run to the state the step is taken in. -/
theorem Run.to_step (hrun : machine.Run (before ++ t :: after) s) :
    machine.Run before t.pre ∧ machine.Step t := by
  generalize htrace : before ++ t :: after = trace at hrun
  induction hrun generalizing after with
  | start => exact absurd htrace (by simp)
  | @step trace' t' hrun' hstep ih =>
      rcases split_concat htrace.symm with ⟨-, rfl, rfl⟩ | ⟨init, -, hearlier⟩
      · exact ⟨hrun', hstep⟩
      · exact ih hearlier.symm

/-- **A state in terms of its history.**  `holds` is false at first, and one step makes it
true exactly if it opens, or leaves it true exactly if it does not close. -/
theorem Run.since_iff {trace : List (Transition State Event Output)} (holds : State → Prop)
    {opens closes : Transition State Event Output → Prop} (hinit : ¬ holds machine.init)
    (hlaw : ∀ t, machine.Step t → machine.Reachable t.pre →
      (holds t.post ↔ opens t ∨ holds t.pre ∧ ¬ closes t))
    (hrun : machine.Run trace s) : holds s ↔ Since opens closes trace := by
  induction hrun with
  | start => exact iff_of_false hinit not_since_nil
  | @step trace t hrun hstep ih => rw [hlaw t hstep ⟨trace, hrun⟩, ih, since_concat]

end Machine

end Foundation
end StupidP2P
