import Mathlib.Logic.Basic
import Mathlib.Data.List.Basic

/-!
# Guarded partial machines and their runs

A `Machine` is a deterministic transition function with a guard.  The guard
says which events the environment may deliver in a state; `exec` returns `none`
where the modelled code has no defined behaviour.  A `Run` is the list of the
transitions taken from the initial state, in order, so that a property can speak
about the states reached, about the outputs, and about one event in the state in
which it is handled.

Three rules are proved once here and used for every protocol of the
development:

* `Run.invariant`: a property of the initial state which every step keeps holds
  in every state reached;
* `Run.conditional`: the same under a condition on the steps of the run;
* `Run.exact`: when a condition on the event and on the state before it decides
  whether one step keeps a property, a whole run keeps the property exactly when
  all its steps meet the condition.  `Run.exact_visited`, `Run.exact_visited_and` and
  `Run.exact_visited_inv` state it for properties of the states passed through.
-/

namespace StupidP2P
namespace Foundation

universe u v w

/-- A deterministic machine with a guard and a partial step. -/
structure Machine (State : Type u) (Event : Type v) (Output : Type w) where
  init : State
  enabled : State → Event → Prop
  exec : State → Event → Option (State × Output)

/-- One recorded step of a run. -/
structure Transition (State : Type u) (Event : Type v) (Output : Type w) where
  pre : State
  event : Event
  output : Output
  post : State

namespace Machine

variable {State : Type u} {Event : Type v} {Output : Type w}
variable (machine : Machine State Event Output)

/-- A recorded transition is one the machine can take. -/
def Step (t : Transition State Event Output) : Prop :=
  machine.enabled t.pre t.event ∧ machine.exec t.pre t.event = some (t.post, t.output)

/-- `Run trace s`: the transitions of `trace`, taken in order from the initial
state, lead to `s`. -/
inductive Run : List (Transition State Event Output) → State → Prop
  | start : Run [] machine.init
  | step {trace : List (Transition State Event Output)}
      {t : Transition State Event Output}
      (hrun : Run trace t.pre) (hstep : machine.Step t) : Run (trace ++ [t]) t.post

/-- A state some run ends in. -/
def Reachable (s : State) : Prop :=
  ∃ trace, machine.Run trace s

/-- The states a run passes through, the first and the last included. -/
def visited (trace : List (Transition State Event Output)) : List State :=
  machine.init :: trace.map Transition.post

/-- Execute a list of events, checking a decidable guard. -/
def replay (ready : State → Event → Bool) : List Event → State → Option State
  | [], s => some s
  | event :: events, s =>
      if ready s event then
        match machine.exec s event with
        | none => none
        | some (s', _) => replay ready events s'
      else none

/-- The steps these events give, up to the first that is undefined. -/
def record : List Event → State → List (Transition State Event Output)
  | [], _ => []
  | event :: events, s =>
      match machine.exec s event with
      | none => []
      | some (s', output) => ⟨s, event, output, s'⟩ :: record events s'

variable {machine}
variable {trace : List (Transition State Event Output)} {s : State}

/-- Every transition of a run is a step taken from a reachable state. -/
theorem Run.step_of_mem (hrun : machine.Run trace s) :
    ∀ t ∈ trace, machine.Step t ∧ machine.Reachable t.pre := by
  induction hrun with
  | start => simp
  | @step trace t hrun hstep ih =>
      intro t' ht'
      rcases List.mem_append.mp ht' with hold | hlast
      · exact ih t' hold
      · rw [List.mem_singleton] at hlast
        subst hlast
        exact ⟨hstep, trace, hrun⟩

/-- A step of a machine that can handle every event. -/
theorem Step.of_total {next : State → Event → State × Output}
    {t : Transition State Event Output}
    (htotal : ∀ s event, machine.exec s event = some (next s event))
    (hstep : machine.Step t) :
    (next t.pre t.event).1 = t.post ∧ (next t.pre t.event).2 = t.output := by
  have hexec := hstep.2
  rw [htotal] at hexec
  exact Prod.mk.inj (Option.some.inj hexec)

/-- A step of a machine without outputs. -/
theorem Step.of_map {machine : Machine State Event Unit} {next : State → Event → Option State}
    {t : Transition State Event Unit}
    (hmap : ∀ s event, machine.exec s event = (next s event).map fun s' => (s', ()))
    (hstep : machine.Step t) : next t.pre t.event = some t.post := by
  have hexec := hstep.2
  rw [hmap] at hexec
  obtain ⟨post, hnext, hpair⟩ := Option.map_eq_some_iff.mp hexec
  rw [hnext, (Prod.mk.inj hpair).1]

/-- Taking one more step keeps a state reachable. -/
theorem Reachable.step {t : Transition State Event Output}
    (hreach : machine.Reachable t.pre) (hstep : machine.Step t) :
    machine.Reachable t.post := by
  obtain ⟨trace, hrun⟩ := hreach
  exact ⟨trace ++ [t], .step hrun hstep⟩

/-- One more event that the environment may deliver and the machine can handle. -/
theorem Reachable.exec {s' : State} {output : Output} (hreach : machine.Reachable s)
    (event : Event) (henabled : machine.enabled s event)
    (hexec : machine.exec s event = some (s', output)) : machine.Reachable s' :=
  hreach.step (t := ⟨s, event, output, s'⟩) ⟨henabled, hexec⟩

/-- The last state of a run is one it passes through. -/
theorem Run.mem_visited (hrun : machine.Run trace s) : s ∈ machine.visited trace := by
  cases hrun with
  | start => exact List.mem_cons_self
  | step _ _ => simp [visited]

/-- Every state a run passes through is reachable. -/
theorem Run.reachable_of_visited (hrun : machine.Run trace s) :
    ∀ τ ∈ machine.visited trace, machine.Reachable τ := by
  simp only [visited, List.forall_mem_cons, List.forall_mem_map]
  refine ⟨⟨[], .start⟩, ?_⟩
  intro t ht
  obtain ⟨hstep, hreach⟩ := hrun.step_of_mem t ht
  exact hreach.step hstep

/-- Replaying events under a guard that implies the machine's own continues a run by the
steps recorded. -/
theorem Run.replay_record {ready : State → Event → Bool}
    (hready : ∀ s event, ready s event = true → machine.enabled s event)
    {events : List Event} {s' : State} (hrun : machine.Run trace s)
    (hreplay : machine.replay ready events s = some s') :
    machine.Run (trace ++ machine.record events s) s' ∧
      (machine.record events s).map Transition.event = events ∧
      ∀ t ∈ machine.record events s, ready t.pre t.event = true := by
  induction events generalizing s trace with
  | nil =>
      obtain rfl := Option.some.inj hreplay
      rw [record, List.append_nil]
      exact ⟨hrun, rfl, by simp⟩
  | cons event events ih =>
      simp only [Machine.replay] at hreplay
      split at hreplay
      · rename_i hguard
        cases hexec : machine.exec s event with
        | none => simp [hexec] at hreplay
        | some result =>
            obtain ⟨next, output⟩ := result
            simp only [hexec] at hreplay
            have hstep : machine.Step ⟨s, event, output, next⟩ :=
              ⟨hready s event hguard, hexec⟩
            obtain ⟨hmore, hevents, hguards⟩ := ih (Run.step hrun hstep) hreplay
            simp only [record, hexec]
            refine ⟨?_, ?_, List.forall_mem_cons.mpr ⟨hguard, hguards⟩⟩
            · rwa [List.append_assoc] at hmore
            · rw [List.map_cons, hevents]
      · exact absurd hreplay (by simp)

theorem Run.replay {ready : State → Event → Bool}
    (hready : ∀ s event, ready s event = true → machine.enabled s event)
    {events : List Event} {s' : State} (hrun : machine.Run trace s)
    (hreplay : machine.replay ready events s = some s') :
    ∃ more, machine.Run (trace ++ more) s' ∧ more.map Transition.event = events ∧
      ∀ t ∈ more, ready t.pre t.event = true :=
  ⟨_, hrun.replay_record hready hreplay⟩

/-- A replay that ends, and passes a test there. -/
theorem Run.of_replay {ready : State → Event → Bool}
    (hready : ∀ s event, ready s event = true → machine.enabled s event)
    {events : List Event} {test : State → Bool} (hrun : machine.Run trace s)
    (hreplay : (machine.replay ready events s).any test = true) :
    ∃ s', machine.Run (trace ++ machine.record events s) s' ∧
      (machine.record events s).map Transition.event = events ∧ test s' = true := by
  obtain ⟨s', hs', htest⟩ := (Option.any_eq_true _ _).mp hreplay
  obtain ⟨hmore, hevents, -⟩ := hrun.replay_record hready hs'
  exact ⟨s', hmore, hevents, htest⟩

/-- Replaying stays within the reachable states. -/
theorem Reachable.replay {ready : State → Event → Bool}
    (hready : ∀ s event, ready s event = true → machine.enabled s event)
    {events : List Event} {s' : State} (hreach : machine.Reachable s)
    (hreplay : machine.replay ready events s = some s') : machine.Reachable s' := by
  obtain ⟨trace, hrun⟩ := hreach
  obtain ⟨more, hmore, -⟩ := hrun.replay hready hreplay
  exact ⟨trace ++ more, hmore⟩

/-- A first part of a run is a run. -/
theorem Run.first {before after : List (Transition State Event Output)}
    (hrun : machine.Run (before ++ after) s) : ∃ s₁, machine.Run before s₁ := by
  generalize htrace : before ++ after = trace at hrun
  induction hrun generalizing after with
  | start =>
      obtain ⟨rfl, -⟩ := List.append_eq_nil_iff.mp htrace
      exact ⟨_, .start⟩
  | @step trace t hrun hstep ih =>
      rcases List.eq_nil_or_concat' after with rfl | ⟨init, last, rfl⟩
      · rw [List.append_nil] at htrace
        rw [htrace]
        exact ⟨_, .step hrun hstep⟩
      · rw [← List.append_assoc] at htrace
        exact ih (List.append_inj' htrace rfl).1

/-- The events determine a run. -/
theorem Run.unique {trace' : List (Transition State Event Output)} {s' : State}
    (hrun : machine.Run trace s) (hrun' : machine.Run trace' s')
    (hevents : trace.map Transition.event = trace'.map Transition.event) :
    trace = trace' ∧ s = s' := by
  induction hrun generalizing trace' s' with
  | start =>
      cases hrun' with
      | start => exact ⟨rfl, rfl⟩
      | step _ _ => exact absurd hevents (by simp)
  | @step trace t hrun hstep ih =>
      cases hrun' with
      | start => exact absurd hevents (by simp)
      | @step trace' t' hrun' hstep' =>
          rw [List.map_append, List.map_append] at hevents
          obtain ⟨hearlier, hlast⟩ := List.append_inj' hevents rfl
          obtain ⟨rfl, hpre⟩ := ih hrun' hearlier
          have hevent : t.event = t'.event := List.singleton_inj.mp hlast
          -- From one state, one event has one outcome.
          have hexec := hstep.2
          rw [hpre, hevent, hstep'.2, Option.some.injEq, Prod.mk.injEq] at hexec
          obtain ⟨pre, event, output, post⟩ := t
          obtain ⟨pre', event', output', post'⟩ := t'
          obtain ⟨hpost, houtput⟩ := hexec
          dsimp only at hpre hevent hpost houtput
          rw [hpre, hevent, hpost, houtput]
          exact ⟨rfl, rfl⟩

/-- What each step relates, a run relates from any of its states to its end. -/
theorem Run.between {before during : List (Transition State Event Output)} {s₁ : State}
    (R : State → State → Prop) (hrefl : ∀ s, R s s) (htrans : ∀ a b c, R a b → R b c → R a c)
    (hstep : ∀ t ∈ during, machine.Step t → machine.Reachable t.pre → R t.pre t.post)
    (hbefore : machine.Run before s₁) (hrun : machine.Run (before ++ during) s) : R s₁ s := by
  generalize htrace : before ++ during = trace at hrun
  induction hrun generalizing during with
  | start =>
      obtain ⟨rfl, -⟩ := List.append_eq_nil_iff.mp htrace
      rw [(hbefore.unique .start rfl).2]
      exact hrefl _
  | @step trace t hrun ht ih =>
      rcases List.eq_nil_or_concat' during with rfl | ⟨init, last, rfl⟩
      · rw [List.append_nil] at htrace
        rw [htrace] at hbefore
        rw [(hbefore.unique (.step hrun ht) rfl).2]
        exact hrefl _
      · rw [← List.append_assoc] at htrace
        obtain ⟨hearlier, hlast⟩ := List.append_inj' htrace rfl
        obtain rfl := List.singleton_inj.mp hlast
        have hfirst := ih (fun t' ht' => hstep t' (List.mem_append_left _ ht')) hearlier
        exact htrans _ _ _ hfirst (hstep last (by simp) ht ⟨trace, hrun⟩)

/-- **The invariant rule.** -/
theorem Run.invariant (Inv : State → Prop) (hinit : Inv machine.init)
    (hkeep : ∀ t, machine.Step t → Inv t.pre → Inv t.post)
    (hrun : machine.Run trace s) : Inv s := by
  induction hrun with
  | start => exact hinit
  | step _ hstep ih => exact hkeep _ hstep ih

/-- The invariant rule for reachable states. -/
theorem Reachable.invariant (Inv : State → Prop) (hinit : Inv machine.init)
    (hkeep : ∀ t, machine.Step t → Inv t.pre → Inv t.post)
    (hreach : machine.Reachable s) : Inv s := by
  obtain ⟨trace, hrun⟩ := hreach
  exact hrun.invariant Inv hinit hkeep

/-- **The conditional rule.**  If every step that meets `Cond` keeps `P`, then a
run all of whose steps meet `Cond` has `P` in its last state and before and
after each of its steps. -/
theorem Run.conditional (P : State → Prop) (Cond : State → Event → Prop)
    (hinit : P machine.init)
    (hkeep : ∀ t, machine.Step t → machine.Reachable t.pre → P t.pre →
      Cond t.pre t.event → P t.post)
    (hrun : machine.Run trace s) (hcond : ∀ t ∈ trace, Cond t.pre t.event) :
    P s ∧ ∀ t ∈ trace, P t.pre ∧ P t.post := by
  induction hrun with
  | start => exact ⟨hinit, by simp⟩
  | @step trace t hrun hstep ih =>
      have hprefix : ∀ t' ∈ trace, Cond t'.pre t'.event := by
        intro t' ht'
        exact hcond t' (List.mem_append_left _ ht')
      obtain ⟨hpre, htrace⟩ := ih hprefix
      have hpost : P t.post :=
        hkeep t hstep ⟨trace, hrun⟩ hpre (hcond t (by simp))
      refine ⟨hpost, ?_⟩
      intro t' ht'
      rcases List.mem_append.mp ht' with hold | hlast
      · exact htrace t' hold
      · rw [List.mem_singleton] at hlast
        subst hlast
        exact ⟨hpre, hpost⟩

/-- The same for the states of the run. -/
theorem Run.conditional_visited (P : State → Prop) (Cond : State → Event → Prop)
    (hinit : P machine.init)
    (hkeep : ∀ t, machine.Step t → machine.Reachable t.pre → P t.pre →
      Cond t.pre t.event → P t.post)
    (hrun : machine.Run trace s) (hcond : ∀ t ∈ trace, Cond t.pre t.event) :
    ∀ τ ∈ machine.visited trace, P τ := by
  have hall := (hrun.conditional P Cond hinit hkeep hcond).2
  simp only [visited, List.forall_mem_cons, List.forall_mem_map]
  exact ⟨hinit, fun t ht => (hall t ht).2⟩

/-- **The exactness rule.**  `Good` is what a single transition has to satisfy,
`P` what it leaves for the next one to rely on.  If `Cond` decides `Good` from
any reachable state with `P`, then all transitions of a run are good exactly when
all of them meet `Cond`. -/
theorem Run.exact (P : State → Prop) (Cond : State → Event → Prop)
    (Good : Transition State Event Output → Prop)
    (hinit : P machine.init)
    (hdecide : ∀ t, machine.Step t → machine.Reachable t.pre → P t.pre →
      (Good t ↔ Cond t.pre t.event))
    (hkeep : ∀ t, machine.Step t → P t.pre → Good t → P t.post)
    (hrun : machine.Run trace s) :
    (∀ t ∈ trace, Good t) ↔ ∀ t ∈ trace, Cond t.pre t.event := by
  -- The last step starts with `P` as soon as the earlier ones are all good.
  suffices hboth : ((∀ t ∈ trace, Good t) ↔ ∀ t ∈ trace, Cond t.pre t.event) ∧
      ((∀ t ∈ trace, Good t) → P s) from hboth.1
  induction hrun with
  | start => exact ⟨by simp, fun _ => hinit⟩
  | @step trace t hrun hstep ih =>
      obtain ⟨hiff, hpre⟩ := ih
      simp only [List.mem_append, List.mem_singleton, or_imp, forall_and, forall_eq]
      refine ⟨⟨?_, ?_⟩, ?_⟩
      · rintro ⟨hgood, ht⟩
        exact ⟨hiff.mp hgood, (hdecide t hstep ⟨trace, hrun⟩ (hpre hgood)).mp ht⟩
      · rintro ⟨hcond, ht⟩
        have hgood := hiff.mpr hcond
        exact ⟨hgood, (hdecide t hstep ⟨trace, hrun⟩ (hpre hgood)).mpr ht⟩
      · rintro ⟨hgood, ht⟩
        exact hkeep t hstep (hpre hgood) ht

/-- The exactness rule for a property `P` of the states of a run together with a property
`Q` of its transitions, where the steps rely on an invariant of their own. -/
theorem Run.exact_visited_inv (Inv P : State → Prop)
    (Q : Transition State Event Output → Prop) (Cond : State → Event → Prop)
    (hinit : Inv machine.init ∧ P machine.init)
    (hdecide : ∀ t, machine.Step t → machine.Reachable t.pre → Inv t.pre →
      (P t.post ∧ Q t ↔ Cond t.pre t.event))
    (hkeep : ∀ t, machine.Step t → Inv t.pre → P t.post → Q t → Inv t.post)
    (hrun : machine.Run trace s) :
    ((∀ τ ∈ machine.visited trace, P τ) ∧ ∀ t ∈ trace, Q t) ↔
      ∀ t ∈ trace, Cond t.pre t.event := by
  rw [← hrun.exact Inv Cond (fun t => P t.post ∧ Q t) hinit.1 hdecide
    (fun t hstep hpre hgood => hkeep t hstep hpre hgood.1 hgood.2)]
  simp only [visited, List.forall_mem_cons, List.forall_mem_map, forall_and]
  rw [and_iff_right hinit.2]

/-- The same where the property is all the steps rely on. -/
theorem Run.exact_visited_and (P : State → Prop) (Q : Transition State Event Output → Prop)
    (Cond : State → Event → Prop) (hinit : P machine.init)
    (hdecide : ∀ t, machine.Step t → machine.Reachable t.pre → P t.pre →
      (P t.post ∧ Q t ↔ Cond t.pre t.event))
    (hrun : machine.Run trace s) :
    ((∀ τ ∈ machine.visited trace, P τ) ∧ ∀ t ∈ trace, Q t) ↔
      ∀ t ∈ trace, Cond t.pre t.event :=
  hrun.exact_visited_inv P P Q Cond ⟨hinit, hinit⟩ hdecide (fun _ _ _ hpost _ => hpost)

/-- The exactness rule for a property of the states of a run. -/
theorem Run.exact_visited (P : State → Prop) (Cond : State → Event → Prop)
    (hinit : P machine.init)
    (hdecide : ∀ t, machine.Step t → machine.Reachable t.pre → P t.pre →
      (P t.post ↔ Cond t.pre t.event))
    (hrun : machine.Run trace s) :
    (∀ τ ∈ machine.visited trace, P τ) ↔ ∀ t ∈ trace, Cond t.pre t.event := by
  rw [← hrun.exact P Cond (fun t => P t.post) hinit hdecide (fun _ _ _ hpost => hpost)]
  simp only [visited, List.forall_mem_cons, List.forall_mem_map]
  exact and_iff_right hinit

end Machine
end Foundation
end StupidP2P
