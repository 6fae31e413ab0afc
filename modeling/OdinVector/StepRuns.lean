/-
This file is a small library of runs of a labelled step relation. The labels say what was asked
for; what is left open in a step is in the relation. An invariant is proved for one step, and so
is the agreement with a specification that answers every label with a function.
-/

import Mathlib.Data.List.Induction

namespace Transition

variable {State Label Abstract : Type}

/-- Steps that are taken one after the other, with their labels. -/
inductive Runs (step : State → Label → State → Prop) (first : State) : List Label → State → Prop
  | nil : Runs step first [] first
  | snoc {labels : List Label} {state next : State} {label : Label}
      (before : Runs step first labels state) (taken : step state label next) :
      Runs step first (labels ++ [label]) next

namespace Runs

variable {step : State → Label → State → Prop} {first last : State} {labels : List Label}

/-- What holds at first and is kept by every step holds in the end. -/
theorem invariant (holds : State → Prop)
    (keeps : ∀ {state label next}, holds state → step state label next → holds next)
    (start : holds first) (runs : Runs step first labels last) : holds last := by
  induction runs with
  | nil => exact start
  | snoc _ taken inductionHypothesis => exact keeps inductionHypothesis taken

/-- A run does what its specification does with the labels, if every step does, in the states
that satisfy an invariant. -/
theorem refines (holds : State → Prop) (abstraction : State → Abstract)
    {spec : Abstract → Label → Abstract}
    (keeps : ∀ {state label next}, holds state → step state label next → holds next)
    (answers : ∀ {state label next}, holds state → step state label next →
      abstraction next = spec (abstraction state) label)
    (start : holds first) (runs : Runs step first labels last) :
    abstraction last = labels.foldl spec (abstraction first) := by
  induction runs with
  | nil => rfl
  | snoc before taken inductionHypothesis =>
    rw [List.foldl_append, ← inductionHypothesis]
    exact answers (before.invariant holds keeps start) taken

/-- A run with its labels in two parts goes through a state between them. -/
theorem split {earlier later : List Label} (runs : Runs step first (earlier ++ later) last) :
    ∃ state, Runs step first earlier state ∧ Runs step state later last := by
  induction later using List.reverseRecOn generalizing last with
  | nil => exact ⟨last, List.append_nil earlier ▸ runs, .nil⟩
  | append_singleton later label inductionHypothesis =>
    rw [← List.append_assoc] at runs
    generalize whole : earlier ++ later ++ [label] = all at runs
    cases runs with
    | nil => exact absurd whole (List.append_ne_nil_of_right_ne_nil _ (List.cons_ne_nil _ _))
    | snoc before taken =>
      obtain ⟨rfl, same⟩ := List.append_inj' whole rfl
      obtain rfl := List.singleton_inj.mp same
      obtain ⟨state, between, after⟩ := inductionHypothesis before
      exact ⟨state, between, after.snoc taken⟩

theorem eq_of_nil (runs : Runs step first [] last) : last = first := by
  generalize none : ([] : List Label) = all at runs
  cases runs with
  | nil => rfl
  | snoc => exact absurd none.symm (List.append_ne_nil_of_right_ne_nil _ (List.cons_ne_nil _ _))

/-- A run of one step. -/
theorem single {label : Label} (runs : Runs step first [label] last) : step first label last := by
  generalize whole : [label] = all at runs
  cases runs with
  | nil => cases whole
  | snoc before taken =>
    have whole : [] ++ [label] = _ := whole
    obtain ⟨rfl, same⟩ := List.append_inj' whole rfl
    obtain rfl := List.singleton_inj.mp same
    exact before.eq_of_nil ▸ taken

end Runs

end Transition
