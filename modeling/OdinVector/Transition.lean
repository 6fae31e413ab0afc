/-
This file is a small library of labelled transition systems. A system has a
predicate on its initial states and a partial step function: an action that is
not enabled in a state has no next state. Nondeterminism lives in the actions,
so a run is a list of actions and can be replayed.

Reachability is relative to a guard on the steps. A law that holds only along
well-behaved runs is stated for the states reachable by steps that satisfy the
guard, and `Along` says the same of one given run.
-/

import Mathlib.Logic.Basic

namespace Transition

/-- A labelled transition system with a partial, deterministic step per action. -/
structure System (State Action : Type) where
  /-- The states a run starts from. -/
  initial : State → Prop
  /-- The state after an action, when the action is enabled. -/
  step : State → Action → Option State

variable {State Action : Type}

/-- The guard that admits every step. -/
def anyStep : State → Action → Prop := fun _ _ => True

namespace System

variable (system : System State Action)

/-- The states reached from an initial state by steps that satisfy the guard. -/
inductive Reachable (guard : State → Action → Prop) : State → Prop
  | initial {state : State} (start : system.initial state) : Reachable guard state
  | step {state next : State} {action : Action} (before : Reachable guard state)
      (admitted : guard state action) (taken : system.step state action = some next) :
      Reachable guard next

/-- Replay a list of actions. -/
def run : State → List Action → Option State
  | state, [] => some state
  | state, action :: rest => (system.step state action).bind fun next => run next rest

/-- The state at the end of a run, or the first one when the list of actions is no run. -/
def after (state : State) (actions : List Action) : State :=
  (system.run state actions).getD state

/-- Every step of the run that a list of actions describes satisfies the predicate. -/
def Along (predicate : State → Action → Prop) : State → List Action → Prop
  | _, [] => True
  | state, action :: rest =>
      predicate state action ∧
        ∀ next, system.step state action = some next → Along predicate next rest

/-- Whether a predicate holds along a run can be decided by replaying it. -/
instance decidableAlong (predicate : State → Action → Prop)
    [∀ state action, Decidable (predicate state action)] :
    ∀ state actions, Decidable (system.Along predicate state actions)
  | _, [] => inferInstanceAs (Decidable True)
  | state, action :: rest =>
    have : Decidable (∀ next, system.step state action = some next →
        system.Along predicate next rest) :=
      match system.step state action with
      | none => isTrue nofun
      | some next =>
        have := decidableAlong predicate next rest
        decidable_of_iff (system.Along predicate next rest)
          ⟨fun along _ same => Option.some.inj same ▸ along, fun all => all next rfl⟩
    inferInstanceAs (Decidable (_ ∧ _))

variable {system}

/-- A predicate that holds initially and is kept by every admitted step holds in every
reachable state. -/
theorem Reachable.invariant {guard : State → Action → Prop} {holds : State → Prop}
    (start : ∀ state, system.initial state → holds state)
    (keep : ∀ state action next, holds state → guard state action →
      system.step state action = some next → holds next)
    {state : State} (reachable : system.Reachable guard state) : holds state := by
  induction reachable with
  | initial first => exact start _ first
  | step _ admitted taken inductionHypothesis =>
    exact keep _ _ _ inductionHypothesis admitted taken

/-- A run of some actions is the first one and a run of the others. -/
theorem run_cons {state last : State} {action : Action} {rest : List Action}
    (replay : system.run state (action :: rest) = some last) :
    ∃ next, system.step state action = some next ∧ system.run next rest = some last := by
  simpa only [run, Option.bind_eq_some_iff] using replay

theorem run_after {state : State} {actions : List Action}
    (runs : (system.run state actions).isSome) :
    system.run state actions = some (system.after state actions) := by
  obtain ⟨last, replay⟩ := Option.isSome_iff_exists.mp runs
  rw [after, replay, Option.getD_some]

theorem run_append {state last : State} {before later : List Action}
    (replay : system.run state (before ++ later) = some last) :
    ∃ between, system.run state before = some between ∧
      system.run between later = some last := by
  induction before generalizing state with
  | nil => exact ⟨state, rfl, replay⟩
  | cons action rest inductionHypothesis =>
    obtain ⟨next, taken, remaining⟩ := run_cons replay
    obtain ⟨between, first, second⟩ := inductionHypothesis remaining
    exact ⟨between, by rw [run, taken]; exact first, second⟩

theorem along_append {predicate : State → Action → Prop} {state between : State}
    {before later : List Action} (along : system.Along predicate state (before ++ later))
    (replay : system.run state before = some between) :
    system.Along predicate state before ∧ system.Along predicate between later := by
  induction before generalizing state with
  | nil =>
    rw [run, Option.some.injEq] at replay
    exact ⟨trivial, replay ▸ along⟩
  | cons action rest inductionHypothesis =>
    refine ⟨⟨along.1, fun next taken => ?_⟩, ?_⟩
    · obtain ⟨other, also, remaining⟩ := run_cons replay
      obtain rfl := Option.some.inj (taken.symm.trans also)
      exact (inductionHypothesis (along.2 next taken) remaining).1
    · obtain ⟨next, taken, remaining⟩ := run_cons replay
      exact (inductionHypothesis (along.2 next taken) remaining).2

theorem run_trans {state between last : State} {before later : List Action}
    (first : system.run state before = some between)
    (second : system.run between later = some last) :
    system.run state (before ++ later) = some last := by
  induction before generalizing state with
  | nil =>
    rw [run, Option.some.injEq] at first
    exact first ▸ second
  | cons action rest inductionHypothesis =>
    obtain ⟨next, taken, remaining⟩ := run_cons first
    rw [List.cons_append, run, taken]
    exact inductionHypothesis remaining

theorem Along.append {predicate : State → Action → Prop} {state between : State}
    {before later : List Action} (first : system.Along predicate state before)
    (replay : system.run state before = some between)
    (second : system.Along predicate between later) :
    system.Along predicate state (before ++ later) := by
  induction before generalizing state with
  | nil =>
    rw [run, Option.some.injEq] at replay
    exact replay ▸ second
  | cons action rest inductionHypothesis =>
    obtain ⟨next, taken, remaining⟩ := run_cons replay
    refine ⟨first.1, fun other also => ?_⟩
    obtain rfl := Option.some.inj (taken.symm.trans also)
    exact inductionHypothesis (first.2 next taken) remaining

/-- A replayed run whose steps satisfy the guard ends in a reachable state. -/
theorem Reachable.of_run {guard : State → Action → Prop} {actions : List Action} :
    ∀ {state last : State}, system.Reachable guard state → system.Along guard state actions →
      system.run state actions = some last → system.Reachable guard last := by
  induction actions with
  | nil =>
    intro state last reachable _ replay
    rw [run, Option.some.injEq] at replay
    exact replay ▸ reachable
  | cons action rest inductionHypothesis =>
    intro state last reachable along replay
    obtain ⟨next, taken, remaining⟩ := run_cons replay
    exact inductionHypothesis (.step reachable along.1 taken) (along.2 next taken) remaining

theorem Reachable.after {guard : State → Action → Prop} {actions : List Action} {state : State}
    (reachable : system.Reachable guard state) (along : system.Along guard state actions) :
    system.Reachable guard (system.after state actions) := by
  unfold System.after
  cases replay : system.run state actions with
  | none => exact reachable
  | some last => exact reachable.of_run along replay

theorem along_anyStep {state : State} {actions : List Action} :
    system.Along anyStep state actions := by
  induction actions generalizing state with
  | nil => trivial
  | cons action rest inductionHypothesis => exact ⟨trivial, fun _ _ => inductionHypothesis⟩

/-- A predicate on steps follows along a run from one that does, when an invariant kept by
the steps with the first implies the second. -/
theorem Along.imply {guard predicate : State → Action → Prop} (holds : State → Prop)
    (keep : ∀ state action next, holds state → guard state action →
      system.step state action = some next → holds next)
    (imply : ∀ state action, holds state → guard state action → predicate state action)
    {actions : List Action} {state : State} (start : holds state)
    (along : system.Along guard state actions) : system.Along predicate state actions := by
  induction actions generalizing state with
  | nil => trivial
  | cons action rest inductionHypothesis =>
    exact ⟨imply state action start along.1, fun next taken =>
      inductionHypothesis (keep state action next start along.1 taken) (along.2 next taken)⟩

/-- What the steps with a property keep is carried from the start of a run to its end. -/
theorem Along.carries {predicate : State → Action → Prop} (holds : State → Prop)
    (keep : ∀ state action next, holds state → predicate state action →
      system.step state action = some next → holds next) {actions : List Action} :
    ∀ {state last : State}, system.Along predicate state actions →
      system.run state actions = some last → holds state → holds last := by
  induction actions with
  | nil =>
    intro state last _ replay start
    rw [run, Option.some.injEq] at replay
    exact replay ▸ start
  | cons action rest inductionHypothesis =>
    intro state last along replay start
    obtain ⟨next, taken, remaining⟩ := run_cons replay
    exact inductionHypothesis (along.2 next taken) remaining
      (keep state action next start along.1 taken)

/-- A predicate on actions holds along every run of such actions. -/
theorem along_of_all {predicate : Action → Prop} {actions : List Action}
    (all : ∀ action ∈ actions, predicate action) {state : State} :
    system.Along (fun _ action => predicate action) state actions := by
  induction actions generalizing state with
  | nil => trivial
  | cons action rest inductionHypothesis =>
    exact ⟨all action List.mem_cons_self, fun _ _ =>
      inductionHypothesis fun other member => all other (List.mem_cons_of_mem _ member)⟩

end System

end Transition
