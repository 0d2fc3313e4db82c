import Mathlib.Data.Set.Basic

/-!
# Machines and their runs

A machine is a set of initial states with a deterministic, partial step: every
choice of the environment (which thread moves, what an allocator answers, whether
a weak compare-exchange fails) is part of the action.  Reachability carries a
guard on steps, so one induction principle serves both unrestricted runs and runs
whose steps all meet a condition.
-/

namespace LightFlow

universe u v

/-- Initial states and a partial step indexed by actions. -/
structure Machine (State : Type u) (Action : Type v) where
  initial : State → Prop
  step : State → Action → Option State

namespace Machine

variable {State : Type u} {Action : Type v} {machine : Machine State Action}

/-- States reached by steps that all meet `guard` in the state they start from. -/
inductive ReachableBy (machine : Machine State Action)
    (guard : State → Action → Prop) : State → Prop where
  | start {state : State} : machine.initial state → ReachableBy machine guard state
  | step {state next : State} {action : Action} :
      ReachableBy machine guard state → guard state action →
      machine.step state action = some next → ReachableBy machine guard next

/-- States reached by any steps. -/
abbrev Reachable (machine : Machine State Action) : State → Prop :=
  machine.ReachableBy fun _ _ => True

/-- A property that holds initially and survives every guarded step holds in
every state of every guarded run. -/
theorem ReachableBy.invariant {guard : State → Action → Prop}
    {motive : State → Prop}
    (initially : ∀ state, machine.initial state → motive state)
    (preserved : ∀ state action next, motive state → guard state action →
      machine.step state action = some next → motive next)
    {state : State} (reachable : machine.ReachableBy guard state) :
    motive state := by
  induction reachable with
  | start initial => exact initially _ initial
  | step _ allowed stepped ih => exact preserved _ _ _ ih allowed stepped

/-- As `invariant`, where the step case may also use that the state before the
step is reachable. -/
theorem ReachableBy.invariant_of_reachable {guard : State → Action → Prop}
    {motive : State → Prop}
    (initially : ∀ state, machine.initial state → motive state)
    (preserved : ∀ state action next, machine.ReachableBy guard state →
      motive state → guard state action →
      machine.step state action = some next → motive next)
    {state : State} (reachable : machine.ReachableBy guard state) :
    motive state := by
  induction reachable with
  | start initial => exact initially _ initial
  | step before allowed stepped ih => exact preserved _ _ _ before ih allowed stepped

/-- A weaker guard reaches more states. -/
theorem ReachableBy.mono {strong weak : State → Action → Prop}
    (weaker : ∀ state action, strong state action → weak state action)
    {state : State} (reachable : machine.ReachableBy strong state) :
    machine.ReachableBy weak state := by
  induction reachable with
  | start initial => exact .start initial
  | step _ allowed stepped ih => exact .step ih (weaker _ _ allowed) stepped

/-- When runs of the stronger guard only come to weakly guarded steps that meet it, all
weakly guarded runs do. -/
theorem ReachableBy.strengthen {strong weak : State → Action → Prop}
    (always : ∀ state action next, machine.ReachableBy strong state → weak state action →
      machine.step state action = some next → strong state action)
    {state : State} (reachable : machine.ReachableBy weak state) :
    machine.ReachableBy strong state := by
  induction reachable with
  | start initial => exact .start initial
  | step _ allowed stepped ih => exact .step ih (always _ _ _ ih allowed stepped) stepped

/-- Perform a list of actions, failing when one of them is not allowed or not enabled. -/
def run (machine : Machine State Action) (guard : State → Action → Prop)
    [∀ state action, Decidable (guard state action)] : State → List Action → Option State
  | state, [] => some state
  | state, action :: actions =>
      if guard state action then
        (machine.step state action).bind fun next => machine.run guard next actions
      else none

/-- Where an invariant implies a stronger guard, a run meets it as well. -/
theorem run_strengthen {strong weak : State → Action → Prop}
    [∀ state action, Decidable (weak state action)]
    [∀ state action, Decidable (strong state action)] (holds : State → Prop)
    {actions : List Action}
    (always : ∀ state action next, action ∈ actions → holds state → weak state action →
      machine.step state action = some next → strong state action ∧ holds next)
    {state final : State} (initially : holds state)
    (performed : machine.run weak state actions = some final) :
    machine.run strong state actions = some final := by
  induction actions generalizing state with
  | nil => exact performed
  | cons action actions ih =>
      simp only [run] at performed ⊢
      split at performed
      next allowed =>
        obtain ⟨next, stepped, rest⟩ := Option.bind_eq_some_iff.mp performed
        obtain ⟨stronger, kept⟩ :=
          always state action next (List.mem_cons_self ..) initially allowed stepped
        rw [if_pos stronger, stepped, Option.bind_some]
        exact ih (fun state action next member => always state action next
          (List.mem_cons_of_mem _ member)) kept rest
      next => simp at performed

/-- A concrete run from a reachable state ends in a reachable state. -/
theorem ReachableBy.of_run {guard : State → Action → Prop}
    [∀ state action, Decidable (guard state action)] {state final : State} {actions : List Action}
    (reachable : machine.ReachableBy guard state)
    (performed : machine.run guard state actions = some final) :
    machine.ReachableBy guard final := by
  induction actions generalizing state with
  | nil =>
      cases performed
      exact reachable
  | cons action actions ih =>
      simp only [run] at performed
      split at performed
      next allowed =>
        obtain ⟨next, stepped, rest⟩ := Option.bind_eq_some_iff.mp performed
        exact ih (.step reachable allowed stepped) rest
      next => simp at performed

/-- A decidable property found at the end of a concrete run holds of a reachable state. -/
theorem ReachableBy.exists_of_run {guard : State → Action → Prop}
    [∀ state action, Decidable (guard state action)] {holds : State → Prop}
    [DecidablePred holds] {state : State} (reachable : machine.ReachableBy guard state)
    (actions : List Action)
    (found : (machine.run guard state actions).any (holds ·) = true) :
    ∃ final, machine.ReachableBy guard final ∧ holds final := by
  obtain ⟨final, performed, isFound⟩ := (Option.any_eq_true _ _).mp found
  exact ⟨final, reachable.of_run performed, of_decide_eq_true isFound⟩

end Machine

end LightFlow
