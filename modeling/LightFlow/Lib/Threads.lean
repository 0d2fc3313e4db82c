import LightFlow.Lib.Counting
import LightFlow.Lib.Machine
import Mathlib.Data.Fintype.Basic

/-!
# Threads that share a state

Any number of threads run the same program on a shared state, one indivisible step at a
time; a soloist may move the shared state as well.  Which thread is where does not matter
for a property of all of them together, so an invariant speaks about the multiset of local
states: a step replaces one element and leaves the rest alone.
-/

namespace LightFlow

universe u v w x

/-- What the next step of a thread, and what the soloist, does to the shared state. -/
structure Program (Shared : Type u) (Local : Type v) (Solo : Type w) (Choice : Type x) where
  solo : Shared → Solo → Option Shared
  fire : Shared → Local → Choice → Option (Shared × Local)

namespace Program

variable {Shared : Type u} {Local : Type v} {Solo : Type w} {Choice : Type x}

/-- The shared state and where every thread is. -/
structure State (Shared : Type u) (Local : Type v) (threads : Nat) where
  shared : Shared
  here : Fin threads → Local

inductive Action (Solo : Type w) (Choice : Type x) (threads : Nat) where
  | solo (action : Solo)
  | thread (index : Fin threads) (choice : Choice)
  deriving DecidableEq

variable {threads : Nat}

/-- All interleavings of the soloist and the threads. -/
def machine (program : Program Shared Local Solo Choice) (initial : Shared → Prop) (idle : Local)
    (threads : Nat) : Machine (State Shared Local threads) (Action Solo Choice threads) where
  initial := fun state => initial state.shared ∧ ∀ index, state.here index = idle
  step := fun state action =>
    match action with
    | .solo action => (program.solo state.shared action).map fun shared => { state with shared }
    | .thread index choice =>
        (program.fire state.shared (state.here index) choice).map fun (shared, moved) =>
          { shared, here := Function.update state.here index moved }

/-- A condition on the steps of the soloist and of the threads. -/
def Allowed (solo : Shared → Solo → Prop) (fire : Shared → Local → Choice → Prop)
    (state : State Shared Local threads) : Action Solo Choice threads → Prop
  | .solo action => solo state.shared action
  | .thread index choice => fire state.shared (state.here index) choice

instance (solo : Shared → Solo → Prop) (fire : Shared → Local → Choice → Prop)
    [∀ shared action, Decidable (solo shared action)]
    [∀ shared here choice, Decidable (fire shared here choice)]
    (state : State Shared Local threads) :
    (action : Action Solo Choice threads) → Decidable (Allowed solo fire state action)
  | .solo _ => inferInstanceAs (Decidable (solo _ _))
  | .thread _ _ => inferInstanceAs (Decidable (fire _ _ _))

/-- The local states of all threads. -/
def State.pool (state : State Shared Local threads) : Multiset Local :=
  ∑ index, {state.here index}

theorem State.mem_pool {state : State Shared Local threads} {here : Local} :
    here ∈ state.pool ↔ ∃ index, state.here index = here := by
  simp [pool, Multiset.mem_sum, eq_comm]

theorem State.idle_of_quiet {state : State Shared Local threads} {idle : Local}
    (quiet : ∀ index, state.here index = idle) : ∀ here ∈ state.pool, here = idle := by
  intro here member
  obtain ⟨index, rfl⟩ := mem_pool.mp member
  exact quiet index

/-- Moving one thread replaces one element of the pool. -/
theorem State.exists_rest (state : State Shared Local threads) (index : Fin threads) :
    ∃ rest, state.pool = state.here index ::ₘ rest ∧ ∀ shared moved,
      ({ shared, here := Function.update state.here index moved } :
        State Shared Local threads).pool = moved ::ₘ rest := by
  obtain ⟨rest, before, after⟩ :=
    Counting.exists_rest (fun here : Local => ({here} : Multiset Local)) state.here index
  exact ⟨rest, before.trans (Multiset.singleton_add ..), fun _ moved =>
    (after moved).trans (Multiset.singleton_add ..)⟩

/-- Idle threads weigh nothing. -/
theorem sum_idle {idle : Local} {pool : Multiset Local} (isIdle : ∀ here ∈ pool, here = idle)
    {weight : Local → Nat} (zero : weight idle = 0) : (pool.map weight).sum = 0 := by
  refine Multiset.sum_eq_zero fun value member => ?_
  obtain ⟨here, isMember, rfl⟩ := Multiset.mem_map.mp member
  rw [isIdle here isMember, zero]

/-- A condition on the steps of the soloist, who sees where all threads are, and of the threads. -/
def AllowedAmong (solo : Shared → Multiset Local → Solo → Prop)
    (fire : Shared → Local → Choice → Prop) (state : State Shared Local threads) :
    Action Solo Choice threads → Prop
  | .solo action => solo state.shared state.pool action
  | .thread index choice => fire state.shared (state.here index) choice

instance (solo : Shared → Multiset Local → Solo → Prop) (fire : Shared → Local → Choice → Prop)
    [∀ shared pool action, Decidable (solo shared pool action)]
    [∀ shared here choice, Decidable (fire shared here choice)]
    (state : State Shared Local threads) :
    (action : Action Solo Choice threads) → Decidable (AllowedAmong solo fire state action)
  | .solo _ => inferInstanceAs (Decidable (solo _ _ _))
  | .thread _ _ => inferInstanceAs (Decidable (fire _ _ _))

/-- A property of the shared state and the pool that holds of idle threads, and that every
step keeps, holds in every reachable state. -/
theorem invariant_among {program : Program Shared Local Solo Choice} {initial : Shared → Prop}
    {idle : Local} {solo : Shared → Multiset Local → Solo → Prop}
    {fire : Shared → Local → Choice → Prop} {motive : Shared → Multiset Local → Prop}
    (initially : ∀ shared pool, initial shared → (∀ here ∈ pool, here = idle) →
      motive shared pool)
    (soloed : ∀ shared pool action next, motive shared pool → solo shared pool action →
      program.solo shared action = some next → motive next pool)
    (fired : ∀ shared here rest choice next moved, motive shared (here ::ₘ rest) →
      fire shared here choice → program.fire shared here choice = some (next, moved) →
      motive next (moved ::ₘ rest))
    {state : State Shared Local threads}
    (reachable :
      (program.machine initial idle threads).ReachableBy (AllowedAmong solo fire) state) :
    motive state.shared state.pool := by
  refine reachable.invariant (motive := fun state => motive state.shared state.pool) ?_ ?_
  · rintro state ⟨isInitial, isIdle⟩
    exact initially _ _ isInitial (State.idle_of_quiet isIdle)
  · intro state action next holds allowed stepped
    cases action with
    | solo action =>
        simp only [machine, Option.map_eq_some_iff] at stepped
        obtain ⟨shared, performed, rfl⟩ := stepped
        exact soloed _ _ _ _ holds allowed performed
    | thread index choice =>
        simp only [machine, Option.map_eq_some_iff] at stepped
        obtain ⟨⟨shared, moved⟩, performed, rfl⟩ := stepped
        obtain ⟨rest, before, after⟩ := state.exists_rest index
        rw [before] at holds
        rw [after]
        exact fired _ _ _ _ _ _ holds allowed performed

/-- The same where the soloist does not look at the threads. -/
theorem invariant {program : Program Shared Local Solo Choice} {initial : Shared → Prop}
    {idle : Local} {solo : Shared → Solo → Prop} {fire : Shared → Local → Choice → Prop}
    {motive : Shared → Multiset Local → Prop}
    (initially : ∀ shared pool, initial shared → (∀ here ∈ pool, here = idle) →
      motive shared pool)
    (soloed : ∀ shared pool action next, motive shared pool → solo shared action →
      program.solo shared action = some next → motive next pool)
    (fired : ∀ shared here rest choice next moved, motive shared (here ::ₘ rest) →
      fire shared here choice → program.fire shared here choice = some (next, moved) →
      motive next (moved ::ₘ rest))
    {state : State Shared Local threads}
    (reachable : (program.machine initial idle threads).ReachableBy (Allowed solo fire) state) :
    motive state.shared state.pool := by
  refine @invariant_among _ _ _ _ _ program initial idle (fun shared _ => solo shared) fire motive
    initially soloed fired _
    (reachable.mono fun state action allowed => ?_)
  cases action <;> exact allowed

end Program

end LightFlow
