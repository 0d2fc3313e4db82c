import LightFlow.Core.Types
import Mathlib.Data.List.Basic
import Mathlib.Tactic.Ring

/-!
# The packed dependency counter

`TaskNode::inDegree` is one 32-bit word.  Its low half counts the dependencies
that have not been decremented yet, its high half the decrements that came from an
active predecessor: `decrementActive` adds `0xFFFF` (one less below, one more
above) and `decrementSkipped` subtracts one.
-/

namespace LightFlow

/-- What one decrement decides about the node. -/
inductive Resolution where
  /-- Dependencies are left. -/
  | pending
  /-- The node is unblocked and gets scheduled. -/
  | run
  /-- The node is skipped by `cascadeSkip`. -/
  | skip
  deriving DecidableEq, Repr

/-- `TaskNode::decrementActive`: the new counter, and whether it unblocked. -/
def decrementActive (inDegree : Nat) : Nat × Bool :=
  let prevLower := u16 (inDegree &&& 0xFFFF)
  (u32 (inDegree + 0xFFFF), prevLower == 1)

/-- `TaskNode::decrementSkipped`: the new counter, and the branch that follows. -/
def decrementSkipped (inDegree : Nat) : Nat × Resolution :=
  let prevLower := u16 (inDegree &&& 0xFFFF)
  let newVal := u32Sub inDegree 1
  if prevLower = 1 then
    if 0 < u16 (newVal >>> 16) then (newVal, .run) else (newVal, .skip)
  else
    (newVal, .pending)

/-- One of the two ways a predecessor releases its successor. -/
inductive Decrement where
  | active
  | skipped
  deriving DecidableEq, Repr

namespace Decrement

/-- The call made for a decrement, with the decision about the node. -/
def apply (inDegree : Nat) : Decrement → Nat × Resolution
  | .active =>
      let (word, unblocked) := decrementActive inDegree
      (word, if unblocked then .run else .pending)
  | .skipped => decrementSkipped inDegree

/-- Counter after a sequence of calls. -/
def counter (inDegree : Nat) : List Decrement → Nat
  | [] => inDegree
  | call :: calls => counter (call.apply inDegree).1 calls

/-- The decision made by each call of a sequence. -/
def resolutions (inDegree : Nat) : List Decrement → List Resolution
  | [] => []
  | call :: calls =>
      (call.apply inDegree).2 :: resolutions (call.apply inDegree).1 calls

@[simp] theorem resolutions_length (inDegree : Nat) (calls : List Decrement) :
    (resolutions inDegree calls).length = calls.length := by
  induction calls generalizing inDegree with
  | nil => rfl
  | cons call calls ih => simp [resolutions, ih]

theorem resolutions_getElem? (inDegree : Nat) (calls : List Decrement) (index : Nat) :
    (resolutions inDegree calls)[index]? =
      calls[index]?.map fun call =>
        (call.apply (counter inDegree (calls.take index))).2 := by
  induction calls generalizing inDegree index with
  | nil => simp [resolutions]
  | cons call calls ih =>
      cases index with
      | zero => simp [resolutions, counter]
      | succ index => simp [resolutions, counter, ih]

end Decrement

/-! ## Halves of the word -/

theorem lower_eq_mod (word : Nat) : u16 (word &&& 0xFFFF) = word % 2 ^ 16 := by
  have masked : word &&& 0xFFFF = word % 2 ^ 16 :=
    Nat.and_two_pow_sub_one_eq_mod word 16
  rw [masked, u16, Nat.mod_mod]

theorem upper_eq_div (word : Nat) : u16 (word >>> 16) = word / 2 ^ 16 % 2 ^ 16 := by
  rw [Nat.shiftRight_eq_div_pow, u16]

/-- `need` dependencies left, `got` active decrements received. -/
def Packed (word need got : Nat) : Prop :=
  word = u32 (need + 2 ^ 16 * got)

theorem Packed.of_initial {count : Nat} (bound : count < 2 ^ 32) :
    Packed count count 0 := by
  simp only [Packed, u32]
  omega

/-- An active decrement of a representable counter lowers `need`, raises `got`
and reports exactly the last dependency. -/
theorem Packed.decrementActive {word need got : Nat}
    (packed : Packed word (need + 1) got) (bound : need + 1 ≤ 2 ^ 16) :
    Packed (decrementActive word).1 need (got + 1) ∧
      ((LightFlow.decrementActive word).2 = true ↔ need = 0) := by
  simp only [Packed, LightFlow.decrementActive, lower_eq_mod, u32, beq_iff_eq] at *
  omega

/-- A skipped decrement lowers `need` only, and decides at the last dependency by
whether any active decrement came before. -/
theorem Packed.decrementSkipped {word need got : Nat}
    (packed : Packed word (need + 1) got) (bound : need + 1 + got ≤ 2 ^ 16) :
    Packed (decrementSkipped word).1 need got ∧
      (LightFlow.decrementSkipped word).2 =
        if need = 0 then (if 0 < got then .run else .skip) else .pending := by
  have lowerOne : word % 2 ^ 16 = 1 ↔ need = 0 := by
    simp only [Packed, u32] at packed
    omega
  have upperPositive : need = 0 → (0 < u32Sub word 1 / 2 ^ 16 % 2 ^ 16 ↔ 0 < got) := by
    simp only [Packed, u32, u32Sub] at *
    split <;> omega
  have packedNext : Packed (u32Sub word 1) need got := by
    simp only [Packed, u32, u32Sub] at *
    split <;> omega
  simp only [LightFlow.decrementSkipped, lower_eq_mod, upper_eq_div, lowerOne]
  by_cases last : need = 0
  · simp only [last, ↓reduceIte, upperPositive last]
    subst last
    split <;> exact ⟨packedNext, rfl⟩
  · simp only [last, ↓reduceIte]
    exact ⟨packedNext, trivial⟩

/-! ## Sequences of decrements -/

namespace Decrement

theorem apply_packed {word need got : Nat} (call : Decrement)
    (packed : Packed word (need + 1) got) (bound : need + 1 + got ≤ 2 ^ 16) :
    Packed (call.apply word).1 need (got + if call = .active then 1 else 0) ∧
      (call.apply word).2 =
        if need = 0 then (if 0 < got ∨ call = .active then .run else .skip)
        else .pending := by
  cases call with
  | active =>
      obtain ⟨next, unblocked⟩ := packed.decrementActive (by omega)
      refine ⟨next, ?_⟩
      by_cases last : need = 0
      · simp [apply, unblocked.mpr last, last]
      · simp [apply, mt unblocked.mp last, last]
  | skipped =>
      obtain ⟨next, decision⟩ := packed.decrementSkipped bound
      refine ⟨next, ?_⟩
      simpa [apply] using decision

/-- Decisions of the calls that finish a representable counter: all but the last
are silent, and the last one runs the node when any decrement was active. -/
theorem resolutions_of_packed {word got : Nat} {calls : List Decrement}
    (nonempty : calls ≠ []) (packed : Packed word calls.length got)
    (bound : calls.length + got ≤ 2 ^ 16) :
    resolutions word calls =
      List.replicate (calls.length - 1) .pending ++
        [if 0 < got ∨ .active ∈ calls then .run else .skip] := by
  induction calls generalizing word got with
  | nil => exact absurd rfl nonempty
  | cons call rest ih =>
      rw [List.length_cons] at packed bound
      obtain ⟨next, decision⟩ := apply_packed call packed (by omega)
      simp only [resolutions, decision, List.length_cons, Nat.add_sub_cancel]
      cases rest with
      | nil => simp [resolutions, eq_comm]
      | cons second others =>
          have room : (second :: others).length + (got + if call = .active then 1 else 0)
              ≤ 2 ^ 16 := by
            split <;> omega
          rw [ih (by simp) next room]
          have active : (0 < got + (if call = .active then 1 else 0) ∨
                .active ∈ second :: others) ↔
              (0 < got ∨ .active ∈ call :: second :: others) := by
            cases call <;> simp
          simp only [active, List.length_cons, Nat.add_sub_cancel,
            List.replicate_succ, List.cons_append]
          simp

/-- Either call takes one from the low half, modulo its width. -/
theorem apply_lower (word : Nat) (call : Decrement) :
    ((call.apply word).1 + 1) % 2 ^ 16 = word % 2 ^ 16 := by
  cases call with
  | active =>
      simp only [apply, decrementActive, u32]
      omega
  | skipped =>
      have next : (decrementSkipped word).1 = u32Sub word 1 := by
        simp only [decrementSkipped]
        split <;> [split; skip] <;> rfl
      simp only [apply, next, u32Sub]
      split <;> omega

theorem counter_lower (word : Nat) (calls : List Decrement) :
    (counter word calls + calls.length) % 2 ^ 16 = word % 2 ^ 16 := by
  induction calls generalizing word with
  | nil => rfl
  | cons call calls ih =>
      have first := apply_lower word call
      have rest := ih (call.apply word).1
      simp only [counter, List.length_cons]
      omega

/-- A call on a word whose low half is one always decides. -/
theorem apply_ne_pending {word : Nat} (lower : word % 2 ^ 16 = 1) (call : Decrement) :
    (call.apply word).2 ≠ .pending := by
  cases call with
  | active => simpa [apply, decrementActive, lower_eq_mod] using lower
  | skipped =>
      simp only [apply, decrementSkipped, lower_eq_mod, lower, ↓reduceIte]
      split <;> simp

/-- `initialInDegree` after `count` calls of `addEdge`, each of which increments it,
and the value stored into `inDegree`. -/
def initialInDegree : Nat → Nat
  | 0 => 0
  | count + 1 => u32 (initialInDegree count + 1)

theorem initialInDegree_eq (count : Nat) : initialInDegree count = u32 count := by
  induction count with
  | zero => rfl
  | succ count ih =>
      simp only [initialInDegree, ih, u32]
      omega

/-- What a node with `count` incoming edges owes to `count` decrements: silence,
then one decision by the last call. -/
def ResolvesAtLast (count : Nat) (calls : List Decrement) : Prop :=
  resolutions (initialInDegree count) calls =
    List.replicate (count - 1) .pending ++
      [if .active ∈ calls then .run else .skip]

instance (count : Nat) (calls : List Decrement) :
    Decidable (ResolvesAtLast count calls) :=
  inferInstanceAs (Decidable (_ = _))

theorem resolvesAtLast_of_le {count : Nat} {calls : List Decrement}
    (positive : 1 ≤ count) (fits : count ≤ 2 ^ 16) (length : calls.length = count) :
    ResolvesAtLast count calls := by
  have nonempty : calls ≠ [] := by
    rintro rfl
    simp at length
    omega
  have packed : Packed (initialInDegree count) calls.length 0 := by
    rw [length, initialInDegree_eq, u32_of_lt (by omega)]
    exact Packed.of_initial (by omega)
  have decided := resolutions_of_packed nonempty packed (by omega)
  rw [ResolvesAtLast, decided, length]
  simp

/-- Above `2 ^ 16` dependencies the low half reaches one before the last call. -/
theorem not_resolvesAtLast_of_lt {count : Nat} {calls : List Decrement}
    (tooMany : 2 ^ 16 < count) (length : calls.length = count) :
    ¬ ResolvesAtLast count calls := by
  intro resolves
  let early := (count - 1) % 2 ^ 16
  have isEarly : early < count - 1 := by omega
  have inBounds : early < calls.length := by omega
  have decision := resolutions_getElem? (initialInDegree count) calls early
  rw [resolves, List.getElem?_append_left (by simpa using isEarly),
    List.getElem?_replicate_of_lt isEarly, List.getElem?_eq_getElem inBounds,
    Option.map_some, Option.some.injEq] at decision
  refine apply_ne_pending ?_ _ decision.symm
  have lower := counter_lower (initialInDegree count) (calls.take early)
  rw [List.length_take_of_le (by omega), initialInDegree_eq, u32] at lower
  rw [initialInDegree_eq, u32]
  omega

/-- The packed counter serves a node with `count` incoming edges, for every mix of
decrements, exactly when the count fits the low half with one wrap to zero. -/
theorem resolvesAtLast_iff {count : Nat} {calls : List Decrement}
    (positive : 1 ≤ count) (length : calls.length = count) :
    ResolvesAtLast count calls ↔ count ≤ 2 ^ 16 := by
  constructor
  · intro resolves
    by_contra tooMany
    exact not_resolvesAtLast_of_lt (by omega) length resolves
  · intro fits
    exact resolvesAtLast_of_le positive fits length

theorem resolvesAtLast_iff_three :
    ResolvesAtLast 3 [.skipped, .active, .skipped] ↔ 3 ≤ 2 ^ 16 :=
  resolvesAtLast_iff (by decide) rfl

/-- With 65537 dependencies the first active decrement already unblocks. -/
theorem not_resolvesAtLast_wide :
    ¬ ResolvesAtLast 65537 (List.replicate 65537 .active) := by
  intro resolves
  rw [ResolvesAtLast, initialInDegree_eq] at resolves
  have first := congrArg List.head? resolves
  rw [List.replicate_succ, List.replicate_succ] at first
  revert first
  decide

end Decrement

end LightFlow
