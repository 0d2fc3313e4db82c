import Mathlib.Data.List.Basic
import Mathlib.Order.MinMax
import Mathlib.Data.Nat.Basic

/-!
# Tilings of an interval

Intervals that follow one another without gap or overlap tile the interval from the first border
to the last.  They cover each of its numbers, and are pairwise disjoint.
-/

namespace LightFlow

/-- From `first` on, the half-open intervals follow one another up to `last`. -/
inductive Tiles : Nat → List (Nat × Nat) → Nat → Prop where
  | nil {border : Nat} : Tiles border [] border
  | cons {first next last : Nat} {rest : List (Nat × Nat)} :
      first < next → Tiles next rest last → Tiles first ((first, next) :: rest) last

namespace Tiles

variable {first last : Nat} {intervals : List (Nat × Nat)}

theorem le (tiles : Tiles first intervals last) : first ≤ last := by
  induction tiles with
  | nil => exact le_rfl
  | cons less _ ih => exact less.le.trans ih

/-- One more interval behind the last one. -/
theorem snoc (tiles : Tiles first intervals last) {next : Nat} (less : last < next) :
    Tiles first (intervals ++ [(last, next)]) next := by
  induction tiles with
  | nil => exact .cons less .nil
  | cons before _ ih => exact .cons before (ih less)

/-- The intervals cover what lies between the borders, and nothing else. -/
theorem mem_iff (tiles : Tiles first intervals last) (number : Nat) :
    (first ≤ number ∧ number < last) ↔
      ∃ interval ∈ intervals, interval.1 ≤ number ∧ number < interval.2 := by
  induction tiles with
  | nil => simp
  | @cons first next last rest less onward ih =>
      have := onward.le
      simp only [List.exists_mem_cons_iff, ← ih]
      omega

/-- No interval begins before the first border. -/
theorem le_of_mem (tiles : Tiles first intervals last) {interval : Nat × Nat}
    (member : interval ∈ intervals) : first ≤ interval.1 := by
  induction tiles with
  | nil => cases member
  | cons less _ ih =>
      rcases List.mem_cons.mp member with rfl | member
      · exact le_rfl
      · exact less.le.trans (ih member)

/-- Each interval ends before the later ones begin. -/
theorem pairwise (tiles : Tiles first intervals last) :
    intervals.Pairwise fun earlier later => earlier.2 ≤ later.1 := by
  induction tiles with
  | nil => exact .nil
  | cons _ onward ih => exact .cons (fun _ member => onward.le_of_mem member) ih

/-- The numbers of the intervals, one interval after the other. -/
theorem flatMap_range' (tiles : Tiles first intervals last) :
    (intervals.flatMap fun interval => List.range' interval.1 (interval.2 - interval.1)) =
      List.range' first (last - first) := by
  induction tiles with
  | nil => simp
  | @cons first next last rest less onward ih =>
      have le := onward.le
      have split : last - first = (next - first) + (last - next) := by omega
      rw [List.flatMap_cons, ih, split, ← List.range'_append_1, Nat.add_sub_of_le less.le]

/-- Cutting at the multiples of a positive size. -/
theorem cut {size count : Nat} (positive : 0 < size) (pieces : Nat)
    (started : pieces = 0 ∨ (pieces - 1) * size < count) :
    Tiles 0 ((List.range pieces).map fun piece =>
      (piece * size, min count (piece * size + size))) (min count (pieces * size)) := by
  induction pieces with
  | zero => simpa using Tiles.nil
  | succ pieces ih =>
      have starts : pieces * size < count := by simpa using started
      have before : pieces = 0 ∨ (pieces - 1) * size < count := by
        refine .inr ((Nat.mul_le_mul_right size (Nat.sub_le pieces 1)).trans_lt starts)
      have tiles := ih before
      rw [min_eq_right starts.le] at tiles
      rw [List.range_succ, List.map_append, Nat.succ_mul]
      exact tiles.snoc (lt_min starts (by omega))

end Tiles

end LightFlow
