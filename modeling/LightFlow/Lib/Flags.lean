import Mathlib.Data.List.Basic

/-!
# Flags of one word as flags of another

A table says which flag of the one word goes with which flag of the other.  Where every flag is one
bit, the translation of a mask has the bits whose partners the mask has.
-/

namespace LightFlow

variable {m n : Nat}

/-- Collect the partners of the flags that a mask has. -/
def translateFlags (table : List (BitVec m × BitVec n)) (mask : BitVec m) (flags : BitVec n) :
    BitVec n :=
  table.foldl (fun flags entry => if mask &&& entry.1 ≠ 0 then flags ||| entry.2 else flags) flags

/-- The table of the flags at given bits. -/
def flagTable (m n : Nat) (bits : List (Nat × Nat)) : List (BitVec m × BitVec n) :=
  bits.map fun bit => (BitVec.twoPow m bit.1, BitVec.twoPow n bit.2)

theorem and_twoPow_ne_zero {mask : BitVec m} {bit : Nat} (inWord : bit < m) :
    mask &&& BitVec.twoPow m bit ≠ 0 ↔ mask.getLsbD bit = true := by
  rw [BitVec.and_twoPow]
  split
  next has =>
    refine iff_of_true (fun zero => ?_) has
    have isBit := congrArg (BitVec.getLsbD · bit) zero
    simp [inWord] at isBit
  next hasNot => exact iff_of_false (fun some => some rfl) hasNot

/-- A bit of a translation is a bit of the start, or the mask has a partner of it. -/
theorem getLsbD_translateFlags {bits : List (Nat × Nat)} (inWord : ∀ bit ∈ bits, bit.1 < m)
    (mask : BitVec m) (flags : BitVec n) (place : Nat) :
    (translateFlags (flagTable m n bits) mask flags).getLsbD place = true ↔
      flags.getLsbD place = true ∨
        place < n ∧ ∃ bit ∈ bits, bit.2 = place ∧ mask.getLsbD bit.1 = true := by
  induction bits generalizing flags with
  | nil => simp [translateFlags, flagTable]
  | cons bit bits ih =>
      have rest := ih (fun other member => inWord other (List.mem_cons_of_mem _ member))
        (if mask &&& BitVec.twoPow m bit.1 ≠ 0 then flags ||| BitVec.twoPow n bit.2 else flags)
      refine rest.trans ?_
      have first : (if mask &&& BitVec.twoPow m bit.1 ≠ 0 then flags ||| BitVec.twoPow n bit.2
          else flags).getLsbD place = true ↔
          flags.getLsbD place = true ∨
            place < n ∧ bit.2 = place ∧ mask.getLsbD bit.1 = true := by
        split
        next has =>
          have isBit := (and_twoPow_ne_zero (inWord bit List.mem_cons_self)).mp has
          rw [BitVec.getLsbD_or, BitVec.getLsbD_twoPow]
          simp only [isBit, Bool.or_eq_true, Bool.and_eq_true, decide_eq_true_eq, and_true]
          grind
        next hasNot =>
          have isBit := mt (and_twoPow_ne_zero (inWord bit List.mem_cons_self)).mpr hasNot
          simp [isBit]
      rw [first, or_assoc, List.exists_mem_cons_iff]
      grind

end LightFlow
