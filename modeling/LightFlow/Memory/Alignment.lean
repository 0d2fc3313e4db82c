import LightFlow.Core.Types
import Mathlib.Data.Nat.Bitwise

/-!
# Addresses and alignment

Addresses are natural numbers below `2 ^ 64`, and 0 is null.  Rounding one up to a power of two
is the sum and the mask that the pool and the arenas compute, which wraps near the end of the
address space.
-/

namespace LightFlow

/-- `CACHELINE_SIZE`. -/
def cachelineSize : Nat := 64

/-- `SLAB_SIZE`. -/
def slabSize : Nat := 64 * 1024

/-- `(address + (alignment - 1)) & ~(alignment - 1)`. -/
def alignUp (address alignment : Nat) : Nat :=
  u64 (address + (alignment - 1)) &&& (2 ^ 64 - 1 - (alignment - 1))

/-- Masking the low bits of a word cuts off the remainder. -/
theorem and_not_mask {value exponent : Nat} (fits : value < 2 ^ 64) (small : exponent ≤ 64) :
    value &&& (2 ^ 64 - 1 - (2 ^ exponent - 1)) = value - value % 2 ^ exponent := by
  have mask : 2 ^ 64 - 1 - (2 ^ exponent - 1) = (2 ^ (64 - exponent) - 1) <<< exponent := by
    rw [Nat.shiftLeft_eq, Nat.sub_mul, ← Nat.pow_add, Nat.sub_add_cancel small, Nat.one_mul]
    have := @Nat.one_le_two_pow exponent
    omega
  have cut : value - value % 2 ^ exponent = (value >>> exponent) <<< exponent := by
    rw [Nat.shiftLeft_eq, Nat.shiftRight_eq_div_pow]
    have := Nat.div_add_mod' value (2 ^ exponent)
    omega
  refine Nat.eq_of_testBit_eq fun bit => ?_
  rw [mask, cut, Nat.testBit_and, Nat.testBit_shiftLeft, Nat.testBit_shiftLeft,
    Nat.testBit_two_pow_sub_one, Nat.testBit_shiftRight]
  by_cases high : exponent ≤ bit
  · by_cases inWord : bit < 64
    · simp [high, show bit - exponent < 64 - exponent by omega]
    · have zero : value.testBit bit = false :=
        Nat.testBit_lt_two_pow (fits.trans_le (Nat.pow_le_pow_right (by decide) (by omega)))
      simp [high, zero]
  · simp [high]

section AlignUp

variable {address exponent : Nat}

theorem alignUp_eq (small : exponent ≤ 64) : alignUp address (2 ^ exponent) =
    u64 (address + (2 ^ exponent - 1)) - u64 (address + (2 ^ exponent - 1)) % 2 ^ exponent :=
  and_not_mask (u64_lt _) small

theorem alignUp_lt (small : exponent ≤ 64) : alignUp address (2 ^ exponent) < 2 ^ 64 := by
  rw [alignUp_eq small]
  exact (Nat.sub_le ..).trans_lt (u64_lt _)

theorem alignUp_dvd (small : exponent ≤ 64) : 2 ^ exponent ∣ alignUp address (2 ^ exponent) := by
  rw [alignUp_eq small]
  exact Nat.dvd_sub_mod _

/-- Where the sum does not wrap, the result is the next multiple. -/
theorem alignUp_of_fits (small : exponent ≤ 64) (fits : address + (2 ^ exponent - 1) < 2 ^ 64) :
    address ≤ alignUp address (2 ^ exponent) ∧
      alignUp address (2 ^ exponent) < address + 2 ^ exponent := by
  rw [alignUp_eq small, u64_of_lt fits]
  have positive := Nat.two_pow_pos exponent
  have remainder := Nat.mod_lt (address + (2 ^ exponent - 1)) positive
  generalize (address + (2 ^ exponent - 1)) % 2 ^ exponent = rest at remainder ⊢
  omega

/-- Where the sum wraps, the result is null. -/
theorem alignUp_of_wraps (small : exponent < 64) (isAddress : address < 2 ^ 64)
    (wraps : 2 ^ 64 ≤ address + (2 ^ exponent - 1)) : alignUp address (2 ^ exponent) = 0 := by
  have positive := Nat.two_pow_pos exponent
  have low : (2 : Nat) ^ exponent ≤ 2 ^ 63 := Nat.pow_le_pow_right (by decide) (by omega)
  have wrapped : u64 (address + (2 ^ exponent - 1)) = address + (2 ^ exponent - 1) - 2 ^ 64 := by
    simp only [u64]
    omega
  rw [alignUp_eq small.le, wrapped, Nat.mod_eq_of_lt (by omega), Nat.sub_self]

/-- A multiple stays as it is. -/
theorem alignUp_of_dvd (small : exponent ≤ 64) (aligned : 2 ^ exponent ∣ address)
    (isAddress : address < 2 ^ 64) : alignUp address (2 ^ exponent) = address := by
  have positive := Nat.two_pow_pos exponent
  obtain ⟨count, rfl⟩ := aligned
  obtain ⟨rest, total⟩ : 2 ^ exponent ∣ 2 ^ 64 := Nat.pow_dvd_pow 2 small
  have next : 2 ^ exponent * count + 2 ^ exponent ≤ 2 ^ 64 := by
    rw [total] at isAddress ⊢
    have below := Nat.lt_of_mul_lt_mul_left isAddress
    rw [← Nat.mul_succ]
    exact Nat.mul_le_mul_left _ below
  obtain ⟨above, below⟩ := @alignUp_of_fits (2 ^ exponent * count) exponent small (by omega)
  obtain ⟨rounded, isMultiple⟩ := @alignUp_dvd (2 ^ exponent * count) exponent small
  rw [isMultiple] at above below ⊢
  have lower := Nat.le_of_mul_le_mul_left above positive
  have upper : rounded < count + 1 := by
    refine Nat.lt_of_mul_lt_mul_left (a := 2 ^ exponent) ?_
    rwa [Nat.mul_succ]
  rw [show rounded = count by omega]

end AlignUp

end LightFlow
