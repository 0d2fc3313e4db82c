import Mathlib.Data.Nat.Bitwise

/-!
# Fixed-width arithmetic

The unsigned integers of the library (`u16`, `u32`, `u64`, `usize`) are natural
numbers below their modulus; every operation that can leave the range reduces
explicitly.
-/

namespace LightFlow

/-- `static_cast<u16>`. -/
def u16 (value : Nat) : Nat := value % 2 ^ 16

/-- `static_cast<u32>`. -/
def u32 (value : Nat) : Nat := value % 2 ^ 32

/-- `static_cast<u64>`; `usize` is 64 bits wide. -/
def u64 (value : Nat) : Nat := value % 2 ^ 64

/-- `fetch_sub` and `-` on `u32`: below zero it continues from the top. -/
def u32Sub (left right : Nat) : Nat :=
  if right ≤ left then left - right else left + 2 ^ 32 - right

/-- `fetch_sub` and `-` on `u64`. -/
def u64Sub (left right : Nat) : Nat :=
  if right ≤ left then left - right else left + 2 ^ 64 - right

theorem u32_of_lt {value : Nat} (bound : value < 2 ^ 32) : u32 value = value :=
  Nat.mod_eq_of_lt bound

theorem u64_of_lt {value : Nat} (bound : value < 2 ^ 64) : u64 value = value :=
  Nat.mod_eq_of_lt bound

theorem u32_lt (value : Nat) : u32 value < 2 ^ 32 := Nat.mod_lt _ (by decide)

theorem u64_lt (value : Nat) : u64 value < 2 ^ 64 := Nat.mod_lt _ (by decide)

/-- Subtraction that does not go below zero is exact. -/
theorem u32Sub_of_le {left right : Nat} (ordered : right ≤ left) :
    u32Sub left right = left - right := if_pos ordered

theorem u64Sub_of_le {left right : Nat} (ordered : right ≤ left) :
    u64Sub left right = left - right := if_pos ordered

/-- In runs of one thread or two, literals name the threads. -/
instance one_neZero : NeZero 1 := ⟨Nat.one_ne_zero⟩

instance two_neZero : NeZero 2 := ⟨Nat.succ_ne_zero 1⟩

end LightFlow
