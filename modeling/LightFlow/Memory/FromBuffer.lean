import LightFlow.Memory.BlockPool
import Mathlib.Data.List.Perm.Subperm

/-!
# A pool on a buffer

`from_buffer` rounds the address of the buffer up and cuts what is left into slabs.  The
freelist holds all aligned slabs of the buffer, and the pool never grows.
-/

namespace LightFlow

/-- The slab is aligned, and lies in the buffer. -/
def InBuffer (buffer bytes slab : Nat) : Prop :=
  slabSize ∣ slab ∧ buffer ≤ slab ∧ slab + slabSize ≤ buffer + bytes

instance (buffer bytes slab : Nat) : Decidable (InBuffer buffer bytes slab) :=
  inferInstanceAs (Decidable (_ ∧ _))

/-- Slabs at multiples of the slab size do not overlap. -/
theorem InBuffer.disjoint {buffer bytes first second : Nat} (one : InBuffer buffer bytes first)
    (other : InBuffer buffer bytes second) (different : first ≠ second) :
    first + slabSize ≤ second ∨ second + slabSize ≤ first := by
  obtain ⟨⟨count, rfl⟩, -⟩ := one
  obtain ⟨⟨rest, rfl⟩, -⟩ := other
  have unequal : count ≠ rest := fun same => different (congrArg _ same)
  simp only [slabSize] at *
  omega

variable {buffer bytes : Nat} {memory : Memory}

/-- Where the slabs begin, and how many there are. -/
theorem fromBuffer_layout (notNull : 0 < buffer) (isAddress : buffer < 2 ^ 64)
    (inSpace : buffer + bytes ≤ 2 ^ 64)
    {usable : Nat} (isUsable : usable = bytes - u64Sub (alignUp buffer slabSize) buffer) :
    (usable / slabSize = 0 ∧ ∀ slab, ¬ InBuffer buffer bytes slab) ∨
      (0 < usable / slabSize ∧
        alignUp buffer slabSize + usable / slabSize * slabSize ≤ 2 ^ 64 ∧
        ∀ slab, InBuffer buffer bytes slab ↔
          slab ∈ slabsFrom (alignUp buffer slabSize) (usable / slabSize)) := by
  have isPower : slabSize = 2 ^ 16 := rfl
  by_cases fits : buffer + (2 ^ 16 - 1) < 2 ^ 64
  · obtain ⟨above, below⟩ := @alignUp_of_fits buffer 16 (by decide) fits
    have aligned := @alignUp_dvd buffer 16 (by decide)
    rw [← isPower] at above below aligned
    generalize alignUp buffer slabSize = base at *
    rw [u64Sub_of_le above] at isUsable
    obtain ⟨index, rfl⟩ := aligned
    -- A slab of the buffer comes no earlier than the first multiple.
    have inBuffer (slab : Nat) : InBuffer buffer bytes slab ↔
        slab ∈ slabsFrom (slabSize * index) (usable / slabSize) := by
      rw [mem_slabsFrom, InBuffer]
      constructor
      · rintro ⟨⟨count, rfl⟩, from_, upTo⟩
        simp only [slabSize] at *
        refine ⟨count - index, ?_, ?_⟩
        · omega
        · omega
      · rintro ⟨offset, inRange, rfl⟩
        simp only [slabSize] at *
        exact ⟨⟨index + offset, by omega⟩, by omega, by omega⟩
    by_cases none : usable / slabSize = 0
    · refine .inl ⟨none, fun slab => ?_⟩
      rw [inBuffer slab, none]
      simp [slabsFrom]
    · refine .inr ⟨Nat.pos_of_ne_zero none, ?_, inBuffer⟩
      simp only [slabSize] at *
      omega
  · -- Near the end of the address space the sum wraps to null, and no slab is left.
    have wrapped := @alignUp_of_wraps buffer 16 (by decide) isAddress (by omega)
    rw [← isPower] at wrapped
    rw [wrapped] at isUsable
    refine .inl ⟨?_, ?_⟩
    · rw [isUsable, u64Sub, if_neg (by omega)]
      simp only [slabSize]
      omega
    · rintro slab ⟨⟨count, rfl⟩, from_, upTo⟩
      simp only [slabSize] at *
      omega

/-- A slab is taken off a freelist. -/
theorem acquireSlab_cons (answers : MemoryAnswers) {pool : BlockPool} {slab : Nat}
    {slabs : List Nat} (segment : Segment memory.next pool.m_head.ptr (slab :: slabs))
    (distinct : (slab :: slabs).Nodup) : ∃ next rest,
      pool.acquireSlab answers memory = (next, rest, some slab) ∧
        Segment next.next rest.m_head.ptr slabs ∧ rest.m_allow_growth = pool.m_allow_growth := by
  obtain ⟨isHead, rest⟩ : pool.m_head.ptr = some slab ∧
      Segment memory.next (memory.next slab) slabs := by
    generalize pool.m_head.ptr = head at segment
    cases segment with
    | cons rest => exact ⟨rfl, rest⟩
  have isNew := (List.nodup_cons.mp distinct).1
  refine ⟨memory.link slab none,
    { pool with
      m_head := { ptr := memory.next slab, tag := u64 (pool.m_head.tag + 1) }
      m_available_slabs := u64Sub pool.m_available_slabs 1 },
    by simp only [BlockPool.acquireSlab, isHead], ?_, rfl⟩
  exact rest.congr fun cell member => Function.update_of_ne (ne_of_mem_of_not_mem member isNew) ..

/-- The calls of `acquire_slab` empty the freelist of a pool that does not grow. -/
theorem acquireSlabs_eq (answers : MemoryAnswers) {pool : BlockPool} {slabs : List Nat}
    (segment : Segment memory.next pool.m_head.ptr slabs) (distinct : slabs.Nodup)
    (noGrowth : pool.m_allow_growth = false) (count : Nat) :
    BlockPool.acquireSlabs answers count memory pool =
      (slabs.take count).map some ++ List.replicate (count - slabs.length) none := by
  induction count generalizing memory pool slabs with
  | zero => simp [BlockPool.acquireSlabs]
  | succ count ih =>
      cases slabs with
      | nil =>
          have isEmpty : pool.m_head.ptr = none := by
            generalize pool.m_head.ptr = head at segment
            cases segment
            rfl
          have same : pool.acquireSlab answers memory = (memory, pool, none) := by
            simp [BlockPool.acquireSlab, isEmpty, noGrowth]
          simp only [BlockPool.acquireSlabs, same, ih segment distinct noGrowth]
          simp [List.replicate_succ]
      | cons slab slabs =>
          obtain ⟨next, rest, acquired, onward, growth⟩ := acquireSlab_cons answers segment distinct
          simp only [BlockPool.acquireSlabs, acquired,
            ih onward (List.nodup_cons.mp distinct).2 (growth.trans noGrowth)]
          simp

/-- The freelist of the new pool holds exactly the aligned slabs of the buffer, once each and in
the order of their addresses, and ends in null; both counters say how many they are, and no
other slabs without overlap are more.  Calls of `acquire_slab` return them one after the other,
and then null. -/
theorem fromBuffer_carves (notNull : 0 < buffer) (isAddress : buffer < 2 ^ 64)
    (inSpace : buffer + bytes ≤ 2 ^ 64) (answers : MemoryAnswers) (memory : Memory) :
    let carved := (BlockPool.fromBuffer buffer bytes answers memory).1
    let pool := (BlockPool.fromBuffer buffer bytes answers memory).2
    ∃ slabs, Segment carved.next pool.m_head.ptr slabs ∧ slabs.Pairwise (· < ·) ∧
      (∀ slab, slab ∈ slabs ↔ InBuffer buffer bytes slab) ∧
      (∀ others : List Nat, others.Nodup → (∀ slab ∈ others, InBuffer buffer bytes slab) →
        others.length ≤ slabs.length) ∧
      pool.m_total_slabs = slabs.length ∧ pool.m_available_slabs = slabs.length ∧
      ∀ (later : MemoryAnswers) (count : Nat), pool.acquireSlabs later count carved =
        (slabs.take count).map some ++ List.replicate (count - slabs.length) none := by
  intro carved pool
  obtain ⟨slabs, segment, increasing, members, total, available, noGrowth⟩ :
      ∃ slabs, Segment carved.next pool.m_head.ptr slabs ∧ slabs.Pairwise (· < ·) ∧
        (∀ slab, slab ∈ slabs ↔ InBuffer buffer bytes slab) ∧
        pool.m_total_slabs = slabs.length ∧ pool.m_available_slabs = slabs.length ∧
        pool.m_allow_growth = false := by
    have nonzero : buffer ≠ 0 := by omega
    have cut (offset : Nat) : (if offset ≤ bytes then bytes - offset else 0) = bytes - offset := by
      split <;> omega
    simp only [carved, pool, BlockPool.fromBuffer, nonzero, ↓reduceIte, cut]
    rcases fromBuffer_layout notNull isAddress inSpace rfl with ⟨none, noSlab⟩ | ⟨some, fits, slabs⟩
    · rw [if_pos none]
      exact ⟨[], .nil, .nil, fun slab => by simp [noSlab slab], rfl, rfl, rfl⟩
    · rw [if_neg some.ne']
      exact ⟨_, partitionSlabChain_segment fits some, slabsFrom_increasing .., fun slab =>
        (slabs slab).symm, by simp, by simp, rfl⟩
  have distinct : slabs.Nodup := increasing.imp fun less => Nat.ne_of_lt less
  refine ⟨slabs, segment, increasing, members, fun others nodup fit => ?_, total, available,
    fun later count => acquireSlabs_eq later segment distinct noGrowth count⟩
  exact (List.Nodup.subperm nodup fun slab member =>
    (members slab).mpr (fit slab member)).length_le

/-- A buffer of 200000 bytes, one byte behind a multiple: two slabs. -/
theorem fromBuffer_carves_two : ∃ slabs : List Nat,
    (∀ slab, slab ∈ slabs ↔ InBuffer 65537 200000 slab) ∧
      (BlockPool.fromBuffer 65537 200000 {} { next := fun _ => none }).2.m_total_slabs =
        slabs.length := by
  obtain ⟨slabs, -, -, members, -, total, -⟩ :=
    @fromBuffer_carves 65537 200000 (by decide) (by decide) (by decide) {}
      { next := fun _ => none }
  exact ⟨slabs, members, total⟩

end LightFlow
