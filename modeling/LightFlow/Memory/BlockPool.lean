import LightFlow.Lib.Segment
import LightFlow.Memory.Alignment
import Mathlib.Data.List.Pairwise

/-!
# The block pool

`BlockPool` keeps slabs of 64 KiB on a freelist that runs through their headers.  The slabs
come in chunks, from the memory callbacks or from one buffer.  The functions are those of a
single thread; what the callbacks and `new` answer is an argument.
-/

namespace LightFlow

/-- `MemoryCallbacks`, with the addresses of the two functions. -/
structure MemoryCallbacks where
  alloc : Option Nat := none
  free : Option Nat := none
  user_data : Option Nat := none
  deriving DecidableEq, Repr

/-- `is_valid`. -/
def MemoryCallbacks.isValid (callbacks : MemoryCallbacks) : Bool :=
  callbacks.alloc.isSome && callbacks.free.isSome

/-- A pointer that `alloc` returned, or that was passed to `free`, with the other arguments of
the call. -/
structure MemoryBlock where
  pointer : Nat
  bytes : Nat
  alignment : Nat
  user_data : Option Nat
  deriving DecidableEq, Repr

/-- Calls of the memory callbacks. -/
inductive MemoryEvent where
  | allocated (block : MemoryBlock)
  | freed (block : MemoryBlock)
  deriving DecidableEq, Repr

/-- What pools and arenas share. -/
structure Memory where
  /-- `next` in the header of the slab at an address. -/
  next : Nat → Option Nat
  /-- Newest event first. -/
  log : List MemoryEvent := []

namespace Memory

/-- `slab->next.store(next)`. -/
def link (memory : Memory) (slab : Nat) (next : Option Nat) : Memory :=
  { memory with next := Function.update memory.next slab next }

/-- A callback was called. -/
def record (memory : Memory) (event : MemoryEvent) : Memory :=
  { memory with log := event :: memory.log }

end Memory

structure TaggedSlab where
  ptr : Option Nat := none
  tag : Nat := 0
  deriving DecidableEq, Repr

/-- `BlockPool::Chunk`; the `next` pointer is the list order. -/
structure Chunk where
  base_ptr : Nat
  slab_count : Nat
  is_owned : Bool := true
  deriving DecidableEq, Repr

/-- `BlockPool`, less the lock that is free between two calls. -/
structure BlockPool where
  m_head : TaggedSlab := {}
  m_available_slabs : Nat := 0
  m_total_slabs : Nat := 0
  m_chunk_count : Nat := 0
  m_chunk_slabs : Nat := 256
  m_allow_growth : Bool := true
  m_callbacks : MemoryCallbacks := {}
  m_chunks : List Chunk := []
  deriving DecidableEq, Repr

/-- What a call is answered from outside. -/
structure MemoryAnswers where
  /-- Result of `alloc`. -/
  memory : Option Nat := none
  /-- `new` has memory for a chunk record. -/
  record : Bool := true
  deriving DecidableEq, Repr

/-- `base + i * SLAB_SIZE`. -/
def slabAt (base index : Nat) : Nat := u64 (base + u64 (index * slabSize))

/-- `partition_slab_chain(base, count)`. -/
def partitionSlabChain (base count : Nat) (memory : Memory) : Memory :=
  (List.range count).foldl (fun memory index =>
    memory.link (slabAt base index)
      (if index + 1 < count then some (slabAt base (index + 1)) else none)) memory

namespace BlockPool

/-- `BlockPool(callbacks, initial_slabs, chunk_slabs, allow_growth)`. -/
def construct (callbacks : MemoryCallbacks) (initial_slabs chunk_slabs : Nat)
    (allow_growth : Bool) (answers : MemoryAnswers) (memory : Memory) : Memory × BlockPool :=
  let pool : BlockPool :=
    { m_chunk_slabs := if 0 < chunk_slabs then chunk_slabs else 256
      m_allow_growth := allow_growth
      m_callbacks := callbacks }
  if callbacks.isValid = false then (memory, { pool with m_allow_growth := false })
  else if initial_slabs = 0 then (memory, pool)
  else
    let total_bytes := u64 (initial_slabs * slabSize)
    match answers.memory with
    | none => (memory, pool)
    | some raw_mem =>
        let block : MemoryBlock := ⟨raw_mem, total_bytes, slabSize, callbacks.user_data⟩
        let allocated := memory.record (.allocated block)
        if answers.record then
          (partitionSlabChain raw_mem initial_slabs allocated,
            { pool with
              m_chunks := [{ base_ptr := raw_mem, slab_count := initial_slabs }]
              m_head := { ptr := some raw_mem }
              m_available_slabs := initial_slabs
              m_total_slabs := initial_slabs
              m_chunk_count := 1 })
        else (allocated.record (.freed block), pool)

/-- `from_buffer(buffer, bytes)`. -/
def fromBuffer (buffer bytes : Nat) (answers : MemoryAnswers) (memory : Memory) :
    Memory × BlockPool :=
  let pool : BlockPool := { m_chunk_slabs := 0, m_allow_growth := false }
  let aligned_addr := if buffer = 0 then 0 else alignUp buffer slabSize
  let offset := if buffer = 0 then 0 else u64Sub aligned_addr buffer
  let usable_bytes := if buffer = 0 then 0 else if offset ≤ bytes then bytes - offset else 0
  let slab_count := usable_bytes / slabSize
  if slab_count = 0 then (memory, pool)
  else
    (partitionSlabChain aligned_addr slab_count memory,
      { pool with
        m_chunks :=
          if answers.record then
            [{ base_ptr := aligned_addr, slab_count, is_owned := false }]
          else []
        m_head := { ptr := some aligned_addr }
        m_available_slabs := slab_count
        m_total_slabs := slab_count
        m_chunk_count := 1 })

/-- `BlockPool(BlockPool&&)`: the new pool, and what is left of the other one. -/
def move (other : BlockPool) : BlockPool × BlockPool :=
  (other,
    { other with
      m_head := {}
      m_available_slabs := 0
      m_total_slabs := 0
      m_chunk_count := 0
      m_chunks := []
      m_allow_growth := false })

/-- `free` for one chunk in `~BlockPool`. -/
def freeChunk (pool : BlockPool) (memory : Memory) (chunk : Chunk) : Memory :=
  if chunk.is_owned ∧ pool.m_callbacks.free.isSome ∧ chunk.base_ptr ≠ 0 then
    memory.record (.freed ⟨chunk.base_ptr, u64 (chunk.slab_count * slabSize), slabSize,
      pool.m_callbacks.user_data⟩)
  else memory

/-- `~BlockPool`. -/
def destroy (pool : BlockPool) (memory : Memory) : Memory :=
  pool.m_chunks.foldl pool.freeChunk memory

/-- `release_slab_chain(head, tail, count)`. -/
def releaseSlabChain (pool : BlockPool) (head tail : Option Nat) (count : Nat)
    (memory : Memory) : Memory × BlockPool :=
  match head, tail with
  | some head, some tail =>
      if count = 0 then (memory, pool)
      else
        (memory.link tail pool.m_head.ptr,
          { pool with
            m_head := { ptr := some head, tag := u64 (pool.m_head.tag + 1) }
            m_available_slabs := u64 (pool.m_available_slabs + count) })
  | _, _ => (memory, pool)

/-- `release_slab(slab)`. -/
def releaseSlab (pool : BlockPool) (slab : Nat) (memory : Memory) : Memory × BlockPool :=
  pool.releaseSlabChain (some slab) (some slab) 1 memory

/-- `allocate_chunk_and_acquire`, where the freelist is empty. -/
def allocateChunkAndAcquire (pool : BlockPool) (answers : MemoryAnswers) (memory : Memory) :
    Memory × BlockPool × Option Nat :=
  if pool.m_callbacks.isValid = false then (memory, pool, none)
  else
    let count := pool.m_chunk_slabs
    let total_bytes := u64 (count * slabSize)
    match answers.memory with
    | none => (memory, pool, none)
    | some raw_mem =>
        let block : MemoryBlock := ⟨raw_mem, total_bytes, slabSize, pool.m_callbacks.user_data⟩
        let allocated := memory.record (.allocated block)
        if answers.record then
          let grown :=
            { pool with
              m_chunks := { base_ptr := raw_mem, slab_count := count } :: pool.m_chunks
              m_total_slabs := u64 (pool.m_total_slabs + count)
              m_chunk_count := u64 (pool.m_chunk_count + 1) }
          let acquired := allocated.link raw_mem none
          if 1 < count then
            let rest_count := count - 1
            let rest_base := slabAt raw_mem 1
            let (released, pool) := grown.releaseSlabChain (some rest_base)
              (some (slabAt rest_base (rest_count - 1))) rest_count
              (partitionSlabChain rest_base rest_count acquired)
            (released, pool, some raw_mem)
          else (acquired, grown, some raw_mem)
        else (allocated.record (.freed block), pool, none)

/-- `acquire_slab`. -/
def acquireSlab (pool : BlockPool) (answers : MemoryAnswers) (memory : Memory) :
    Memory × BlockPool × Option Nat :=
  match pool.m_head.ptr with
  | some slab =>
      (memory.link slab none,
        { pool with
          m_head := { ptr := memory.next slab, tag := u64 (pool.m_head.tag + 1) }
          m_available_slabs := u64Sub pool.m_available_slabs 1 },
        some slab)
  | none =>
      if pool.m_allow_growth then pool.allocateChunkAndAcquire answers memory
      else (memory, pool, none)

/-- The results of `count` calls of `acquire_slab`. -/
def acquireSlabs (answers : MemoryAnswers) : Nat → Memory → BlockPool → List (Option Nat)
  | 0, _, _ => []
  | count + 1, memory, pool =>
      let (next, rest, slab) := pool.acquireSlab answers memory
      slab :: acquireSlabs answers count next rest

end BlockPool

/-! ## The chain of a chunk -/

section Partition

variable {base count : Nat} {memory : Memory}

theorem slabAt_eq {index : Nat} (inRange : index < count)
    (fits : base + count * slabSize ≤ 2 ^ 64) : slabAt base index = base + index * slabSize := by
  have next : (index + 1) * slabSize ≤ count * slabSize := Nat.mul_le_mul_right _ inRange
  have positive : 0 < slabSize := by decide
  rw [Nat.add_mul, Nat.one_mul] at next
  rw [slabAt, u64_of_lt (show index * slabSize < 2 ^ 64 by omega), u64_of_lt (by omega)]

/-- After some turns of the loop, the slabs that it came to are linked, and no others. -/
theorem partition_links (fits : base + count * slabSize ≤ 2 ^ 64) (turns : Nat)
    (few : turns ≤ count) :
    let chained := (List.range turns).foldl (fun memory index =>
      memory.link (slabAt base index)
        (if index + 1 < count then some (slabAt base (index + 1)) else none)) memory
    (∀ index < turns, chained.next (base + index * slabSize) =
      if index + 1 < count then some (slabAt base (index + 1)) else none) ∧
    (∀ slab, (∀ index < turns, slab ≠ base + index * slabSize) →
      chained.next slab = memory.next slab) ∧ chained.log = memory.log := by
  induction turns with
  | zero => simp
  | succ turns ih =>
      obtain ⟨linked, others, log⟩ := ih (by omega)
      simp only [List.range_succ, List.foldl_append, List.foldl_cons, List.foldl_nil,
        slabAt_eq (show turns < count by omega) fits, Memory.link]
      refine ⟨fun index inRange => ?_, fun slab different => ?_, log⟩
      · by_cases isLast : index = turns
        · rw [isLast, Function.update_self]
        · have positive : 0 < slabSize := by decide
          have apart : base + index * slabSize ≠ base + turns * slabSize := fun same =>
            isLast (Nat.eq_of_mul_eq_mul_right positive (Nat.add_left_cancel same))
          rw [Function.update_of_ne apart]
          exact linked index (by omega)
      · rw [Function.update_of_ne (different turns (by omega))]
        exact others slab fun index inRange => different index (by omega)

/-- The addresses of the slabs of a chunk. -/
def slabsFrom (base count : Nat) : List Nat :=
  (List.range count).map fun index => base + index * slabSize

@[simp] theorem slabsFrom_length (base count : Nat) : (slabsFrom base count).length = count := by
  simp [slabsFrom]

theorem mem_slabsFrom {slab : Nat} :
    slab ∈ slabsFrom base count ↔ ∃ index < count, base + index * slabSize = slab := by
  simp [slabsFrom]

theorem slabsFrom_increasing (base count : Nat) : (slabsFrom base count).Pairwise (· < ·) := by
  refine List.pairwise_map.mpr (List.pairwise_lt_range.imp fun {first second} less => ?_)
  have := Nat.mul_lt_mul_of_pos_right less (show 0 < slabSize by decide)
  omega

theorem slabsFrom_succ (base count : Nat) :
    slabsFrom base (count + 1) = base :: slabsFrom (base + slabSize) count := by
  simp only [slabsFrom, List.range_succ_eq_map, List.map_cons, List.map_map, Nat.zero_mul,
    Nat.add_zero, List.cons.injEq, true_and]
  refine List.map_congr_left fun index _ => ?_
  simp only [Function.comp_apply, Nat.succ_eq_add_one, Nat.add_mul, Nat.one_mul]
  omega

/-- The chain of a chunk runs through its slabs in the order of their addresses. -/
theorem partitionSlabChain_segment (fits : base + count * slabSize ≤ 2 ^ 64)
    (some : 0 < count) :
    Segment (partitionSlabChain base count memory).next (Option.some base)
      (slabsFrom base count) := by
  obtain ⟨linked, -, -⟩ := @partition_links base count memory fits count le_rfl
  change ∀ index < count, (partitionSlabChain base count memory).next _ = _ at linked
  generalize (partitionSlabChain base count memory).next = next at linked
  -- The chain from each of the slabs on, the last one first.
  have onward (left : Nat) (few : left + 1 ≤ count) :
      Segment next (Option.some (base + (count - (left + 1)) * slabSize))
        (slabsFrom (base + (count - (left + 1)) * slabSize) (left + 1)) := by
    induction left with
    | zero =>
        rw [slabsFrom_succ]
        refine .cons ?_
        rw [linked _ (by omega), if_neg (by omega)]
        exact .nil
    | succ left ih =>
        have next := ih (by omega)
        rw [slabsFrom_succ]
        have step : base + (count - (left + 1 + 1)) * slabSize + slabSize =
            base + (count - (left + 1)) * slabSize := by
          rw [show count - (left + 1) = count - (left + 1 + 1) + 1 by omega, Nat.add_mul,
            Nat.one_mul]
          omega
        refine .cons ?_
        rw [linked _ (by omega), if_pos (by omega), slabAt_eq (by omega) fits, step,
          show count - (left + 1 + 1) + 1 = count - (left + 1) by omega]
        exact next
  have whole := onward (count - 1) (by omega)
  simpa [show count - 1 + 1 = count by omega] using whole

end Partition

end LightFlow
