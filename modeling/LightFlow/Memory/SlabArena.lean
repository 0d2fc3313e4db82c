import LightFlow.Memory.BlockPool

/-!
# Slab arenas

`SlabArena` hands out memory behind a bump pointer, slab after slab, and takes blocks that do
not fit a slab from the callbacks of its pool.  This is the default build, without a platform
allocator.  The pool that `m_pool` points to is an argument of the calls, `none` for null.
-/

namespace LightFlow

/-- `Slab::HEADER_SIZE`. -/
def headerSize : Nat := cachelineSize

/-- `Slab::PAYLOAD_SIZE`. -/
def payloadSize : Nat := slabSize - headerSize

/-- `alignof(std::max_align_t)`. -/
def maxAlign : Nat := 16

/-- `OversizedBlock`; the `next` pointer is the list order. -/
structure OversizedBlock where
  raw_ptr : Nat
  total_bytes : Nat
  alignment : Nat
  deriving DecidableEq, Repr

/-- `sizeof(OversizedBlock)`. -/
def oversizedHeader : Nat := 32

/-- `SlabArena`, with the addresses of its pool and its slabs. -/
structure SlabArena where
  m_pool : Option Nat := none
  m_head_slab : Option Nat := none
  m_tail_slab : Option Nat := none
  m_current_slab : Option Nat := none
  m_bump_ptr : Nat := 0
  m_bump_end : Nat := 0
  m_slab_count : Nat := 0
  m_allocated_bytes : Nat := 0
  m_oversized : List OversizedBlock := []
  deriving DecidableEq, Repr

/-- A call returned: what became of the memory, the pool and the arena, and the address that it
returns, where 0 is null. -/
structure ArenaReturn where
  memory : Memory
  pool : Option BlockPool
  arena : SlabArena
  result : Nat

/-- The alignment that `allocate` goes on with. -/
def raisedAlignment (alignment : Nat) : Nat :=
  if alignment < maxAlign then maxAlign else alignment

/-- A request that a slab can serve. -/
def isSlabRequest (bytes alignment : Nat) : Bool :=
  bytes ≤ payloadSize && alignment ≤ cachelineSize

/-- The sum that is requested for an oversized block. -/
def oversizedBytes (bytes alignment : Nat) : Nat := u64 (bytes + oversizedHeader + alignment)

namespace SlabArena

/-- `SlabArena(pool)`. -/
def construct (pool : Nat) : SlabArena := { m_pool := some pool }

/-- The bounds test of `allocate`. -/
def fitsCurrent (arena : SlabArena) (bytes alignment : Nat) : Bool :=
  arena.m_current_slab.isSome &&
    u64 (alignUp arena.m_bump_ptr alignment + bytes) ≤ arena.m_bump_end

/-- What the callbacks of the pool answer to the request of an oversized block. -/
def oversizedMemory (pool : Option BlockPool) (answers : MemoryAnswers) : Option Nat :=
  if pool.any (·.m_callbacks.isValid) then answers.memory else none

/-- The oversized part of `allocate_slow`. -/
def allocateOversized (arena : SlabArena) (bytes alignment : Nat) (answers : MemoryAnswers)
    (pool : Option BlockPool) (memory : Memory) : ArenaReturn :=
  let total_bytes := oversizedBytes bytes alignment
  let alloc_align := if cachelineSize < alignment then alignment else cachelineSize
  match oversizedMemory pool answers with
  | none => ⟨memory, pool, arena, 0⟩
  | some raw_mem =>
      let user_data := pool.bind (·.m_callbacks.user_data)
      { memory := memory.record (.allocated ⟨raw_mem, total_bytes, alloc_align, user_data⟩)
        pool
        arena :=
          { arena with
            m_oversized := ⟨raw_mem, total_bytes, alloc_align⟩ :: arena.m_oversized
            m_allocated_bytes := u64 (arena.m_allocated_bytes + bytes) }
        result := alignUp (u64 (raw_mem + oversizedHeader)) alignment }

/-- The slab part of `allocate_slow`. -/
def allocateSlab (arena : SlabArena) (bytes alignment : Nat) (answers : MemoryAnswers)
    (pool : Option BlockPool) (memory : Memory) : ArenaReturn :=
  match pool with
  | none => ⟨memory, none, arena, 0⟩
  | some pool =>
      match pool.acquireSlab answers memory with
      | (memory, pool, none) => ⟨memory, some pool, arena, 0⟩
      | (memory, pool, some new_slab) =>
          let payload := u64 (new_slab + headerSize)
          let aligned_addr := alignUp payload alignment
          { memory := memory.link new_slab arena.m_head_slab
            pool := some pool
            arena :=
              { arena with
                m_head_slab := some new_slab
                m_tail_slab := some (arena.m_tail_slab.getD new_slab)
                m_current_slab := some new_slab
                m_bump_ptr := u64 (aligned_addr + bytes)
                m_bump_end := u64 (new_slab + slabSize)
                m_slab_count := u64 (arena.m_slab_count + 1)
                m_allocated_bytes := u64 (arena.m_allocated_bytes + bytes) }
            result := aligned_addr }

/-- `allocate_slow(bytes, alignment)`. -/
def allocateSlow (arena : SlabArena) (bytes alignment : Nat) (answers : MemoryAnswers)
    (pool : Option BlockPool) (memory : Memory) : ArenaReturn :=
  if isSlabRequest bytes alignment then arena.allocateSlab bytes alignment answers pool memory
  else arena.allocateOversized bytes alignment answers pool memory

/-- `allocate(bytes, alignment)`. -/
def allocate (arena : SlabArena) (bytes alignment : Nat) (answers : MemoryAnswers)
    (pool : Option BlockPool) (memory : Memory) : ArenaReturn :=
  if bytes = 0 then ⟨memory, pool, arena, 0⟩
  else
    let alignment := raisedAlignment alignment
    let aligned_addr := alignUp arena.m_bump_ptr alignment
    if arena.fitsCurrent bytes alignment then
      { memory
        pool
        arena :=
          { arena with
            m_bump_ptr := u64 (aligned_addr + bytes)
            m_allocated_bytes := u64 (arena.m_allocated_bytes + bytes) }
        result := aligned_addr }
    else arena.allocateSlow bytes alignment answers pool memory

/-- `allocate_span<T>(count)`, for a type of that size and alignment.  The span is empty where
the result is null. -/
def allocateSpan (arena : SlabArena) (size alignment count : Nat) (answers : MemoryAnswers)
    (pool : Option BlockPool) (memory : Memory) : ArenaReturn :=
  if count = 0 then ⟨memory, pool, arena, 0⟩
  else arena.allocate (u64 (size * count)) alignment answers pool memory

/-- `free` for one oversized block in `reset`. -/
def freeOversized (pool : Option BlockPool) (memory : Memory) (block : OversizedBlock) : Memory :=
  if pool.any (·.m_callbacks.isValid) then
    memory.record (.freed ⟨block.raw_ptr, block.total_bytes, block.alignment,
      pool.bind (·.m_callbacks.user_data)⟩)
  else memory

/-- The slabs go back to the pool in `reset`. -/
def releaseSlabs (arena : SlabArena) (pool : Option BlockPool) (memory : Memory) :
    Memory × Option BlockPool × SlabArena :=
  match arena.m_head_slab, pool with
  | some head, some pool =>
      let (memory, pool) :=
        pool.releaseSlabChain (some head) arena.m_tail_slab arena.m_slab_count memory
      (memory, some pool,
        { arena with m_head_slab := none, m_tail_slab := none, m_current_slab := none })
  | _, pool => (memory, pool, arena)

/-- `reset()`, also the destructor. -/
def reset (arena : SlabArena) (pool : Option BlockPool) (memory : Memory) :
    Memory × Option BlockPool × SlabArena :=
  let (memory, pool, arena) := arena.releaseSlabs pool memory
  (arena.m_oversized.foldl (freeOversized pool) memory, pool,
    { arena with
      m_bump_ptr := 0
      m_bump_end := 0
      m_slab_count := 0
      m_allocated_bytes := 0
      m_oversized := [] })

/-- What a move leaves in the other arena. -/
def movedFrom : SlabArena := {}

end SlabArena

end LightFlow
