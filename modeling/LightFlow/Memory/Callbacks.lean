import LightFlow.Memory.SlabArena
import Mathlib.Data.List.Count

/-!
# Calls of the memory callbacks

What a pool and an arena hold is what their destructors will free.  Each call keeps the balance:
what is allocated in it and what was held before is what is freed in it and what is held
afterwards.
-/

namespace LightFlow

/-- The blocks that were allocated. -/
def allocations (log : List MemoryEvent) : List MemoryBlock :=
  log.filterMap fun event => match event with
    | .allocated block => some block
    | .freed _ => none

/-- The blocks that were freed. -/
def frees (log : List MemoryEvent) : List MemoryBlock :=
  log.filterMap fun event => match event with
    | .allocated _ => none
    | .freed block => some block

section Log

variable (log rest : List MemoryEvent) (block : MemoryBlock)

@[simp] theorem allocations_nil : allocations [] = [] := rfl
@[simp] theorem frees_nil : frees [] = [] := rfl

@[simp] theorem allocations_allocated :
    allocations (.allocated block :: log) = block :: allocations log := rfl

@[simp] theorem allocations_freed : allocations (.freed block :: log) = allocations log := rfl

@[simp] theorem frees_allocated : frees (.allocated block :: log) = frees log := rfl

@[simp] theorem frees_freed : frees (.freed block :: log) = block :: frees log := rfl

@[simp] theorem allocations_append :
    allocations (log ++ rest) = allocations log ++ allocations rest :=
  List.filterMap_append ..

@[simp] theorem frees_append : frees (log ++ rest) = frees log ++ frees rest :=
  List.filterMap_append ..

end Log

@[simp] theorem Memory.log_link (memory : Memory) (slab : Nat) (next : Option Nat) :
    (memory.link slab next).log = memory.log := rfl

@[simp] theorem Memory.log_record (memory : Memory) (event : MemoryEvent) :
    (memory.record event).log = event :: memory.log := rfl

@[simp] theorem partitionSlabChain_log (base count : Nat) (memory : Memory) :
    (partitionSlabChain base count memory).log = memory.log := by
  rw [partitionSlabChain]
  induction List.range count generalizing memory with
  | nil => rfl
  | cons index rest ih => exact ih _

/-- The block that the destructor frees for a chunk. -/
def MemoryCallbacks.chunkBlock (callbacks : MemoryCallbacks) (chunk : Chunk) :
    Option MemoryBlock :=
  if chunk.is_owned ∧ callbacks.free.isSome ∧ chunk.base_ptr ≠ 0 then
    some ⟨chunk.base_ptr, u64 (chunk.slab_count * slabSize), slabSize, callbacks.user_data⟩
  else none

/-- The blocks that the destructor of the pool frees. -/
def BlockPool.held (pool : BlockPool) : List MemoryBlock :=
  pool.m_chunks.filterMap pool.m_callbacks.chunkBlock

/-- The blocks that the destructor of an arena frees with these callbacks. -/
def SlabArena.held (arena : SlabArena) (callbacks : MemoryCallbacks) : List MemoryBlock :=
  if callbacks.isValid then
    arena.m_oversized.map fun block =>
      ⟨block.raw_ptr, block.total_bytes, block.alignment, callbacks.user_data⟩
  else []

/-- In a call that left this log, nothing was lost and nothing was freed that was not held. -/
def Balances (log : List MemoryEvent) (before after : List MemoryBlock) : Prop :=
  ∀ block, (allocations log).count block + before.count block =
    (frees log).count block + after.count block

namespace Balances

variable {log : List MemoryEvent} {before after : List MemoryBlock}

theorem refl : Balances [] before before := fun _ => rfl

/-- Blocks that stay where they are. -/
theorem append (balances : Balances log before after) (others : List MemoryBlock) :
    Balances log (before ++ others) (after ++ others) := by
  intro block
  have := balances block
  simp only [List.count_append]
  omega

/-- One call after the other. -/
theorem trans {earlier : List MemoryEvent} {first : List MemoryBlock}
    (balances : Balances log before after) (older : Balances earlier first before) :
    Balances (log ++ earlier) first after := by
  intro block
  have := balances block
  have := older block
  simp only [allocations_append, frees_append, List.count_append]
  omega

end Balances

/-- A log of frees. -/
theorem count_freed (blocks : List MemoryBlock) (block : MemoryBlock) :
    (allocations (blocks.map .freed).reverse).count block = 0 ∧
      (frees (blocks.map .freed).reverse).count block = blocks.count block := by
  induction blocks with
  | nil => exact ⟨rfl, rfl⟩
  | cons head tail ih =>
      simp only [List.map_cons, List.reverse_cons, allocations_append, frees_append,
        allocations_freed, allocations_nil, frees_freed, frees_nil, List.count_append, ih,
        List.count_cons, List.count_nil, Nat.zero_add, and_self]

theorem MemoryCallbacks.free_of_isValid {callbacks : MemoryCallbacks}
    (valid : callbacks.isValid = true) : callbacks.free.isSome = true :=
  (Bool.and_eq_true_iff.mp valid).2

/-- An address that `alloc` returns is not null. -/
def MemoryAnswers.Proper (answers : MemoryAnswers) : Prop := answers.memory ≠ some 0

instance (answers : MemoryAnswers) : Decidable answers.Proper :=
  inferInstanceAs (Decidable (_ ≠ _))

section Calls

variable {answers : MemoryAnswers} {memory : Memory}

/-! ## The pool -/

namespace BlockPool

theorem construct_balances (proper : answers.Proper) (fresh : memory.log = [])
    (callbacks : MemoryCallbacks) (initial_slabs chunk_slabs : Nat) (allow_growth : Bool) :
    let built := construct callbacks initial_slabs chunk_slabs allow_growth answers memory
    Balances built.1.log [] built.2.held ∧ built.2.m_callbacks = callbacks := by
  simp only [construct]
  by_cases invalid : callbacks.isValid = false
  · simp [invalid, fresh, held, Balances]
  by_cases none : initial_slabs = 0
  · simp [invalid, none, fresh, held, Balances]
  have valid := MemoryCallbacks.free_of_isValid (Bool.eq_true_of_not_eq_false invalid)
  rw [if_neg invalid, if_neg none]
  cases answered : answers.memory with
  | none => simp [fresh, held, Balances]
  | some raw_mem =>
      have notNull : raw_mem ≠ 0 := by
        rintro rfl
        exact proper answered
      by_cases recorded : answers.record = true
      · simp [recorded, fresh, held, MemoryCallbacks.chunkBlock, valid, notNull, Balances]
      · simp [recorded, fresh, held, Balances]

theorem fromBuffer_balances (fresh : memory.log = []) (buffer bytes : Nat) :
    let built := fromBuffer buffer bytes answers memory
    built.1.log = [] ∧ built.2.held = [] ∧ built.2.m_callbacks = {} := by
  simp only [fromBuffer]
  generalize (if buffer = 0 then 0 else alignUp buffer slabSize) = base
  generalize (_ : Nat) / slabSize = count
  by_cases none : count = 0
  · rw [if_pos none]
    exact ⟨fresh, rfl, rfl⟩
  · rw [if_neg none]
    refine ⟨by simp [fresh], ?_, rfl⟩
    by_cases recorded : answers.record = true
    all_goals simp [recorded, held, MemoryCallbacks.chunkBlock]

theorem move_held (other : BlockPool) :
    (move other).1.held = other.held ∧ (move other).2.held = [] := ⟨rfl, rfl⟩

/-- The destructor frees what the pool holds, chunk after chunk. -/
theorem destroy_log (pool : BlockPool) (memory : Memory) :
    (pool.destroy memory).log = (pool.held.map .freed).reverse ++ memory.log := by
  rw [destroy, held]
  induction pool.m_chunks generalizing memory with
  | nil => rfl
  | cons chunk chunks ih =>
      rw [List.foldl_cons, ih, freeChunk, List.filterMap_cons, MemoryCallbacks.chunkBlock]
      split <;> simp

/-- A chain that is given back changes neither the chunks nor the callbacks. -/
theorem releaseSlabChain_keeps (pool : BlockPool) (head tail : Option Nat) (count : Nat)
    (memory : Memory) :
    (pool.releaseSlabChain head tail count memory).1.log = memory.log ∧
      (pool.releaseSlabChain head tail count memory).2.held = pool.held ∧
      (pool.releaseSlabChain head tail count memory).2.m_callbacks = pool.m_callbacks := by
  cases head with
  | none => exact ⟨rfl, rfl, rfl⟩
  | some head =>
      cases tail with
      | none => exact ⟨rfl, rfl, rfl⟩
      | some tail =>
          simp only [releaseSlabChain]
          split <;> exact ⟨rfl, rfl, rfl⟩

/-- A new chunk is held from its allocation on. -/
theorem allocateChunkAndAcquire_balances (proper : answers.Proper) (fresh : memory.log = [])
    (pool : BlockPool) :
    Balances (pool.allocateChunkAndAcquire answers memory).1.log pool.held
        (pool.allocateChunkAndAcquire answers memory).2.1.held ∧
      (pool.allocateChunkAndAcquire answers memory).2.1.m_callbacks = pool.m_callbacks := by
  rw [allocateChunkAndAcquire]
  by_cases invalid : pool.m_callbacks.isValid = false
  · rw [if_pos invalid, fresh]
    exact ⟨.refl, rfl⟩
  rw [if_neg invalid]
  have valid := MemoryCallbacks.free_of_isValid (Bool.eq_true_of_not_eq_false invalid)
  cases answered : answers.memory with
  | none =>
      rw [fresh]
      exact ⟨.refl, rfl⟩
  | some raw_mem =>
      have notNull : raw_mem ≠ 0 := by
        rintro rfl
        exact proper answered
      by_cases recorded : answers.record = true
      · simp only [recorded, ↓reduceIte]
        generalize isGrown : BlockPool.mk _ _ _ _ _ _ _ _ = grown
        have gained : grown.held =
            ⟨raw_mem, u64 (pool.m_chunk_slabs * slabSize), slabSize,
              pool.m_callbacks.user_data⟩ :: pool.held := by
          rw [← isGrown]
          simp [held, MemoryCallbacks.chunkBlock, valid, notNull]
        have callbacks : grown.m_callbacks = pool.m_callbacks := by rw [← isGrown]
        have balances : Balances [.allocated ⟨raw_mem, u64 (pool.m_chunk_slabs * slabSize),
            slabSize, pool.m_callbacks.user_data⟩] pool.held grown.held := by
          intro block
          simp only [gained, allocations_allocated, allocations_nil, frees_allocated, frees_nil,
            List.count_cons, List.count_nil]
          omega
        split
        · obtain ⟨log, chunks, same⟩ := grown.releaseSlabChain_keeps
            (some (slabAt raw_mem 1))
            (some (slabAt (slabAt raw_mem 1) (pool.m_chunk_slabs - 1 - 1)))
            (pool.m_chunk_slabs - 1)
            (partitionSlabChain (slabAt raw_mem 1) (pool.m_chunk_slabs - 1)
              ((memory.record (.allocated ⟨raw_mem, u64 (pool.m_chunk_slabs * slabSize), slabSize,
                pool.m_callbacks.user_data⟩)).link raw_mem none))
          refine ⟨?_, same.trans callbacks⟩
          rw [chunks, log]
          simpa [fresh] using balances
        · refine ⟨?_, callbacks⟩
          simpa [fresh] using balances
      · simp only [recorded]
        refine ⟨fun block => ?_, rfl⟩
        simp [fresh]

theorem acquireSlab_balances (proper : answers.Proper) (fresh : memory.log = [])
    (pool : BlockPool) :
    Balances (pool.acquireSlab answers memory).1.log pool.held
        (pool.acquireSlab answers memory).2.1.held ∧
      (pool.acquireSlab answers memory).2.1.m_callbacks = pool.m_callbacks := by
  have same : Balances memory.log pool.held pool.held := by
    rw [fresh]
    exact .refl
  rw [acquireSlab]
  split
  next slab head =>
    exact ⟨same, rfl⟩
  next =>
    split
    · exact allocateChunkAndAcquire_balances proper fresh pool
    · exact ⟨same, rfl⟩

/-- A pool without callbacks calls none. -/
theorem acquireSlab_quiet {pool : BlockPool} (invalid : pool.m_callbacks.isValid = false) :
    (pool.acquireSlab answers memory).1.log = memory.log := by
  rw [acquireSlab]
  split
  · rfl
  · split
    · rw [allocateChunkAndAcquire, if_pos invalid]
    · rfl

end BlockPool

/-! ## The arena -/

namespace SlabArena

/-- What the destructors of an arena and of its pool free. -/
def heldBehind (arena : SlabArena) (pool : Option BlockPool) : List MemoryBlock :=
  pool.elim [] fun pool => pool.held ++ arena.held pool.m_callbacks

theorem held_congr {arena next : SlabArena} (blocks : next.m_oversized = arena.m_oversized)
    (callbacks : MemoryCallbacks) : next.held callbacks = arena.held callbacks := by
  simp only [held, blocks]

/-- A call on an arena keeps the balance, the callbacks and the pool. -/
structure Keeps (arena : SlabArena) (pool : Option BlockPool) (memory : Memory)
    (after : Option BlockPool) (next : SlabArena) : Prop where
  balances : Balances memory.log (arena.heldBehind pool) (next.heldBehind after)
  callbacks : after.map BlockPool.m_callbacks = pool.map BlockPool.m_callbacks
  samePool : next.m_pool = arena.m_pool

variable {arena : SlabArena} {pool : Option BlockPool}

theorem Keeps.refl (fresh : memory.log = []) {next : SlabArena}
    (blocks : next.m_oversized = arena.m_oversized) (samePool : next.m_pool = arena.m_pool) :
    arena.Keeps pool memory pool next := by
  refine ⟨?_, rfl, samePool⟩
  have same : next.heldBehind pool = arena.heldBehind pool := by
    cases pool with
    | none => rfl
    | some pool => simp only [heldBehind, Option.elim_some, held_congr blocks]
  rw [fresh, same]
  exact .refl

theorem allocateOversized_keeps (fresh : memory.log = []) (bytes alignment : Nat) :
    let returned := arena.allocateOversized bytes alignment answers pool memory
    arena.Keeps pool returned.memory returned.pool returned.arena := by
  simp only [allocateOversized, oversizedMemory]
  by_cases valid : pool.any (·.m_callbacks.isValid) = true
  · obtain ⟨pool, rfl, valid⟩ := (Option.any_eq_true _ _).mp valid
    rw [if_pos (by rwa [Option.any_some])]
    replace valid : pool.m_callbacks.isValid = true := valid
    cases answers.memory with
    | none => exact .refl fresh rfl rfl
    | some raw_mem =>
        refine ⟨fun block => ?_, rfl, rfl⟩
        simp only [Memory.log_record, fresh, allocations_allocated, frees_allocated,
          allocations_nil, frees_nil, heldBehind, Option.elim_some, held, valid, ↓reduceIte,
          List.map_cons, List.count_append, List.count_cons, List.count_nil, Option.bind_some]
        omega
  · rw [if_neg valid]
    exact .refl fresh rfl rfl

theorem allocateSlab_keeps (proper : answers.Proper) (fresh : memory.log = [])
    (bytes alignment : Nat) :
    let returned := arena.allocateSlab bytes alignment answers pool memory
    arena.Keeps pool returned.memory returned.pool returned.arena := by
  cases pool with
  | none => exact .refl fresh rfl rfl
  | some pool =>
      obtain ⟨balances, callbacks⟩ := BlockPool.acquireSlab_balances proper fresh pool
      simp only [allocateSlab]
      generalize pool.acquireSlab answers memory = answer at balances callbacks
      obtain ⟨after, next, slab⟩ := answer
      have kept (moved : SlabArena) (blocks : moved.m_oversized = arena.m_oversized) :
          Balances after.log (arena.heldBehind (some pool)) (moved.heldBehind (some next)) := by
        simp only at callbacks
        simp only [heldBehind, Option.elim_some, held_congr blocks, callbacks]
        exact balances.append _
      cases slab with
      | none => exact ⟨kept arena rfl, congrArg some callbacks, rfl⟩
      | some slab => exact ⟨kept _ rfl, congrArg some callbacks, rfl⟩

theorem allocate_keeps (proper : answers.Proper) (fresh : memory.log = [])
    (bytes alignment : Nat) :
    let returned := arena.allocate bytes alignment answers pool memory
    arena.Keeps pool returned.memory returned.pool returned.arena := by
  simp only [allocate]
  split
  · exact .refl fresh rfl rfl
  split
  · exact .refl fresh rfl rfl
  · rw [allocateSlow]
    split
    · exact allocateSlab_keeps proper fresh ..
    · exact allocateOversized_keeps fresh ..

theorem allocateSpan_keeps (proper : answers.Proper) (fresh : memory.log = [])
    (size alignment count : Nat) :
    let returned := arena.allocateSpan size alignment count answers pool memory
    arena.Keeps pool returned.memory returned.pool returned.arena := by
  simp only [allocateSpan]
  split
  · exact .refl fresh rfl rfl
  · exact allocate_keeps proper fresh ..

/-- With a pool without callbacks, an arena calls none. -/
theorem allocate_quiet {pool : BlockPool} (invalid : pool.m_callbacks.isValid = false)
    (bytes alignment : Nat) :
    (arena.allocate bytes alignment answers (some pool) memory).memory.log = memory.log := by
  have acquired := @BlockPool.acquireSlab_quiet answers memory pool invalid
  simp only [allocate]
  split
  · rfl
  split
  · rfl
  · rw [allocateSlow]
    split
    · simp only [allocateSlab]
      generalize pool.acquireSlab answers memory = answer at acquired
      obtain ⟨after, next, slab⟩ := answer
      cases slab <;> exact acquired
    · simp [allocateOversized, oversizedMemory, invalid]

theorem allocateSpan_quiet {pool : BlockPool} (invalid : pool.m_callbacks.isValid = false)
    (size alignment count : Nat) :
    (arena.allocateSpan size alignment count answers (some pool) memory).memory.log =
      memory.log := by
  simp only [allocateSpan]
  split
  · rfl
  · exact allocate_quiet invalid ..

/-- The oversized blocks are freed one after the other. -/
theorem freeOversized_log (arena : SlabArena) (pool : BlockPool) (memory : Memory) :
    (arena.m_oversized.foldl (freeOversized (some pool)) memory).log =
      ((arena.held pool.m_callbacks).map .freed).reverse ++ memory.log := by
  rw [held]
  by_cases valid : pool.m_callbacks.isValid = true
  · rw [if_pos valid]
    induction arena.m_oversized generalizing memory with
    | nil => rfl
    | cons block blocks ih =>
        rw [List.foldl_cons, ih, freeOversized, if_pos (by rwa [Option.any_some])]
        simp
  · rw [if_neg valid]
    induction arena.m_oversized generalizing memory with
    | nil => rfl
    | cons block blocks ih =>
        rw [List.foldl_cons, freeOversized, if_neg (by rwa [Option.any_some])]
        exact ih memory

theorem releaseSlabs_keeps (arena : SlabArena) (pool : BlockPool) (memory : Memory) :
    ∃ next, (arena.releaseSlabs (some pool) memory).2.1 = some next ∧
      (arena.releaseSlabs (some pool) memory).1.log = memory.log ∧
      next.held = pool.held ∧ next.m_callbacks = pool.m_callbacks ∧
      (arena.releaseSlabs (some pool) memory).2.2.m_oversized = arena.m_oversized ∧
      (arena.releaseSlabs (some pool) memory).2.2.m_pool = arena.m_pool := by
  cases head : arena.m_head_slab with
  | none =>
      exact ⟨pool, by simp [releaseSlabs, head]⟩
  | some head' =>
      obtain ⟨log, held, callbacks⟩ :=
        pool.releaseSlabChain_keeps (some head') arena.m_tail_slab arena.m_slab_count memory
      exact ⟨_, by simp only [releaseSlabs, head], by simpa only [releaseSlabs, head], held,
        callbacks, by simp only [releaseSlabs, head], by simp only [releaseSlabs, head]⟩

theorem reset_keeps (fresh : memory.log = []) :
    arena.Keeps pool (arena.reset pool memory).1 (arena.reset pool memory).2.1
        (arena.reset pool memory).2.2 := by
  cases pool with
  | none =>
      have quiet (blocks : List OversizedBlock) :
          blocks.foldl (freeOversized none) memory = memory := by
        induction blocks with
        | nil => rfl
        | cons block blocks ih => exact ih
      have kept : arena.releaseSlabs none memory = (memory, none, arena) := by
        cases head : arena.m_head_slab <;> simp only [releaseSlabs, head]
      simp only [reset, kept, quiet]
      exact ⟨by rw [fresh]; exact .refl, rfl, rfl⟩
  | some pool =>
      obtain ⟨next, isNext, log, poolHeld, callbacks, blocks, samePool⟩ :=
        arena.releaseSlabs_keeps pool memory
      simp only [reset]
      generalize arena.releaseSlabs (some pool) memory = released at *
      obtain ⟨after, rest, moved⟩ := released
      simp only at log blocks samePool isNext
      subst isNext
      refine ⟨fun block => ?_, congrArg some callbacks, samePool⟩
      rw [freeOversized_log, log, fresh, held_congr blocks, callbacks, List.append_nil,
        (count_freed _ block).1, (count_freed _ block).2]
      simp only [heldBehind, Option.elim_some, poolHeld, callbacks, List.count_append]
      have none : ({ moved with
          m_bump_ptr := 0
          m_bump_end := 0
          m_slab_count := 0
          m_allocated_bytes := 0
          m_oversized := [] } : SlabArena).held pool.m_callbacks = [] := by
        simp [held]
      rw [none]
      simp only [List.count_nil]
      omega

/-- `reset` only frees, and leaves no oversized blocks. -/
theorem reset_quiet (fresh : memory.log = []) :
    allocations (arena.reset pool memory).1.log = [] ∧
      (arena.reset pool memory).2.2.m_oversized = [] := by
  refine ⟨?_, rfl⟩
  have noAllocations (pool : Option BlockPool) (blocks : List OversizedBlock) (memory : Memory)
      (none : allocations memory.log = []) :
      allocations (blocks.foldl (freeOversized pool) memory).log = [] := by
    induction blocks generalizing memory with
    | nil => exact none
    | cons block blocks ih =>
        refine ih _ ?_
        rw [freeOversized]
        split
        · simpa using none
        · exact none
  have log : (arena.releaseSlabs pool memory).1.log = memory.log := by
    cases pool with
    | none => cases head : arena.m_head_slab <;> simp only [releaseSlabs, head]
    | some pool =>
        obtain ⟨_, -, log, -⟩ := arena.releaseSlabs_keeps pool memory
        exact log
  have none : allocations (arena.releaseSlabs pool memory).1.log = [] := by
    rw [log, fresh]
    rfl
  exact noAllocations _ _ _ none

end SlabArena

end Calls

end LightFlow
