import LightFlow.Lib.Threads
import LightFlow.Memory.BlockPool

/-!
# A block pool that threads share

`acquire_slab`, `release_slab` and `release_slab_chain` of one pool, called by any number of
threads, one access to the shared state at a time.  Slabs that a caller holds belong to the caller,
who may write to their headers.
-/

namespace LightFlow

/-- Slabs that are passed to `release_slab_chain`, with the arguments of the call. -/
structure SlabChain where
  head : Nat
  tail : Nat
  count : Nat
  /-- The slabs from `head` to `tail`. -/
  slabs : List Nat
  deriving DecidableEq, Repr

/-- Where a thread is. -/
inductive SlabCall where
  /-- In no call. -/
  | idle
  /-- At the first `m_head.load` of `acquire_slab`. -/
  | loadingHead
  /-- At `current.ptr->next.load`. -/
  | loadingNext (slab tag : Nat)
  /-- At the weak compare-exchange of `m_head` in `acquire_slab`. -/
  | popping (slab tag : Nat) (next_ptr : Option Nat)
  /-- At `m_available_slabs.fetch_sub`. -/
  | uncounting (slab : Nat)
  /-- At `current.ptr->next.store(nullptr)`. -/
  | detaching (slab : Nat)
  /-- At the weak compare-exchange of `m_growth_lock`. -/
  | locking
  /-- At `m_head.load` while the lock is not taken. -/
  | waiting
  /-- At `m_head.load` under the lock. -/
  | checking
  /-- At the release of the lock before another `acquire_slab`. -/
  | yielding
  /-- At `m_callbacks.alloc`. -/
  | allocating
  /-- At `new Chunk`. -/
  | recording (raw_mem : Nat)
  /-- At `m_callbacks.free`. -/
  | freeing (raw_mem : Nat)
  /-- At `m_chunks.load`. -/
  | loadingChunks (raw_mem : Nat)
  /-- At the weak compare-exchange of `m_chunks`. -/
  | linkingChunk (raw_mem : Nat) (old_chunks : List Chunk)
  /-- At `m_total_slabs.fetch_add`. -/
  | totalling (raw_mem : Nat)
  /-- At `m_chunk_count.fetch_add`. -/
  | countingChunk (raw_mem : Nat)
  /-- At `acquired->next.store(nullptr)`. -/
  | detachingFirst (raw_mem : Nat)
  /-- At `current->next.store(next)` in a turn of `partition_slab_chain`. -/
  | partitioning (raw_mem index : Nat)
  /-- At `m_head.load` of `release_slab_chain`; `acquired` is what the growth around it returns. -/
  | loadingTop (chain : SlabChain) (acquired : Option Nat)
  /-- At `tail->next.store(current.ptr)`. -/
  | linkingTail (chain : SlabChain) (current : TaggedSlab) (acquired : Option Nat)
  /-- At the weak compare-exchange of `m_head` in `release_slab_chain`. -/
  | pushing (chain : SlabChain) (current : TaggedSlab) (acquired : Option Nat)
  /-- At `m_available_slabs.fetch_add`. -/
  | counting (count : Nat) (acquired : Option Nat)
  /-- At the release of the lock before `allocate_chunk_and_acquire` returns. -/
  | unlocking (acquired : Option Nat)
  deriving DecidableEq, Repr

/-- The pool, the headers of the slabs, and what is known of their owners. -/
structure SlabShared where
  pool : BlockPool
  memory : Memory
  m_growth_lock : Bool := false
  /-- The slabs that callers hold. -/
  held : Multiset Nat := 0
  /-- Memory that `alloc` returned and that was not freed. -/
  live : List Chunk := []
  /-- How often `m_head` was exchanged. -/
  updates : Nat := 0

/-- What a step is answered from outside. -/
structure SlabAnswers where
  /-- A weak compare-exchange fails. -/
  spurious : Bool := false
  /-- Result of `alloc`. -/
  memory : Option Nat := none
  /-- `new` has memory for a chunk record. -/
  record : Bool := true
  deriving DecidableEq, Repr

/-- What a thread may do. -/
inductive SlabChoice where
  | acquireSlab
  | releaseSlab (slab : Nat)
  /-- `release_slab_chain(head, tail, count)`, where the chain runs through `slabs`. -/
  | releaseSlabChain (head tail : Option Nat) (count : Nat) (slabs : List Nat)
  /-- The holder of a slab writes to its header. -/
  | write (slab : Nat) (next : Option Nat)
  /-- Go on with the call. -/
  | go (answers : SlabAnswers)
  deriving DecidableEq, Repr

namespace SlabShared

def setNext (shared : SlabShared) (slab : Nat) (next : Option Nat) : SlabShared :=
  { shared with memory := shared.memory.link slab next }

def setHead (shared : SlabShared) (m_head : TaggedSlab) : SlabShared :=
  { shared with pool := { shared.pool with m_head }, updates := shared.updates + 1 }

def setLock (shared : SlabShared) (m_growth_lock : Bool) : SlabShared :=
  { shared with m_growth_lock }

/-- The block that `alloc` is asked for. -/
def block (shared : SlabShared) (raw_mem : Nat) : MemoryBlock :=
  ⟨raw_mem, u64 (shared.pool.m_chunk_slabs * slabSize), slabSize, shared.pool.m_callbacks.user_data⟩

/-- The chunk of new memory. -/
def chunk (shared : SlabShared) (raw_mem : Nat) : Chunk :=
  { base_ptr := raw_mem, slab_count := shared.pool.m_chunk_slabs }

/-- The slabs of a new chunk less the first one, for `release_slab_chain`. -/
def restChain (shared : SlabShared) (raw_mem : Nat) : SlabChain :=
  let rest_count := shared.pool.m_chunk_slabs - 1
  let rest_base := slabAt raw_mem 1
  { head := rest_base
    tail := slabAt rest_base (rest_count - 1)
    count := rest_count
    slabs := slabsFrom rest_base rest_count }

end SlabShared

/-- Where a call goes on that found the freelist empty. -/
def BlockPool.afterEmpty (pool : BlockPool) : SlabCall :=
  if pool.m_allow_growth && pool.m_callbacks.isValid then .locking else .idle

/-- Where `release_slab_chain` returns to. -/
def SlabCall.afterRelease : Option Nat → SlabCall
  | none => .idle
  | some acquired => .unlocking (some acquired)

/-- The next step of a call. -/
def SlabCall.go (shared : SlabShared) (answers : SlabAnswers) :
    SlabCall → Option (SlabShared × SlabCall)
  | .idle => none
  | .loadingHead =>
      match shared.pool.m_head.ptr with
      | some slab => some (shared, .loadingNext slab shared.pool.m_head.tag)
      | none => some (shared, shared.pool.afterEmpty)
  | .loadingNext slab tag => some (shared, .popping slab tag (shared.memory.next slab))
  | .popping slab tag next_ptr =>
      if shared.pool.m_head = ⟨some slab, tag⟩ ∧ answers.spurious = false then
        some (shared.setHead ⟨next_ptr, u64 (tag + 1)⟩, .uncounting slab)
      else
        match shared.pool.m_head.ptr with
        | some slab => some (shared, .loadingNext slab shared.pool.m_head.tag)
        | none => some (shared, shared.pool.afterEmpty)
  | .uncounting slab =>
      let pool :=
        { shared.pool with m_available_slabs := u64Sub shared.pool.m_available_slabs 1 }
      some ({ shared with pool }, .detaching slab)
  | .detaching slab =>
      let detached := shared.setNext slab none
      some ({ detached with held := slab ::ₘ shared.held }, .idle)
  | .locking =>
      if shared.m_growth_lock = false ∧ answers.spurious = false then
        some (shared.setLock true, .checking)
      else some (shared, .waiting)
  | .waiting =>
      if shared.pool.m_head.ptr.isSome then some (shared, .loadingHead) else some (shared, .locking)
  | .checking =>
      if shared.pool.m_head.ptr.isSome then some (shared, .yielding) else some (shared, .allocating)
  | .yielding => some (shared.setLock false, .loadingHead)
  | .allocating =>
      match answers.memory with
      | none => some (shared, .unlocking none)
      | some raw_mem =>
          some
            ({ shared with
                memory := shared.memory.record (.allocated (shared.block raw_mem))
                live := shared.chunk raw_mem :: shared.live },
              .recording raw_mem)
  | .recording raw_mem =>
      if answers.record then some (shared, .loadingChunks raw_mem)
      else some (shared, .freeing raw_mem)
  | .freeing raw_mem =>
      some
        ({ shared with
            memory := shared.memory.record (.freed (shared.block raw_mem))
            live := shared.live.erase (shared.chunk raw_mem) },
          .unlocking none)
  | .loadingChunks raw_mem => some (shared, .linkingChunk raw_mem shared.pool.m_chunks)
  | .linkingChunk raw_mem old_chunks =>
      if shared.pool.m_chunks = old_chunks ∧ answers.spurious = false then
        let pool := { shared.pool with m_chunks := shared.chunk raw_mem :: old_chunks }
        some ({ shared with pool }, .totalling raw_mem)
      else some (shared, .linkingChunk raw_mem shared.pool.m_chunks)
  | .totalling raw_mem =>
      let pool :=
        { shared.pool with
          m_total_slabs := u64 (shared.pool.m_total_slabs + shared.pool.m_chunk_slabs) }
      some ({ shared with pool }, .countingChunk raw_mem)
  | .countingChunk raw_mem =>
      let pool := { shared.pool with m_chunk_count := u64 (shared.pool.m_chunk_count + 1) }
      some ({ shared with pool }, .detachingFirst raw_mem)
  | .detachingFirst raw_mem =>
      some (shared.setNext raw_mem none,
        if 1 < shared.pool.m_chunk_slabs then .partitioning raw_mem 0
        else .unlocking (some raw_mem))
  | .partitioning raw_mem index =>
      let chain := shared.restChain raw_mem
      let linked := shared.setNext (slabAt chain.head index)
        (if index + 1 < chain.count then some (slabAt chain.head (index + 1)) else none)
      some (linked,
        if index + 1 < chain.count then .partitioning raw_mem (index + 1)
        else .loadingTop chain (some raw_mem))
  | .loadingTop chain acquired => some (shared, .linkingTail chain shared.pool.m_head acquired)
  | .linkingTail chain current acquired =>
      some (shared.setNext chain.tail current.ptr, .pushing chain current acquired)
  | .pushing chain current acquired =>
      if shared.pool.m_head = current ∧ answers.spurious = false then
        some (shared.setHead ⟨some chain.head, u64 (current.tag + 1)⟩,
          .counting chain.count acquired)
      else some (shared, .linkingTail chain shared.pool.m_head acquired)
  | .counting count acquired =>
      let pool :=
        { shared.pool with m_available_slabs := u64 (shared.pool.m_available_slabs + count) }
      some ({ shared with pool }, .afterRelease acquired)
  | .unlocking none => some (shared.setLock false, .idle)
  | .unlocking (some acquired) =>
      some ({ shared.setLock false with held := acquired ::ₘ shared.held }, .idle)

/-- `release_slab_chain` begins, and takes the slabs from their holder. -/
def SlabShared.release (shared : SlabShared) (head tail : Option Nat) (count : Nat)
    (slabs : List Nat) : SlabShared × SlabCall :=
  match head, tail with
  | some head, some tail =>
      if count = 0 then (shared, .idle)
      else
        ({ shared with held := shared.held - ↑slabs }, .loadingTop ⟨head, tail, count, slabs⟩ none)
  | _, _ => (shared, .idle)

/-- One step of a thread. -/
def SlabCall.fire (shared : SlabShared) : SlabCall → SlabChoice → Option (SlabShared × SlabCall)
  | .idle, .acquireSlab => some (shared, .loadingHead)
  | .idle, .releaseSlab slab => some (shared.release (some slab) (some slab) 1 [slab])
  | .idle, .releaseSlabChain head tail count slabs => some (shared.release head tail count slabs)
  | .idle, .write slab next => some (shared.setNext slab next, .idle)
  | call, .go answers => call.go shared answers
  | _, _ => none

/-- Threads that acquire and release slabs. -/
def slabProgram : Program SlabShared SlabCall Empty SlabChoice where
  solo := fun _ => Empty.elim
  fire := SlabCall.fire

/-! ## What callers and callbacks promise -/

/-- A chunk in memory, on a slab boundary. -/
structure Chunk.InMemory (chunk : Chunk) : Prop where
  positive : 0 < chunk.base_ptr
  aligned : chunk.base_ptr % slabSize = 0
  fits : chunk.base_ptr + chunk.slab_count * slabSize ≤ 2 ^ 64

instance (chunk : Chunk) : Decidable chunk.InMemory :=
  decidable_of_iff (0 < chunk.base_ptr ∧ chunk.base_ptr % slabSize = 0 ∧
      chunk.base_ptr + chunk.slab_count * slabSize ≤ 2 ^ 64)
    ⟨fun ⟨positive, aligned, fits⟩ => ⟨positive, aligned, fits⟩,
      fun ⟨positive, aligned, fits⟩ => ⟨positive, aligned, fits⟩⟩

def Chunk.slabs (chunk : Chunk) : List Nat :=
  slabsFrom chunk.base_ptr chunk.slab_count

/-- `alloc` returned memory for a chunk that is in use nowhere else. -/
def Chunk.Fresh (chunk : Chunk) (live : List Chunk) : Prop :=
  chunk.InMemory ∧ ∀ other ∈ live, ∀ slab ∈ chunk.slabs, slab ∉ other.slabs

instance (chunk : Chunk) (live : List Chunk) : Decidable (chunk.Fresh live) :=
  inferInstanceAs (Decidable (_ ∧ _))

/-- The chain that a caller releases runs from `head` to `tail`, through `count` slabs. -/
def IsSlabChain (next : Nat → Option Nat) (head tail : Option Nat) (count : Nat)
    (slabs : List Nat) : Prop :=
  slabs.head? = head ∧ slabs.getLast? = tail ∧ slabs.length = count ∧
    slabs.IsChain fun slab after => next slab = some after

instance (next : Nat → Option Nat) (head tail : Option Nat) (count : Nat) (slabs : List Nat) :
    Decidable (IsSlabChain next head tail count slabs) :=
  inferInstanceAs (Decidable (_ ∧ _ ∧ _ ∧ _))

/-- Callers release and write to slabs that they hold, `alloc` returns fresh memory, and `m_head` is
exchanged fewer than 2^64 times. -/
def SlabChoice.Proper (shared : SlabShared) (call : SlabCall) : SlabChoice → Prop
  | .acquireSlab => True
  | .releaseSlab slab => slab ∈ shared.held
  | .releaseSlabChain head tail count slabs =>
      ↑slabs ≤ shared.held ∧ IsSlabChain shared.memory.next head tail count slabs
  | .write slab _ => slab ∈ shared.held
  | .go answers =>
      (call = .allocating → ∀ raw_mem ∈ answers.memory, (shared.chunk raw_mem).Fresh shared.live) ∧
        (call.go shared answers).all (·.1.updates < 2 ^ 64) = true

instance (shared : SlabShared) (call : SlabCall) : DecidablePred (SlabChoice.Proper shared call)
  | .acquireSlab => inferInstanceAs (Decidable True)
  | .releaseSlab slab | .write slab _ => inferInstanceAs (Decidable (slab ∈ shared.held))
  | .releaseSlabChain .. => inferInstanceAs (Decidable (_ ∧ _))
  | .go _ => inferInstanceAs (Decidable ((_ = _ → _) ∧ _ = true))

/-- A pool with valid callbacks was constructed. -/
def SlabShared.Fresh (shared : SlabShared) : Prop :=
  ∃ (callbacks : MemoryCallbacks) (initial_slabs chunk_slabs : Nat) (allow_growth : Bool)
    (answers : MemoryAnswers) (memory : Memory),
    callbacks.isValid = true ∧
    (∀ raw_mem ∈ answers.memory,
      ({ base_ptr := raw_mem, slab_count := initial_slabs } : Chunk).InMemory) ∧
    let (constructed, pool) :=
      BlockPool.construct callbacks initial_slabs chunk_slabs allow_growth answers memory
    shared = { pool, memory := constructed, live := pool.m_chunks }

abbrev slabMachine (threads : Nat) :
    Machine (Program.State SlabShared SlabCall threads) (Program.Action Empty SlabChoice threads) :=
  slabProgram.machine SlabShared.Fresh .idle threads

abbrev properSlabs {threads : Nat} :
    Program.State SlabShared SlabCall threads → Program.Action Empty SlabChoice threads → Prop :=
  Program.Allowed (fun _ _ => True) SlabChoice.Proper

end LightFlow
