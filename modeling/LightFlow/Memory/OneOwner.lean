import LightFlow.Memory.SlabOwners

/-!
# Runs of threads that share a block pool

Every step of every thread keeps the law of the pool, so it holds from the construction of the pool
on.  A growth that gets no memory changes nothing but the lock.
-/

namespace LightFlow

namespace SlabLaw

variable {shared next : SlabShared} {here moved : SlabCall} {rest pool : Multiset SlabCall}

/-- The lock is taken while a call has it. -/
theorem lock_of_locks (law : SlabLaw shared (here ::ₘ rest)) (has : here.locks = 1) :
    shared.m_growth_lock = true := by
  have locked := law.locked
  rw [Multiset.map_cons, Multiset.sum_cons, has] at locked
  split at locked
  next taken => exact taken
  next free => omega

/-- A call that has the lock releases it. -/
theorem unlocked (law : SlabLaw shared (here ::ₘ rest)) (has : here.locks = 1) {held : Multiset Nat}
    (hands : held + moved.hands shared.pool.m_chunk_slabs =
      shared.held + here.hands shared.pool.m_chunk_slabs)
    (counts : SameCounts shared.pool.m_chunk_slabs here moved) (gone : moved.locks = 0)
    (knows : moved.Knows shared) :
    SlabLaw { shared with held, m_growth_lock := false } (moved ::ₘ rest) := by
  refine law.handed hands counts ?_ knows
  rw [law.lock_of_locks has, has, gone]
  rfl

/-- A search goes on from the head, or with the growth of an empty pool. -/
theorem searched (law : SlabLaw shared (here ::ₘ rest))
    (hands : here.hands shared.pool.m_chunk_slabs = 0)
    (counts : SameCounts shared.pool.m_chunk_slabs here .idle) (locks : here.locks = 0)
    (stepped : (match shared.pool.m_head.ptr with
      | some slab => some (shared, SlabCall.loadingNext slab shared.pool.m_head.tag)
      | none => some (shared, shared.pool.afterEmpty)) = some (next, moved)) :
    SlabLaw next (moved ::ₘ rest) := by
  split at stepped
  next slab isHead =>
    cases stepped
    exact law.onward hands.symm counts locks.symm ⟨le_rfl, fun _ => isHead⟩
  next isEmpty =>
    cases stepped
    rw [BlockPool.afterEmpty]
    split
    next => exact law.onward hands.symm counts locks.symm trivial
    next => exact law.onward hands.symm counts locks.symm trivial

/-- `alloc` returns memory. -/
theorem allocated {raw_mem : Nat} (law : SlabLaw shared (.allocating ::ₘ rest))
    (fresh : (shared.chunk raw_mem).Fresh shared.live) {memory : Memory}
    (sameNext : memory.next = shared.memory.next) :
    SlabLaw { shared with memory, live := shared.chunk raw_mem :: shared.live }
      (.recording raw_mem ::ₘ rest) := by
  refine law.reserved sameNext rfl rfl rfl rfl ?_ ?_ ?_ rfl trivial
  · simp only [SlabCall.unlinked, SlabShared.chunk]
    rw [add_zero, ← Multiset.cons_coe, ← Multiset.singleton_add, add_comm]
  · exact List.forall_mem_cons.mpr ⟨fresh.1, law.inMemory⟩
  · rw [List.flatMap_cons, List.nodup_append']
    refine ⟨(slabsFrom_increasing ..).imp Nat.ne_of_lt, law.apart, ?_⟩
    intro slab mine theirs
    obtain ⟨other, member, isOther⟩ := List.mem_flatMap.mp theirs
    exact fresh.2 other member slab mine isOther

/-- The chunk that a call has not put in the list yet. -/
theorem unlinked_live (law : SlabLaw shared (here ::ₘ rest)) {raw_mem : Nat}
    (isUnlinked : here.unlinked shared.pool.m_chunk_slabs = {shared.chunk raw_mem}) :
    shared.chunk raw_mem ∈ shared.live ∧ shared.chunk raw_mem ∉ shared.pool.m_chunks := by
  have live := law.live
  rw [Multiset.map_cons, Multiset.sum_cons, isUnlinked, ← add_assoc] at live
  have below : (↑(shared.pool.m_chunks ++ [shared.chunk raw_mem]) : Multiset Chunk) ≤
      ↑shared.live := live ▸ Multiset.le_add_right _ _
  refine ⟨Multiset.mem_coe.mp (Multiset.mem_of_le below ?_), fun isLinked => ?_⟩
  · exact Multiset.mem_coe.mpr (List.mem_append_right _ (List.mem_singleton_self _))
  · obtain ⟨others, isLive⟩ := Multiset.le_iff_exists_add.mp below
    obtain ⟨others, rfl⟩ := Quot.exists_rep others
    have split : shared.live.Perm ((shared.pool.m_chunks ++ [shared.chunk raw_mem]) ++ others) :=
      Multiset.coe_eq_coe.mp isLive
    have apart := (split.flatMap_right Chunk.slabs).nodup_iff.mp law.apart
    rw [List.flatMap_append, List.flatMap_append, List.flatMap_singleton] at apart
    have first : raw_mem ∈ (shared.chunk raw_mem).slabs :=
      mem_slabsFrom.mpr ⟨0, law.sized, by rw [Nat.zero_mul, Nat.add_zero, SlabShared.chunk]⟩
    exact (List.nodup_append'.mp apart.of_append_left).2.2
      (List.mem_flatMap.mpr ⟨_, isLinked, first⟩) first

/-- The memory that no chunk record was found for is freed. -/
theorem freed {raw_mem : Nat} (law : SlabLaw shared (.freeing raw_mem ::ₘ rest)) {memory : Memory}
    (sameNext : memory.next = shared.memory.next) :
    SlabLaw { shared with memory, live := shared.live.erase (shared.chunk raw_mem) }
      (.unlocking none ::ₘ rest) := by
  have split := List.perm_cons_erase (law.unlinked_live rfl).1
  refine law.reserved sameNext rfl rfl rfl rfl ?_ ?_ ?_ rfl trivial
  · simp only [SlabCall.unlinked]
    rw [add_zero, add_comm, Multiset.singleton_add, Multiset.cons_coe]
    exact (Multiset.coe_eq_coe.mpr split).symm
  · exact fun chunk member => law.inMemory chunk (List.mem_of_mem_erase member)
  · have apart := (split.flatMap_right Chunk.slabs).nodup_iff.mp law.apart
    rw [List.flatMap_cons] at apart
    exact apart.of_append_right

/-- The next step of a call keeps the law. -/
theorem go (law : SlabLaw shared (here ::ₘ rest)) {answers : SlabAnswers}
    (proper : SlabChoice.Proper shared here (.go answers))
    (stepped : here.go shared answers = some (next, moved)) : SlabLaw next (moved ::ₘ rest) := by
  obtain ⟨fresh, bounded⟩ := proper
  have few : next.updates < 2 ^ 64 := by simpa [stepped] using bounded
  clear bounded
  have knows := law.knows here (Multiset.mem_cons_self _ _)
  cases here with
  | idle => cases stepped
  | loadingHead => exact law.searched rfl ⟨rfl, rfl, rfl, rfl⟩ rfl stepped
  | loadingNext slab tag =>
      cases stepped
      exact law.onward rfl ⟨rfl, rfl, rfl, rfl⟩ rfl
        ⟨knows.1, fun isNow => ⟨knows.2 isNow, rfl⟩⟩
  | popping slab tag next_ptr =>
      rw [SlabCall.go] at stepped
      split at stepped
      next same =>
        cases stepped
        exact law.popped same.1 few
      next => exact law.searched rfl ⟨rfl, rfl, rfl, rfl⟩ rfl stepped
  | uncounting slab =>
      cases stepped
      obtain ⟨back, small⟩ := discount law.available
      exact law.tallied rfl rfl rfl small law.total back rfl trivial
  | detaching slab =>
      cases stepped
      have detached := @wrote _ _ _ law slab none (.inl (Multiset.mem_singleton_self _)) trivial
      refine @handed _ _ .idle _ detached (slab ::ₘ shared.held) ?_ ⟨rfl, rfl, rfl, rfl⟩ _ rfl
        trivial
      show slab ::ₘ shared.held + 0 = shared.held + ({slab} : Multiset Nat)
      rw [add_zero, add_comm, Multiset.singleton_add]
  | locking =>
      rw [SlabCall.go] at stepped
      split at stepped
      next free =>
        cases stepped
        refine @handed _ _ .checking _ law shared.held rfl ⟨rfl, rfl, rfl, rfl⟩ true ?_ trivial
        rw [free.1]
        rfl
      next =>
        cases stepped
        exact law.onward rfl ⟨rfl, rfl, rfl, rfl⟩ rfl trivial
  | waiting | checking =>
      rw [SlabCall.go] at stepped
      split at stepped
      next =>
        cases stepped
        exact law.onward rfl ⟨rfl, rfl, rfl, rfl⟩ rfl trivial
      next =>
        cases stepped
        exact law.onward rfl ⟨rfl, rfl, rfl, rfl⟩ rfl trivial
  | yielding =>
      cases stepped
      exact law.unlocked rfl rfl ⟨rfl, rfl, rfl, rfl⟩ rfl trivial
  | allocating =>
      rw [SlabCall.go] at stepped
      split at stepped
      next =>
        cases stepped
        exact law.onward rfl ⟨rfl, rfl, rfl, rfl⟩ rfl trivial
      next raw_mem isMemory =>
        cases stepped
        exact law.allocated (fresh rfl raw_mem isMemory) rfl
  | recording raw_mem =>
      rw [SlabCall.go] at stepped
      split at stepped
      next =>
        cases stepped
        exact law.onward rfl ⟨rfl, rfl, rfl, rfl⟩ rfl trivial
      next =>
        cases stepped
        exact law.onward rfl ⟨rfl, rfl, rfl, rfl⟩ rfl trivial
  | freeing raw_mem =>
      cases stepped
      exact law.freed rfl
  | loadingChunks raw_mem =>
      cases stepped
      exact law.onward rfl ⟨rfl, rfl, rfl, rfl⟩ rfl trivial
  | linkingChunk raw_mem old_chunks =>
      rw [SlabCall.go] at stepped
      split at stepped
      next same =>
        obtain ⟨rfl, -⟩ := same
        cases stepped
        exact law.chunkLinked
      next =>
        cases stepped
        exact law.onward rfl ⟨rfl, rfl, rfl, rfl⟩ rfl trivial
  | totalling raw_mem =>
      cases stepped
      exact law.tallied rfl rfl rfl law.available (u64_lt _) rfl (Nat.mod_modEq _ _) knows
  | countingChunk raw_mem =>
      cases stepped
      exact law.tallied rfl rfl rfl law.available law.total rfl rfl knows
  | detachingFirst raw_mem =>
      cases stepped
      exact law.firstDetached
  | partitioning raw_mem index =>
      cases stepped
      exact law.partitioned
  | loadingTop chain acquired =>
      cases stepped
      exact law.onward rfl ⟨rfl, rfl, rfl, rfl⟩ rfl knows
  | linkingTail chain current acquired =>
      cases stepped
      exact law.tailLinked
  | pushing chain current acquired =>
      rw [SlabCall.go] at stepped
      split at stepped
      next same =>
        cases stepped
        exact law.pushed same.1 few
      next =>
        cases stepped
        exact law.onward rfl ⟨rfl, rfl, rfl, rfl⟩ rfl knows.1
  | counting count acquired =>
      cases stepped
      have counts : u64 (shared.pool.m_available_slabs + count) + 0 + 0 ≡
          shared.pool.m_available_slabs + count + 0 [MOD 2 ^ 64] := Nat.mod_modEq _ _
      cases acquired with
      | none => exact law.tallied rfl rfl rfl (u64_lt _) law.total counts rfl trivial
      | some acquired => exact law.tallied rfl rfl rfl (u64_lt _) law.total counts rfl trivial
  | unlocking acquired =>
      cases acquired with
      | none =>
          cases stepped
          exact law.unlocked rfl rfl ⟨rfl, rfl, rfl, rfl⟩ rfl trivial
      | some acquired =>
          cases stepped
          refine law.unlocked rfl ?_ ⟨rfl, rfl, rfl, rfl⟩ rfl trivial
          show acquired ::ₘ shared.held + 0 = shared.held + ({acquired} : Multiset Nat)
          rw [add_zero, add_comm, Multiset.singleton_add]

/-- `release_slab_chain` takes slabs from their holder. -/
theorem release (law : SlabLaw shared (.idle ::ₘ rest)) {head tail : Option Nat} {count : Nat}
    {slabs : List Nat} (isHeld : ↑slabs ≤ shared.held)
    (isChain : IsSlabChain shared.memory.next head tail count slabs) :
    SlabLaw (shared.release head tail count slabs).1
      ((shared.release head tail count slabs).2 ::ₘ rest) := by
  unfold SlabShared.release
  split
  next head tail =>
    split
    next => exact law
    next =>
      refine @handed _ _ (.loadingTop ⟨head, tail, count, slabs⟩ none) _ law
        (shared.held - ↑slabs) ?_ ⟨rfl, rfl, rfl, rfl⟩ shared.m_growth_lock rfl isChain
      show shared.held - ↑slabs + (↑slabs + 0) = shared.held + 0
      rw [add_zero, add_zero, Multiset.sub_add_cancel isHeld]
  next => exact law

/-- A step of a thread keeps the law. -/
theorem fire (law : SlabLaw shared (here ::ₘ rest)) {choice : SlabChoice}
    (proper : choice.Proper shared here) (stepped : here.fire shared choice = some (next, moved)) :
    SlabLaw next (moved ::ₘ rest) := by
  cases choice with
  | go answers =>
      refine law.go proper ?_
      cases here <;> exact stepped
  | acquireSlab =>
      cases here with
      | idle =>
          cases stepped
          exact law.onward rfl ⟨rfl, rfl, rfl, rfl⟩ rfl trivial
      | _ => cases stepped
  | releaseSlab slab =>
      cases here with
      | idle =>
          have isChain : IsSlabChain shared.memory.next (some slab) (some slab) 1 [slab] :=
            ⟨rfl, rfl, rfl, .singleton _⟩
          have released := law.release (Multiset.singleton_le.mpr proper) isChain
          cases stepped
          exact released
      | _ => cases stepped
  | releaseSlabChain head tail count slabs =>
      cases here with
      | idle =>
          obtain ⟨isHeld, isChain⟩ := proper
          have released := law.release isHeld isChain
          rw [SlabCall.fire] at stepped
          rw [Option.some.inj stepped] at released
          exact released
      | _ => cases stepped
  | write slab value =>
      cases here with
      | idle =>
          cases stepped
          exact law.wrote (.inr proper) trivial
      | _ => cases stepped

/-- The law holds when all slabs are on the freelist and no call is in progress. -/
theorem initial {constructed : BlockPool} {memory : Memory}
    (idle : ∀ call ∈ pool, call = .idle) (sized : 0 < constructed.m_chunk_slabs)
    (untagged : constructed.m_head.tag = 0)
    (segment : Segment memory.next constructed.m_head.ptr
      (constructed.m_chunks.flatMap Chunk.slabs))
    (available : constructed.m_available_slabs = (constructed.m_chunks.flatMap Chunk.slabs).length)
    (total : constructed.m_total_slabs = (constructed.m_chunks.flatMap Chunk.slabs).length)
    (small : constructed.m_total_slabs < 2 ^ 64)
    (inMemory : ∀ chunk ∈ constructed.m_chunks, chunk.InMemory)
    (apart : (constructed.m_chunks.flatMap Chunk.slabs).Nodup) :
    SlabLaw { pool := constructed, memory, live := constructed.m_chunks } pool := by
  have none {Weight : Type} [AddCommMonoid Weight] (weight : SlabCall → Weight)
      (zero : weight .idle = 0) : (pool.map weight).sum = 0 := by
    refine Multiset.sum_eq_zero fun value member => ?_
    obtain ⟨call, isCall, rfl⟩ := Multiset.mem_map.mp member
    rw [idle call isCall, zero]
  constructor
  case owned =>
    refine ⟨_, segment, ?_, ?_⟩
    · rw [none _ rfl, add_zero, add_zero]
      rfl
    · rw [none _ rfl, none _ rfl]
      exact congrArg (· % 2 ^ 64) available
  case available => exact available.trans_lt (total ▸ small)
  case totals =>
    rw [none _ rfl]
    exact congrArg (· % 2 ^ 64) total
  case total => exact small
  case live => rw [none _ rfl, add_zero]
  case inMemory => exact inMemory
  case apart => exact apart
  case sized => exact sized
  case tagged => exact ⟨untagged, Nat.two_pow_pos 64⟩
  case locked =>
    rw [none _ rfl]
    rfl
  case knows =>
    intro call member
    rw [idle call member]
    trivial

/-- The law holds of a pool that was just constructed. -/
theorem of_fresh (fresh : shared.Fresh) (idle : ∀ call ∈ pool, call = .idle) :
    SlabLaw shared pool := by
  obtain ⟨callbacks, initial_slabs, chunk_slabs, allow_growth, answers, memory, valid, room,
    isNew⟩ := fresh
  have sized : 0 < if 0 < chunk_slabs then chunk_slabs else 256 := by
    split
    next some => exact some
    next => decide
  revert isNew
  generalize isMade : BlockPool.construct callbacks initial_slabs chunk_slabs allow_growth answers
    memory = made
  rintro rfl
  have small : (0 : Nat) < 2 ^ 64 := Nat.two_pow_pos 64
  rw [BlockPool.construct.eq_def] at isMade
  dsimp only at isMade
  rw [if_neg (ne_of_eq_of_ne valid Bool.true_eq_false.mp)] at isMade
  split at isMade
  next =>
    subst isMade
    exact initial idle sized rfl .nil rfl rfl small (List.forall_mem_nil _) .nil
  next some =>
    split at isMade
    next =>
      subst isMade
      exact initial idle sized rfl .nil rfl rfl small (List.forall_mem_nil _) .nil
    next raw_mem isMemory =>
      split at isMade
      next =>
        subst isMade
        have inMemory := room raw_mem isMemory
        have isSlabs : [({ base_ptr := raw_mem, slab_count := initial_slabs } : Chunk)].flatMap
            Chunk.slabs = slabsFrom raw_mem initial_slabs := List.flatMap_singleton ..
        refine initial idle sized rfl ?_ ?_ ?_ ?_ ?_ ?_
        · rw [isSlabs]
          exact partitionSlabChain_segment inMemory.fits (Nat.pos_of_ne_zero some)
        · rw [isSlabs, slabsFrom_length]
        · rw [isSlabs, slabsFrom_length]
        · have fits := inMemory.fits
          have positive := inMemory.positive
          simp only [slabSize] at fits positive
          show initial_slabs < 2 ^ 64
          omega
        · rw [List.forall_mem_singleton]
          exact inMemory
        · rw [isSlabs]
          exact (slabsFrom_increasing ..).imp Nat.ne_of_lt
      next =>
        subst isMade
        exact initial idle sized rfl .nil rfl rfl small (List.forall_mem_nil _) .nil

end SlabLaw

theorem slabLaw_of_reachable {threads : Nat} {state : Program.State SlabShared SlabCall threads}
    (reachable : (slabMachine threads).ReachableBy properSlabs state) :
    SlabLaw state.shared state.pool := by
  refine Program.invariant (motive := SlabLaw) ?_ ?_ ?_ reachable
  · exact fun shared pool fresh idle => .of_fresh fresh idle
  · exact fun shared pool action => Empty.elim action
  · exact fun shared here rest choice next moved law proper fired => law.fire proper fired

/-! ## One owner -/

/-- There are fewer slabs than addresses. -/
theorem SlabLaw.slabs_length_lt {shared : SlabShared} {pool : Multiset SlabCall}
    (law : SlabLaw shared pool) : shared.slabs.length < 2 ^ 64 := by
  have inRange : shared.slabs ⊆ List.range' 1 (2 ^ 64 - 1) := by
    intro slab member
    obtain ⟨chunk, isChunk, isSlab⟩ := List.mem_flatMap.mp member
    obtain ⟨positive, -, fits⟩ := law.inMemory chunk (law.mem_live isChunk)
    obtain ⟨index, inChunk, rfl⟩ := mem_slabsFrom.mp isSlab
    have next : (index + 1) * slabSize ≤ chunk.slab_count * slabSize :=
      Nat.mul_le_mul_right _ inChunk
    rw [Nat.add_mul, Nat.one_mul] at next
    have size : 0 < slabSize := by decide
    rw [List.mem_range'_1]
    omega
  have few := (law.distinct.subperm inRange).length_le
  rw [List.length_range'] at few
  omega

/-- A growth that has not put a chunk in the list. -/
def SlabCall.growing : SlabCall → Bool
  | .locking | .waiting | .checking | .allocating | .recording _ | .freeing _ => true
  | .unlocking none => true
  | _ => false

/-- A growth that gets no chunk. -/
structure GrowthFails (shared : SlabShared) (here : SlabCall) : Prop where
  /-- Freelist, chunks, counters and holders are as they were. -/
  kept : ∀ answers next moved, here.growing = true → here.go shared answers = some (next, moved) →
    next.pool = shared.pool ∧ next.memory.next = shared.memory.next ∧ next.held = shared.held
  /-- Without memory it goes on to release the lock. -/
  noMemory : ∀ answers, here = .allocating → answers.memory = none →
    here.go shared answers = some (shared, .unlocking none)
  /-- Without a record it frees the memory. -/
  noRecord : ∀ raw_mem answers, here = .recording raw_mem → answers.record = false →
    here.go shared answers = some (shared, .freeing raw_mem)
  freed : ∀ raw_mem answers, here = .freeing raw_mem →
    shared.chunk raw_mem ∈ shared.live ∧ shared.chunk raw_mem ∉ shared.pool.m_chunks ∧
      (here.go shared answers).map (·.2) = some (.unlocking none)
  /-- It has the lock, which it releases before it returns. -/
  unlocked : ∀ answers, here = .unlocking none → shared.m_growth_lock = true ∧
    here.go shared answers = some ({ shared with m_growth_lock := false }, .idle)

/-- Every slab has one owner. -/
structure OneOwner {threads : Nat} (state : Program.State SlabShared SlabCall threads) : Prop where
  /-- The freelist ends, and it has what neither the holders nor the calls have. -/
  owned : ∃ free : List Nat,
    Segment state.shared.memory.next state.shared.pool.m_head.ptr free ∧ free.Nodup ∧
    ↑free + state.shared.held + (state.pool.map (·.hands state.shared.pool.m_chunk_slabs)).sum =
      ↑state.shared.slabs
  /-- The chunks have no slab in common. -/
  distinct : state.shared.slabs.Nodup
  failed : ∀ index, GrowthFails state.shared (state.here index)
  /-- Outside of all calls, the counters are right. -/
  quiet : (∀ index, state.here index = .idle) → ∀ free,
    Segment state.shared.memory.next state.shared.pool.m_head.ptr free →
      state.shared.pool.m_available_slabs = free.length ∧
      state.shared.pool.m_total_slabs = (state.shared.pool.m_chunks.map (·.slab_count)).sum ∧
      state.shared.m_growth_lock = false

/-- The steps of a growth before it has put a chunk in the list. -/
theorem SlabLaw.growthFails {shared : SlabShared} {here : SlabCall} {rest : Multiset SlabCall}
    (law : SlabLaw shared (here ::ₘ rest)) : GrowthFails shared here where
  kept := by
    intro answers next moved isGrowing stepped
    cases here with
    | locking | waiting | checking | allocating | recording =>
        rw [SlabCall.go] at stepped
        split at stepped
        next =>
          cases stepped
          exact ⟨rfl, rfl, rfl⟩
        next =>
          cases stepped
          exact ⟨rfl, rfl, rfl⟩
    | freeing =>
        cases stepped
        exact ⟨rfl, rfl, rfl⟩
    | unlocking acquired =>
        cases acquired with
        | none =>
            cases stepped
            exact ⟨rfl, rfl, rfl⟩
        | some acquired => cases isGrowing
    | _ => cases isGrowing
  noMemory := by
    rintro answers rfl noMemory
    rw [SlabCall.go, noMemory]
  noRecord := by
    rintro raw_mem answers rfl noRecord
    rw [SlabCall.go, noRecord]
    rfl
  freed := by
    rintro raw_mem answers rfl
    obtain ⟨isLive, notLinked⟩ := law.unlinked_live rfl
    exact ⟨isLive, notLinked, rfl⟩
  unlocked := by
    rintro answers rfl
    exact ⟨law.lock_of_locks rfl, rfl⟩

/-- In every interleaving each slab has one owner. -/
theorem slab_has_one_owner {threads : Nat} {state : Program.State SlabShared SlabCall threads}
    (reachable : (slabMachine threads).ReachableBy properSlabs state) : OneOwner state := by
  have law := slabLaw_of_reachable reachable
  obtain ⟨free, segment, owned, available⟩ := law.owned
  refine
    { owned := ⟨free, segment, ?_, owned⟩
      distinct := law.distinct
      failed := fun index => ?_
      quiet := fun quiet other isFree => ?_ }
  · have distinct : (↑state.shared.slabs : Multiset Nat).Nodup :=
      Multiset.coe_nodup.mpr law.distinct
    rw [← owned, add_assoc] at distinct
    exact Multiset.coe_nodup.mp (Multiset.nodup_of_le (Multiset.le_add_right _ _) distinct)
  · obtain ⟨rest, isPool, -⟩ := state.exists_rest index
    rw [isPool] at law
    exact law.growthFails
  · obtain rfl := segment.unique isFree
    have idle (weight : SlabCall → Nat) (zero : weight .idle = 0) :
        (state.pool.map weight).sum = 0 :=
      Program.sum_idle (Program.State.idle_of_quiet quiet) zero
    have total := law.totals
    have locked := law.locked
    rw [idle _ rfl] at total locked
    rw [idle _ rfl, idle _ rfl] at available
    have fewFree : free.length ≤ state.shared.slabs.length := by
      have sizes := congrArg Multiset.card owned
      rw [Multiset.card_add, Multiset.card_add, Multiset.coe_card, Multiset.coe_card] at sizes
      omega
    have fewSlabs := law.slabs_length_lt
    have isAvailable := Nat.ModEq.eq_of_lt_of_lt available law.available
      (fewFree.trans_lt fewSlabs)
    have isTotal := Nat.ModEq.eq_of_lt_of_lt total law.total fewSlabs
    refine ⟨isAvailable, isTotal.trans ?_, ?_⟩
    · rw [SlabShared.slabs, List.length_flatMap]
      simp only [Chunk.slabs, slabsFrom_length]
    · split at locked
      next => cases locked
      next free => exact Bool.eq_false_iff.mpr free

/-- An empty pool that grows by two slabs. -/
def emptyPool : SlabShared where
  pool := { m_chunk_slabs := 2, m_callbacks := { alloc := some 1, free := some 2 } }
  memory := { next := fun _ => none }

/-- Two threads: the first one grows the pool and keeps a slab, and the second one takes the other
and writes to it before the first one has unlocked the pool. -/
theorem slab_has_one_owner_two :
    ∃ state : Program.State SlabShared SlabCall 2,
      (state.shared.held = {2 ^ 20, 2 ^ 20 + slabSize} ∧ ∀ index, state.here index = .idle) ∧
        OneOwner state := by
  have fresh : (slabMachine 2).ReachableBy properSlabs
      { shared := emptyPool, here := fun _ => .idle } := by
    refine .start ⟨⟨{ alloc := some 1, free := some 2 }, 0, 2, true, {}, { next := fun _ => none },
      rfl, ?_, rfl⟩, fun _ => rfl⟩
    rintro _ ⟨⟩
  obtain ⟨state, reachable, happened⟩ : ∃ state, (slabMachine 2).ReachableBy properSlabs state ∧
      state.shared.held = {2 ^ 20, 2 ^ 20 + slabSize} ∧ ∀ index, state.here index = .idle :=
    fresh.exists_of_run
      ([.thread 0 .acquireSlab] ++ List.replicate 3 (.thread 0 (.go {})) ++
        [.thread 0 (.go { memory := some (2 ^ 20) })] ++ List.replicate 10 (.thread 0 (.go {})) ++
        [.thread 1 .acquireSlab] ++ List.replicate 5 (.thread 1 (.go {})) ++
        [.thread 1 (.write (2 ^ 20 + slabSize) (some 5)), .thread 0 (.go {}), .thread 0 (.go {})])
      (by decide +kernel)
  exact ⟨state, happened, slab_has_one_owner reachable⟩

end LightFlow
