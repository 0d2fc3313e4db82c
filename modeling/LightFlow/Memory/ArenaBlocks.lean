import LightFlow.Memory.ArenaRequests
import LightFlow.Memory.MemorySystem
import LightFlow.Memory.SlabSupply

/-!
# Blocks of arenas

The blocks that arenas have returned since they were reset, in runs of any number of arenas over
any number of pools.  Slabs go from a pool to an arena and back, new slabs and oversized blocks
come from the callbacks, and an arena gives its own to another one when it is moved.
-/

namespace LightFlow

/-- A block that an arena has returned. -/
structure Grant where
  area : Area
  alignment : Nat
  deriving DecidableEq, Repr

def OversizedBlock.area (block : OversizedBlock) : Area := ⟨block.raw_ptr, block.total_bytes⟩

namespace MemorySystem

/-- The memory that the callbacks have lent to pools and arenas. -/
def regions (system : MemorySystem) : List Area :=
  (system.pools.filterMap id).flatMap (fun live => live.pool.m_chunks.map Chunk.area) ++
    (system.arenas.filterMap id).flatMap fun arena => arena.m_oversized.map OversizedBlock.area

/-- What a request of an arena meets. -/
def around (system : MemorySystem) (arena : SlabArena) (answers : MemoryAnswers) :
    Surroundings where
  pool := (system.behind arena).map (·.pool)
  answers := answers
  memory := system.memory

/-- `alloc` returns memory of the size and alignment it is asked for, of which nothing is lent, or
null. -/
def Fresh (system : MemorySystem) (bytes alignment : Nat) (answers : MemoryAnswers) : Prop :=
  ∀ raw_mem ∈ answers.memory, 0 < raw_mem ∧ alignment ∣ raw_mem ∧ raw_mem + bytes ≤ 2 ^ 64 ∧
    ∀ region ∈ system.regions, (Area.mk raw_mem bytes).Apart region

/-- A request for a power of two, whose sums do not wrap, and the promise of `alloc` for the slabs
or the oversized block that it may need. -/
def Request (system : MemorySystem) (arena bytes alignment : Nat) (answers : MemoryAnswers) :
    Prop :=
  ∀ value ∈ system.liveArena arena,
    bytes < 2 ^ 64 ∧ (∃ exponent < 64, alignment = 2 ^ exponent) ∧
      value.SumsFit (system.around value answers) bytes (raisedAlignment alignment) ∧
      if isSlabRequest bytes (raisedAlignment alignment) then
        ∀ live ∈ system.behind value,
          system.Fresh (live.pool.m_chunk_slabs * slabSize) slabSize answers
      else
        system.Fresh (bytes + oversizedHeader + raisedAlignment alignment)
          (max cachelineSize (raisedAlignment alignment)) answers

end MemorySystem

/-- Arenas are used over pools that stay where they are. -/
def MemoryCall.Allowed (system : MemorySystem) : MemoryCall → Prop
  | .constructPool _ initial_slabs _ _ answers =>
      system.Fresh (initial_slabs * slabSize) slabSize answers
  | .allocate arena bytes alignment answers => system.Request arena bytes alignment answers
  | .allocateSpan arena size alignment count answers =>
      size * count < 2 ^ 64 ∧ system.Request arena (size * count) alignment answers
  | .constructArena _ | .reset _ | .moveArena _ | .assignArena _ _ | .destroyArena _ => True
  | .fromBuffer _ _ _ | .movePool _ | .destroyPool _ | .acquireSlab _ _
  | .releaseSlabChain _ _ _ _ => False

section Decidable

variable (system : MemorySystem)

instance (bytes alignment : Nat) : DecidablePred (system.Fresh bytes alignment) :=
  fun _ => inferInstanceAs (Decidable (∀ _ ∈ _, _ ∧ _ ∧ _ ∧ ∀ _ ∈ _, _))

instance (arena bytes alignment : Nat) : DecidablePred (system.Request arena bytes alignment) :=
  fun _ => inferInstanceAs (Decidable (∀ _ ∈ _, _ ∧ (∃ _ < 64, _) ∧ _ ∧ _))

instance : DecidablePred (MemoryCall.Allowed system)
  | .constructPool _ _ _ _ _ => inferInstanceAs (Decidable (system.Fresh _ _ _))
  | .allocate _ _ _ _ => inferInstanceAs (Decidable (system.Request _ _ _ _))
  | .allocateSpan _ _ _ _ _ => inferInstanceAs (Decidable (_ ∧ _))
  | .constructArena _ | .reset _ | .moveArena _ | .assignArena _ _ | .destroyArena _ =>
      inferInstanceAs (Decidable True)
  | .fromBuffer _ _ _ | .movePool _ | .destroyPool _ | .acquireSlab _ _
  | .releaseSlabChain _ _ _ _ => inferInstanceAs (Decidable False)

end Decidable

/-- Pools and arenas, with the blocks that each arena has returned since it was reset. -/
structure GrantedMemory where
  system : MemorySystem
  /-- By the address of the arena, newest block first. -/
  grants : Nat → List Grant := fun _ => []

namespace GrantedMemory

/-- An arena has returned a block, or null. -/
def grant (state : GrantedMemory) (arena result bytes alignment : Nat) : Nat → List Grant :=
  if result = 0 then state.grants
  else Function.update state.grants arena (⟨⟨result, bytes⟩, alignment⟩ :: state.grants arena)

/-- The blocks of an arena go to another address. -/
def handOn (state : GrantedMemory) (arena other : Nat) : Nat → List Grant :=
  Function.update (Function.update state.grants arena (state.grants other)) other []

/-- The blocks after a call. -/
def granted (state : GrantedMemory) : MemoryCall → Nat → List Grant
  | .allocate arena bytes alignment answers =>
      match state.system.liveArena arena with
      | none => state.grants
      | some value =>
          let around := state.system.around value answers
          state.grant arena (value.allocateIn around bytes alignment).result bytes alignment
  | .allocateSpan arena size alignment count answers =>
      match state.system.liveArena arena with
      | none => state.grants
      | some value =>
          let around := state.system.around value answers
          state.grant arena (value.allocateSpanIn around size alignment count).result
            (size * count) alignment
  | .reset arena | .destroyArena arena => Function.update state.grants arena []
  | .moveArena other => state.handOn state.system.arenas.length other
  | .assignArena arena other => if arena = other then state.grants else state.handOn arena other
  | _ => state.grants

def perform (state : GrantedMemory) (call : MemoryCall) : Option GrantedMemory :=
  (state.system.perform call).map fun system => { system, grants := state.granted call }

end GrantedMemory

/-- The runs of `memorySystem`, with the blocks that are returned. -/
def grantedMemory : Machine GrantedMemory MemoryCall where
  initial := fun state => ∃ next, state = { system := { next } }
  step := GrantedMemory.perform

abbrev fairMemory (state : GrantedMemory) (call : MemoryCall) : Prop := call.Allowed state.system
/-! ## Who owns which area -/

/-- Who may own an area. -/
inductive Holder where
  | pool (address : Nat)
  | arena (address : Nat)
  deriving DecidableEq, Repr

namespace MemorySystem

variable (system : MemorySystem)

/-- The holder is not destroyed. -/
def Lives : Holder → Prop
  | .pool address => (system.livePool address).isSome
  | .arena address => (system.liveArena address).isSome

/-- The slab is one of a chunk of a pool. -/
def Carves (slab : Nat) : Prop :=
  ∃ address live chunk, system.livePool address = some live ∧ chunk ∈ live.pool.m_chunks ∧
    chunk.InMemory ∧ slab ∈ chunk.slabs

end MemorySystem

/-- The area lies in the payload of a slab of the arena, in front of the bump pointer, or behind the
header of an oversized block. -/
def SlabArena.Gives (arena : SlabArena) (slabs : List Nat) (area : Area) : Prop :=
  (∃ slab ∈ slabs, slab + headerSize ≤ area.start ∧ area.stop ≤ slab + slabSize ∧
      (arena.m_current_slab = some slab → area.stop ≤ slab + arena.taken slab)) ∨
    ∃ block ∈ arena.m_oversized, block.raw_ptr + oversizedHeader ≤ area.start ∧
      area.stop ≤ block.area.stop

/-- The freelist of a pool. -/
structure PoolLaw (system : MemorySystem) (owner : Area → Option Holder) (address : Nat)
    (pool : BlockPool) (slabs : List Nat) : Prop where
  free : Segment system.next pool.m_head.ptr slabs
  carved : ∀ slab ∈ slabs, system.Carves slab
  owns : ∀ area, owner area = some (.pool address) ↔ ∃ slab ∈ slabs, slabArea slab = area
  sized : 0 < pool.m_chunk_slabs

/-- The slabs, the oversized blocks and the returned blocks of an arena. -/
structure ArenaLaw (system : MemorySystem) (owner : Area → Option Holder) (address : Nat)
    (arena : SlabArena) (grants : List Grant) (slabs : List Nat) : Prop where
  chain : IsSlabChain system.next arena.m_head_slab arena.m_tail_slab arena.m_slab_count slabs
  distinct : slabs.Nodup
  carved : ∀ slab ∈ slabs, system.Carves slab
  owns : ∀ area, owner area = some (.arena address) ↔
    (∃ slab ∈ slabs, slabArea slab = area) ∨ ∃ block ∈ arena.m_oversized, block.area = area
  placed : arena.Placed
  /-- No slab is an oversized block. -/
  separate : ∀ slab ∈ slabs, ∀ block ∈ arena.m_oversized, slabArea slab ≠ block.area
  current : arena.m_current_slab = arena.m_head_slab
  referred : ∀ pool, arena.m_pool = some pool → ∃ live, system.livePool pool = some live
  gives : ∀ grant ∈ grants, arena.Gives slabs grant.area
  apart : grants.Pairwise fun one other => one.area.Apart other.area
  aligned : ∀ grant ∈ grants, grant.alignment ∣ grant.area.start

/-- The areas of slabs and oversized blocks are those of their pools and arenas. -/
structure MemoryLaw (state : GrantedMemory) (owner : Area → Option Holder) : Prop where
  apart : OwnedApart owner
  pools : ∀ address live, state.system.livePool address = some live →
    ∃ slabs, PoolLaw state.system owner address live.pool slabs
  arenas : ∀ address arena, state.system.liveArena address = some arena →
    ∃ slabs, ArenaLaw state.system owner address arena (state.grants address) slabs
  lives : ∀ area holder, owner area = some holder → state.system.Lives holder
  ended : ∀ address, state.system.liveArena address = none → state.grants address = []

/-! ## Addresses of slabs -/

theorem slabArea_injective {slab other : Nat} (same : slabArea slab = slabArea other) :
    slab = other := congrArg Area.start same

/-- Slabs of chunks are aligned, and lie in their chunk. -/
theorem Chunk.InMemory.slab {chunk : Chunk} (inMemory : chunk.InMemory) {slab : Nat}
    (member : slab ∈ chunk.slabs) :
    slab % slabSize = 0 ∧ IsSlab slab ∧ (slabArea slab).Within chunk.area := by
  obtain ⟨positive, aligned, fits⟩ := inMemory
  obtain ⟨index, inRange, rfl⟩ := mem_slabsFrom.mp member
  have next : (index + 1) * slabSize ≤ chunk.slab_count * slabSize :=
    Nat.mul_le_mul_right _ inRange
  rw [Nat.add_mul, Nat.one_mul] at next
  have multiple : (chunk.base_ptr + index * slabSize) % slabSize = 0 := by
    rw [Nat.add_mul_mod_self_right]
    exact aligned
  refine ⟨multiple, ⟨?_, by omega, by omega⟩, ?_, ?_⟩
  · exact Nat.dvd_trans (by decide : cachelineSize ∣ slabSize) (Nat.dvd_of_mod_eq_zero multiple)
  · exact Nat.le_add_right _ _
  · show chunk.base_ptr + index * slabSize + slabSize ≤ chunk.base_ptr + chunk.slab_count * slabSize
    omega

/-- Different slabs are apart. -/
theorem slabArea_apart {slab other : Nat} (aligned : slab % slabSize = 0)
    (isAligned : other % slabSize = 0) (different : slab ≠ other) :
    (slabArea slab).Apart (slabArea other) := by
  show slab + slabSize ≤ other ∨ other + slabSize ≤ slab
  rw [slabSize] at *
  omega

theorem slabSize_pos : 0 < slabSize := by decide

section Addresses

variable {α : Type} {items : List (Option α)} {index : Nat} {value : α}

/-- What is at the addresses after one of them was written. -/
theorem join_getElem?_set (found : (items[index]?).join = some value) (written : Option α)
    (other : Nat) : ((items.set index written)[other]?).join =
      if other = index then written else (items[other]?).join := by
  by_cases same : other = index
  · subst same
    have inside : other < items.length := by
      by_contra outside
      rw [List.getElem?_eq_none (Nat.le_of_not_lt outside)] at found
      cases found
    rw [if_pos rfl, List.getElem?_set_self inside]
    rfl
  · rw [if_neg same, List.getElem?_set_ne (Ne.symm same)]

/-- What is at the addresses after a new one was added. -/
theorem join_getElem?_append (items : List (Option α)) (added : Option α) (other : Nat) :
    ((items ++ [added])[other]?).join =
      if other = items.length then added else (items[other]?).join := by
  rcases Nat.lt_trichotomy other items.length with before | rfl | behind
  · rw [if_neg before.ne, List.getElem?_append_left before]
  · rw [if_pos rfl, List.getElem?_append_right le_rfl, Nat.sub_self]
    rfl
  · rw [if_neg behind.ne', List.getElem?_eq_none (by simp; omega),
      List.getElem?_eq_none behind.le]

end Addresses

/-! ## What a call leaves alone -/

theorem MemorySystem.Carves.mono {system next : MemorySystem} {slab : Nat}
    (carves : system.Carves slab)
    (chunks : ∀ address live, system.livePool address = some live →
      ∃ other, next.livePool address = some other ∧ live.pool.m_chunks ⊆ other.pool.m_chunks) :
    next.Carves slab := by
  obtain ⟨address, live, chunk, found, isChunk, inMemory, member⟩ := carves
  obtain ⟨other, isOther, kept⟩ := chunks address live found
  exact ⟨address, other, chunk, isOther, kept isChunk, inMemory, member⟩

namespace MemoryLaw

variable {state next : GrantedMemory} {owner owned : Area → Option Holder}

/-- A call that touches some pools and arenas. -/
theorem frame (law : MemoryLaw state owner) (touched : Holder → Prop) (apart : OwnedApart owned)
    (owners : ∀ holder, ¬ touched holder → ∀ area,
      owned area = some holder ↔ owner area = some holder)
    (pointers : ∀ holder slab, ¬ touched holder → owner (slabArea slab) = some holder →
      next.system.next slab = state.system.next slab)
    (chunks : ∀ address live, state.system.livePool address = some live →
      ∃ other, next.system.livePool address = some other ∧
        live.pool.m_chunks ⊆ other.pool.m_chunks)
    (pools : ∀ address live, next.system.livePool address = some live →
      ¬ touched (.pool address) ∧ state.system.livePool address = some live ∨
        ∃ slabs, PoolLaw next.system owned address live.pool slabs)
    (arenas : ∀ address arena, next.system.liveArena address = some arena →
      (¬ touched (.arena address) ∧ state.system.liveArena address = some arena ∧
          next.grants address = state.grants address) ∨
        ∃ slabs, ArenaLaw next.system owned address arena (next.grants address) slabs)
    (lives : ∀ area holder, owned area = some holder → next.system.Lives holder)
    (ended : ∀ address, next.system.liveArena address = none → next.grants address = []) :
    MemoryLaw next owned where
  apart := apart
  pools := by
    intro address live found
    rcases pools address live found with ⟨alone, before⟩ | isLaw
    · obtain ⟨slabs, isLaw⟩ := law.pools address live before
      have owns := owners _ alone
      refine ⟨slabs, ⟨isLaw.free.congr fun slab member => ?_, ?_, ?_, isLaw.sized⟩⟩
      · exact pointers _ slab alone ((isLaw.owns _).mpr ⟨slab, member, rfl⟩)
      · exact fun slab member => (isLaw.carved slab member).mono chunks
      · exact fun area => (owns area).trans (isLaw.owns area)
    · exact isLaw
  arenas := by
    intro address arena found
    rcases arenas address arena found with ⟨alone, before, same⟩ | isLaw
    · obtain ⟨slabs, isLaw⟩ := law.arenas address arena before
      have owns := owners _ alone
      refine ⟨slabs,
        { isLaw with
          chain := ?_
          carved := ?_
          owns := ?_
          referred := ?_
          gives := ?_
          apart := ?_
          aligned := ?_ }⟩
      · refine isLaw.chain.congr (fun slab member _ => ?_) isLaw.distinct
        exact pointers _ slab alone ((isLaw.owns _).mpr (.inl ⟨slab, member, rfl⟩))
      · exact fun slab member => (isLaw.carved slab member).mono chunks
      · exact fun area => (owns area).trans (isLaw.owns area)
      · intro pool isPool
        obtain ⟨live, isLive⟩ := isLaw.referred pool isPool
        obtain ⟨other, isOther, -⟩ := chunks pool live isLive
        exact ⟨other, isOther⟩
      all_goals rw [same]
      exacts [isLaw.gives, isLaw.apart, isLaw.aligned]
    · exact isLaw
  lives := lives
  ended := ended

/-- A call that touches one arena alone. -/
theorem arenaOnly (law : MemoryLaw state owner) {address : Nat} {arena : SlabArena}
    (pointers : next.system.next = state.system.next)
    (pools : ∀ other, next.system.livePool other = state.system.livePool other)
    (arenas : ∀ other, next.system.liveArena other =
      if other = address then some arena else state.system.liveArena other)
    (grants : ∀ other, other ≠ address → next.grants other = state.grants other)
    (apart : OwnedApart owned)
    (owners : ∀ holder, holder ≠ .arena address → ∀ area,
      owned area = some holder ↔ owner area = some holder)
    {slabs : List Nat}
    (isLaw : ArenaLaw next.system owned address arena (next.grants address) slabs) :
    MemoryLaw next owned := by
  refine law.frame (· = .arena address) apart owners ?_ ?_ ?_ ?_ ?_ ?_
  · exact fun _ _ _ _ => by rw [pointers]
  · exact fun other live found => ⟨live, (pools other).trans found, List.Subset.refl _⟩
  · exact fun other live found => .inl ⟨Holder.noConfusion, (pools other).symm.trans found⟩
  · intro other value found
    rw [arenas] at found
    split at found
    next same =>
      cases found
      subst same
      exact .inr ⟨slabs, isLaw⟩
    next different =>
      exact .inl ⟨fun same => different (Holder.arena.inj same), found, grants other different⟩
  · intro area holder isOwner
    by_cases same : holder = .arena address
    · rw [same, MemorySystem.Lives, arenas, if_pos rfl]
      rfl
    · have lives := law.lives area holder ((owners holder same area).mp isOwner)
      cases holder with
      | pool other => rwa [MemorySystem.Lives, pools]
      | arena other =>
          rw [MemorySystem.Lives, arenas]
          split
          next => rfl
          next => exact lives
  · intro other gone
    rw [arenas] at gone
    split at gone
    next => cases gone
    next different =>
      rw [grants other different]
      exact law.ended other gone

/-- What is owned is lent. -/
theorem lent (law : MemoryLaw state owner) {area : Area} (isOwned : (owner area).isSome) :
    ∃ region ∈ state.system.regions, area.Within region := by
  obtain ⟨holder, isOwner⟩ := Option.isSome_iff_exists.mp isOwned
  have lives := law.lives area holder isOwner
  have ofSlab {slab : Nat} (carves : state.system.Carves slab) :
      ∃ region ∈ state.system.regions, (slabArea slab).Within region := by
    obtain ⟨address, live, chunk, found, isChunk, inMemory, member⟩ := carves
    refine ⟨chunk.area, List.mem_append_left _ ?_, (inMemory.slab member).2.2⟩
    refine List.mem_flatMap.mpr ⟨live, ?_, List.mem_map_of_mem isChunk⟩
    exact List.mem_filterMap.mpr
      ⟨some live, List.mem_of_getElem? (Option.join_eq_some_iff.mp found), rfl⟩
  cases holder with
  | pool address =>
      obtain ⟨live, found⟩ := Option.isSome_iff_exists.mp lives
      obtain ⟨slabs, isLaw⟩ := law.pools address live found
      obtain ⟨slab, member, rfl⟩ := (isLaw.owns area).mp isOwner
      exact ofSlab (isLaw.carved slab member)
  | arena address =>
      obtain ⟨arena, found⟩ := Option.isSome_iff_exists.mp lives
      obtain ⟨slabs, isLaw⟩ := law.arenas address arena found
      rcases (isLaw.owns area).mp isOwner with ⟨slab, member, rfl⟩ | ⟨block, isBlock, rfl⟩
      · exact ofSlab (isLaw.carved slab member)
      · refine ⟨block.area, List.mem_append_right _ ?_, .refl _⟩
        refine List.mem_flatMap.mpr ⟨arena, ?_, List.mem_map_of_mem isBlock⟩
        exact List.mem_filterMap.mpr
          ⟨some arena, List.mem_of_getElem? (Option.join_eq_some_iff.mp found), rfl⟩

/-- What `alloc` returns is apart from all that is owned. -/
theorem fresh_apart (law : MemoryLaw state owner) {bytes alignment raw_mem : Nat}
    {answers : MemoryAnswers} (fresh : state.system.Fresh bytes alignment answers)
    (answered : answers.memory = some raw_mem) {inner other : Area}
    (within : inner.Within ⟨raw_mem, bytes⟩) (isOwned : (owner other).isSome) :
    inner.Apart other := by
  obtain ⟨region, isRegion, inRegion⟩ := law.lent isOwned
  exact ((fresh raw_mem answered).2.2.2 region isRegion).within within inRegion

end MemoryLaw

namespace MemorySystem

variable {system : MemorySystem} {address : Nat} {arena : SlabArena} {after : Memory}

theorem liveArena_setArena (found : system.liveArena address = some arena)
    (pool : Option BlockPool) (next : Option SlabArena) (other : Nat) :
    (system.setArena address arena after pool next).liveArena other =
      if other = address then next else system.liveArena other :=
  join_getElem?_set found next other

/-- An arena without a pool. -/
theorem livePool_setArena_of_none (none : arena.m_pool = none) (pool : Option BlockPool)
    (next : Option SlabArena) (other : Nat) :
    (system.setArena address arena after pool next).livePool other = system.livePool other := by
  simp only [livePool, setArena, none]

/-- An arena with a pool. -/
theorem livePool_setArena {pool : Nat} {live : LivePool} (isPool : arena.m_pool = some pool)
    (found : system.livePool pool = some live) (value : BlockPool) (next : Option SlabArena)
    (other : Nat) : (system.setArena address arena after (some value) next).livePool other =
      if other = pool then some { live with pool := value } else system.livePool other := by
  have behind : system.behind arena = some live := by
    rw [MemorySystem.behind, isPool]
    exact found
  simp only [livePool, setArena, isPool, behind]
  exact join_getElem?_set found _ other

/-- The pool may stay as it is. -/
theorem livePool_setArena_same
    (referred : ∀ pool, arena.m_pool = some pool → ∃ live, system.livePool pool = some live)
    (next : Option SlabArena) (other : Nat) :
    (system.setArena address arena after ((system.behind arena).map (·.pool)) next).livePool
      other = system.livePool other := by
  cases isPool : arena.m_pool with
  | none => exact livePool_setArena_of_none isPool _ _ _
  | some pool =>
      obtain ⟨live, found⟩ := referred pool isPool
      have behind : system.behind arena = some live := by
        rw [MemorySystem.behind, isPool]
        exact found
      rw [behind, Option.map_some, livePool_setArena isPool found]
      split
      next same => rw [same, found]
      next => rfl

end MemorySystem

end LightFlow
