import LightFlow.Memory.ArenaBlocks

/-!
# A block is returned

Each way through `allocate` keeps the areas of slabs and oversized blocks apart, and the blocks
within them: the block comes behind those of the current slab, or from a slab or an oversized block
that nobody else has.
-/

namespace LightFlow

/-! ## What `allocate` does -/

namespace SlabArena

/-- The ways through `allocate`, after the alignment was raised. -/
inductive AllocateWay (arena : SlabArena) (around : Surroundings) (bytes alignment : Nat) :
    ArenaReturn → Prop where
  | refused {after : Memory} : after.next = around.memory.next →
      AllocateWay arena around bytes alignment ⟨after, around.pool, arena, 0⟩
  | current : 0 < bytes → arena.fitsCurrent bytes alignment = true →
      AllocateWay arena around bytes alignment
        { memory := around.memory
          pool := around.pool
          arena :=
            { arena with
              m_bump_ptr := u64 (alignUp arena.m_bump_ptr alignment + bytes)
              m_allocated_bytes := u64 (arena.m_allocated_bytes + bytes) }
          result := alignUp arena.m_bump_ptr alignment }
  | acquired {pool next : BlockPool} {after : Memory} {slab : Nat} : 0 < bytes →
      isSlabRequest bytes alignment = true → around.pool = some pool →
      pool.acquireSlab around.answers around.memory = (after, next, some slab) →
      AllocateWay arena around bytes alignment
        { memory := after.link slab arena.m_head_slab
          pool := some next
          arena :=
            { arena with
              m_head_slab := some slab
              m_tail_slab := some (arena.m_tail_slab.getD slab)
              m_current_slab := some slab
              m_bump_ptr := u64 (alignUp (u64 (slab + headerSize)) alignment + bytes)
              m_bump_end := u64 (slab + slabSize)
              m_slab_count := u64 (arena.m_slab_count + 1)
              m_allocated_bytes := u64 (arena.m_allocated_bytes + bytes) }
          result := alignUp (u64 (slab + headerSize)) alignment }
  | oversized {after : Memory} {raw_mem alloc_align : Nat} : 0 < bytes →
      arena.fitsCurrent bytes alignment = false → isSlabRequest bytes alignment = false →
      around.oversized = some raw_mem → after.next = around.memory.next →
      AllocateWay arena around bytes alignment
        { memory := after
          pool := around.pool
          arena :=
            { arena with
              m_oversized := ⟨raw_mem, oversizedBytes bytes alignment, alloc_align⟩ ::
                arena.m_oversized
              m_allocated_bytes := u64 (arena.m_allocated_bytes + bytes) }
          result := alignUp (u64 (raw_mem + oversizedHeader)) alignment }

/-- A pool that returns null stays as it is. -/
theorem acquireSlab_none {pool next : BlockPool} {answers : MemoryAnswers} {memory after : Memory}
    (answered : pool.acquireSlab answers memory = (after, next, none)) :
    next = pool ∧ after.next = memory.next := by
  rw [BlockPool.acquireSlab] at answered
  split at answered
  next => cases answered
  next =>
    split at answered
    next =>
      rw [BlockPool.allocateChunkAndAcquire] at answered
      split at answered
      next =>
        cases answered
        exact ⟨rfl, rfl⟩
      next =>
        simp only at answered
        split at answered
        next =>
          cases answered
          exact ⟨rfl, rfl⟩
        next =>
          split at answered
          next => split at answered <;> cases answered
          next =>
            cases answered
            exact ⟨rfl, rfl⟩
    next =>
      cases answered
      exact ⟨rfl, rfl⟩

theorem allocateIn_way (arena : SlabArena) (around : Surroundings) (bytes alignment : Nat) :
    arena.AllocateWay around bytes (raisedAlignment alignment)
      (arena.allocateIn around bytes alignment) := by
  rw [allocateIn, allocate]
  split
  next => exact .refused rfl
  next notEmpty =>
    have some := Nat.pos_of_ne_zero notEmpty
    simp only
    split
    next fits => exact .current some fits
    next misfit =>
      rw [allocateSlow]
      split
      next small =>
        rw [allocateSlab.eq_def]
        cases inPool : around.pool with
        | none =>
            have way : arena.AllocateWay around bytes (raisedAlignment alignment)
                ⟨around.memory, around.pool, arena, 0⟩ := .refused rfl
            rwa [inPool] at way
        | some pool =>
            simp only
            generalize answered : pool.acquireSlab around.answers around.memory = answer
            obtain ⟨after, next, slab⟩ := answer
            cases slab with
            | none =>
                obtain ⟨rfl, same⟩ := acquireSlab_none answered
                have way : arena.AllocateWay around bytes (raisedAlignment alignment)
                    ⟨after, around.pool, arena, 0⟩ := .refused same
                rwa [inPool] at way
            | some slab => exact .acquired some small inPool answered
      next large =>
        rw [allocateOversized]
        simp only
        split
        next => exact .refused rfl
        next raw_mem answered =>
          exact .oversized some (Bool.eq_false_of_not_eq_true misfit)
            (Bool.eq_false_of_not_eq_true large) answered rfl

section Positions

variable {arena : SlabArena} {bytes exponent : Nat}

/-- The block in the current slab lies behind those that were returned before. -/
theorem Placed.onward (placed : arena.Placed) (some : 0 < bytes) (isSize : bytes < 2 ^ 64)
    (few : exponent < 64) (fits : arena.fitsCurrent bytes (2 ^ exponent) = true)
    (unwrapped : arena.m_bump_ptr + (2 ^ exponent - 1) < 2 ^ 64 ∧
      (arena.m_bump_end = 0 ∨ alignUp arena.m_bump_ptr (2 ^ exponent) + bytes < 2 ^ 64)) :
    ∃ slab, arena.m_current_slab = Option.some slab ∧
      ∀ next : SlabArena, next = { arena with
        m_bump_ptr := u64 (alignUp arena.m_bump_ptr (2 ^ exponent) + bytes)
        m_allocated_bytes := u64 (arena.m_allocated_bytes + bytes) } →
      next.Placed ∧ slab + arena.taken slab ≤ alignUp arena.m_bump_ptr (2 ^ exponent) ∧
        alignUp arena.m_bump_ptr (2 ^ exponent) + bytes ≤ slab + next.taken slab ∧
        next.taken slab ≤ slabSize := by
  obtain ⟨slab, current⟩ : ∃ slab, arena.m_current_slab = Option.some slab :=
    Option.isSome_iff_exists.mp (by simp_all [fitsCurrent])
  refine ⟨slab, current, ?_⟩
  rintro next rfl
  have served := (@served_current arena ⟨none, {}, { next := fun _ => none }⟩ bytes exponent placed
    some isSize few fits ⟨{ next := fun _ => none }, none, _, _⟩ rfl rfl).mpr unwrapped
  cases served with
  | refused _ same =>
      exact absurd (congrArg SlabArena.m_allocated_bytes same)
        (allocated_ne some isSize)
  | @current other isOther heldNext _ above below room =>
      obtain rfl := Option.some.inj (isOther.symm.trans current)
      refine ⟨?_, above, below, room⟩
      refine .of_current (placed.isSlab other current) current (placed.ending other current)
        ⟨?_, room⟩ (placed.chained (by rw [current]; rfl)) (u64_lt _) placed.count (u64_lt _)
      have behind := (placed.payload other current).1
      simp only at above below
      omega
  | acquired none => cases none
  | oversized none => cases none

/-- The block of a slab just acquired begins behind the header. -/
theorem acquired_position {slab : Nat} (isSlab : IsSlab slab)
    (small : isSlabRequest bytes (2 ^ exponent) = true) :
    alignUp (u64 (slab + headerSize)) (2 ^ exponent) = slab + headerSize ∧
      headerSize + bytes ≤ slabSize := by
  obtain ⟨aligned, -, inSpace⟩ := isSlab
  simp only [isSlabRequest, Bool.and_eq_true, decide_eq_true_eq] at small
  obtain ⟨room, few⟩ := small
  have fewBits : exponent ≤ 6 := by
    by_contra many
    have := Nat.pow_lt_pow_right (show 1 < 2 by decide) (show 6 < exponent by omega)
    simp only [cachelineSize] at few
    omega
  have payload : slab + headerSize < 2 ^ 64 := by
    simp only [headerSize, cachelineSize, slabSize] at *
    omega
  have divides : 2 ^ exponent ∣ slab + headerSize :=
    (Nat.pow_dvd_pow 2 fewBits).trans ((Nat.dvd_add_right aligned).mpr (dvd_refl _))
  rw [u64_of_lt payload]
  refine ⟨alignUp_of_dvd (by omega) divides payload, ?_⟩
  simp only [payloadSize, headerSize, cachelineSize, slabSize] at room ⊢
  omega

/-- The block of an oversized block lies behind the header. -/
theorem oversized_position {raw_mem : Nat} (few : exponent < 64)
    (fits : bytes + oversizedHeader + 2 ^ exponent < 2 ^ 64)
    (inSpace : raw_mem + (bytes + oversizedHeader + 2 ^ exponent) ≤ 2 ^ 64) :
    raw_mem + oversizedHeader ≤ alignUp (u64 (raw_mem + oversizedHeader)) (2 ^ exponent) ∧
      alignUp (u64 (raw_mem + oversizedHeader)) (2 ^ exponent) + bytes ≤
        raw_mem + oversizedBytes bytes (2 ^ exponent) := by
  have positive := Nat.two_pow_pos exponent
  have unwrapped : raw_mem + oversizedHeader < 2 ^ 64 := by omega
  rw [u64_of_lt unwrapped, oversizedBytes, u64_of_lt fits]
  obtain ⟨above, below⟩ :=
    @alignUp_of_fits (raw_mem + oversizedHeader) exponent few.le (by omega)
  exact ⟨above, by omega⟩

end Positions

end SlabArena

/-! ## A block is returned -/

theorem SlabArena.Gives.outer {arena : SlabArena} {slabs : List Nat} {area : Area}
    (gives : arena.Gives slabs area) :
    (∃ slab ∈ slabs, area.Within (slabArea slab)) ∨
      ∃ block ∈ arena.m_oversized, area.Within block.area := by
  rcases gives with ⟨slab, member, above, below, -⟩ | ⟨block, member, above, below⟩
  · exact .inl ⟨slab, member, (Nat.le_add_right _ _).trans above, below⟩
  · exact .inr ⟨block, member, (Nat.le_add_right _ _).trans above, below⟩

namespace ArenaLaw

variable {system next : MemorySystem} {owner : Area → Option Holder} {address : Nat}
  {arena : SlabArena} {grants : List Grant} {slabs : List Nat}

/-- Blocks lie in areas that the arena owns. -/
theorem outer (isLaw : ArenaLaw system owner address arena grants slabs) {grant : Grant}
    (member : grant ∈ grants) :
    ∃ outer, owner outer = some (.arena address) ∧ grant.area.Within outer := by
  rcases (isLaw.gives grant member).outer with ⟨slab, isSlab, within⟩ | ⟨block, isBlock, within⟩
  · exact ⟨slabArea slab, (isLaw.owns _).mpr (.inl ⟨slab, isSlab, rfl⟩), within⟩
  · exact ⟨block.area, (isLaw.owns _).mpr (.inr ⟨block, isBlock, rfl⟩), within⟩

theorem moved (isLaw : ArenaLaw system owner address arena grants slabs)
    (pointers : next.next = system.next)
    (pools : ∀ other, next.livePool other = system.livePool other) :
    ArenaLaw next owner address arena grants slabs :=
  { isLaw with
    chain := by
      rw [pointers]
      exact isLaw.chain
    carved := by
      intro slab member
      refine (isLaw.carved slab member).mono fun other live found => ?_
      exact ⟨live, (pools other).trans found, List.Subset.refl _⟩
    referred := by
      intro pool isPool
      rw [pools]
      exact isLaw.referred pool isPool }

theorem isSlab (isLaw : ArenaLaw system owner address arena grants slabs) {slab : Nat}
    (member : slab ∈ slabs) : slab % slabSize = 0 ∧ IsSlab slab := by
  obtain ⟨_, _, chunk, _, _, inMemory, isSlab⟩ := isLaw.carved slab member
  obtain ⟨aligned, isSlab, -⟩ := inMemory.slab isSlab
  exact ⟨aligned, isSlab⟩

end ArenaLaw

/-- There are fewer slabs than addresses. -/
theorem slabs_length_lt {slabs : List Nat} (distinct : slabs.Nodup)
    (addresses : ∀ slab ∈ slabs, IsSlab slab) : slabs.length < 2 ^ 64 := by
  have inRange : slabs ⊆ List.range' 1 (2 ^ 64 - 1) := by
    intro slab member
    obtain ⟨-, positive, fits⟩ := addresses slab member
    have size := slabSize_pos
    rw [List.mem_range'_1]
    omega
  have few := (distinct.subperm inRange).length_le
  rw [List.length_range'] at few
  omega

namespace MemoryLaw

variable {state : GrantedMemory} {owner owned : Area → Option Holder} {address : Nat}
  {arena : SlabArena} {answers : MemoryAnswers} {bytes exponent : Nat}

/-- A call on an arena returns, and the pool and the pointers stay as they are. -/
theorem keptPool (law : MemoryLaw state owner)
    (found : state.system.liveArena address = some arena) {returned : ArenaReturn}
    (pointers : returned.memory.next = state.system.next)
    (pool : returned.pool = (state.system.behind arena).map (·.pool))
    {grants : Nat → List Grant} (others : ∀ other, other ≠ address →
      grants other = state.grants other) (apart : OwnedApart owned)
    (owners : ∀ holder, holder ≠ .arena address → ∀ area,
      owned area = some holder ↔ owner area = some holder)
    {slabs : List Nat}
    (isLaw : ArenaLaw state.system owned address returned.arena (grants address) slabs) :
    MemoryLaw
      { system := state.system.setArena address arena returned.memory returned.pool
          (some returned.arena)
        grants } owned := by
  obtain ⟨_, before⟩ := law.arenas address arena found
  have pools : ∀ other, (state.system.setArena address arena returned.memory returned.pool
      (some returned.arena)).livePool other = state.system.livePool other := by
    rw [pool]
    exact fun other => MemorySystem.livePool_setArena_same before.referred _ other
  exact law.arenaOnly pointers pools
    (fun other => MemorySystem.liveArena_setArena found _ _ other) others apart owners
    (isLaw.moved pointers pools)

/-- The current slab has room. -/
theorem grantedCurrent (law : MemoryLaw state owner) {slabs : List Nat}
    (isLaw : ArenaLaw state.system owner address arena (state.grants address) slabs)
    (some : 0 < bytes) (isSize : bytes < 2 ^ 64) (few : exponent < 64)
    (fits : arena.fitsCurrent bytes (2 ^ exponent) = true)
    (unwrapped : arena.m_bump_ptr + (2 ^ exponent - 1) < 2 ^ 64 ∧
      (arena.m_bump_end = 0 ∨ alignUp arena.m_bump_ptr (2 ^ exponent) + bytes < 2 ^ 64))
    {next : SlabArena}
    (isNext : next = { arena with
      m_bump_ptr := u64 (alignUp arena.m_bump_ptr (2 ^ exponent) + bytes)
      m_allocated_bytes := u64 (arena.m_allocated_bytes + bytes) })
    {alignment : Nat} (divides : alignment ∣ 2 ^ exponent) :
    alignUp arena.m_bump_ptr (2 ^ exponent) ≠ 0 ∧
      ArenaLaw state.system owner address next
        (⟨⟨alignUp arena.m_bump_ptr (2 ^ exponent), bytes⟩, alignment⟩ :: state.grants address)
        slabs := by
  obtain ⟨slab, current, onward⟩ := isLaw.placed.onward some isSize few fits unwrapped
  obtain ⟨placed, above, below, room⟩ := onward next isNext
  have aligned := @alignUp_dvd arena.m_bump_ptr exponent few.le
  generalize alignUp arena.m_bump_ptr (2 ^ exponent) = result at *
  have behind := (isLaw.placed.payload slab current).1
  have header : 0 < headerSize := by decide
  have isMember : slab ∈ slabs := by
    have isHead := isLaw.chain.1
    rw [← isLaw.current, current] at isHead
    exact List.mem_of_head? isHead
  have newArea : (⟨result, bytes⟩ : Area).stop = result + bytes := rfl
  have sameSlab (other : Nat) (held : next.m_current_slab = Option.some other) :
      other = slab := by
    rw [isNext] at held
    exact Option.some.inj (held.symm.trans current)
  refine ⟨by omega, ?_⟩
  have sameOversized : next.m_oversized = arena.m_oversized := by rw [isNext]
  constructor
  case chain =>
    rw [isNext]
    exact isLaw.chain
  case distinct => exact isLaw.distinct
  case carved => exact isLaw.carved
  case owns =>
    rw [sameOversized]
    exact isLaw.owns
  case placed => exact placed
  case separate =>
    rw [sameOversized]
    exact isLaw.separate
  case current =>
    rw [isNext]
    exact isLaw.current
  case referred =>
    rw [isNext]
    exact isLaw.referred
  case gives =>
    rw [List.forall_mem_cons]
    refine ⟨.inl ⟨slab, isMember, ?_, ?_, fun held => ?_⟩, fun grant member => ?_⟩
    · show slab + headerSize ≤ result
      omega
    · rw [newArea]
      omega
    · rw [newArea]
      exact below
    · rw [SlabArena.Gives, sameOversized]
      rcases isLaw.gives grant member with ⟨other, isSlab, from_, upTo, inFront⟩ | isOversized
      · refine .inl ⟨other, isSlab, from_, upTo, fun held => ?_⟩
        obtain rfl := sameSlab other held
        have := inFront current
        omega
      · exact .inr isOversized
  case apart =>
    rw [List.pairwise_cons]
    refine ⟨fun grant member => ?_, isLaw.apart⟩
    have inSlab : (⟨result, bytes⟩ : Area).Within (slabArea slab) := by
      refine ⟨(Nat.le_add_right _ _).trans above, ?_⟩
      show result + bytes ≤ slab + slabSize
      omega
    rcases isLaw.gives grant member with ⟨other, isSlab, from_, upTo, inFront⟩ | isOversized
    · by_cases same : other = slab
      · subst same
        exact .inr ((inFront current).trans above)
      · refine (slabArea_apart (isLaw.isSlab isMember).1 (isLaw.isSlab isSlab).1
          (Ne.symm same)).within inSlab ⟨(Nat.le_add_right _ _).trans from_, upTo⟩
    · obtain ⟨block, isBlock, from_, upTo⟩ := isOversized
      refine (law.apart (slabArea slab) block.area ?_ ?_ (isLaw.separate slab isMember block
        isBlock)).within inSlab ⟨(Nat.le_add_right _ _).trans from_, upTo⟩
      · rw [(isLaw.owns _).mpr (.inl ⟨slab, isMember, rfl⟩)]
        rfl
      · rw [(isLaw.owns _).mpr (.inr ⟨block, isBlock, rfl⟩)]
        rfl
  case aligned =>
    rw [List.forall_mem_cons]
    exact ⟨divides.trans aligned, isLaw.aligned⟩

/-- A block from the callbacks. -/
theorem grantedOversized (law : MemoryLaw state owner) {slabs : List Nat}
    (isLaw : ArenaLaw state.system owner address arena (state.grants address) slabs)
    (few : exponent < 64) (fits : bytes + oversizedHeader + 2 ^ exponent < 2 ^ 64)
    {raw_mem request : Nat} (alloc_align : Nat)
    (fresh : state.system.Fresh (bytes + oversizedHeader + 2 ^ exponent) request answers)
    (answered : answers.memory = some raw_mem) {next : SlabArena}
    (isNext : next = { arena with
      m_oversized := ⟨raw_mem, oversizedBytes bytes (2 ^ exponent), alloc_align⟩ ::
        arena.m_oversized
      m_allocated_bytes := u64 (arena.m_allocated_bytes + bytes) })
    {alignment : Nat} (divides : alignment ∣ 2 ^ exponent) :
    alignUp (u64 (raw_mem + oversizedHeader)) (2 ^ exponent) ≠ 0 ∧
      ∃ owned, OwnedApart owned ∧
        (∀ holder, holder ≠ .arena address → ∀ area,
          owned area = some holder ↔ owner area = some holder) ∧
        ArenaLaw state.system owned address next
          (⟨⟨alignUp (u64 (raw_mem + oversizedHeader)) (2 ^ exponent), bytes⟩, alignment⟩ ::
            state.grants address) slabs := by
  have inSpace := (fresh raw_mem answered).2.2.1
  obtain ⟨above, below⟩ := SlabArena.oversized_position few fits inSpace
  have aligned := @alignUp_dvd (u64 (raw_mem + oversizedHeader)) exponent few.le
  generalize alignUp (u64 (raw_mem + oversizedHeader)) (2 ^ exponent) = result at *
  have header : 0 < oversizedHeader := by decide
  obtain ⟨block, isBlock⟩ : ∃ block : OversizedBlock,
      block = ⟨raw_mem, oversizedBytes bytes (2 ^ exponent), alloc_align⟩ := ⟨_, rfl⟩
  rw [← isBlock] at isNext
  have total : oversizedBytes bytes (2 ^ exponent) = bytes + oversizedHeader + 2 ^ exponent :=
    u64_of_lt fits
  have isArea : block.area = ⟨raw_mem, bytes + oversizedHeader + 2 ^ exponent⟩ := by
    rw [isBlock, ← total]
    rfl
  have isStop : block.area.stop = raw_mem + oversizedBytes bytes (2 ^ exponent) := by
    rw [isBlock]
    rfl
  have isRaw : block.raw_ptr = raw_mem := by rw [isBlock]
  have isNew (other : Area) (isOwned : (owner other).isSome) : block.area.Apart other :=
    law.fresh_apart fresh answered (by rw [isArea]; exact .refl _) isOwned
  have free : owner block.area = none := by
    by_contra isOwned
    refine (isNew block.area (Option.isSome_iff_ne_none.mpr isOwned)).ne ?_ rfl
    rw [isArea]
    show 0 < bytes + oversizedHeader + 2 ^ exponent
    omega
  have oversized : next.m_oversized = block :: arena.m_oversized := by rw [isNext]
  have inBlock : (⟨result, bytes⟩ : Area).Within block.area := by
    refine ⟨?_, ?_⟩
    · show block.raw_ptr ≤ result
      omega
    · rw [isStop]
      exact below
  refine ⟨by omega, Function.update owner block.area (some (.arena address)), ?_, ?_, ?_⟩
  · refine law.apart.added (· = block.area) (fun area isOwned => ?_) ?_ ?_
    · by_cases same : area = block.area
      · exact .inl same
      · rw [Function.update_of_ne same] at isOwned
        exact .inr isOwned
    · exact fun one other isOne isOther different => absurd (isOne.trans isOther.symm) different
    · rintro one other rfl isOwned
      exact isNew other isOwned
  · intro holder different area
    by_cases same : area = block.area
    · rw [same, Function.update_self, free]
      exact iff_of_false (fun same => different (Option.some.inj same).symm)
        (Option.some_ne_none holder).symm
    · rw [Function.update_of_ne same]
  · have owns (area : Area) : Function.update owner block.area (some (.arena address)) area =
        some (.arena address) ↔ area = block.area ∨ owner area = some (.arena address) := by
      by_cases same : area = block.area
      · rw [same, Function.update_self]
        exact iff_of_true rfl (.inl rfl)
      · rw [Function.update_of_ne same, or_iff_right same]
    constructor
    case chain =>
      rw [isNext]
      exact isLaw.chain
    case distinct => exact isLaw.distinct
    case carved => exact isLaw.carved
    case owns =>
      intro area
      rw [owns, isLaw.owns, oversized]
      simp only [List.mem_cons, exists_eq_or_imp]
      rw [eq_comm (a := area)]
      exact or_left_comm
    case placed =>
      rw [isNext]
      exact ⟨isLaw.placed.isSlab, isLaw.placed.ending, isLaw.placed.payload,
        isLaw.placed.chained, isLaw.placed.bump, isLaw.placed.count, u64_lt _⟩
    case separate =>
      rw [oversized]
      intro slab member
      rw [List.forall_mem_cons]
      refine ⟨fun same => ?_, isLaw.separate slab member⟩
      have isOwned := (isLaw.owns _).mpr (.inl ⟨slab, member, rfl⟩)
      rw [same, free] at isOwned
      cases isOwned
    case current =>
      rw [isNext]
      exact isLaw.current
    case referred =>
      rw [isNext]
      exact isLaw.referred
    case gives =>
      rw [List.forall_mem_cons]
      refine ⟨.inr ⟨block, ?_, ?_, inBlock.2⟩, fun grant member => ?_⟩
      · rw [oversized]
        exact List.mem_cons_self ..
      · rw [isRaw]
        exact above
      · rcases isLaw.gives grant member with isSlab | ⟨other, isOther, inOther⟩
        · rw [isNext]
          exact .inl isSlab
        · refine .inr ⟨other, ?_, inOther⟩
          rw [oversized]
          exact List.mem_cons_of_mem _ isOther
    case apart =>
      rw [List.pairwise_cons]
      refine ⟨fun grant member => ?_, isLaw.apart⟩
      obtain ⟨outer, isOwner, within⟩ := isLaw.outer member
      exact (isNew outer (by rw [isOwner]; rfl)).within inBlock within
    case aligned =>
      rw [List.forall_mem_cons]
      exact ⟨divides.trans aligned, isLaw.aligned⟩

end MemoryLaw

/-! ## A slab goes from its pool to an arena -/

/-- Slabs of a chunk of fresh memory. -/
structure NewSlabs (owner : Area → Option Holder) (added : List Nat) (chunk : Chunk) : Prop where
  inMemory : chunk.InMemory
  slabs : added = chunk.slabs
  fresh : ∀ slab ∈ added, ∀ other, (owner other).isSome → (slabArea slab).Apart other

namespace NewSlabs

variable {state : GrantedMemory} {owner : Area → Option Holder} {added : List Nat} {chunk : Chunk}

theorem of_fresh (law : MemoryLaw state owner) {answers : MemoryAnswers} {count raw_mem : Nat}
    (fresh : state.system.Fresh (count * slabSize) slabSize answers)
    (answered : answers.memory = some raw_mem) :
    NewSlabs owner ({ base_ptr := raw_mem, slab_count := count } : Chunk).slabs
      { base_ptr := raw_mem, slab_count := count } := by
  obtain ⟨positive, aligned, fits, -⟩ := fresh raw_mem answered
  have inMemory : ({ base_ptr := raw_mem, slab_count := count } : Chunk).InMemory :=
    ⟨positive, Nat.mod_eq_zero_of_dvd aligned, fits⟩
  refine ⟨inMemory, rfl, fun slab member other isOwned => ?_⟩
  exact law.fresh_apart fresh answered (inMemory.slab member).2.2 isOwned

theorem unowned (new : NewSlabs owner added chunk) {slab : Nat} (member : slab ∈ added) :
    owner (slabArea slab) = none := by
  by_contra isOwned
  exact (new.fresh slab member _ (Option.isSome_iff_ne_none.mpr isOwned)).ne slabSize_pos rfl

theorem distinct (new : NewSlabs owner added chunk) : added.Nodup := by
  rw [new.slabs]
  exact (slabsFrom_increasing ..).imp fun less => Nat.ne_of_lt less

theorem apart (new : NewSlabs owner added chunk) {one other : Nat} (isOne : one ∈ added)
    (isOther : other ∈ added) (different : one ≠ other) :
    (slabArea one).Apart (slabArea other) := by
  rw [new.slabs] at isOne isOther
  exact slabArea_apart (new.inMemory.slab isOne).1 (new.inMemory.slab isOther).1 different

end NewSlabs

/-- An arena takes the first slab of the freelist, after new slabs were added to it. -/
structure Handover (state : GrantedMemory) (owner : Area → Option Holder) (address pool : Nat)
    (arena filled : SlabArena) (live : LivePool) (next : BlockPool) (after : Memory)
    (slabs free added rest : List Nat) (slab : Nat) : Prop where
  law : MemoryLaw state owner
  found : state.system.liveArena address = some arena
  arenaLaw : ArenaLaw state.system owner address arena (state.grants address) slabs
  isPool : arena.m_pool = some pool
  isLive : state.system.livePool pool = some live
  poolLaw : PoolLaw state.system owner pool live.pool free
  new : added = [] ∨ ∃ chunk ∈ next.m_chunks, NewSlabs owner added chunk
  taken : free ++ added = slab :: rest
  segment : Segment after.next next.m_head.ptr rest
  others : ∀ other, other ∉ free ++ added → after.next other = state.system.next other
  chunks : live.pool.m_chunks ⊆ next.m_chunks
  sized : next.m_chunk_slabs = live.pool.m_chunk_slabs
  head : filled.m_head_slab = some slab
  tail : filled.m_tail_slab = some (arena.m_tail_slab.getD slab)
  count : filled.m_slab_count = u64 (arena.m_slab_count + 1)
  current : filled.m_current_slab = some slab
  oversized : filled.m_oversized = arena.m_oversized
  samePool : filled.m_pool = arena.m_pool

/-- The system after the slab was taken. -/
def handed (state : GrantedMemory) (address : Nat) (arena filled : SlabArena) (next : BlockPool)
    (after : Memory) (slab : Nat) : MemorySystem :=
  state.system.setArena address arena (after.link slab arena.m_head_slab) (some next) (some filled)

open Classical in
/-- The owners after the slab was taken. -/
noncomputable def handedTo (owner : Area → Option Holder) (address pool : Nat) (added : List Nat)
    (slab : Nat) (area : Area) : Option Holder :=
  if area = slabArea slab then some (.arena address)
  else if ∃ other ∈ added, slabArea other = area then some (.pool pool)
  else owner area

namespace Handover

variable {state : GrantedMemory} {owner : Area → Option Holder} {address pool : Nat}
  {arena filled : SlabArena} {live : LivePool} {next : BlockPool} {after : Memory}
  {slabs free added rest : List Nat} {slab : Nat}
  (given :
    Handover state owner address pool arena filled live next after slabs free added rest slab)

include given

theorem isTaken : slab ∈ free ++ added := by
  rw [given.taken]
  exact List.mem_cons_self ..

theorem inRest {other : Nat} (member : other ∈ rest) : other ∈ free ++ added := by
  rw [given.taken]
  exact List.mem_cons_of_mem _ member

theorem unowned {other : Nat} (member : other ∈ added) : owner (slabArea other) = none := by
  rcases given.new with none | ⟨chunk, -, new⟩
  · rw [none] at member
    exact absurd member List.not_mem_nil
  · exact new.unowned member

theorem ofPool {other : Nat} (member : other ∈ free) :
    owner (slabArea other) = some (.pool pool) :=
  (given.poolLaw.owns _).mpr ⟨other, member, rfl⟩

/-- Nobody else has a slab of the freelist, or a new one. -/
theorem owner_ne {other : Nat} (member : other ∈ free ++ added) {holder : Holder}
    (different : holder ≠ .pool pool) : owner (slabArea other) ≠ some holder := by
  rcases List.mem_append.mp member with inFree | inAdded
  · rw [given.ofPool inFree]
    exact fun same => different (Option.some.inj same).symm
  · rw [given.unowned inAdded]
    exact (Option.some_ne_none holder).symm

theorem mine {other : Nat} (member : other ∈ slabs) : other ∉ free ++ added :=
  fun again => given.owner_ne again Holder.noConfusion
    ((given.arenaLaw.owns _).mpr (.inl ⟨other, member, rfl⟩))

/-- The slab is none of the rest. -/
theorem notInRest : slab ∉ rest := by
  have whole : (free ++ added).Nodup := by
    rw [List.nodup_append]
    refine ⟨given.poolLaw.free.nodup, ?_, fun one inFree other inAdded same => ?_⟩
    · rcases given.new with none | ⟨chunk, -, new⟩
      · rw [none]
        exact .nil
      · exact new.distinct
    · have isOwned := given.ofPool inFree
      rw [same, given.unowned inAdded] at isOwned
      cases isOwned
  rw [given.taken] at whole
  exact (List.nodup_cons.mp whole).1

theorem livePool_handed (other : Nat) :
    (handed state address arena filled next after slab).livePool other =
      if other = pool then some { live with pool := next } else state.system.livePool other :=
  MemorySystem.livePool_setArena given.isPool given.isLive _ _ other

theorem liveArena_handed (other : Nat) :
    (handed state address arena filled next after slab).liveArena other =
      if other = address then some filled else state.system.liveArena other :=
  MemorySystem.liveArena_setArena given.found _ _ other

theorem next_handed {other : Nat} (notIn : other ∉ free ++ added) :
    (handed state address arena filled next after slab).next other = state.system.next other := by
  refine (Function.update_of_ne ?_ ..).trans (given.others other notIn)
  rintro rfl
  exact notIn given.isTaken

theorem keeps (other : Nat) (value : LivePool)
    (isValue : state.system.livePool other = some value) :
    ∃ later, (handed state address arena filled next after slab).livePool other = some later ∧
      value.pool.m_chunks ⊆ later.pool.m_chunks := by
  rw [given.livePool_handed]
  by_cases same : other = pool
  · subst same
    obtain rfl := Option.some.inj (given.isLive.symm.trans isValue)
    exact ⟨_, if_pos rfl, given.chunks⟩
  · exact ⟨value, by rw [if_neg same]; exact isValue, List.Subset.refl _⟩

theorem carves {other : Nat} (member : other ∈ free ++ added) :
    (handed state address arena filled next after slab).Carves other := by
  rcases List.mem_append.mp member with inFree | inAdded
  · exact (given.poolLaw.carved other inFree).mono given.keeps
  · rcases given.new with none | ⟨chunk, isChunk, new⟩
    · rw [none] at inAdded
      exact absurd inAdded List.not_mem_nil
    · rw [new.slabs] at inAdded
      refine ⟨pool, { live with pool := next }, chunk, ?_, isChunk, new.inMemory, inAdded⟩
      rw [given.livePool_handed, if_pos rfl]

theorem isSlab : IsSlab slab := by
  obtain ⟨_, _, chunk, _, _, inMemory, inChunk⟩ := given.carves given.isTaken
  exact (inMemory.slab inChunk).2.1

omit given in
theorem handedTo_slab : handedTo owner address pool added slab (slabArea slab) =
    some (.arena address) := if_pos rfl

/-- Nobody but the pool gives or gets another area. -/
theorem handedTo_iff {holder : Holder} (different : holder ≠ .pool pool) {area : Area}
    (isOther : area ≠ slabArea slab) :
    handedTo owner address pool added slab area = some holder ↔ owner area = some holder := by
  rw [handedTo, if_neg isOther]
  split
  next isAdded =>
    obtain ⟨other, member, rfl⟩ := isAdded
    rw [given.unowned member]
    exact iff_of_false (fun same => different (Option.some.inj same).symm)
      (Option.some_ne_none holder).symm
  next => exact Iff.rfl

theorem handedTo_arena (area : Area) :
    handedTo owner address pool added slab area = some (.arena address) ↔
      area = slabArea slab ∨ owner area = some (.arena address) := by
  by_cases isTheSlab : area = slabArea slab
  · rw [isTheSlab, handedTo_slab]
    exact iff_of_true rfl (.inl rfl)
  · rw [given.handedTo_iff Holder.noConfusion isTheSlab, or_iff_right isTheSlab]

/-- The pool has the rest. -/
theorem handedTo_pool (area : Area) :
    handedTo owner address pool added slab area = some (.pool pool) ↔
      ∃ other ∈ rest, slabArea other = area := by
  constructor
  · intro isPools
    rw [handedTo] at isPools
    split at isPools
    next => cases isPools
    next isOther =>
      have isAny : ∃ other ∈ free ++ added, slabArea other = area := by
        split at isPools
        next isAdded =>
          obtain ⟨other, member, isArea⟩ := isAdded
          exact ⟨other, List.mem_append_right _ member, isArea⟩
        next =>
          obtain ⟨other, member, isArea⟩ := (given.poolLaw.owns area).mp isPools
          exact ⟨other, List.mem_append_left _ member, isArea⟩
      obtain ⟨other, member, isArea⟩ := isAny
      rw [given.taken, List.mem_cons] at member
      rcases member with rfl | member
      · exact absurd isArea.symm isOther
      · exact ⟨other, member, isArea⟩
  · rintro ⟨other, member, rfl⟩
    have isOther : slabArea other ≠ slabArea slab := by
      intro same
      rw [slabArea_injective same] at member
      exact given.notInRest member
    rw [handedTo, if_neg isOther]
    split
    next => rfl
    next notAdded =>
      rcases List.mem_append.mp (given.inRest member) with inFree | inAdded
      · exact given.ofPool inFree
      · exact absurd ⟨other, inAdded, rfl⟩ notAdded

theorem apart : OwnedApart (handedTo owner address pool added slab) := by
  refine given.law.apart.added (fun area => ∃ other ∈ added, slabArea other = area) ?_ ?_ ?_
  · intro area isSome
    rw [handedTo] at isSome
    split at isSome
    next isTheSlab =>
      rcases List.mem_append.mp given.isTaken with inFree | inAdded
      · refine .inr ?_
        rw [isTheSlab, given.ofPool inFree]
        rfl
      · exact .inl ⟨slab, inAdded, isTheSlab.symm⟩
    next =>
      split at isSome
      next isAdded => exact .inl isAdded
      next => exact .inr isSome
  · rintro one other ⟨first, isFirst, rfl⟩ ⟨second, isSecond, rfl⟩ different
    rcases given.new with none | ⟨chunk, -, new⟩
    · rw [none] at isFirst
      exact absurd isFirst List.not_mem_nil
    · exact new.apart isFirst isSecond fun same => different (by rw [same])
  · rintro one other ⟨first, isFirst, rfl⟩ isSome
    rcases given.new with none | ⟨chunk, -, new⟩
    · rw [none] at isFirst
      exact absurd isFirst List.not_mem_nil
    · exact new.fresh first isFirst other isSome

theorem distinct : (slab :: slabs).Nodup :=
  List.nodup_cons.mpr ⟨fun again => given.mine again given.isTaken, given.arenaLaw.distinct⟩

/-- The chain of the arena begins with the slab. -/
theorem chained : IsSlabChain (handed state address arena filled next after slab).next
    filled.m_head_slab filled.m_tail_slab filled.m_slab_count (slab :: slabs) := by
  obtain ⟨head, tail, count, linked⟩ := given.arenaLaw.chain
  have few : (slab :: slabs).length < 2 ^ 64 := by
    refine slabs_length_lt given.distinct ?_
    rw [List.forall_mem_cons]
    exact ⟨given.isSlab, fun other member => (given.arenaLaw.isSlab member).2⟩
  rw [List.length_cons] at few
  refine ⟨given.head.symm, ?_, ?_, ?_⟩
  · rw [given.tail, ← tail]
    cases slabs with
    | nil => rfl
    | cons first slabs =>
        rw [List.getLast?_cons_cons, List.getLast?_cons]
        rfl
  · rw [given.count, ← count, u64_of_lt few, List.length_cons]
  · rw [List.isChain_cons]
    refine ⟨fun first isFirst => ?_, ?_⟩
    · refine (Function.update_self ..).trans ?_
      rw [← head]
      exact isFirst
    · refine linked.imp_of_mem_imp fun one other isOne _ isNext => ?_
      rw [given.next_handed (given.mine isOne)]
      exact isNext

/-- The arena returns a block of the slab. -/
theorem arenaLaw_handed (placed : filled.Placed) {block : Grant}
    (gives : slab + headerSize ≤ block.area.start ∧ block.area.stop ≤ slab + slabSize ∧
      block.area.stop ≤ slab + filled.taken slab)
    (aligned : block.alignment ∣ block.area.start) :
    ArenaLaw (handed state address arena filled next after slab)
      (handedTo owner address pool added slab) address filled
      (block :: state.grants address) (slab :: slabs) := by
  have isLaw := given.arenaLaw
  constructor
  case chain => exact given.chained
  case distinct => exact given.distinct
  case carved =>
    rw [List.forall_mem_cons]
    exact ⟨given.carves given.isTaken, fun other member =>
      (isLaw.carved other member).mono given.keeps⟩
  case owns =>
    intro area
    rw [given.handedTo_arena, isLaw.owns, given.oversized]
    simp only [List.mem_cons, exists_eq_or_imp]
    rw [or_assoc, eq_comm (a := area)]
  case placed => exact placed
  case separate =>
    rw [given.oversized, List.forall_mem_cons]
    refine ⟨fun block isBlock same => ?_, isLaw.separate⟩
    exact given.owner_ne given.isTaken Holder.noConfusion
      ((isLaw.owns _).mpr (.inr ⟨block, isBlock, same.symm⟩))
  case current => rw [given.current, given.head]
  case referred =>
    rw [given.samePool]
    intro other isOther
    obtain ⟨value, isValue⟩ := isLaw.referred other isOther
    obtain ⟨later, isLater, -⟩ := given.keeps other value isValue
    exact ⟨later, isLater⟩
  case gives =>
    rw [List.forall_mem_cons]
    refine ⟨.inl ⟨slab, List.mem_cons_self .., gives.1, gives.2.1, fun _ => gives.2.2⟩,
      fun grant member => ?_⟩
    rcases isLaw.gives grant member with ⟨other, isMine, from_, upTo, -⟩ | isOversized
    · refine .inl ⟨other, List.mem_cons_of_mem _ isMine, from_, upTo, fun held => ?_⟩
      obtain rfl := Option.some.inj (given.current.symm.trans held)
      exact absurd given.isTaken (given.mine isMine)
    · rw [← given.oversized] at isOversized
      exact .inr isOversized
  case apart =>
    rw [List.pairwise_cons]
    refine ⟨fun grant member => ?_, isLaw.apart⟩
    obtain ⟨outer, isOwner, within⟩ := isLaw.outer member
    have different : slabArea slab ≠ outer := by
      rintro rfl
      exact given.owner_ne given.isTaken Holder.noConfusion isOwner
    refine (given.apart (slabArea slab) outer ?_ ?_ different).within
      ⟨(Nat.le_add_right _ _).trans gives.1, gives.2.1⟩ within
    · rw [handedTo_slab]
      rfl
    · rw [(given.handedTo_arena outer).mpr (.inr isOwner)]
      rfl
  case aligned =>
    rw [List.forall_mem_cons]
    exact ⟨aligned, isLaw.aligned⟩

theorem poolLaw_handed : PoolLaw (handed state address arena filled next after slab)
    (handedTo owner address pool added slab) pool next rest where
  free := by
    refine given.segment.congr fun cell member => Function.update_of_ne ?_ ..
    rintro rfl
    exact given.notInRest member
  carved := fun cell member => given.carves (given.inRest member)
  owns := given.handedTo_pool
  sized := by
    rw [given.sized]
    exact given.poolLaw.sized

theorem lives_handed (area : Area) (holder : Holder)
    (isOwner : handedTo owner address pool added slab area = some holder) :
    (handed state address arena filled next after slab).Lives holder := by
  by_cases isPools : holder = .pool pool
  · rw [isPools, MemorySystem.Lives, given.livePool_handed, if_pos rfl]
    rfl
  by_cases isTheSlab : area = slabArea slab
  · rw [isTheSlab, handedTo_slab] at isOwner
    obtain rfl := Option.some.inj isOwner
    rw [MemorySystem.Lives, given.liveArena_handed, if_pos rfl]
    rfl
  have lives := given.law.lives area holder ((given.handedTo_iff isPools isTheSlab).mp isOwner)
  cases holder with
  | pool other =>
      rw [MemorySystem.Lives, given.livePool_handed, if_neg fun same => isPools (by rw [same])]
      exact lives
  | arena other =>
      rw [MemorySystem.Lives, given.liveArena_handed]
      split
      next => rfl
      next => exact lives

theorem memoryLaw_handed (placed : filled.Placed) {block : Grant}
    (gives : slab + headerSize ≤ block.area.start ∧ block.area.stop ≤ slab + slabSize ∧
      block.area.stop ≤ slab + filled.taken slab)
    (aligned : block.alignment ∣ block.area.start) :
    MemoryLaw
      { system := handed state address arena filled next after slab
        grants := Function.update state.grants address (block :: state.grants address) }
      (handedTo owner address pool added slab) := by
  refine given.law.frame (fun holder => holder = .arena address ∨ holder = .pool pool) given.apart
    ?_ ?_ given.keeps ?_ ?_ given.lives_handed ?_
  · intro holder untouched area
    rw [not_or] at untouched
    by_cases isTheSlab : area = slabArea slab
    · rw [isTheSlab, handedTo_slab]
      exact iff_of_false (fun same => untouched.1 (Option.some.inj same).symm)
        (given.owner_ne given.isTaken untouched.2)
    · exact given.handedTo_iff untouched.2 isTheSlab
  · intro holder other untouched isOwner
    rw [not_or] at untouched
    exact given.next_handed fun member => given.owner_ne member untouched.2 isOwner
  · intro other value isValue
    change (handed ..).livePool other = some value at isValue
    rw [given.livePool_handed] at isValue
    split at isValue
    next same =>
      cases isValue
      subst same
      exact .inr ⟨rest, given.poolLaw_handed⟩
    next different =>
      refine .inl ⟨?_, isValue⟩
      rw [not_or]
      exact ⟨Holder.noConfusion, fun same => different (Holder.pool.inj same)⟩
  · intro other value isValue
    change (handed ..).liveArena other = some value at isValue
    rw [given.liveArena_handed] at isValue
    split at isValue
    next same =>
      cases isValue
      subst same
      refine .inr ⟨slab :: slabs, ?_⟩
      show ArenaLaw _ _ other filled (Function.update state.grants other _ other) _
      rw [Function.update_self]
      exact given.arenaLaw_handed placed gives aligned
    next different =>
      refine .inl ⟨?_, isValue, Function.update_of_ne different ..⟩
      rw [not_or]
      exact ⟨fun same => different (Holder.arena.inj same), Holder.noConfusion⟩
  · intro other gone
    change (handed ..).liveArena other = none at gone
    rw [given.liveArena_handed] at gone
    split at gone
    next => cases gone
    next different =>
      show Function.update state.grants address _ other = []
      rw [Function.update_of_ne different]
      exact given.law.ended other gone

end Handover

/-! ## All ways through `allocate` -/

/-- The bump pointer of a slab just acquired stands behind its first block. -/
theorem SlabArena.Placed.of_acquired {next : SlabArena} {slab bytes : Nat} (isSlab : IsSlab slab)
    (room : headerSize + bytes ≤ slabSize) (current : next.m_current_slab = some slab)
    (ending : next.m_bump_end = u64 (slab + slabSize))
    (bump : next.m_bump_ptr = u64 (slab + headerSize + bytes))
    (chained : next.m_head_slab.isSome ∧ next.m_pool.isSome) (count : next.m_slab_count < 2 ^ 64)
    (total : next.m_allocated_bytes < 2 ^ 64) :
    next.Placed ∧ next.taken slab = headerSize + bytes := by
  have inSpace := isSlab.inSpace
  have taken : next.taken slab = headerSize + bytes := by
    rw [SlabArena.taken, bump, SlabArena.offset_of_position isSlab.notNull (by omega) (by omega)]
    omega
  refine ⟨.of_current isSlab current ending ?_ chained ?_ count total, taken⟩
  · rw [taken]
    exact ⟨Nat.le_add_right _ _, room⟩
  · rw [bump]
    exact u64_lt _

namespace MemoryLaw

variable {state : GrantedMemory} {owner : Area → Option Holder} {address : Nat}
  {arena : SlabArena} {answers : MemoryAnswers} {bytes exponent : Nat}

/-- A slab from the pool. -/
theorem grantedAcquired (law : MemoryLaw state owner)
    (found : state.system.liveArena address = some arena) {slabs : List Nat}
    (isLaw : ArenaLaw state.system owner address arena (state.grants address) slabs)
    (small : isSlabRequest bytes (2 ^ exponent) = true) {alignment : Nat}
    (few : exponent ≤ 64) (divides : alignment ∣ 2 ^ exponent)
    (promise : ∀ live ∈ state.system.behind arena,
      state.system.Fresh (live.pool.m_chunk_slabs * slabSize) slabSize answers)
    {pool next : BlockPool} {after : Memory} {slab : Nat}
    (inPool : (state.system.around arena answers).pool = some pool)
    (answered : pool.acquireSlab answers state.system.memory = (after, next, some slab))
    {filled : SlabArena} {result : Nat}
    (isResult : result = alignUp (u64 (slab + headerSize)) (2 ^ exponent))
    (isFilled : filled = { arena with
      m_head_slab := some slab
      m_tail_slab := some (arena.m_tail_slab.getD slab)
      m_current_slab := some slab
      m_bump_ptr := u64 (result + bytes)
      m_bump_end := u64 (slab + slabSize)
      m_slab_count := u64 (arena.m_slab_count + 1)
      m_allocated_bytes := u64 (arena.m_allocated_bytes + bytes) }) :
    result ≠ 0 ∧ ∃ owned, MemoryLaw
      { system := handed state address arena filled next after slab
        grants := Function.update state.grants address
          (⟨⟨result, bytes⟩, alignment⟩ :: state.grants address) } owned := by
  obtain ⟨live, behind, rfl⟩ := Option.map_eq_some_iff.mp inPool
  obtain ⟨place, isPool, isLive⟩ := Option.bind_eq_some_iff.mp behind
  obtain ⟨free, poolLaw⟩ := law.pools place live isLive
  have fresh := promise live behind
  have supplies := @BlockPool.acquireSlab_supplies live.pool state.system.memory free answers
    poolLaw.free (fun _ => poolLaw.sized) fun raw_mem isMemory => (fresh raw_mem isMemory).2.2.1
  rw [answered] at supplies
  cases supplies with
  | @supplied _ _ _ rest added taken segment others source callbacks sized =>
      have given : Handover state owner address place arena filled live next after slabs free added
          rest slab := by
        refine
          { law := law
            found := found
            arenaLaw := isLaw
            isPool := isPool
            isLive := isLive
            poolLaw := poolLaw
            new := ?_
            taken := taken
            segment := segment
            others := others
            chunks := ?_
            sized := sized
            head := by rw [isFilled]
            tail := by rw [isFilled]
            count := by rw [isFilled]
            current := by rw [isFilled]
            oversized := by rw [isFilled]
            samePool := by rw [isFilled] }
        · rcases source with ⟨none, -⟩ | ⟨-, raw_mem, isMemory, chunk, rfl, isAdded, chunks⟩
          · exact .inl none
          · refine .inr ⟨_, ?_, isAdded ▸ NewSlabs.of_fresh law fresh isMemory⟩
            rw [chunks]
            exact List.mem_cons_self ..
        · rcases source with ⟨-, same⟩ | ⟨-, _, -, chunk, -, -, chunks⟩
          · rw [same]
            exact List.Subset.refl _
          · rw [chunks]
            exact List.subset_cons_self _ _
      have isSlab := given.isSlab
      obtain ⟨position, room⟩ := SlabArena.acquired_position isSlab small
      have aligned := @alignUp_dvd (u64 (slab + headerSize)) exponent few
      rw [← isResult] at aligned position
      have header : 0 < headerSize := by decide
      obtain ⟨placed, isTaken⟩ : filled.Placed ∧ filled.taken slab = headerSize + bytes := by
        refine SlabArena.Placed.of_acquired isSlab room (by rw [isFilled]) (by rw [isFilled])
          (by rw [isFilled, position]) ?_ ?_ ?_
        · rw [isFilled]
          exact ⟨rfl, by rw [isPool]; rfl⟩
        · rw [isFilled]
          exact u64_lt _
        · rw [isFilled]
          exact u64_lt _
      refine ⟨by omega, _, given.memoryLaw_handed placed ⟨?_, ?_, ?_⟩ (divides.trans aligned)⟩
      · exact position.ge
      · show result + bytes ≤ slab + slabSize
        omega
      · show result + bytes ≤ slab + filled.taken slab
        omega

/-- A call of `allocate`. -/
theorem allocated (law : MemoryLaw state owner)
    (found : state.system.liveArena address = some arena) {alignment : Nat}
    (request : state.system.Request address bytes alignment answers) {returned : ArenaReturn}
    (isReturned :
      returned = arena.allocateIn (state.system.around arena answers) bytes alignment) :
    (returned.result = 0 → returned.arena = arena) ∧ ∃ owned, MemoryLaw
      { system := state.system.setArena address arena returned.memory returned.pool
          (some returned.arena)
        grants := state.grant address returned.result bytes alignment } owned := by
  obtain ⟨isSize, ⟨exponent, small, rfl⟩, fit, promise⟩ := request arena found
  obtain ⟨slabs, isLaw⟩ := law.arenas address arena found
  have way := arena.allocateIn_way (state.system.around arena answers) bytes (2 ^ exponent)
  rw [← isReturned] at way
  have raised := SlabArena.raisedAlignment_pow exponent
  have few : max exponent 4 < 64 := by omega
  have divides : 2 ^ exponent ∣ 2 ^ max exponent 4 := Nat.pow_dvd_pow 2 (le_max_left _ _)
  rw [raised] at way fit promise
  have others (grants : List Grant) (other : Nat) (different : other ≠ address) :
      Function.update state.grants address grants other = state.grants other :=
    Function.update_of_ne different ..
  cases way with
  | refused pointers =>
      refine ⟨fun _ => rfl, owner, ?_⟩
      exact law.keptPool found pointers rfl (fun _ _ => rfl) law.apart (fun _ _ _ => Iff.rfl) isLaw
  | current some fits =>
      rw [SlabArena.SumsFit, or_iff_right some.ne', if_pos fits] at fit
      obtain ⟨notNull, granted⟩ :=
        law.grantedCurrent isLaw some isSize few fits fit rfl divides
      refine ⟨fun null => absurd null notNull, owner, ?_⟩
      rw [GrantedMemory.grant, if_neg notNull]
      refine law.keptPool found rfl rfl (others _) law.apart (fun _ _ _ => Iff.rfl)
        (?_ : ArenaLaw _ _ _ _ _ slabs)
      rw [Function.update_self]
      exact granted
  | acquired some isSmall inPool answered =>
      rw [if_pos isSmall] at promise
      obtain ⟨notNull, owned, granted⟩ := law.grantedAcquired found isLaw isSmall few.le divides
        promise inPool answered rfl rfl
      refine ⟨fun null => absurd null notNull, owned, ?_⟩
      rw [GrantedMemory.grant, if_neg notNull]
      exact granted
  | @oversized after raw_mem alloc_align some misfit isLarge answered pointers =>
      rw [SlabArena.SumsFit, or_iff_right some.ne', if_neg (by rw [misfit]; decide),
        if_neg (by rw [isLarge]; decide), answered, or_iff_right (Option.some_ne_none _)] at fit
      rw [if_neg (by rw [isLarge]; decide)] at promise
      have isMemory : answers.memory = .some raw_mem := by
        have isOversized := answered
        rw [Surroundings.oversized, SlabArena.oversizedMemory] at isOversized
        split at isOversized
        next => exact isOversized
        next => cases isOversized
      obtain ⟨notNull, owned, apart, owners, granted⟩ :=
        law.grantedOversized isLaw few fit alloc_align promise isMemory rfl divides
      refine ⟨fun null => absurd null notNull, owned, ?_⟩
      rw [GrantedMemory.grant, if_neg notNull]
      refine law.keptPool found pointers rfl (others _) apart owners
        (?_ : ArenaLaw _ _ _ _ _ slabs)
      rw [Function.update_self]
      exact granted

end MemoryLaw

end LightFlow
