import LightFlow.Memory.BlockSteps

/-!
# Blocks of arenas never overlap

Resets and moves hand areas on to a pool or to another arena, so the areas stay apart in every run.
-/

namespace LightFlow

/-! ## An arena is reset -/

namespace SlabArena

theorem freeOversized_next (pool : Option BlockPool) (blocks : List OversizedBlock)
    (memory : Memory) : (blocks.foldl (freeOversized pool) memory).next = memory.next := by
  induction blocks generalizing memory with
  | nil => rfl
  | cons block blocks ih =>
      refine (ih _).trans ?_
      rw [freeOversized]
      split <;> rfl

/-- `reset` of an arena without slabs. -/
theorem reset_of_none {arena : SlabArena} {pool : Option BlockPool} {memory : Memory}
    (noHead : arena.m_head_slab = none) (noTail : arena.m_tail_slab = none)
    (noCurrent : arena.m_current_slab = none) :
    (arena.reset pool memory).1.next = memory.next ∧ (arena.reset pool memory).2.1 = pool ∧
      (arena.reset pool memory).2.2 = { m_pool := arena.m_pool } := by
  have same : arena.releaseSlabs pool memory = (memory, pool, arena) := by
    simp only [releaseSlabs, noHead]
  rw [reset, same]
  refine ⟨freeOversized_next _ _ _, rfl, ?_⟩
  simp only [noHead, noTail, noCurrent]

/-- `reset` of an arena with slabs. -/
theorem reset_of_some {arena : SlabArena} {pool : BlockPool} {memory : Memory} {head tail : Nat}
    (isHead : arena.m_head_slab = some head) (isTail : arena.m_tail_slab = some tail) :
    let released := pool.releaseSlabChain (some head) (some tail) arena.m_slab_count memory
    (arena.reset (some pool) memory).1.next = released.1.next ∧
      (arena.reset (some pool) memory).2.1 = some released.2 ∧
      (arena.reset (some pool) memory).2.2 = { m_pool := arena.m_pool } := by
  simp only [reset, releaseSlabs, isHead, isTail]
  exact ⟨freeOversized_next _ _ _, trivial, trivial⟩

end SlabArena

theorem MemorySystem.resetArena_eq (system : MemorySystem) (address : Nat) (arena : SlabArena)
    (next : SlabArena → Option SlabArena) : system.resetArena address arena next =
      system.setArena address arena
        (arena.reset ((system.behind arena).map (·.pool)) system.memory).1
        (arena.reset ((system.behind arena).map (·.pool)) system.memory).2.1
        (next (arena.reset ((system.behind arena).map (·.pool)) system.memory).2.2) := rfl

/-- An arena that has nothing. -/
theorem ArenaLaw.empty {system : MemorySystem} {owner : Area → Option Holder} {address : Nat}
    {pool : Option Nat} (nothing : ∀ area, owner area ≠ some (.arena address))
    (referred : ∀ other, pool = some other → ∃ live, system.livePool other = some live) :
    ArenaLaw system owner address { m_pool := pool } [] [] where
  chain := ⟨rfl, rfl, rfl, .nil⟩
  distinct := .nil
  carved := fun _ member => absurd member List.not_mem_nil
  owns := by
    intro area
    refine iff_of_false (nothing area) ?_
    rintro (⟨slab, member, -⟩ | ⟨block, member, -⟩)
    · exact List.not_mem_nil member
    · exact List.not_mem_nil member
  placed := .of_none rfl rfl rfl rfl
  separate := fun _ member => absurd member List.not_mem_nil
  current := rfl
  referred := referred
  gives := fun _ member => absurd member List.not_mem_nil
  apart := .nil
  aligned := fun _ member => absurd member List.not_mem_nil

open Classical in
/-- The owners after an arena was reset: its slabs go to a pool, and its oversized blocks back to
the callbacks. -/
noncomputable def returnedTo (owner : Area → Option Holder) (address pool : Nat)
    (slabs : List Nat) (area : Area) : Option Holder :=
  if owner area = some (.arena address) then
    if ∃ slab ∈ slabs, slabArea slab = area then some (.pool pool) else none
  else owner area

section Returned

variable {owner : Area → Option Holder} {address pool : Nat} {slabs : List Nat}

theorem returnedTo_ne (area : Area) :
    returnedTo owner address pool slabs area ≠ some (.arena address) := by
  rw [returnedTo]
  split
  next =>
    split
    next => exact fun same => Holder.noConfusion (Option.some.inj same)
    next => exact (Option.some_ne_none _).symm
  next other => exact other

theorem returnedTo_iff {holder : Holder} (notArena : holder ≠ .arena address)
    (notPool : slabs = [] ∨ holder ≠ .pool pool) (area : Area) :
    returnedTo owner address pool slabs area = some holder ↔ owner area = some holder := by
  rw [returnedTo]
  split
  next isArena =>
    rw [isArena]
    refine iff_of_false ?_ fun same => notArena (Option.some.inj same).symm
    split
    next isSlab =>
      obtain ⟨slab, member, -⟩ := isSlab
      rcases notPool with none | notPool
      · rw [none] at member
        exact absurd member List.not_mem_nil
      · exact fun same => notPool (Option.some.inj same).symm
    next => exact (Option.some_ne_none holder).symm
  next => exact Iff.rfl

theorem returnedTo_apart (apart : OwnedApart owner) :
    OwnedApart (returnedTo owner address pool slabs) := by
  refine apart.mono fun area isSome => ?_
  rw [returnedTo] at isSome
  split at isSome
  next isArena =>
    rw [isArena]
    rfl
  next => exact isSome

end Returned

namespace MemoryLaw

variable {state : GrantedMemory} {owner : Area → Option Holder} {address : Nat}
  {arena : SlabArena}

/-- What `reset` does to the chain of the arena. -/
structure Resets (state : GrantedMemory) (address : Nat) (arena : SlabArena) (slabs : List Nat)
    (after : MemorySystem) (next : Option SlabArena) : Prop where
  arenas : ∀ other, after.liveArena other =
    if other = address then next else state.system.liveArena other
  elsewhere : ∀ other, other ∉ slabs → after.next other = state.system.next other
  pools : slabs = [] ∧ (∀ other, after.livePool other = state.system.livePool other) ∨
    ∃ pool live later, arena.m_pool = some pool ∧ state.system.livePool pool = some live ∧
      (∀ free, Segment state.system.next live.pool.m_head.ptr free → (∀ slab ∈ slabs, slab ∉ free) →
        Segment after.next later.m_head.ptr (slabs ++ free)) ∧
      later.m_chunks = live.pool.m_chunks ∧ later.m_chunk_slabs = live.pool.m_chunk_slabs ∧
      ∀ other, after.livePool other =
        if other = pool then some { live with pool := later } else state.system.livePool other

/-- `reset` returns exactly the chain, and leaves the arena as new. -/
theorem resets (law : MemoryLaw state owner)
    (found : state.system.liveArena address = some arena) {slabs : List Nat}
    (isLaw : ArenaLaw state.system owner address arena (state.grants address) slabs)
    (next : SlabArena → Option SlabArena) :
    Resets state address arena slabs (state.system.resetArena address arena next)
      (next { m_pool := arena.m_pool }) := by
  obtain ⟨head, tail, count, linked⟩ := isLaw.chain
  cases isSlabs : slabs with
  | nil =>
      rw [isSlabs] at head tail
      have noHead : arena.m_head_slab = none := head.symm
      obtain ⟨pointers, samePool, isNew⟩ := @SlabArena.reset_of_none arena
        ((state.system.behind arena).map (·.pool)) state.system.memory noHead tail.symm
        (isLaw.current.trans noHead)
      rw [MemorySystem.resetArena_eq, isNew, samePool]
      refine ⟨fun other => ?_, fun other _ => ?_, .inl ⟨rfl, fun other => ?_⟩⟩
      · exact MemorySystem.liveArena_setArena found _ _ other
      · exact congrFun pointers other
      · exact MemorySystem.livePool_setArena_same isLaw.referred _ other
  | cons first rest =>
      have isHead : arena.m_head_slab = some first := by
        rw [← head, isSlabs]
        rfl
      obtain ⟨last, isTail⟩ : ∃ last, arena.m_tail_slab = some last := by
        rw [← tail, isSlabs, List.getLast?_cons]
        exact ⟨_, rfl⟩
      obtain ⟨-, hasPool⟩ := isLaw.placed.chained (by rw [isLaw.current, isHead]; rfl)
      obtain ⟨pool, isPool⟩ := Option.isSome_iff_exists.mp hasPool
      obtain ⟨live, isLive⟩ := isLaw.referred pool isPool
      have behind : state.system.behind arena = some live := by
        rw [MemorySystem.behind, isPool]
        exact isLive
      obtain ⟨pointers, isLater, isNew⟩ :=
        @SlabArena.reset_of_some arena live.pool state.system.memory first last isHead isTail
      have isChain : IsSlabChain state.system.memory.next (some first) (some last)
          arena.m_slab_count (first :: rest) := by
        rw [← isHead, ← isTail, ← isSlabs]
        exact isLaw.chain
      have distinct := isLaw.distinct
      rw [isSlabs] at distinct
      obtain ⟨free, poolLaw⟩ := law.pools pool live isLive
      rw [MemorySystem.resetArena_eq, behind, Option.map_some, isNew, isLater]
      have released (free : List Nat) (segment : Segment state.system.memory.next
          live.pool.m_head.ptr free) (apart : ∀ slab ∈ first :: rest, slab ∉ free) :=
        BlockPool.releaseSlabChain_supplies segment isChain distinct apart
      have apart : ∀ slab ∈ first :: rest, slab ∉ free := by
        intro slab member inFree
        rw [← isSlabs] at member
        have isArena := (isLaw.owns _).mpr (.inl ⟨slab, member, rfl⟩)
        rw [(poolLaw.owns _).mpr ⟨slab, inFree, rfl⟩] at isArena
        cases isArena
      obtain ⟨-, others, chunks, -, sized⟩ := released free poolLaw.free apart
      refine ⟨fun other => ?_, fun other notIn => ?_, .inr ⟨pool, live, _, isPool, isLive,
        fun free segment apart => ?_, chunks, sized, fun other => ?_⟩⟩
      · exact MemorySystem.liveArena_setArena found _ _ other
      · exact (congrFun pointers other).trans (others other notIn)
      · obtain ⟨onward, -⟩ := released free segment apart
        exact onward.congr fun slab _ => congrFun pointers slab
      · exact MemorySystem.livePool_setArena isPool isLive _ _ other

/-- The law after a reset. -/
theorem reset (law : MemoryLaw state owner)
    (found : state.system.liveArena address = some arena) (next : SlabArena → Option SlabArena)
    (isNext : ∀ value, next value = some value ∨ next value = none) :
    ∃ owned, MemoryLaw
        { system := state.system.resetArena address arena next
          grants := Function.update state.grants address [] } owned ∧
      ∀ area, owned area ≠ some (.arena address) := by
  obtain ⟨slabs, isLaw⟩ := law.arenas address arena found
  have resets := law.resets found isLaw next
  generalize state.system.resetArena address arena next = after at resets
  obtain ⟨arenas, elsewhere, pools⟩ := resets
  -- Where an arena has slabs it has a pool, and else the pool does not matter.
  obtain ⟨place, isPlace⟩ : ∃ place, place = arena.m_pool.getD 0 := ⟨_, rfl⟩
  refine ⟨returnedTo owner address place slabs, ?_, fun area => returnedTo_ne area⟩
  have keeps (other : Nat) (live : LivePool) (isLive : state.system.livePool other = some live) :
      ∃ later, after.livePool other = some later ∧ live.pool.m_chunks ⊆ later.pool.m_chunks := by
    rcases pools with ⟨-, same⟩ | ⟨pool, value, later, -, isValue, -, chunks, -, pools⟩
    · exact ⟨live, (same other).trans isLive, List.Subset.refl _⟩
    · rw [pools]
      by_cases same : other = pool
      · subst same
        obtain rfl := Option.some.inj (isLive.symm.trans isValue)
        exact ⟨_, if_pos rfl, by rw [chunks]; exact List.Subset.refl _⟩
      · exact ⟨live, by rw [if_neg same]; exact isLive, List.Subset.refl _⟩
  have notOthers {holder : Holder} (notArena : holder ≠ .arena address) {slab : Nat}
      (isOwner : owner (slabArea slab) = some holder) : slab ∉ slabs := by
    intro member
    rw [(isLaw.owns _).mpr (.inl ⟨slab, member, rfl⟩)] at isOwner
    exact notArena (Option.some.inj isOwner).symm
  refine law.frame
    (fun holder => holder = .arena address ∨ slabs ≠ [] ∧ holder = .pool place)
    (returnedTo_apart law.apart) ?_ ?_ keeps ?_ ?_ ?_ ?_
  · intro holder untouched area
    rw [not_or, not_and_or, not_not] at untouched
    exact returnedTo_iff untouched.1 untouched.2 area
  · intro holder slab untouched isOwner
    rw [not_or] at untouched
    exact elsewhere slab (notOthers untouched.1 isOwner)
  · intro other live isLive
    change after.livePool other = some live at isLive
    rcases pools with ⟨none, same⟩ | ⟨pool, value, later, isPool, isValue, segment, chunks, sized,
      pools⟩
    · refine .inl ⟨?_, (same other).symm.trans isLive⟩
      rw [not_or, not_and_or, not_not]
      exact ⟨Holder.noConfusion, .inl none⟩
    · have isPool : place = pool := by
        rw [isPlace, isPool]
        rfl
      rw [pools] at isLive
      split at isLive
      next same =>
        cases isLive
        subst same isPool
        obtain ⟨free, poolLaw⟩ := law.pools place value isValue
        refine .inr ⟨slabs ++ free, ⟨segment free poolLaw.free ?_, ?_, ?_, ?_⟩⟩
        · intro slab member inFree
          exact notOthers Holder.noConfusion ((poolLaw.owns _).mpr ⟨slab, inFree, rfl⟩) member
        · intro slab member
          rcases List.mem_append.mp member with isMine | inFree
          · exact (isLaw.carved slab isMine).mono keeps
          · exact (poolLaw.carved slab inFree).mono keeps
        · intro area
          simp only [List.mem_append, or_and_right, exists_or]
          rw [returnedTo]
          split
          next isArena =>
            have notFree : ¬ ∃ slab ∈ free, slabArea slab = area := by
              rw [← poolLaw.owns, isArena]
              exact fun same => Holder.noConfusion (Option.some.inj same)
            rw [or_iff_left notFree]
            split
            next isSlab => exact iff_of_true rfl isSlab
            next notSlab => exact iff_of_false (Option.some_ne_none _).symm notSlab
          next notArena =>
            have notMine : ¬ ∃ slab ∈ slabs, slabArea slab = area := fun isSlab =>
              notArena ((isLaw.owns area).mpr (.inl isSlab))
            rw [poolLaw.owns, or_iff_right notMine]
        · show 0 < later.m_chunk_slabs
          rw [sized]
          exact poolLaw.sized
      next different =>
        refine .inl ⟨?_, isLive⟩
        rw [not_or, isPool]
        exact ⟨Holder.noConfusion, fun same => different (Holder.pool.inj same.2)⟩
  · intro other value isValue
    change after.liveArena other = some value at isValue
    rw [arenas] at isValue
    split at isValue
    next same =>
      subst same
      have isNew : value = { m_pool := arena.m_pool } := by
        rcases isNext { m_pool := arena.m_pool } with same | none
        · exact (Option.some.inj (same.symm.trans isValue)).symm
        · rw [none] at isValue
          cases isValue
      subst isNew
      refine .inr ⟨[], ?_⟩
      show ArenaLaw after _ other _ (Function.update state.grants other [] other) []
      rw [Function.update_self]
      refine .empty (fun area => returnedTo_ne area) fun pool isPool => ?_
      obtain ⟨live, isLive⟩ := isLaw.referred pool isPool
      obtain ⟨later, isLater, -⟩ := keeps pool live isLive
      exact ⟨later, isLater⟩
    next different =>
      refine .inl ⟨?_, isValue, Function.update_of_ne different ..⟩
      rw [not_or]
      exact ⟨fun same => different (Holder.arena.inj same), fun same => Holder.noConfusion same.2⟩
  · intro area holder isOwner
    have notArena : holder ≠ .arena address := by
      rintro rfl
      exact returnedTo_ne area isOwner
    have lives : state.system.Lives holder := by
      rw [returnedTo] at isOwner
      split at isOwner
      next =>
        split at isOwner
        next isSlab =>
          obtain rfl := Option.some.inj isOwner
          obtain ⟨slab, member, -⟩ := isSlab
          rcases pools with ⟨none, -⟩ | ⟨pool, live, -, isPool, isLive, -⟩
          · rw [none] at member
            exact absurd member List.not_mem_nil
          · rw [isPlace, isPool]
            show (state.system.livePool pool).isSome
            rw [isLive]
            rfl
        next => cases isOwner
      next => exact law.lives area holder isOwner
    cases holder with
    | pool other =>
        obtain ⟨live, isLive⟩ := Option.isSome_iff_exists.mp lives
        obtain ⟨later, isLater, -⟩ := keeps other live isLive
        show (after.livePool other).isSome
        rw [isLater]
        rfl
    | arena other =>
        show (after.liveArena other).isSome
        rw [arenas, if_neg fun same => notArena (by rw [same])]
        exact lives
  · intro other gone
    show Function.update state.grants address [] other = []
    by_cases same : other = address
    · rw [same, Function.update_self]
    · rw [Function.update_of_ne same]
      change after.liveArena other = none at gone
      rw [arenas, if_neg same] at gone
      exact law.ended other gone

end MemoryLaw

/-! ## Pools and arenas are made, and arenas are moved -/

/-- An arena under another address. -/
theorem ArenaLaw.renamed {system after : MemorySystem} {owner owned : Area → Option Holder}
    {address other : Nat} {arena : SlabArena} {grants : List Grant} {slabs : List Nat}
    (isLaw : ArenaLaw system owner other arena grants slabs) (pointers : after.next = system.next)
    (pools : ∀ place, after.livePool place = system.livePool place)
    (owns : ∀ area, owned area = some (.arena address) ↔ owner area = some (.arena other)) :
    ArenaLaw after owned address arena grants slabs :=
  { isLaw.moved pointers pools with
    owns := fun area => (owns area).trans (isLaw.owns area) }

namespace MemoryLaw

variable {state : GrantedMemory} {owner : Area → Option Holder} {address : Nat}

/-- Nobody owns anything under an address that is free. -/
theorem nothing (law : MemoryLaw state owner) {holder : Holder}
    (free : ¬ state.system.Lives holder) (area : Area) : owner area ≠ some holder :=
  fun isOwner => free (law.lives area holder isOwner)

/-- All that an arena has goes to another address. -/
theorem handedOn (law : MemoryLaw state owner) {other : Nat} {value : SlabArena}
    (found : state.system.liveArena other = some value) (different : address ≠ other)
    (nothing : ∀ area, owner area ≠ some (.arena address)) (after : MemorySystem)
    (pointers : after.next = state.system.next)
    (pools : ∀ place, after.livePool place = state.system.livePool place)
    (arenas : ∀ place, after.liveArena place =
      if place = other then some SlabArena.movedFrom
      else if place = address then some value else state.system.liveArena place) :
    ∃ owned, MemoryLaw { system := after, grants := state.handOn address other } owned := by
  obtain ⟨slabs, isLaw⟩ := law.arenas other value found
  obtain ⟨owned, isOwned⟩ : ∃ owned : Area → Option Holder, owned = fun area =>
      if owner area = some (.arena other) then some (.arena address) else owner area := ⟨_, rfl⟩
  have owns (area : Area) : owned area = some (.arena address) ↔
      owner area = some (.arena other) := by
    rw [isOwned]
    simp only
    split
    next isOther => exact iff_of_true rfl isOther
    next notOther => exact iff_of_false (nothing area) notOther
  have gone (area : Area) : owned area ≠ some (.arena other) := by
    rw [isOwned]
    simp only
    split
    next => exact fun same => different (Holder.arena.inj (Option.some.inj same))
    next notOther => exact notOther
  have kept {holder : Holder} (notOther : holder ≠ .arena other)
      (notNew : holder ≠ .arena address) (area : Area) :
      owned area = some holder ↔ owner area = some holder := by
    rw [isOwned]
    simp only
    split
    next isOther =>
      rw [isOther]
      exact iff_of_false (fun same => notNew (Option.some.inj same).symm)
        fun same => notOther (Option.some.inj same).symm
    next => exact Iff.rfl
  refine ⟨owned, law.frame (fun holder => holder = .arena address ∨ holder = .arena other)
    ?_ ?_ ?_ ?_ ?_ ?_ ?_ ?_⟩
  · refine law.apart.mono fun area isSome => ?_
    rw [isOwned] at isSome
    simp only at isSome
    split at isSome
    next isOther =>
      rw [isOther]
      rfl
    next => exact isSome
  · intro holder untouched area
    rw [not_or] at untouched
    exact kept untouched.2 untouched.1 area
  · exact fun _ slab _ _ => congrFun pointers slab
  · exact fun place live isLive => ⟨live, (pools place).trans isLive, List.Subset.refl _⟩
  · intro place live isLive
    refine .inl ⟨?_, (pools place).symm.trans isLive⟩
    rw [not_or]
    exact ⟨Holder.noConfusion, Holder.noConfusion⟩
  · intro place arena isArena
    change after.liveArena place = some arena at isArena
    rw [arenas] at isArena
    split at isArena
    next isOther =>
      cases isArena
      subst isOther
      refine .inr ⟨[], ?_⟩
      show ArenaLaw after owned place { m_pool := none } (state.handOn address place place) []
      rw [GrantedMemory.handOn, Function.update_self]
      exact .empty gone fun _ noPool => absurd noPool (Option.some_ne_none _).symm
    next notOther =>
      split at isArena
      next isNew =>
        cases isArena
        subst isNew
        refine .inr ⟨slabs, ?_⟩
        show ArenaLaw after owned place value (state.handOn place other place) slabs
        rw [GrantedMemory.handOn, Function.update_of_ne different, Function.update_self]
        exact isLaw.renamed pointers pools owns
      next notNew =>
        refine .inl ⟨?_, isArena, ?_⟩
        · rw [not_or]
          exact ⟨fun same => notNew (Holder.arena.inj same),
            fun same => notOther (Holder.arena.inj same)⟩
        · exact (Function.update_of_ne notOther ..).trans (Function.update_of_ne notNew ..)
  · intro area holder isOwner
    by_cases isNew : holder = .arena address
    · rw [isNew, MemorySystem.Lives, arenas, if_neg different, if_pos rfl]
      rfl
    · have notOther : holder ≠ .arena other := by
        rintro rfl
        exact gone area isOwner
      have lives := law.lives area holder ((kept notOther isNew area).mp isOwner)
      cases holder with
      | pool place =>
          rw [MemorySystem.Lives, pools]
          exact lives
      | arena place =>
          rw [MemorySystem.Lives, arenas, if_neg fun same => notOther (by rw [same]),
            if_neg fun same => isNew (by rw [same])]
          exact lives
  · intro place isGone
    change after.liveArena place = none at isGone
    rw [arenas] at isGone
    split at isGone
    next => cases isGone
    next notOther =>
      split at isGone
      next => cases isGone
      next notNew =>
        refine (Function.update_of_ne notOther ..).trans ?_
        exact (Function.update_of_ne notNew ..).trans (law.ended place isGone)

/-- A new arena has nothing. -/
theorem constructedArena (law : MemoryLaw state owner) {pool : Nat} {live : LivePool}
    (isLive : state.system.livePool pool = some live) {after : MemorySystem}
    (pointers : after.next = state.system.next)
    (pools : ∀ place, after.livePool place = state.system.livePool place)
    (free : state.system.liveArena address = none)
    (arenas : ∀ place, after.liveArena place =
      if place = address then some (.construct pool) else state.system.liveArena place) :
    MemoryLaw { system := after, grants := state.grants } owner := by
  refine law.arenaOnly pointers pools arenas (fun _ _ => rfl) law.apart (fun _ _ _ => Iff.rfl)
    (?_ : ArenaLaw _ _ _ _ _ [])
  show ArenaLaw after owner address { m_pool := some pool } (state.grants address) []
  rw [law.ended address free]
  refine .empty (law.nothing ?_) fun place isPlace => ?_
  · rw [MemorySystem.Lives, free]
    exact Bool.false_ne_true
  · obtain rfl := Option.some.inj isPlace
    exact ⟨live, (pools pool).trans isLive⟩

/-- A new pool has the slabs of its chunk. -/
theorem constructedPool (law : MemoryLaw state owner) {answers : MemoryAnswers}
    {initial_slabs chunk_slabs : Nat} {callbacks : MemoryCallbacks} {allow_growth : Bool}
    (fresh : state.system.Fresh (initial_slabs * slabSize) slabSize answers)
    {built : Memory × BlockPool}
    (isBuilt : built = BlockPool.construct callbacks initial_slabs chunk_slabs allow_growth answers
      state.system.memory) (live : LivePool) (isLive : live.pool = built.2)
    {after : MemorySystem} (pointers : after.next = built.1.next)
    (free : state.system.livePool address = none)
    (pools : ∀ place, after.livePool place =
      if place = address then some live else state.system.livePool place)
    (arenas : ∀ place, after.liveArena place = state.system.liveArena place) :
    ∃ owned, MemoryLaw { system := after, grants := state.grants } owned := by
  classical
  obtain ⟨sized, supplied⟩ := BlockPool.construct_supplies
    (fun raw_mem isMemory => (fresh raw_mem isMemory).2.2.1) isBuilt
  -- The slabs of the new pool, and where they are.
  obtain ⟨slabs, segment, others, new⟩ : ∃ slabs, Segment after.next built.2.m_head.ptr slabs ∧
      (∀ other, other ∉ slabs → after.next other = state.system.next other) ∧
      (slabs = [] ∨ ∃ chunk ∈ built.2.m_chunks, NewSlabs owner slabs chunk) := by
    rw [pointers]
    rcases supplied with ⟨none, -, same⟩ | ⟨raw_mem, isMemory, chunk, rfl, chunks, segment, others⟩
    · refine ⟨[], ?_, fun _ _ => by rw [same]; rfl, .inl rfl⟩
      rw [none]
      exact .nil
    · refine ⟨_, segment, others, .inr ⟨_, ?_, NewSlabs.of_fresh law fresh isMemory⟩⟩
      rw [chunks]
      exact List.mem_singleton_self _
  have nothing : ∀ area, owner area ≠ some (.pool address) := by
    refine law.nothing ?_
    rw [MemorySystem.Lives, free]
    exact Bool.false_ne_true
  have unowned {slab : Nat} (member : slab ∈ slabs) : owner (slabArea slab) = none := by
    rcases new with none | ⟨chunk, -, new⟩
    · rw [none] at member
      exact absurd member List.not_mem_nil
    · exact new.unowned member
  have keeps (place : Nat) (value : LivePool)
      (isValue : state.system.livePool place = some value) :
      ∃ later, after.livePool place = some later ∧ value.pool.m_chunks ⊆ later.pool.m_chunks := by
    refine ⟨value, ?_, List.Subset.refl _⟩
    rw [pools, if_neg ?_]
    · exact isValue
    · rintro rfl
      rw [free] at isValue
      cases isValue
  obtain ⟨owned, isOwned⟩ : ∃ owned : Area → Option Holder, owned = fun area =>
      if ∃ slab ∈ slabs, slabArea slab = area then some (.pool address) else owner area := ⟨_, rfl⟩
  have owns (area : Area) : owned area = some (.pool address) ↔
      ∃ slab ∈ slabs, slabArea slab = area := by
    rw [isOwned]
    simp only
    split
    next isSlab => exact iff_of_true rfl isSlab
    next notSlab => exact iff_of_false (nothing area) notSlab
  have kept {holder : Holder} (different : holder ≠ .pool address) (area : Area) :
      owned area = some holder ↔ owner area = some holder := by
    rw [isOwned]
    simp only
    split
    next isSlab =>
      obtain ⟨slab, member, rfl⟩ := isSlab
      rw [unowned member]
      exact iff_of_false (fun same => different (Option.some.inj same).symm)
        (Option.some_ne_none holder).symm
    next => exact Iff.rfl
  refine ⟨owned, law.frame (· = .pool address) ?_ ?_ ?_ keeps ?_ ?_ ?_ ?_⟩
  · refine law.apart.added (fun area => ∃ slab ∈ slabs, slabArea slab = area) ?_ ?_ ?_
    · intro area isSome
      rw [isOwned] at isSome
      simp only at isSome
      split at isSome
      next isSlab => exact .inl isSlab
      next => exact .inr isSome
    all_goals
      rcases new with none | ⟨chunk, -, new⟩
      · rw [none]
        rintro one other ⟨slab, member, -⟩
        exact absurd member List.not_mem_nil
    · rintro one other ⟨first, isFirst, rfl⟩ ⟨second, isSecond, rfl⟩ different
      exact new.apart isFirst isSecond fun same => different (by rw [same])
    · rintro one other ⟨first, isFirst, rfl⟩ isSome
      exact new.fresh first isFirst other isSome
  · exact fun holder different area => kept different area
  · intro holder slab _ isOwner
    refine others slab fun member => ?_
    rw [unowned member] at isOwner
    cases isOwner
  · intro place value isValue
    change after.livePool place = some value at isValue
    rw [pools] at isValue
    split at isValue
    next same =>
      cases isValue
      subst same
      rw [isLive]
      refine .inr ⟨slabs, segment, fun slab member => ?_, owns, sized⟩
      rcases new with none | ⟨chunk, isChunk, new⟩
      · rw [none] at member
        exact absurd member List.not_mem_nil
      · rw [new.slabs] at member
        refine ⟨place, live, chunk, ?_, ?_, new.inMemory, member⟩
        · rw [pools, if_pos rfl]
        · rw [isLive]
          exact isChunk
    next different =>
      exact .inl ⟨fun same => different (Holder.pool.inj same), isValue⟩
  · intro place arena isArena
    exact .inl ⟨Holder.noConfusion, (arenas place).symm.trans isArena, rfl⟩
  · intro area holder isOwner
    by_cases same : holder = .pool address
    · rw [same, MemorySystem.Lives, pools, if_pos rfl]
      rfl
    · have lives := law.lives area holder ((kept same area).mp isOwner)
      cases holder with
      | pool place =>
          rw [MemorySystem.Lives, pools, if_neg fun isPlace => same (by rw [isPlace])]
          exact lives
      | arena place =>
          rw [MemorySystem.Lives, arenas]
          exact lives
  · intro place gone
    exact law.ended place ((arenas place).symm.trans gone)

end MemoryLaw

/-! ## Runs -/

theorem SlabArena.allocateSpanIn_eq (arena : SlabArena) (around : Surroundings)
    {size count : Nat} (alignment : Nat) (isSize : size * count < 2 ^ 64) :
    arena.allocateSpanIn around size alignment count =
      arena.allocateIn around (size * count) alignment := by
  rw [allocateSpanIn, allocateSpan]
  split
  next none =>
    rw [none]
    rfl
  next => rw [u64_of_lt isSize, allocateIn]

namespace MemoryLaw

variable {state next : GrantedMemory} {owner : Area → Option Holder}

/-- An arena is moved over another one. -/
theorem assigned (law : MemoryLaw state owner) {arena other : Nat} {value moved : SlabArena}
    (found : state.system.liveArena arena = some value)
    (isMoved : state.system.liveArena other = some moved) (different : arena ≠ other) :
    ∃ owned, MemoryLaw
      { system :=
          { state.system.resetArena arena value some with
            arenas := ((state.system.resetArena arena value some).arenas.set arena
              (some moved)).set other (some SlabArena.movedFrom) }
        grants := state.handOn arena other } owned := by
  obtain ⟨slabs, isLaw⟩ := law.arenas arena value found
  have arenas := (law.resets found isLaw some).arenas
  obtain ⟨emptied, isEmptied, nothing⟩ := law.reset found some fun _ => .inl rfl
  generalize state.system.resetArena arena value some = system at arenas isEmptied
  have isNew : system.liveArena arena = some { m_pool := value.m_pool } := by
    rw [arenas, if_pos rfl]
  have isOther : system.liveArena other = some moved := by
    rw [arenas, if_neg (Ne.symm different)]
    exact isMoved
  have first (place : Nat) : ((system.arenas.set arena (some moved))[place]?).join =
      if place = arena then some moved else system.liveArena place :=
    join_getElem?_set isNew _ place
  have second : ((system.arenas.set arena (some moved))[other]?).join = some moved := by
    rw [first, if_neg (Ne.symm different)]
    exact isOther
  obtain ⟨owned, isOwned⟩ := isEmptied.handedOn isOther different nothing
    { system with
      arenas := (system.arenas.set arena (some moved)).set other (some SlabArena.movedFrom) }
    rfl (fun _ => rfl) fun place => by
      refine (join_getElem?_set second _ place).trans ?_
      rw [first]
  refine ⟨owned, ?_⟩
  have sameGrants : (GrantedMemory.handOn
      { system, grants := Function.update state.grants arena [] } arena other) =
      state.handOn arena other := by
    show Function.update (Function.update (Function.update state.grants arena []) arena
      (Function.update state.grants arena [] other)) other [] = _
    rw [Function.update_idem, Function.update_of_ne (Ne.symm different), GrantedMemory.handOn]
  rw [sameGrants] at isOwned
  exact isOwned

/-- Every call keeps the law. -/
theorem perform (law : MemoryLaw state owner) {call : MemoryCall}
    (fair : call.Allowed state.system) (stepped : state.perform call = some next) :
    ∃ owned, MemoryLaw next owned := by
  obtain ⟨system, performed, rfl⟩ := Option.map_eq_some_iff.mp stepped
  cases call with
  | constructPool callbacks initial_slabs chunk_slabs allow_growth answers =>
      rw [MemorySystem.perform, Option.ite_none_right_eq_some] at performed
      cases performed.2
      have isNew : state.system.livePool state.system.pools.length = none := by
        rw [MemorySystem.livePool, List.getElem?_eq_none le_rfl]
        rfl
      exact law.constructedPool fair rfl ⟨state.system.origins.length, _⟩ rfl rfl isNew
        (fun place => join_getElem?_append _ _ place) fun _ => rfl
  | constructArena pool =>
      obtain ⟨live, isLive, rfl⟩ := Option.map_eq_some_iff.mp performed
      have isNew : state.system.liveArena state.system.arenas.length = none := by
        rw [MemorySystem.liveArena, List.getElem?_eq_none le_rfl]
        rfl
      exact ⟨owner, law.constructedArena isLive rfl (fun _ => rfl) isNew
        fun place => join_getElem?_append _ _ place⟩
  | allocate arena bytes alignment answers =>
      rw [MemorySystem.perform, Option.ite_none_right_eq_some] at performed
      obtain ⟨value, found, rfl⟩ := Option.map_eq_some_iff.mp performed.2
      obtain ⟨-, owned, granted⟩ := law.allocated found fair rfl
      refine ⟨owned, ?_⟩
      rw [GrantedMemory.granted, found]
      exact granted
  | allocateSpan arena size alignment count answers =>
      rw [MemorySystem.perform, Option.ite_none_right_eq_some] at performed
      obtain ⟨value, found, rfl⟩ := Option.map_eq_some_iff.mp performed.2
      obtain ⟨isSize, request⟩ := fair
      have same := value.allocateSpanIn_eq (state.system.around value answers) alignment isSize
      obtain ⟨-, owned, granted⟩ := law.allocated found request same
      refine ⟨owned, ?_⟩
      rw [GrantedMemory.granted, found]
      exact granted
  | reset arena =>
      obtain ⟨value, found, rfl⟩ := Option.map_eq_some_iff.mp performed
      obtain ⟨owned, isOwned, -⟩ := law.reset found some fun _ => .inl rfl
      exact ⟨owned, isOwned⟩
  | moveArena other =>
      obtain ⟨value, found, rfl⟩ := Option.map_eq_some_iff.mp performed
      have isNew : state.system.liveArena state.system.arenas.length = none := by
        rw [MemorySystem.liveArena, List.getElem?_eq_none le_rfl]
        rfl
      refine law.handedOn found (?_ : state.system.arenas.length ≠ other) (law.nothing ?_) _ rfl
        (fun _ => rfl) fun place => ?_
      · rintro rfl
        rw [isNew] at found
        cases found
      · rw [MemorySystem.Lives, isNew]
        exact Bool.false_ne_true
      · refine (join_getElem?_append _ _ place).trans ?_
        rw [List.length_set, join_getElem?_set found]
        by_cases isLast : place = state.system.arenas.length
        · rw [if_pos isLast, if_pos isLast, if_neg ?_]
          rintro rfl
          rw [isLast, isNew] at found
          cases found
        · rw [if_neg isLast, if_neg isLast]
          rfl
  | assignArena arena other =>
      obtain ⟨value, found, assigned⟩ := Option.bind_eq_some_iff.mp performed
      obtain ⟨moved, isMoved, rfl⟩ := Option.map_eq_some_iff.mp assigned
      rw [GrantedMemory.granted]
      split
      next => exact ⟨owner, law⟩
      next different => exact law.assigned found isMoved different
  | destroyArena arena =>
      obtain ⟨value, found, rfl⟩ := Option.map_eq_some_iff.mp performed
      obtain ⟨owned, isOwned, -⟩ := law.reset found (fun _ => none) fun _ => .inr rfl
      exact ⟨owned, isOwned⟩
  | _ => exact fair.elim

end MemoryLaw

theorem memoryLaw_of_reachable {state : GrantedMemory}
    (reachable : grantedMemory.ReachableBy fairMemory state) : ∃ owner, MemoryLaw state owner := by
  refine reachable.invariant (motive := fun state => ∃ owner, MemoryLaw state owner) ?_ ?_
  · rintro state ⟨next, rfl⟩
    refine ⟨fun _ => none, ?_⟩
    constructor
    case apart => exact fun _ _ isSome => absurd isSome Bool.false_ne_true
    case pools => exact fun _ _ found => absurd found.symm (Option.some_ne_none _)
    case arenas => exact fun _ _ found => absurd found.symm (Option.some_ne_none _)
    case lives => exact fun _ _ isOwner => absurd isOwner.symm (Option.some_ne_none _)
    case ended => exact fun _ _ => rfl
  · rintro state call next ⟨owner, law⟩ fair stepped
    exact law.perform fair stepped

namespace MemoryLaw

variable {state : GrantedMemory} {owner : Area → Option Holder}

/-- Who has returned a block is not destroyed. -/
theorem grants_live (law : MemoryLaw state owner) {address : Nat} {grant : Grant}
    (member : grant ∈ state.grants address) :
    ∃ arena slabs, state.system.liveArena address = some arena ∧
      ArenaLaw state.system owner address arena (state.grants address) slabs := by
  obtain ⟨arena, found⟩ := Option.ne_none_iff_exists'.mp fun gone => by
    rw [law.ended address gone] at member
    exact List.not_mem_nil member
  obtain ⟨slabs, isLaw⟩ := law.arenas address arena found
  exact ⟨arena, slabs, found, isLaw⟩

/-- The blocks of one arena are apart. -/
theorem grants_pairwise (law : MemoryLaw state owner) (address : Nat) :
    (state.grants address).Pairwise fun one other => one.area.Apart other.area := by
  cases found : state.system.liveArena address with
  | none =>
      rw [law.ended address found]
      exact .nil
  | some arena =>
      obtain ⟨slabs, isLaw⟩ := law.arenas address arena found
      exact isLaw.apart

/-- The blocks of different arenas are apart. -/
theorem grants_apart (law : MemoryLaw state owner) {address other : Nat}
    (different : address ≠ other) {one two : Grant} (isOne : one ∈ state.grants address)
    (isTwo : two ∈ state.grants other) : one.area.Apart two.area := by
  obtain ⟨first, _, -, firstLaw⟩ := law.grants_live isOne
  obtain ⟨second, _, -, secondLaw⟩ := law.grants_live isTwo
  obtain ⟨outer, isOuter, within⟩ := firstLaw.outer isOne
  obtain ⟨around, isAround, inAround⟩ := secondLaw.outer isTwo
  refine (law.apart outer around (by rw [isOuter]; rfl) (by rw [isAround]; rfl) ?_).within within
    inAround
  rintro rfl
  exact different (Holder.arena.inj (Option.some.inj (isOuter.symm.trans isAround)))

end MemoryLaw

/-! ## Blocks never overlap -/

/-- The slabs of an arena form its chain, its blocks lie in their payloads or behind the headers of
its oversized blocks, and `reset` puts exactly this chain on the freelist of the pool. -/
structure ArenaInOrder (state : GrantedMemory) (address : Nat) (arena : SlabArena)
    (slabs : List Nat) : Prop where
  chain : IsSlabChain state.system.next arena.m_head_slab arena.m_tail_slab arena.m_slab_count slabs
  distinct : slabs.Nodup
  inside : ∀ grant ∈ state.grants address,
    (∃ slab ∈ slabs, slab + headerSize ≤ grant.area.start ∧ grant.area.stop ≤ slab + slabSize) ∨
      ∃ block ∈ arena.m_oversized, block.raw_ptr + oversizedHeader ≤ grant.area.start ∧
        grant.area.stop ≤ block.raw_ptr + block.total_bytes
  reset : ∀ after, state.system.perform (.reset address) = some after →
    after.liveArena address = some { m_pool := arena.m_pool } ∧
      ∀ pool live, arena.m_pool = some pool → state.system.livePool pool = some live →
        ∃ free later, Segment state.system.next live.pool.m_head.ptr free ∧
          (∀ slab ∈ slabs, slab ∉ free) ∧ after.livePool pool = some later ∧
          Segment after.next later.pool.m_head.ptr (slabs ++ free)

/-- The blocks that arenas have returned. -/
structure BlocksApart (state : GrantedMemory) : Prop where
  apart : ∀ address,
    (state.grants address).Pairwise fun one other => one.area.Apart other.area
  others : ∀ address other, address ≠ other → ∀ one ∈ state.grants address,
    ∀ two ∈ state.grants other, one.area.Apart two.area
  aligned : ∀ address, ∀ grant ∈ state.grants address, grant.alignment ∣ grant.area.start
  arenas : ∀ address arena, state.system.liveArena address = some arena →
    ∃ slabs, ArenaInOrder state address arena slabs
  refused : ∀ address arena bytes alignment answers,
    state.system.liveArena address = some arena →
    state.system.Request address bytes alignment answers →
    (arena.allocateIn (state.system.around arena answers) bytes alignment).result = 0 →
    (arena.allocateIn (state.system.around arena answers) bytes alignment).arena = arena

theorem MemoryLaw.inOrder {state : GrantedMemory} {owner : Area → Option Holder}
    (law : MemoryLaw state owner) {address : Nat} {arena : SlabArena}
    (found : state.system.liveArena address = some arena) {slabs : List Nat}
    (isLaw : ArenaLaw state.system owner address arena (state.grants address) slabs) :
    ArenaInOrder state address arena slabs where
  chain := isLaw.chain
  distinct := isLaw.distinct
  inside := by
    intro grant member
    rcases isLaw.gives grant member with ⟨slab, isSlab, above, below, -⟩ | isOversized
    · exact .inl ⟨slab, isSlab, above, below⟩
    · exact .inr isOversized
  reset := by
    intro after performed
    obtain ⟨value, isValue, rfl⟩ := Option.map_eq_some_iff.mp performed
    obtain rfl := Option.some.inj (found.symm.trans isValue)
    obtain ⟨arenas, elsewhere, pools⟩ := law.resets found isLaw some
    refine ⟨by rw [arenas, if_pos rfl], fun pool live isPool isLive => ?_⟩
    obtain ⟨free, poolLaw⟩ := law.pools pool live isLive
    have apart : ∀ slab ∈ slabs, slab ∉ free := by
      intro slab member inFree
      have isArena := (isLaw.owns _).mpr (.inl ⟨slab, member, rfl⟩)
      rw [(poolLaw.owns _).mpr ⟨slab, inFree, rfl⟩] at isArena
      cases isArena
    rcases pools with ⟨none, same⟩ | ⟨place, before, later, isPlace, isBefore, segment, -, -, pools⟩
    · refine ⟨free, live, poolLaw.free, apart, (same pool).trans isLive, ?_⟩
      rw [none, List.nil_append]
      refine poolLaw.free.congr fun slab member => elsewhere slab ?_
      rw [none]
      exact List.not_mem_nil
    · obtain rfl := Option.some.inj (isPlace.symm.trans isPool)
      obtain rfl := Option.some.inj (isBefore.symm.trans isLive)
      refine ⟨free, { before with pool := later }, poolLaw.free, apart, ?_,
        segment free poolLaw.free apart⟩
      rw [pools, if_pos rfl]

/-- In every run of arenas over pools whose callbacks return fresh memory, the blocks that were
returned and not given back by a reset are apart. -/
theorem arena_blocks_apart {state : GrantedMemory}
    (reachable : grantedMemory.ReachableBy fairMemory state) : BlocksApart state := by
  obtain ⟨owner, law⟩ := memoryLaw_of_reachable reachable
  constructor
  case apart => exact law.grants_pairwise
  case others =>
    intro address other different one isOne two isTwo
    exact law.grants_apart different isOne isTwo
  case aligned =>
    intro address grant member
    obtain ⟨arena, slabs, -, isLaw⟩ := law.grants_live member
    exact isLaw.aligned grant member
  case arenas =>
    intro address arena found
    obtain ⟨slabs, isLaw⟩ := law.arenas address arena found
    exact ⟨slabs, law.inOrder found isLaw⟩
  case refused =>
    intro address arena bytes alignment answers found request
    exact (law.allocated found request rfl).1

/-- Two blocks in one slab, one in a slab of a new chunk, and one of the callbacks, moved to another
arena. -/
theorem arena_blocks_apart_four : ∃ state, (state.grants 1).length = 4 ∧ BlocksApart state := by
  have fresh : grantedMemory.ReachableBy fairMemory { system := { next := fun _ => none } } :=
    .start ⟨_, rfl⟩
  obtain ⟨state, reachable, happened⟩ : ∃ state,
      grantedMemory.ReachableBy fairMemory state ∧ (state.grants 1).length = 4 :=
    fresh.exists_of_run
      [.constructPool { alloc := some 1, free := some 2 } 1 1 true { memory := some 65536 },
        .constructArena 0, .allocate 0 100 8 {}, .allocate 0 200 64 {},
        .allocate 0 65000 16 { memory := some 131072 },
        .allocateSpan 0 100 128 1000 { memory := some 1048576 }, .moveArena 0]
      (by decide +kernel)
  exact ⟨state, happened, arena_blocks_apart reachable⟩

end LightFlow
