import LightFlow.Lib.Counting
import LightFlow.Memory.MemorySystem

/-!
# The callbacks are called in pairs

For each line of pools, the blocks that were allocated are those that were freed and those that
live pools and arenas still hold.  Each operation changes the three together.
-/

namespace LightFlow

/-- What the counts of the arenas use of a pool. -/
def LivePool.card (live : LivePool) : Nat × MemoryCallbacks := (live.line, live.pool.m_callbacks)

/-- The cards of the pools by their addresses. -/
def cardAt (pools : List (Option LivePool)) (address : Nat) : Option (Nat × MemoryCallbacks) :=
  (pools[address]?).join.map LivePool.card

/-- How often the pool at an address holds a block of the line. -/
def poolCount (line : Nat) (block : MemoryBlock) (slot : Option LivePool) : Nat :=
  slot.elim 0 fun live => if live.line = line then live.pool.held.count block else 0

/-- How often an arena holds a block with such a pool behind it. -/
def cardCount (line : Nat) (block : MemoryBlock) (arena : SlabArena)
    (card : Option (Nat × MemoryCallbacks)) : Nat :=
  card.elim 0 fun card => if card.1 = line then (arena.held card.2).count block else 0

/-- How often the arena at an address holds a block of the line. -/
def arenaCount (pools : List (Option LivePool)) (line : Nat) (block : MemoryBlock)
    (slot : Option SlabArena) : Nat :=
  slot.elim 0 fun arena => cardCount line block arena (arena.m_pool.bind (cardAt pools))

/-- How often all of them hold it. -/
def heldCount (pools : List (Option LivePool)) (arenas : List (Option SlabArena)) (line : Nat)
    (block : MemoryBlock) : Nat :=
  (pools.map (poolCount line block)).sum + (arenas.map (arenaCount pools line block)).sum

/-- The calls of the callbacks of a line. -/
def logOf (ledger : List (Option Nat × MemoryEvent)) (line : Nat) : List MemoryEvent :=
  ledger.filterMap fun entry => if entry.1 = some line then some entry.2 else none

/-- The pools that the arenas refer to live. -/
def Referred (pools : List (Option LivePool)) (arenas : List (Option SlabArena)) : Prop :=
  ∀ arena, some arena ∈ arenas → ∀ pool, arena.m_pool = some pool →
    ∃ live, pools[pool]? = some (some live)

section Counts

variable {pools : List (Option LivePool)} {arenas : List (Option SlabArena)} {address : Nat}
  {live : LivePool}

theorem logOf_entries (line : Option Nat) (log : List MemoryEvent)
    (ledger : List (Option Nat × MemoryEvent)) (other : Nat) :
    logOf (MemorySystem.entries line log ++ ledger) other =
      (if line = some other then log else []) ++ logOf ledger other := by
  rw [logOf, List.filterMap_append, MemorySystem.entries, List.filterMap_map]
  congr 1
  split
  next same => simp [same]
  next different => simp [different]

theorem cardAt_set (found : pools[address]? = some (some live)) {next : LivePool}
    (same : next.card = live.card) : cardAt (pools.set address (some next)) = cardAt pools := by
  funext other
  simp only [cardAt, List.getElem?_set]
  by_cases isOther : address = other
  · subst isOther
    have inside : address < pools.length := by
      by_contra outside
      rw [List.getElem?_eq_none (by omega)] at found
      cases found
    have value := (List.getElem?_eq_some_iff.mp found).2
    simp [inside, value, same]
  · simp [isOther]

theorem cardAt_append {added : Option LivePool} (known : ∃ live, pools[address]? = some live) :
    cardAt (pools ++ [added]) address = cardAt pools address := by
  obtain ⟨live, found⟩ := known
  have inside := (List.getElem?_eq_some_iff.mp found).1
  simp only [cardAt, List.getElem?_append_left inside]

/-- A call on one pool. -/
theorem heldCount_setPool (found : pools[address]? = some (some live)) {next : LivePool}
    (same : next.card = live.card) (line : Nat) (block : MemoryBlock) :
    heldCount (pools.set address (some next)) arenas line block +
        poolCount line block (some live) =
      heldCount pools arenas line block + poolCount line block (some next) := by
  have changed := Counting.sum_map_set found (poolCount line block) (some next)
  have counts : arenaCount (pools.set address (some next)) line block =
      arenaCount pools line block := by
    funext slot
    simp only [arenaCount, cardAt_set found same]
  simp only [heldCount, counts]
  omega

/-- A new pool. -/
theorem heldCount_addPool (referred : Referred pools arenas) (added : LivePool) (line : Nat)
    (block : MemoryBlock) : heldCount (pools ++ [some added]) arenas line block =
      heldCount pools arenas line block + poolCount line block (some added) := by
  have counts : (arenas.map (arenaCount (pools ++ [some added]) line block)).sum =
      (arenas.map (arenaCount pools line block)).sum := by
    refine Counting.sum_map_congr fun slot member => ?_
    cases slot with
    | none => rfl
    | some arena =>
        simp only [arenaCount, Option.elim_some]
        cases isPool : arena.m_pool with
        | none => rfl
        | some pool =>
            obtain ⟨live, found⟩ := referred arena member pool isPool
            simp only [Option.bind_some, cardAt_append ⟨_, found⟩]
  simp only [heldCount, counts, List.map_append, List.sum_append, List.map_cons, List.map_nil,
    List.sum_cons, List.sum_nil]
  omega

/-- A pool that no arena refers to is gone. -/
theorem heldCount_removePool (found : pools[address]? = some (some live))
    (unreferenced : ∀ arena, some arena ∈ arenas → arena.m_pool ≠ some address) (line : Nat)
    (block : MemoryBlock) :
    heldCount (pools.set address none) arenas line block + poolCount line block (some live) =
      heldCount pools arenas line block := by
  have changed := Counting.sum_map_set found (poolCount line block) none
  have counts : (arenas.map (arenaCount (pools.set address none) line block)).sum =
      (arenas.map (arenaCount pools line block)).sum := by
    refine Counting.sum_map_congr fun slot member => ?_
    cases slot with
    | none => rfl
    | some arena =>
        simp only [arenaCount, Option.elim_some]
        cases isPool : arena.m_pool with
        | none => rfl
        | some pool =>
            have different : address ≠ pool := fun same =>
              unreferenced arena member (by rw [isPool, same])
            simp only [Option.bind_some, cardAt, List.getElem?_set_ne different]
  have gone : poolCount line block none = 0 := rfl
  simp only [heldCount, counts]
  omega

/-- A call on one arena. -/
theorem heldCount_setArena {slot next : Option SlabArena} (found : arenas[address]? = some slot)
    (line : Nat) (block : MemoryBlock) :
    heldCount pools (arenas.set address next) line block + arenaCount pools line block slot =
      heldCount pools arenas line block + arenaCount pools line block next := by
  have changed := Counting.sum_map_set found (arenaCount pools line block) next
  simp only [heldCount]
  omega

/-- A new arena. -/
theorem heldCount_addArena (added : Option SlabArena) (line : Nat) (block : MemoryBlock) :
    heldCount pools (arenas ++ [added]) line block =
      heldCount pools arenas line block + arenaCount pools line block added := by
  simp only [heldCount, List.map_append, List.sum_append, List.map_cons, List.map_nil,
    List.sum_cons, List.sum_nil]
  omega

/-- An arena without oversized blocks holds none. -/
theorem arenaCount_eq_zero {arena : SlabArena} (none : arena.m_oversized = []) (line : Nat)
    (block : MemoryBlock) : arenaCount pools line block (some arena) = 0 := by
  simp only [arenaCount, Option.elim_some]
  cases arena.m_pool.bind (cardAt pools) with
  | none => rfl
  | some card => simp [cardCount, SlabArena.held, none]

/-- Where no pool of the line lives, nothing is held. -/
theorem heldCount_eq_zero (referred : Referred pools arenas) {line : Nat}
    (destroyed : ∀ live, some live ∈ pools → live.line ≠ line) (block : MemoryBlock) :
    heldCount pools arenas line block = 0 := by
  have noPool : (pools.map (poolCount line block)).sum = 0 := by
    refine Counting.sum_map_eq_zero fun slot member => ?_
    cases slot with
    | none => rfl
    | some live => exact if_neg (destroyed live member)
  have noArena : (arenas.map (arenaCount pools line block)).sum = 0 := by
    refine Counting.sum_map_eq_zero fun slot member => ?_
    cases slot with
    | none => rfl
    | some arena =>
        simp only [arenaCount, Option.elim_some]
        cases isPool : arena.m_pool with
        | none => rfl
        | some pool =>
            obtain ⟨live, found⟩ := referred arena member pool isPool
            have card : (some pool).bind (cardAt pools) = some live.card := by
              simp only [Option.bind_some, cardAt, found, Option.join_some, Option.map_some]
            rw [card]
            exact if_neg (destroyed live (List.mem_of_getElem? found))
  rw [heldCount, noPool, noArena]

/-- References stay good where a pool is overwritten by a pool. -/
theorem referred_setPool (referred : Referred pools arenas) (address : Nat) (next : LivePool) :
    Referred (pools.set address (some next)) arenas := by
  intro arena member pool isPool
  obtain ⟨other, found⟩ := referred arena member pool isPool
  by_cases same : address = pool
  · subst same
    have inside := (List.getElem?_eq_some_iff.mp found).1
    exact ⟨next, by simp [inside]⟩
  · exact ⟨other, by rw [List.getElem?_set_ne same, found]⟩

/-- They stay good where an arena is overwritten by one with the same pool. -/
theorem referred_setArena (referred : Referred pools arenas) (address : Nat)
    {next : Option SlabArena}
    (good : ∀ rest, next = some rest → ∀ pool, rest.m_pool = some pool →
      ∃ live, pools[pool]? = some (some live)) :
    Referred pools (arenas.set address next) := by
  intro other member
  rcases List.mem_or_eq_of_mem_set member with old | written
  · exact referred other old
  · exact good other written.symm

end Counts

/-- What holds between two operations. -/
structure InBalance (system : MemorySystem) : Prop where
  referred : Referred system.pools system.arenas
  lines : ∀ live, some live ∈ system.pools → live.line < system.origins.length
  entered : ∀ entry ∈ system.ledger, ∀ line, entry.1 = some line → line < system.origins.length
  law : ∀ line block, (allocations (logOf system.ledger line)).count block =
    (frees (logOf system.ledger line)).count block +
      heldCount system.pools system.arenas line block
  buffer : ∀ line, system.origins[line]? = some .buffer →
    allocations (logOf system.ledger line) = [] ∧
      ∀ live, some live ∈ system.pools → live.line = line →
        live.pool.m_callbacks.isValid = false

namespace MemorySystem

variable {system : MemorySystem} {address : Nat} {live : LivePool}

theorem pools_of_livePool (found : system.livePool address = some live) :
    system.pools[address]? = some (some live) := Option.join_eq_some_iff.mp found

theorem arenas_of_liveArena {arena : SlabArena} (found : system.liveArena address = some arena) :
    system.arenas[address]? = some (some arena) := Option.join_eq_some_iff.mp found

/-- Pools after one of them was overwritten. -/
theorem mem_set_pool {pools : List (Option LivePool)} {written : Option LivePool}
    {other : LivePool} (member : some other ∈ pools.set address written) :
    some other ∈ pools ∨ written = some other :=
  (List.mem_or_eq_of_mem_set member).imp id Eq.symm

/-- The entries that a call adds to the ledger. -/
theorem entered_append (balanced : InBalance system) {line : Option Nat}
    (known : ∀ other, line = some other → other < system.origins.length)
    (log : List MemoryEvent) :
    ∀ entry ∈ entries line log ++ system.ledger, ∀ other, entry.1 = some other →
      other < system.origins.length := by
  intro entry member other named
  rcases List.mem_append.mp member with added | old
  · obtain ⟨event, -, rfl⟩ := List.mem_map.mp added
    exact known other named
  · exact balanced.entered entry old other named

/-- A call on a pool keeps the balance. -/
theorem setPool_balanced (balanced : InBalance system)
    (found : system.livePool address = some live) {called : Memory × BlockPool}
    (balances : Balances called.1.log live.pool.held called.2.held)
    (callbacks : called.2.m_callbacks = live.pool.m_callbacks)
    (quiet : live.pool.m_callbacks.isValid = false → allocations called.1.log = []) :
    InBalance (system.setPool address live called) := by
  have place := pools_of_livePool found
  have isMember := List.mem_of_getElem? place
  have same : LivePool.card { live with pool := called.2 } = live.card := by
    simp only [LivePool.card, callbacks]
  refine ⟨referred_setPool balanced.referred _ _, fun other member => ?_, ?_, fun line block => ?_,
    fun line isBuffer => ?_⟩
  · rcases mem_set_pool member with old | written
    · exact balanced.lines other old
    · cases written
      exact balanced.lines live isMember
  · exact entered_append balanced (fun other named => by
      cases named
      exact balanced.lines live isMember) _
  · have law := balanced.law line block
    have counts := @heldCount_setPool _ system.arenas _ _ place _ same line block
    simp only [setPool, logOf_entries]
    by_cases isLine : live.line = line
    · have change := balances block
      simp only [poolCount, Option.elim_some, isLine, ↓reduceIte] at counts
      simp only [isLine, ↓reduceIte, allocations_append, frees_append, List.count_append]
      omega
    · simp only [poolCount, Option.elim_some, isLine, ↓reduceIte] at counts
      simp only [isLine, Option.some.injEq, ↓reduceIte, List.nil_append]
      omega
  · obtain ⟨noAllocations, invalid⟩ := balanced.buffer line isBuffer
    simp only [setPool, logOf_entries]
    constructor
    · rw [allocations_append, noAllocations, List.append_nil]
      split
      next isLine =>
        exact quiet (invalid live isMember (Option.some.inj isLine))
      next => rfl
    · intro other member isLine
      rcases mem_set_pool member with old | written
      · exact invalid other old isLine
      · cases written
        rw [callbacks]
        exact invalid live isMember isLine

/-- A new pool holds what was allocated for it. -/
theorem addPool_balanced (balanced : InBalance system) {origin : PoolOrigin}
    {built : Memory × BlockPool} (balances : Balances built.1.log [] built.2.held)
    (quiet : origin = .buffer → built.1.log = [] ∧ built.2.m_callbacks.isValid = false) :
    InBalance (system.addPool origin built) := by
  have isLast (line : Nat) : (system.origins ++ [origin])[line]? = some .buffer →
      system.origins[line]? = some .buffer ∨ line = system.origins.length ∧ origin = .buffer := by
    intro isBuffer
    rcases Nat.lt_trichotomy line system.origins.length with old | new | none
    · rw [List.getElem?_append_left old] at isBuffer
      exact .inl isBuffer
    · subst new
      exact .inr ⟨rfl, by simpa using isBuffer⟩
    · rw [List.getElem?_eq_none (by simp; omega)] at isBuffer
      cases isBuffer
  have mem_pools (live : LivePool)
      (member : some live ∈ system.pools ++ [some ⟨system.origins.length, built.2⟩]) :
      some live ∈ system.pools ∨ live = ⟨system.origins.length, built.2⟩ := by
    simpa using member
  -- The new line has no older entries.
  have noEntries : logOf system.ledger system.origins.length = [] := by
    refine List.filterMap_eq_nil_iff.mpr fun entry member => ?_
    split
    next isLine => exact absurd (balanced.entered entry member _ isLine) (lt_irrefl _)
    next => rfl
  refine ⟨fun arena member pool isPool => ?_, fun live member => ?_, fun entry member line named =>
    ?_, fun line block => ?_, fun line isBuffer => ?_⟩
  · obtain ⟨live, found⟩ := balanced.referred arena member pool isPool
    have inside := (List.getElem?_eq_some_iff.mp found).1
    exact ⟨live, by simp only [addPool, List.getElem?_append_left inside, found]⟩
  · simp only [addPool, List.length_append, List.length_singleton]
    rcases mem_pools live member with old | rfl
    · exact (balanced.lines live old).trans (Nat.lt_succ_self _)
    · exact Nat.lt_succ_self _
  · simp only [addPool, List.length_append, List.length_singleton]
    rcases List.mem_append.mp member with added | old
    · obtain ⟨event, -, rfl⟩ := List.mem_map.mp added
      cases named
      exact Nat.lt_succ_self _
    · exact (balanced.entered entry old line named).trans (Nat.lt_succ_self _)
  · have law := balanced.law line block
    simp only [addPool, logOf_entries, heldCount_addPool balanced.referred, poolCount,
      Option.elim_some]
    by_cases isLine : system.origins.length = line
    · have change := balances block
      simp only [isLine, ↓reduceIte, allocations_append, frees_append, List.count_append,
        List.count_nil] at change ⊢
      omega
    · simp only [isLine, Option.some.injEq, ↓reduceIte, List.nil_append]
      omega
  · simp only [addPool, logOf_entries]
    rcases isLast line isBuffer with old | ⟨rfl, isNew⟩
    · obtain ⟨noAllocations, invalid⟩ := balanced.buffer line old
      have before := (List.getElem?_eq_some_iff.mp old).1
      refine ⟨?_, fun live member isLine => ?_⟩
      · rw [if_neg fun same => absurd (Option.some.inj same) (by omega), List.nil_append]
        exact noAllocations
      · rcases mem_pools live member with old | rfl
        · exact invalid live old isLine
        · exact absurd isLine (by simp only; omega)
    · obtain ⟨noEvents, invalid⟩ := quiet isNew
      refine ⟨by simp [noEvents, noEntries], fun live member isLine => ?_⟩
      rcases mem_pools live member with old | rfl
      · exact absurd isLine (Nat.ne_of_lt (balanced.lines live old))
      · exact invalid

/-- A pool that is moved takes its chunks along. -/
theorem movePool_balanced (balanced : InBalance system)
    (found : system.livePool address = some live) :
    InBalance { system with
      pools := system.pools.set address (some { live with pool := (BlockPool.move live.pool).2 })
        ++ [some { live with pool := (BlockPool.move live.pool).1 }] } := by
  have place := pools_of_livePool found
  have isMember := List.mem_of_getElem? place
  obtain ⟨heldNew, heldOld⟩ := BlockPool.move_held live.pool
  have referred := referred_setPool balanced.referred address
    { live with pool := (BlockPool.move live.pool).2 }
  have mem_pools (other : LivePool)
      (member : some other ∈ system.pools.set address
        (some { live with pool := (BlockPool.move live.pool).2 }) ++
          [some { live with pool := (BlockPool.move live.pool).1 }]) :
      some other ∈ system.pools ∨ other.line = live.line ∧
        other.pool.m_callbacks = live.pool.m_callbacks := by
    rcases List.mem_append.mp member with old | new
    · rcases mem_set_pool old with old | written
      · exact .inl old
      · cases written
        exact .inr ⟨rfl, rfl⟩
    · cases List.mem_singleton.mp new
      exact .inr ⟨rfl, rfl⟩
  refine ⟨fun arena member pool isPool => ?_, fun other member => ?_, balanced.entered,
    fun line block => ?_, fun line isBuffer => ?_⟩
  · obtain ⟨other, found⟩ := referred arena member pool isPool
    have inside := (List.getElem?_eq_some_iff.mp found).1
    exact ⟨other, by rw [List.getElem?_append_left inside, found]⟩
  · rcases mem_pools other member with old | ⟨sameLine, -⟩
    · exact balanced.lines other old
    · rw [sameLine]
      exact balanced.lines live isMember
  · have law := balanced.law line block
    have counts := @heldCount_setPool _ system.arenas _ _ place
      { live with pool := (BlockPool.move live.pool).2 } rfl line block
    rw [heldCount_addPool referred]
    simp only [poolCount, Option.elim_some, heldNew, heldOld, List.count_nil, ite_self] at counts ⊢
    omega
  · obtain ⟨noAllocations, invalid⟩ := balanced.buffer line isBuffer
    refine ⟨noAllocations, fun other member isLine => ?_⟩
    rcases mem_pools other member with old | ⟨sameLine, callbacks⟩
    · exact invalid other old isLine
    · rw [callbacks]
      exact invalid live isMember (sameLine.symm.trans isLine)

/-- The destructor of a pool frees what the pool holds. -/
theorem destroyPool_balanced (balanced : InBalance system)
    (found : system.livePool address = some live)
    (unreferenced : system.unreferenced address = true) :
    InBalance { system with
      next := (live.pool.destroy system.memory).next
      pools := system.pools.set address none
      ledger := entries (some live.line) (live.pool.destroy system.memory).log ++
        system.ledger } := by
  have place := pools_of_livePool found
  have isMember := List.mem_of_getElem? place
  have noReference (arena : SlabArena) (member : some arena ∈ system.arenas) :
      arena.m_pool ≠ some address := by
    have := List.all_eq_true.mp unreferenced (some arena) member
    simpa using this
  have mem_pools (other : LivePool) (member : some other ∈ system.pools.set address none) :
      some other ∈ system.pools := (mem_set_pool member).resolve_right (by simp)
  have log : (live.pool.destroy system.memory).log = (live.pool.held.map .freed).reverse := by
    rw [BlockPool.destroy_log]
    exact List.append_nil _
  refine ⟨fun arena member pool isPool => ?_, fun other member =>
    balanced.lines other (mem_pools other member), ?_, fun line block => ?_,
    fun line isBuffer => ?_⟩
  · obtain ⟨other, found⟩ := balanced.referred arena member pool isPool
    have different : address ≠ pool := fun same => noReference arena member (by rw [isPool, same])
    exact ⟨other, by rw [List.getElem?_set_ne different, found]⟩
  · exact entered_append balanced (fun other named => by
      cases named
      exact balanced.lines live isMember) _
  · have law := balanced.law line block
    have counts := heldCount_removePool place noReference line block
    obtain ⟨noAllocations, freed⟩ := count_freed live.pool.held block
    simp only [logOf_entries, log]
    by_cases isLine : live.line = line
    · simp only [poolCount, Option.elim_some, isLine, ↓reduceIte] at counts
      simp only [isLine, ↓reduceIte, allocations_append, frees_append, List.count_append,
        noAllocations, freed]
      omega
    · simp only [poolCount, Option.elim_some, isLine, ↓reduceIte] at counts
      simp only [isLine, Option.some.injEq, ↓reduceIte, List.nil_append]
      omega
  · obtain ⟨noAllocations, invalid⟩ := balanced.buffer line isBuffer
    refine ⟨?_, fun other member => invalid other (mem_pools other member)⟩
    simp only [logOf_entries, log, allocations_append, noAllocations, List.append_nil]
    split
    · refine List.eq_nil_iff_forall_not_mem.mpr fun block member => ?_
      have some := List.count_pos_iff.mpr member
      rw [(count_freed _ block).1] at some
      exact lt_irrefl _ some
    · rfl

/-- A call on an arena keeps the balance, also where its destructor ran last. -/
theorem setArena_balanced (balanced : InBalance system) {arena : SlabArena}
    (found : system.liveArena address = some arena) {after : Memory} {pool : Option BlockPool}
    {rest : SlabArena}
    (keeps : arena.Keeps ((system.behind arena).map (·.pool)) after pool rest)
    (quiet : ∀ live, system.behind arena = some live → live.pool.m_callbacks.isValid = false →
      allocations after.log = [])
    {next : Option SlabArena} (written : next = some rest ∨ next = none ∧ rest.m_oversized = []) :
    InBalance (system.setArena address arena after pool next) := by
  have place := arenas_of_liveArena found
  have isMember := List.mem_of_getElem? place
  obtain ⟨balances, callbacks, samePool⟩ := keeps
  have good (rest' : SlabArena) (isNext : next = some rest') (pool : Nat)
      (isPool : rest'.m_pool = some pool) : ∃ live, system.pools[pool]? = some (some live) := by
    rcases written with rfl | ⟨rfl, -⟩
    · cases isNext
      exact balanced.referred arena isMember pool (samePool.symm.trans isPool)
    · cases isNext
  have counted (pools : List (Option LivePool)) (line : Nat) (block : MemoryBlock) :
      arenaCount pools line block next = arenaCount pools line block (some rest) := by
    rcases written with rfl | ⟨rfl, none⟩
    · rfl
    · rw [arenaCount_eq_zero none]
      rfl
  cases isBehind : system.behind arena with
  | none =>
      have same : system.setArena address arena after pool next =
          { system with
            next := after.next
            arenas := system.arenas.set address next
            ledger := entries none after.log ++ system.ledger } := by
        cases isPool : arena.m_pool <;> simp only [setArena, isBehind, isPool, Option.map_none]
      rw [same]
      refine ⟨referred_setArena balanced.referred address good, balanced.lines,
        entered_append balanced (fun _ named => by cases named) _, fun line block => ?_,
        fun line isBuffer => ?_⟩
      · have law := balanced.law line block
        have counts := @heldCount_setArena system.pools _ _ _ next place line block
        have noCard : arena.m_pool.bind (cardAt system.pools) = none := by
          cases isPool : arena.m_pool with
          | none => rfl
          | some pool =>
              obtain ⟨live, found⟩ := balanced.referred arena isMember pool isPool
              simp [behind, isPool, livePool, found] at isBehind
        rw [counted] at counts
        simp only [arenaCount, Option.elim_some, samePool, noCard, cardCount,
          Option.elim_none] at counts
        simp only [logOf_entries, reduceCtorEq, ↓reduceIte, List.nil_append]
        omega
      · simpa only [logOf_entries, reduceCtorEq, ↓reduceIte, List.nil_append] using
          balanced.buffer line isBuffer
  | some live =>
      rw [isBehind] at balances callbacks
      obtain ⟨next', rfl, sameCallbacks⟩ := Option.map_eq_some_iff.mp callbacks
      obtain ⟨index, isPool, foundPool⟩ := Option.bind_eq_some_iff.mp isBehind
      have placePool := pools_of_livePool foundPool
      have isPoolMember := List.mem_of_getElem? placePool
      have sameCard : LivePool.card { live with pool := next' } = live.card := by
        simp only [LivePool.card]
        rw [sameCallbacks]
      have same : system.setArena address arena after (some next') next =
          { system with
            next := after.next
            pools := system.pools.set index (some { live with pool := next' })
            arenas := system.arenas.set address next
            ledger := entries (some live.line) after.log ++ system.ledger } := by
        simp only [setArena, isBehind, isPool, Option.map_some]
      rw [same]
      refine ⟨referred_setPool (referred_setArena balanced.referred address good) _ _,
        fun other member => ?_, ?_, fun line block => ?_, fun line isBuffer => ?_⟩
      · rcases mem_set_pool member with old | isNext
        · exact balanced.lines other old
        · cases isNext
          exact balanced.lines live isPoolMember
      · exact entered_append balanced (fun other named => by
          cases named
          exact balanced.lines live isPoolMember) _
      · have law := balanced.law line block
        have arenaCounts := @heldCount_setArena system.pools _ _ _ next place line block
        have poolCounts := @heldCount_setPool _ (system.arenas.set address next) _ _ placePool _
          sameCard line block
        have change := balances block
        have card : (some index).bind (cardAt system.pools) = some live.card := by
          simp only [Option.bind_some, cardAt, placePool, Option.join_some, Option.map_some]
        rw [counted] at arenaCounts
        simp only [arenaCount, Option.elim_some, samePool, isPool, card, cardCount,
          LivePool.card] at arenaCounts
        simp only [poolCount, Option.elim_some] at poolCounts
        simp only [SlabArena.heldBehind, Option.map_some, Option.elim_some, sameCallbacks,
          List.count_append] at change
        simp only [logOf_entries]
        by_cases isLine : live.line = line
        · simp only [isLine, ↓reduceIte] at arenaCounts poolCounts
          simp only [isLine, ↓reduceIte, allocations_append, frees_append, List.count_append]
          omega
        · simp only [isLine, ↓reduceIte] at arenaCounts poolCounts
          simp only [isLine, Option.some.injEq, ↓reduceIte, List.nil_append]
          omega
      · obtain ⟨noAllocations, invalid⟩ := balanced.buffer line isBuffer
        simp only [logOf_entries]
        constructor
        · rw [allocations_append, noAllocations, List.append_nil]
          split
          next isLine =>
            exact quiet live isBehind (invalid live isPoolMember (Option.some.inj isLine))
          next => rfl
        · intro other member isLine
          rcases mem_set_pool member with old | isNext
          · exact invalid other old isLine
          · cases isNext
            rw [sameCallbacks]
            exact invalid live isPoolMember isLine

/-- Arenas may be moved as long as they hold the same together. -/
theorem setArenas_balanced (balanced : InBalance system) {arenas : List (Option SlabArena)}
    (referred : Referred system.pools arenas)
    (held : ∀ line block, heldCount system.pools arenas line block =
      heldCount system.pools system.arenas line block) :
    InBalance { system with arenas } :=
  ⟨referred, balanced.lines, balanced.entered, fun line block => by
    rw [held]
    exact balanced.law line block, balanced.buffer⟩

/-- A new arena over a pool. -/
theorem constructArena_balanced (balanced : InBalance system)
    (found : system.livePool address = some live) :
    InBalance { system with arenas := system.arenas ++ [some (.construct address)] } := by
  refine setArenas_balanced balanced (fun arena member pool isPool => ?_) fun line block => ?_
  · rcases List.mem_append.mp member with old | new
    · exact balanced.referred arena old pool isPool
    · cases List.mem_singleton.mp new
      cases isPool
      exact ⟨live, pools_of_livePool found⟩
  · rw [heldCount_addArena, arenaCount_eq_zero rfl, Nat.add_zero]

/-- An arena moved into a new one. -/
theorem moveArena_balanced (balanced : InBalance system) {value : SlabArena}
    (found : system.liveArena address = some value) :
    InBalance { system with
      arenas := system.arenas.set address (some SlabArena.movedFrom) ++ [some value] } := by
  have place := arenas_of_liveArena found
  refine setArenas_balanced balanced (fun arena member pool isPool => ?_) fun line block => ?_
  · rcases List.mem_append.mp member with old | new
    · refine referred_setArena balanced.referred address ?_ arena old pool isPool
      intro rest isRest pool isPool
      cases isRest
      cases isPool
    · cases List.mem_singleton.mp new
      exact balanced.referred value (List.mem_of_getElem? place) pool isPool
  · have counts := @heldCount_setArena system.pools _ _ _ (some SlabArena.movedFrom) place line
      block
    have none : arenaCount system.pools line block (some SlabArena.movedFrom) = 0 :=
      arenaCount_eq_zero rfl line block
    rw [heldCount_addArena]
    omega

/-- An arena moved into one that holds nothing. -/
theorem moveInto_balanced (balanced : InBalance system) {other : Nat} {empty moved : SlabArena}
    (found : system.arenas[address]? = some (some empty)) (none : empty.m_oversized = [])
    (foundOther : system.arenas[other]? = some (some moved)) (different : address ≠ other) :
    InBalance { system with
      arenas := (system.arenas.set address (some moved)).set other
        (some SlabArena.movedFrom) } := by
  refine setArenas_balanced balanced ?_ fun line block => ?_
  · refine referred_setArena (referred_setArena balanced.referred address ?_) other ?_
    · intro rest isRest pool isPool
      cases isRest
      exact balanced.referred moved (List.mem_of_getElem? foundOther) pool isPool
    · intro rest isRest pool isPool
      cases isRest
      cases isPool
  · have written := @heldCount_setArena system.pools _ _ _ (some moved) found line block
    have stays : (system.arenas.set address (some moved))[other]? = some (some moved) := by
      rw [List.getElem?_set_ne different, foundOther]
    have emptied := @heldCount_setArena system.pools _ _ _ (some SlabArena.movedFrom) stays line
      block
    have nothing : arenaCount system.pools line block (some empty) = 0 :=
      arenaCount_eq_zero none line block
    have left : arenaCount system.pools line block (some SlabArena.movedFrom) = 0 :=
      arenaCount_eq_zero rfl line block
    omega

/-- `reset()` and the destructor keep the balance. -/
theorem resetArena_balanced (balanced : InBalance system) {value : SlabArena}
    (found : system.liveArena address = some value) (next : SlabArena → Option SlabArena)
    (written : next = some ∨ next = fun _ => none) :
    InBalance (system.resetArena address value next) := by
  refine setArena_balanced balanced found (SlabArena.reset_keeps rfl)
    (fun _ _ _ => (SlabArena.reset_quiet rfl).1) ?_
  rcases written with rfl | rfl
  · exact .inl rfl
  · exact .inr ⟨rfl, (SlabArena.reset_quiet rfl).2⟩

/-- Every operation keeps the balance. -/
theorem perform_balanced (balanced : InBalance system) {call : MemoryCall} {next : MemorySystem}
    (performed : system.perform call = some next) : InBalance next := by
  have fresh : system.memory.log = [] := rfl
  cases call with
  | constructPool callbacks initial_slabs chunk_slabs allow_growth answers =>
      simp only [perform, Option.ite_none_right_eq_some] at performed
      obtain ⟨proper, performed⟩ := performed
      cases performed
      exact addPool_balanced balanced (BlockPool.construct_balances proper fresh ..).1 nofun
  | fromBuffer buffer bytes answers =>
      cases performed
      obtain ⟨log, held, callbacks⟩ := @BlockPool.fromBuffer_balances answers _ fresh buffer bytes
      refine addPool_balanced balanced ?_ fun _ => ⟨log, by rw [callbacks]; rfl⟩
      rw [log, held]
      exact .refl
  | movePool other =>
      obtain ⟨live, found, rfl⟩ := Option.map_eq_some_iff.mp performed
      exact movePool_balanced balanced found
  | destroyPool pool =>
      simp only [perform, Option.ite_none_right_eq_some] at performed
      obtain ⟨unreferenced, performed⟩ := performed
      obtain ⟨live, found, rfl⟩ := Option.map_eq_some_iff.mp performed
      exact destroyPool_balanced balanced found unreferenced
  | acquireSlab pool answers =>
      simp only [perform, Option.ite_none_right_eq_some] at performed
      obtain ⟨proper, performed⟩ := performed
      obtain ⟨live, found, rfl⟩ := Option.map_eq_some_iff.mp performed
      obtain ⟨balances, callbacks⟩ := BlockPool.acquireSlab_balances proper fresh live.pool
      refine setPool_balanced balanced found balances callbacks fun invalid => ?_
      rw [BlockPool.acquireSlab_quiet invalid]
      rfl
  | releaseSlabChain pool head tail count =>
      obtain ⟨live, found, rfl⟩ := Option.map_eq_some_iff.mp performed
      obtain ⟨log, held, callbacks⟩ :=
        live.pool.releaseSlabChain_keeps head tail count system.memory
      refine setPool_balanced balanced found ?_ callbacks fun _ => by rw [log]; rfl
      rw [log, held]
      exact .refl
  | constructArena pool =>
      obtain ⟨live, found, rfl⟩ := Option.map_eq_some_iff.mp performed
      exact constructArena_balanced balanced found
  | allocate arena bytes alignment answers =>
      simp only [perform, Option.ite_none_right_eq_some] at performed
      obtain ⟨proper, performed⟩ := performed
      obtain ⟨value, found, rfl⟩ := Option.map_eq_some_iff.mp performed
      refine setArena_balanced balanced found (SlabArena.allocate_keeps proper fresh ..)
        (fun live isBehind invalid => ?_) (.inl rfl)
      simp only [isBehind, Option.map_some]
      rw [SlabArena.allocate_quiet invalid]
      rfl
  | allocateSpan arena size alignment count answers =>
      simp only [perform, Option.ite_none_right_eq_some] at performed
      obtain ⟨proper, performed⟩ := performed
      obtain ⟨value, found, rfl⟩ := Option.map_eq_some_iff.mp performed
      refine setArena_balanced balanced found (SlabArena.allocateSpan_keeps proper fresh ..)
        (fun live isBehind invalid => ?_) (.inl rfl)
      simp only [isBehind, Option.map_some]
      rw [SlabArena.allocateSpan_quiet invalid]
      rfl
  | reset arena =>
      obtain ⟨value, found, rfl⟩ := Option.map_eq_some_iff.mp performed
      exact resetArena_balanced balanced found some (.inl rfl)
  | moveArena other =>
      obtain ⟨value, found, rfl⟩ := Option.map_eq_some_iff.mp performed
      exact moveArena_balanced balanced found
  | assignArena arena other =>
      obtain ⟨value, found, performed⟩ := Option.bind_eq_some_iff.mp performed
      obtain ⟨moved, foundOther, rfl⟩ := Option.map_eq_some_iff.mp performed
      by_cases isSelf : arena = other
      · rw [if_pos isSelf]
        exact balanced
      · rw [if_neg isSelf]
        have inside := (List.getElem?_eq_some_iff.mp (arenas_of_liveArena found)).1
        refine @moveInto_balanced _ arena
          (resetArena_balanced balanced found some (.inl rfl)) other
          (value.reset ((system.behind value).map (·.pool)) system.memory).2.2 moved ?_ rfl ?_
          isSelf
        · exact List.getElem?_set_self inside
        · exact (List.getElem?_set_ne isSelf).trans (arenas_of_liveArena foundOther)
  | destroyArena arena =>
      obtain ⟨value, found, rfl⟩ := Option.map_eq_some_iff.mp performed
      exact resetArena_balanced balanced found _ (.inr rfl)

end MemorySystem

/-- In every run, the three counts are in balance. -/
theorem inBalance_of_reachable {system : MemorySystem}
    (reachable : memorySystem.Reachable system) : InBalance system := by
  refine reachable.invariant (fun system initial => ?_) fun system call next balanced _ performed =>
    @MemorySystem.perform_balanced _ balanced call next performed
  obtain ⟨next, rfl⟩ := initial
  exact ⟨nofun, nofun, nofun, fun _ _ => rfl, nofun⟩

/-- In every run, the calls of `free` for a line of pools are among its calls of `alloc`, with
the same pointer, byte count, alignment and user data.  When the pools of the line are destroyed,
they are these calls, one for one.  Pools on a buffer never call `free`. -/
theorem callbacks_balance {system : MemorySystem} (reachable : memorySystem.Reachable system)
    (line : Nat) :
    (frees (logOf system.ledger line)).Subperm (allocations (logOf system.ledger line)) ∧
      ((∀ live, some live ∈ system.pools → live.line ≠ line) →
        (frees (logOf system.ledger line)).Perm (allocations (logOf system.ledger line))) ∧
      (system.origins[line]? = some .buffer → frees (logOf system.ledger line) = []) := by
  have balanced := inBalance_of_reachable reachable
  have law := balanced.law line
  refine ⟨?_, fun destroyed => ?_, fun isBuffer => ?_⟩
  · refine List.subperm_ext_iff.mpr fun block _ => ?_
    have := law block
    omega
  · refine List.perm_iff_count.mpr fun block => ?_
    have nothing := heldCount_eq_zero balanced.referred destroyed block
    have := law block
    omega
  · refine List.eq_nil_iff_forall_not_mem.mpr fun block member => ?_
    have some := List.count_pos_iff.mpr member
    have := law block
    rw [(balanced.buffer line isBuffer).1, List.count_nil] at this
    omega

/-- A pool with one chunk, and an arena with an oversized block, moved once. -/
theorem callbacks_balance_run : ∃ system, memorySystem.Reachable system ∧
    (frees (logOf system.ledger 0)).length = 2 ∧
    (frees (logOf system.ledger 0)).Perm (allocations (logOf system.ledger 0)) := by
  have found : ∃ system, memorySystem.Reachable system ∧
      (system.pools = [none] ∧ (frees (logOf system.ledger 0)).length = 2) :=
    Machine.ReachableBy.exists_of_run (.start ⟨fun _ => none, rfl⟩)
      [.constructPool ⟨some 1, some 2, some 3⟩ 2 0 true { memory := some 65536 },
        .constructArena 0, .allocate 0 100000 16 { memory := some 1048576 }, .moveArena 0,
        .destroyArena 1, .destroyArena 0, .destroyPool 0] (by decide +kernel)
  obtain ⟨system, reachable, destroyed, two⟩ := found
  refine ⟨system, reachable, two, (callbacks_balance reachable 0).2.1 fun live member => ?_⟩
  rw [destroyed] at member
  simp at member

end LightFlow
