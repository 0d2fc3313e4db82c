import LightFlow.Lib.Machine
import LightFlow.Memory.SlabArena

/-!
# Requests of any size

A request is served right when the block lies in what the current slab has left, in a slab
just acquired, or in an oversized block just allocated, and when a request that is refused
leaves the arena as it was.  The sums of `allocate` wrap before they are compared: on the bump
path and in the size of an oversized block, a sum that wraps passes for a small one.
-/

namespace LightFlow

/-- A slab lies at an aligned address of the address space. -/
structure IsSlab (slab : Nat) : Prop where
  aligned : cachelineSize ∣ slab
  notNull : 0 < slab
  inSpace : slab + slabSize ≤ 2 ^ 64

/-- What a request meets: the pool, the answers from outside and the memory. -/
structure Surroundings where
  pool : Option BlockPool
  answers : MemoryAnswers
  memory : Memory

namespace Surroundings

/-- The slab that `acquire_slab` returns. -/
def acquired (around : Surroundings) : Option Nat :=
  around.pool.bind fun pool => (pool.acquireSlab around.answers around.memory).2.2

/-- The memory that the callbacks return for an oversized block. -/
def oversized (around : Surroundings) : Option Nat :=
  SlabArena.oversizedMemory around.pool around.answers

/-- The pool is the one of the arena and returns slabs, and `alloc` returns a block of the size
it was asked for. -/
structure Proper (around : Surroundings) (arena : SlabArena) (bytes alignment : Nat) : Prop where
  pool : around.pool.isSome = arena.m_pool.isSome
  slab : ∀ slab, around.acquired = some slab → IsSlab slab
  block : ∀ raw_mem, around.oversized = some raw_mem →
    isSlabRequest bytes (raisedAlignment alignment) = false →
    0 < raw_mem ∧ raw_mem + oversizedBytes bytes (raisedAlignment alignment) ≤ 2 ^ 64

end Surroundings

namespace SlabArena

/-- Bytes of the current slab that are handed out, with its header. -/
def taken (arena : SlabArena) (slab : Nat) : Nat := u64Sub arena.m_bump_ptr slab

/-- The bump pointer stands in the payload of the current slab. -/
structure Placed (arena : SlabArena) : Prop where
  isSlab : ∀ slab, arena.m_current_slab = some slab → IsSlab slab
  ending : ∀ slab, arena.m_current_slab = some slab → arena.m_bump_end = u64 (slab + slabSize)
  payload : ∀ slab, arena.m_current_slab = some slab →
    headerSize ≤ arena.taken slab ∧ arena.taken slab ≤ slabSize
  chained : arena.m_current_slab.isSome → arena.m_head_slab.isSome ∧ arena.m_pool.isSome
  bump : arena.m_bump_ptr < 2 ^ 64
  count : arena.m_slab_count < 2 ^ 64
  bytes : arena.m_allocated_bytes < 2 ^ 64

/-- A request for a block of `size` bytes, as an unbounded number, was served right.  The bump
pointer moves forward in its slab, and starts in the payload of a slab just acquired. -/
inductive Served (arena : SlabArena) (around : Surroundings) (size : Nat)
    (returned : ArenaReturn) : Prop where
  | refused : returned.result = 0 → returned.arena = arena → Served arena around size returned
  | current {slab : Nat} : arena.m_current_slab = some slab →
      returned.arena.m_current_slab = some slab →
      returned.arena.m_slab_count = arena.m_slab_count →
      slab + arena.taken slab ≤ returned.result →
      returned.result + size ≤ slab + returned.arena.taken slab →
      returned.arena.taken slab ≤ slabSize → Served arena around size returned
  | acquired {slab : Nat} : around.acquired = some slab →
      returned.arena.m_current_slab = some slab →
      returned.arena.m_slab_count = u64 (arena.m_slab_count + 1) →
      slab + headerSize ≤ returned.result →
      returned.result + size ≤ slab + returned.arena.taken slab →
      returned.arena.taken slab ≤ slabSize → Served arena around size returned
  | oversized {block : OversizedBlock} : around.oversized = some block.raw_ptr →
      returned.arena.m_oversized = block :: arena.m_oversized →
      returned.arena.m_current_slab = arena.m_current_slab →
      returned.arena.m_bump_ptr = arena.m_bump_ptr →
      block.raw_ptr + oversizedHeader ≤ returned.result →
      returned.result + size ≤ block.raw_ptr + block.total_bytes →
      Served arena around size returned

/-- The sums that decide the request do not wrap.  A slab at the very end of the address space
has the end pointer 0, with which only an exact fit passes the test. -/
def SumsFit (arena : SlabArena) (around : Surroundings) (bytes alignment : Nat) : Prop :=
  bytes = 0 ∨
    if arena.fitsCurrent bytes alignment then
      arena.m_bump_ptr + (alignment - 1) < 2 ^ 64 ∧
        (arena.m_bump_end = 0 ∨ alignUp arena.m_bump_ptr alignment + bytes < 2 ^ 64)
    else if isSlabRequest bytes alignment then True
    else around.oversized = none ∨ bytes + oversizedHeader + alignment < 2 ^ 64

/-- Nothing is there to serve the request from. -/
def NoSupply (arena : SlabArena) (around : Surroundings) (bytes alignment : Nat) : Prop :=
  bytes = 0 ∨
    arena.fitsCurrent bytes alignment = false ∧
      if isSlabRequest bytes alignment then around.acquired = none else around.oversized = none

instance (arena : SlabArena) (around : Surroundings) (bytes alignment : Nat) :
    Decidable (arena.SumsFit around bytes alignment) :=
  inferInstanceAs (Decidable (_ ∨ _))

instance (arena : SlabArena) (around : Surroundings) (bytes alignment : Nat) :
    Decidable (arena.NoSupply around bytes alignment) :=
  inferInstanceAs (Decidable (_ ∨ _))

/-- A call of `allocate`. -/
def allocateIn (arena : SlabArena) (around : Surroundings) (bytes alignment : Nat) :
    ArenaReturn :=
  arena.allocate bytes alignment around.answers around.pool around.memory

/-- A call of `allocate_span`. -/
def allocateSpanIn (arena : SlabArena) (around : Surroundings) (size alignment count : Nat) :
    ArenaReturn :=
  arena.allocateSpan size alignment count around.answers around.pool around.memory

/-! ## The three ways through `allocate` -/

section Ways

variable {arena : SlabArena} {around : Surroundings} {bytes alignment : Nat}

theorem allocateIn_noSupply
    (noSupply : arena.NoSupply around bytes (raisedAlignment alignment)) :
    (arena.allocateIn around bytes alignment).result = 0 ∧
      (arena.allocateIn around bytes alignment).arena = arena := by
  rcases noSupply with zero | ⟨misfit, none⟩
  · simp [allocateIn, allocate, zero]
  · by_cases zero : bytes = 0
    · simp [allocateIn, allocate, zero]
    · simp only [allocateIn, allocate, zero, misfit, ↓reduceIte, allocateSlow]
      split at none
      next small =>
        rw [if_pos small]
        simp only [Surroundings.acquired] at none
        cases inPool : around.pool with
        | none => simp [allocateSlab]
        | some pool =>
            rw [inPool, Option.bind_some] at none
            generalize answered : pool.acquireSlab around.answers around.memory = answer at none
            obtain ⟨memory, rest, slab⟩ := answer
            cases none
            simp [allocateSlab, answered]
      next large =>
        rw [if_neg large]
        simp only [Surroundings.oversized] at none
        simp [allocateOversized, none]

theorem allocateIn_current (some : 0 < bytes)
    (fits : arena.fitsCurrent bytes (raisedAlignment alignment) = true) :
    (arena.allocateIn around bytes alignment).result =
        alignUp arena.m_bump_ptr (raisedAlignment alignment) ∧
      (arena.allocateIn around bytes alignment).arena =
        { arena with
          m_bump_ptr := u64 (alignUp arena.m_bump_ptr (raisedAlignment alignment) + bytes)
          m_allocated_bytes := u64 (arena.m_allocated_bytes + bytes) } := by
  simp [allocateIn, allocate, some.ne', fits]

theorem allocateIn_acquired {slab : Nat} (some : 0 < bytes)
    (misfit : arena.fitsCurrent bytes (raisedAlignment alignment) = false)
    (small : isSlabRequest bytes (raisedAlignment alignment) = true)
    (acquired : around.acquired = Option.some slab) :
    let aligned_addr := alignUp (u64 (slab + headerSize)) (raisedAlignment alignment)
    (arena.allocateIn around bytes alignment).result = aligned_addr ∧
      (arena.allocateIn around bytes alignment).arena =
        { arena with
          m_head_slab := Option.some slab
          m_tail_slab := Option.some (arena.m_tail_slab.getD slab)
          m_current_slab := Option.some slab
          m_bump_ptr := u64 (aligned_addr + bytes)
          m_bump_end := u64 (slab + slabSize)
          m_slab_count := u64 (arena.m_slab_count + 1)
          m_allocated_bytes := u64 (arena.m_allocated_bytes + bytes) } := by
  simp only [Surroundings.acquired] at acquired
  obtain ⟨pool, inPool, answered⟩ := Option.bind_eq_some_iff.mp acquired
  generalize called : pool.acquireSlab around.answers around.memory = answer at answered
  obtain ⟨memory, rest, newSlab⟩ := answer
  cases answered
  simp [allocateIn, allocate, some.ne', misfit, allocateSlow, small, allocateSlab, inPool, called]

theorem allocateIn_oversized {raw_mem : Nat} (some : 0 < bytes)
    (misfit : arena.fitsCurrent bytes (raisedAlignment alignment) = false)
    (large : isSlabRequest bytes (raisedAlignment alignment) = false)
    (answered : around.oversized = Option.some raw_mem) :
    (arena.allocateIn around bytes alignment).result =
        alignUp (u64 (raw_mem + oversizedHeader)) (raisedAlignment alignment) ∧
      (arena.allocateIn around bytes alignment).arena =
        { arena with
          m_oversized := ⟨raw_mem, oversizedBytes bytes (raisedAlignment alignment),
            if cachelineSize < raisedAlignment alignment then raisedAlignment alignment
            else cachelineSize⟩ :: arena.m_oversized
          m_allocated_bytes := u64 (arena.m_allocated_bytes + bytes) } := by
  simp only [Surroundings.oversized] at answered
  simp [allocateIn, allocate, some.ne', misfit, allocateSlow, large, allocateOversized, answered]

end Ways

/-! ## When each of them is right -/

theorem raisedAlignment_pow (exponent : Nat) :
    raisedAlignment (2 ^ exponent) = 2 ^ max exponent 4 := by
  rw [raisedAlignment, show maxAlign = 2 ^ 4 from rfl]
  by_cases low : exponent < 4
  · rw [if_pos (Nat.pow_lt_pow_right (by decide) low), max_eq_right low.le]
  · have high : (2 : Nat) ^ 4 ≤ 2 ^ exponent := Nat.pow_le_pow_right (by decide) (by omega)
    rw [if_neg (by omega), max_eq_left (by omega)]

section Right

variable {arena : SlabArena} {around : Surroundings} {bytes size exponent : Nat}

/-- The bump pointer wraps only at the end of the address space. -/
theorem Placed.position (placed : arena.Placed) {slab : Nat}
    (current : arena.m_current_slab = some slab) :
    arena.m_bump_ptr = slab + arena.taken slab ∨
      arena.m_bump_ptr = 0 ∧ slab + arena.taken slab = 2 ^ 64 ∧ arena.m_bump_end = 0 := by
  have ending := placed.ending slab current
  have inPayload := placed.payload slab current
  have inSpace := (placed.isSlab slab current).inSpace
  have isAddress := placed.bump
  simp only [taken, u64Sub, u64] at *
  split at inPayload <;> split <;> omega

/-- A position up to the end of the address space is found again behind its slab. -/
theorem offset_of_position {slab position : Nat} (notNull : 0 < slab) (behind : slab ≤ position)
    (inSpace : position ≤ 2 ^ 64) : u64Sub (u64 position) slab = position - slab := by
  rcases Nat.lt_or_eq_of_le inSpace with inside | atEnd
  · rw [u64_of_lt inside, u64Sub_of_le behind]
  · rw [atEnd, show u64 (2 ^ 64) = 0 from rfl, u64Sub, if_neg (by omega), Nat.zero_add]

/-- A wrapped sum changes the counter of the bytes. -/
theorem allocated_ne {count : Nat} (some : 0 < bytes)
    (isSize : bytes < 2 ^ 64) : u64 (count + bytes) ≠ count := by
  simp only [u64]
  omega

variable (placed : arena.Placed) (some : 0 < bytes) (isSize : bytes < 2 ^ 64)

include placed some isSize in
theorem served_current (small : exponent < 64)
    (fits : arena.fitsCurrent bytes (2 ^ exponent) = true) {returned : ArenaReturn}
    (result : returned.result = alignUp arena.m_bump_ptr (2 ^ exponent))
    (next : returned.arena =
      { arena with
        m_bump_ptr := u64 (alignUp arena.m_bump_ptr (2 ^ exponent) + bytes)
        m_allocated_bytes := u64 (arena.m_allocated_bytes + bytes) }) :
    arena.Served around bytes returned ↔
      arena.m_bump_ptr + (2 ^ exponent - 1) < 2 ^ 64 ∧
        (arena.m_bump_end = 0 ∨ alignUp arena.m_bump_ptr (2 ^ exponent) + bytes < 2 ^ 64) := by
  obtain ⟨slab, current⟩ : ∃ slab, arena.m_current_slab = Option.some slab :=
    Option.isSome_iff_exists.mp (by simp_all [fitsCurrent])
  have test : u64 (alignUp arena.m_bump_ptr (2 ^ exponent) + bytes) ≤ arena.m_bump_end := by
    simp_all [fitsCurrent]
  obtain ⟨-, notNull, inSpace⟩ := placed.isSlab slab current
  have ending := placed.ending slab current
  have changed := @allocated_ne bytes arena.m_allocated_bytes some isSize
  constructor
  · intro served
    have unwrapped : arena.m_bump_ptr + (2 ^ exponent - 1) < 2 ^ 64 := by
      by_contra wraps
      have null := alignUp_of_wraps small placed.bump (by omega)
      cases served with
      | refused _ same =>
          rw [next] at same
          exact changed (congrArg SlabArena.m_allocated_bytes same)
      | current held _ _ above =>
          have := (placed.isSlab _ held).notNull
          omega
      | acquired _ _ _ above => simp only [headerSize, cachelineSize] at above; omega
      | oversized _ _ _ _ above => simp only [oversizedHeader] at above; omega
    refine ⟨unwrapped, ?_⟩
    by_contra wraps
    obtain ⟨hasEnd, wraps⟩ := not_or.mp wraps
    have nextTaken (other : Nat) (held : returned.arena.m_current_slab = Option.some other)
        (below : returned.result + bytes ≤ other + returned.arena.taken other)
        (room : returned.arena.taken other ≤ slabSize) : False := by
      have same : other = slab := by
        rw [next] at held
        exact Option.some.inj (held.symm.trans current)
      subst same
      simp only [u64] at *
      omega
    cases served with
    | refused _ same =>
        rw [next] at same
        exact changed (congrArg SlabArena.m_allocated_bytes same)
    | current _ held _ _ below room => exact nextTaken _ held below room
    | acquired _ held _ _ below room => exact nextTaken _ held below room
    | oversized _ added =>
        rw [next] at added
        exact absurd (congrArg List.length added) (by simp)
  · rintro ⟨unwrapped, fit⟩
    obtain ⟨above, -⟩ := alignUp_of_fits small.le unwrapped
    have isAddress := @alignUp_lt arena.m_bump_ptr exponent small.le
    have nullStays : arena.m_bump_ptr = 0 → alignUp arena.m_bump_ptr (2 ^ exponent) = 0 := by
      rintro null
      rw [null]
      exact alignUp_of_dvd small.le (Nat.dvd_zero _) (by decide)
    generalize alignUp arena.m_bump_ptr (2 ^ exponent) = aligned at *
    have position := placed.position current
    have onward : slab + arena.taken slab ≤ aligned ∧ aligned + bytes ≤ slab + slabSize := by
      simp only [u64] at *
      omega
    have taken : returned.arena.taken slab = aligned + bytes - slab := by
      rw [next]
      exact offset_of_position notNull (by omega) (by omega)
    refine .current current (by rw [next]; exact current) (by rw [next]) ?_ ?_ ?_
    · rw [result]
      exact onward.1
    · rw [result, taken]
      omega
    · rw [taken]
      omega

/-- A slab just acquired has room for every request that is not oversized. -/
theorem served_acquired {slab : Nat} (isSlab : IsSlab slab) {exponent : Nat}
    (small : isSlabRequest bytes (2 ^ exponent) = true)
    (acquired : around.acquired = Option.some slab) {returned : ArenaReturn}
    (result : returned.result = alignUp (u64 (slab + headerSize)) (2 ^ exponent))
    (current : returned.arena.m_current_slab = Option.some slab)
    (count : returned.arena.m_slab_count = u64 (arena.m_slab_count + 1))
    (bump : returned.arena.m_bump_ptr = u64 (returned.result + bytes)) :
    arena.Served around bytes returned := by
  obtain ⟨aligned, notNull, inSpace⟩ := isSlab
  simp only [isSlabRequest, Bool.and_eq_true, decide_eq_true_eq] at small
  obtain ⟨room, few⟩ := small
  have fewBits : exponent ≤ 6 := by
    by_contra many
    have := Nat.pow_lt_pow_right (show 1 < 2 by decide) (show 6 < exponent by omega)
    simp only [cachelineSize] at few
    omega
  have payload : slab + headerSize < 2 ^ 64 := by
    simp only [headerSize, cachelineSize, slabSize] at *
    omega
  have divides : 2 ^ exponent ∣ slab + headerSize :=
    (Nat.pow_dvd_pow 2 fewBits).trans ((Nat.dvd_add_right aligned).mpr (dvd_refl _))
  rw [u64_of_lt payload, alignUp_of_dvd (by omega) divides payload] at result
  have fits : headerSize + bytes ≤ slabSize := by
    simp only [payloadSize, headerSize, cachelineSize, slabSize] at room ⊢
    omega
  have taken : returned.arena.taken slab = slab + headerSize + bytes - slab := by
    rw [SlabArena.taken, bump, result]
    exact offset_of_position notNull (by omega) (by omega)
  exact .acquired acquired current count result.ge (by omega) (by omega)

include placed some isSize in
theorem served_oversized {raw_mem alloc_align : Nat} (small : exponent < 64)
    (inSpace : 0 < raw_mem ∧ raw_mem + oversizedBytes bytes (2 ^ exponent) ≤ 2 ^ 64)
    (answered : around.oversized = Option.some raw_mem) {returned : ArenaReturn}
    (result : returned.result = alignUp (u64 (raw_mem + oversizedHeader)) (2 ^ exponent))
    (next : returned.arena =
      { arena with
        m_oversized := ⟨raw_mem, oversizedBytes bytes (2 ^ exponent), alloc_align⟩ ::
          arena.m_oversized
        m_allocated_bytes := u64 (arena.m_allocated_bytes + bytes) }) :
    arena.Served around bytes returned ↔ bytes + oversizedHeader + 2 ^ exponent < 2 ^ 64 := by
  have positive := Nat.two_pow_pos exponent
  have low : (2 : Nat) ^ exponent ≤ 2 ^ 63 := Nat.pow_le_pow_right (by decide) (by omega)
  constructor
  · intro served
    by_contra wraps
    cases served with
    | refused _ same =>
        rw [next] at same
        exact absurd (congrArg (·.m_oversized.length) same) (by simp)
    | current _ _ _ above below =>
        have same : returned.arena.m_bump_ptr = arena.m_bump_ptr := by rw [next]
        simp only [taken, same] at above below
        omega
    | acquired _ _ count =>
        have isCount := placed.count
        rw [next] at count
        simp only [u64] at count
        omega
    | oversized _ added _ _ above below =>
        rw [next] at added
        obtain ⟨rfl, -⟩ := List.cons.inj added
        simp only [oversizedBytes, u64, oversizedHeader] at *
        omega
  · intro fits
    rw [oversizedBytes, u64_of_lt fits] at inSpace
    have unwrapped : raw_mem + oversizedHeader < 2 ^ 64 := by omega
    rw [u64_of_lt unwrapped] at result
    obtain ⟨above, below⟩ :=
      @alignUp_of_fits (raw_mem + oversizedHeader) exponent small.le (by omega)
    refine @Served.oversized arena around bytes returned
      ⟨raw_mem, oversizedBytes bytes (2 ^ exponent), alloc_align⟩ answered (by rw [next])
      (by rw [next]) (by rw [next]) ?_ ?_
    · rw [result]
      exact above
    · rw [result]
      simp only [oversizedBytes, u64_of_lt fits]
      omega

include placed isSize in
/-- A request of a size that a word holds. -/
theorem served_iff_sumsFit (few : exponent < 64)
    (proper : around.Proper arena bytes (2 ^ exponent)) :
    arena.Served around bytes (arena.allocateIn around bytes (2 ^ exponent)) ↔
      arena.SumsFit around bytes (raisedAlignment (2 ^ exponent)) := by
  have raised := raisedAlignment_pow exponent
  have few : max exponent 4 < 64 := by omega
  obtain ⟨-, isSlab, isBlock⟩ := proper
  by_cases zero : bytes = 0
  · obtain ⟨result, same⟩ := allocateIn_noSupply (.inl zero)
    exact iff_of_true (.refused result same) (.inl zero)
  have some : 0 < bytes := by omega
  simp only [SumsFit, zero, false_or]
  by_cases fits : arena.fitsCurrent bytes (raisedAlignment (2 ^ exponent)) = true
  · obtain ⟨result, next⟩ := @allocateIn_current arena around bytes _ some fits
    rw [if_pos fits]
    rw [raised] at fits result next ⊢
    exact served_current placed some isSize few fits result next
  · rw [if_neg fits]
    replace fits := Bool.eq_false_of_not_eq_true fits
    by_cases small : isSlabRequest bytes (raisedAlignment (2 ^ exponent)) = true
    · rw [if_pos small, iff_true]
      cases acquired : around.acquired with
      | none =>
          obtain ⟨result, same⟩ := allocateIn_noSupply
            (.inr ⟨fits, by rw [if_pos small]; exact acquired⟩)
          exact .refused result same
      | some slab =>
          obtain ⟨result, next⟩ := allocateIn_acquired some fits small acquired
          rw [raised] at small result next
          exact served_acquired (isSlab slab acquired) small acquired result (by rw [next])
            (by rw [next]) (by rw [next, result])
    · rw [if_neg small]
      replace small := Bool.eq_false_of_not_eq_true small
      cases answered : around.oversized with
      | none =>
          obtain ⟨result, same⟩ := allocateIn_noSupply
            (.inr ⟨fits, by rw [if_neg (by simp [small])]; exact answered⟩)
          exact iff_of_true (.refused result same) (.inl rfl)
      | some raw_mem =>
          have block := isBlock raw_mem answered small
          obtain ⟨result, next⟩ :=
            @allocateIn_oversized arena _ _ _ raw_mem some fits small answered
          rw [raised] at block result next ⊢
          simpa using served_oversized placed some isSize few block answered result next

include placed in
/-- No slab and no block has room for a size that no word holds. -/
theorem Served.same_of_large {returned : ArenaReturn} (served : arena.Served around size returned)
    (large : 2 ^ 64 ≤ size) (isSlab : ∀ slab, around.acquired = Option.some slab → IsSlab slab)
    (isBlock : ∀ block, returned.arena.m_oversized = block :: arena.m_oversized →
      block.raw_ptr + block.total_bytes ≤ 2 ^ 64) : returned.arena = arena := by
  cases served with
  | refused _ same => exact same
  | current held _ _ above below room =>
      have inSpace := (placed.isSlab _ held).inSpace
      have := (placed.isSlab _ held).notNull
      omega
  | acquired held _ _ above below room =>
      have inSpace := (isSlab _ held).inSpace
      simp only [headerSize, cachelineSize] at above
      omega
  | oversized _ added _ _ above below =>
      have inSpace := isBlock _ added
      simp only [oversizedHeader] at above
      omega

include placed in
/-- A block of a size that no word holds is never supplied. -/
theorem served_iff_noSupply
    (proper : around.Proper arena bytes (2 ^ exponent))
    (isSize : bytes < 2 ^ 64) (large : 2 ^ 64 ≤ size) :
    arena.Served around size (arena.allocateIn around bytes (2 ^ exponent)) ↔
      arena.NoSupply around bytes (raisedAlignment (2 ^ exponent)) := by
  have raised := raisedAlignment_pow exponent
  obtain ⟨-, isSlab, isBlock⟩ := proper
  constructor
  · intro served
    by_contra supply
    simp only [NoSupply, not_or, not_and] at supply
    obtain ⟨zero, supply⟩ := supply
    have some : 0 < bytes := by omega
    have changed := @allocated_ne bytes arena.m_allocated_bytes some isSize
    have noBlock {next : SlabArena} (same : next.m_oversized = arena.m_oversized)
        (block : OversizedBlock) (added : next.m_oversized = block :: arena.m_oversized) :
        block.raw_ptr + block.total_bytes ≤ 2 ^ 64 :=
      absurd (congrArg List.length (same.symm.trans added)) (by simp)
    by_cases fits : arena.fitsCurrent bytes (raisedAlignment (2 ^ exponent)) = true
    · obtain ⟨-, next⟩ := @allocateIn_current arena around bytes _ some fits
      have same := served.same_of_large placed large isSlab (noBlock (by rw [next]))
      rw [next] at same
      exact changed (congrArg SlabArena.m_allocated_bytes same)
    · replace fits := Bool.eq_false_of_not_eq_true fits
      have supplied := supply fits
      by_cases small : isSlabRequest bytes (raisedAlignment (2 ^ exponent)) = true
      · rw [if_pos small] at supplied
        obtain ⟨slab, acquired⟩ := Option.ne_none_iff_exists'.mp supplied
        obtain ⟨-, next⟩ := @allocateIn_acquired arena _ _ _ slab some fits small acquired
        have same := served.same_of_large placed large isSlab (noBlock (by rw [next]))
        rw [next] at same
        exact changed (congrArg SlabArena.m_allocated_bytes same)
      · rw [if_neg small] at supplied
        replace small := Bool.eq_false_of_not_eq_true small
        obtain ⟨raw_mem, answered⟩ := Option.ne_none_iff_exists'.mp supplied
        obtain ⟨-, next⟩ := @allocateIn_oversized arena _ _ _ raw_mem some fits small answered
        have same := served.same_of_large placed large isSlab fun block added => by
          rw [next] at added
          obtain ⟨rfl, -⟩ := List.cons.inj added
          exact (isBlock raw_mem answered small).2
        rw [next] at same
        exact changed (congrArg SlabArena.m_allocated_bytes same)
  · intro noSupply
    obtain ⟨result, same⟩ := allocateIn_noSupply noSupply
    exact .refused result same

/-- What is to be shown of an arena with a current slab. -/
theorem Placed.of_current {slab : Nat} (isSlab : IsSlab slab)
    (current : arena.m_current_slab = Option.some slab)
    (ending : arena.m_bump_end = u64 (slab + slabSize))
    (payload : headerSize ≤ arena.taken slab ∧ arena.taken slab ≤ slabSize)
    (chained : arena.m_head_slab.isSome ∧ arena.m_pool.isSome)
    (bump : arena.m_bump_ptr < 2 ^ 64) (count : arena.m_slab_count < 2 ^ 64)
    (bytes : arena.m_allocated_bytes < 2 ^ 64) : arena.Placed := by
  have isOnly (other : Nat) (held : arena.m_current_slab = Option.some other) : other = slab :=
    Option.some.inj (held.symm.trans current)
  refine ⟨fun other held => ?_, fun other held => ?_, fun other held => ?_, fun _ => chained,
    bump, count, bytes⟩
  all_goals
    rw [isOnly other held]
    assumption

include placed isSize in
/-- Behind a request whose sums fit, the bump pointer stands in the payload again. -/
theorem Placed.allocate (few : exponent < 64) (proper : around.Proper arena bytes (2 ^ exponent))
    (fit : arena.SumsFit around bytes (raisedAlignment (2 ^ exponent))) :
    (arena.allocateIn around bytes (2 ^ exponent)).arena.Placed := by
  have served := (served_iff_sumsFit placed isSize few proper).mpr fit
  by_cases noSupply : arena.NoSupply around bytes (raisedAlignment (2 ^ exponent))
  · rw [(allocateIn_noSupply noSupply).2]
    exact placed
  simp only [NoSupply, not_or, not_and] at noSupply
  obtain ⟨zero, supply⟩ := noSupply
  have some : 0 < bytes := by omega
  have isCount := placed.count
  by_cases fits : arena.fitsCurrent bytes (raisedAlignment (2 ^ exponent)) = true
  · obtain ⟨-, next⟩ := @allocateIn_current arena around bytes _ some fits
    cases served with
    | refused _ same =>
        rw [same]
        exact placed
    | @current slab held heldNext _ above below room =>
        have behind := (placed.payload slab held).1
        refine .of_current (placed.isSlab slab held) heldNext ?_ ⟨by omega, room⟩ ?_ ?_ ?_ ?_
        all_goals rw [next]
        exacts [placed.ending slab held, placed.chained (by rw [held]; rfl), u64_lt _, isCount,
          u64_lt _]
    | acquired _ _ count =>
        rw [next] at count
        simp only [u64] at count
        omega
    | oversized _ added =>
        rw [next] at added
        exact absurd (congrArg List.length added) (by simp)
  · replace fits := Bool.eq_false_of_not_eq_true fits
    have supplied := supply fits
    by_cases small : isSlabRequest bytes (raisedAlignment (2 ^ exponent)) = true
    · rw [if_pos small] at supplied
      obtain ⟨slab, acquired⟩ := Option.ne_none_iff_exists'.mp supplied
      obtain ⟨-, next⟩ := @allocateIn_acquired arena _ _ _ slab some fits small acquired
      cases served with
      | refused _ same =>
          rw [same]
          exact placed
      | current _ _ count =>
          rw [next] at count
          simp only [u64] at count
          omega
      | @acquired other isAnswer heldNext _ above below room =>
          obtain rfl := Option.some.inj (acquired.symm.trans isAnswer)
          have hasPool : arena.m_pool.isSome := by
            rw [← proper.pool]
            obtain ⟨pool, inPool, -⟩ := Option.bind_eq_some_iff.mp acquired
            simp [inPool]
          refine .of_current (proper.slab slab acquired) heldNext ?_ ⟨by omega, room⟩ ?_ ?_ ?_ ?_
          all_goals rw [next]
          exacts [⟨rfl, hasPool⟩, u64_lt _, u64_lt _, u64_lt _]
      | oversized _ added =>
          rw [next] at added
          exact absurd (congrArg List.length added) (by simp)
    · rw [if_neg small] at supplied
      replace small := Bool.eq_false_of_not_eq_true small
      obtain ⟨raw_mem, answered⟩ := Option.ne_none_iff_exists'.mp supplied
      obtain ⟨-, next⟩ := @allocateIn_oversized arena _ _ _ raw_mem some fits small answered
      rw [next]
      exact ⟨placed.isSlab, placed.ending, placed.payload, placed.chained, placed.bump, isCount,
        u64_lt _⟩

/-- An arena without slabs. -/
theorem Placed.of_none (none : arena.m_current_slab = Option.none)
    (bump : arena.m_bump_ptr = 0) (count : arena.m_slab_count = 0)
    (bytes : arena.m_allocated_bytes = 0) : arena.Placed := by
  refine ⟨?_, ?_, ?_, ?_, ?_, ?_, ?_⟩
  all_goals simp [none, bump, count, bytes]

include placed in
theorem Placed.reset (pool : around.pool.isSome = arena.m_pool.isSome) :
    (arena.reset around.pool around.memory).2.2.Placed := by
  refine .of_none ?_ rfl rfl rfl
  cases current : arena.m_current_slab with
  | none =>
      simp only [SlabArena.reset, releaseSlabs]
      split <;> simp_all
  | some slab =>
      obtain ⟨hasHead, hasPool⟩ := placed.chained (by rw [current]; rfl)
      rw [← pool] at hasPool
      obtain ⟨head, isHead⟩ := Option.isSome_iff_exists.mp hasHead
      obtain ⟨rest, inPool⟩ := Option.isSome_iff_exists.mp hasPool
      simp [SlabArena.reset, releaseSlabs, isHead, inPool]

end Right

/-! ## Spans -/

/-- The size of the span does not wrap either, or nothing is there to serve it from. -/
def SpanFits (arena : SlabArena) (around : Surroundings) (size alignment count : Nat) : Prop :=
  if size * count < 2 ^ 64 then arena.SumsFit around (size * count) alignment
  else arena.NoSupply around (u64 (size * count)) alignment

instance (arena : SlabArena) (around : Surroundings) (size alignment count : Nat) :
    Decidable (arena.SpanFits around size alignment count) :=
  inferInstanceAs (Decidable
    (if size * count < 2 ^ 64 then arena.SumsFit around (size * count) alignment
      else arena.NoSupply around (u64 (size * count)) alignment))

section Span

variable {arena : SlabArena} {around : Surroundings} {size exponent count : Nat}
  (placed : arena.Placed) (few : exponent < 64)
  (proper : around.Proper arena (u64 (size * count)) (2 ^ exponent))

include placed few proper

theorem served_iff_spanFits :
    arena.Served around (size * count)
        (arena.allocateSpanIn around size (2 ^ exponent) count) ↔
      arena.SpanFits around size (raisedAlignment (2 ^ exponent)) count := by
  by_cases none : count = 0
  · subst none
    have empty : arena.allocateSpanIn around size (2 ^ exponent) 0 =
        ⟨around.memory, around.pool, arena, 0⟩ := rfl
    rw [empty]
    exact iff_of_true (.refused rfl rfl) (by simp [SpanFits, SumsFit])
  · have called : arena.allocateSpanIn around size (2 ^ exponent) count =
        arena.allocateIn around (u64 (size * count)) (2 ^ exponent) := if_neg none
    rw [called, SpanFits]
    by_cases isSize : size * count < 2 ^ 64
    · rw [u64_of_lt isSize] at proper ⊢
      rw [if_pos isSize]
      exact served_iff_sumsFit placed isSize few proper
    · rw [if_neg isSize]
      exact served_iff_noSupply placed proper (u64_lt _) (by omega)

theorem Placed.allocateSpan
    (fit : arena.SpanFits around size (raisedAlignment (2 ^ exponent)) count) :
    (arena.allocateSpanIn around size (2 ^ exponent) count).arena.Placed := by
  by_cases none : count = 0
  · subst none
    exact placed
  · have called : arena.allocateSpanIn around size (2 ^ exponent) count =
        arena.allocateIn around (u64 (size * count)) (2 ^ exponent) := if_neg none
    rw [called]
    rw [SpanFits] at fit
    by_cases isSize : size * count < 2 ^ 64
    · rw [u64_of_lt isSize] at proper ⊢
      rw [if_pos isSize] at fit
      exact placed.allocate isSize few proper fit
    · rw [if_neg isSize] at fit
      rw [(allocateIn_noSupply fit).2]
      exact placed

end Span

end SlabArena

/-! ## Runs -/

/-- Calls on arenas, which are told apart by their addresses. -/
inductive ArenaCall where
  | construct (arena pool : Nat)
  | allocate (arena : Nat) (around : Surroundings) (bytes exponent : Nat)
  | allocateSpan (arena : Nat) (around : Surroundings) (size exponent count : Nat)
  | reset (arena : Nat) (around : Surroundings)
  | moveConstruct (arena other : Nat)
  | moveAssign (arena other : Nat) (around : Surroundings)
  | destroy (arena : Nat) (around : Surroundings)

/-- The arenas that live. -/
abbrev Arenas := Nat → Option SlabArena

namespace ArenaCall

/-- Arenas after a call. -/
def perform (arenas : Arenas) : ArenaCall → Option Arenas
  | construct arena pool =>
      if arenas arena = none then
        some (Function.update arenas arena (some (.construct pool)))
      else none
  | allocate arena around bytes exponent => (arenas arena).map fun value =>
      Function.update arenas arena (some (value.allocateIn around bytes (2 ^ exponent)).arena)
  | allocateSpan arena around size exponent count => (arenas arena).map fun value =>
      Function.update arenas arena
        (some (value.allocateSpanIn around size (2 ^ exponent) count).arena)
  | reset arena around => (arenas arena).map fun value =>
      Function.update arenas arena (some (value.reset around.pool around.memory).2.2)
  | moveConstruct arena other =>
      if arenas arena = none then
        (arenas other).map fun value =>
          Function.update (Function.update arenas arena (some value)) other
            (some SlabArena.movedFrom)
      else none
  | moveAssign arena other _ =>
      if (arenas arena).isSome then
        (arenas other).map fun value =>
          if arena = other then arenas
          else
            Function.update (Function.update arenas arena (some value)) other
              (some SlabArena.movedFrom)
      else none
  | destroy arena _ =>
      if (arenas arena).isSome then some (Function.update arenas arena none) else none

/-- What is promised of a call, and the condition on its sizes. -/
def Allowed (arenas : Arenas) : ArenaCall → Prop
  | allocate arena around bytes exponent => ∀ value, arenas arena = some value →
      bytes < 2 ^ 64 ∧ exponent < 64 ∧ around.Proper value bytes (2 ^ exponent) ∧
        value.SumsFit around bytes (raisedAlignment (2 ^ exponent))
  | allocateSpan arena around size exponent count => ∀ value, arenas arena = some value →
      exponent < 64 ∧ around.Proper value (u64 (size * count)) (2 ^ exponent) ∧
        value.SpanFits around size (raisedAlignment (2 ^ exponent)) count
  | reset arena around => ∀ value, arenas arena = some value →
      around.pool.isSome = value.m_pool.isSome
  | _ => True

end ArenaCall

/-- Any number of arenas. -/
def arenaCalls : Machine Arenas ArenaCall where
  initial := fun arenas => arenas = fun _ => none
  step := ArenaCall.perform

/-- In every run, the bump pointers stand in their slabs. -/
theorem placed_of_reachable {arenas : Arenas}
    (reachable : arenaCalls.ReachableBy ArenaCall.Allowed arenas) :
    ∀ arena value, arenas arena = some value → value.Placed := by
  refine reachable.invariant (motive := fun arenas => ∀ arena value, arenas arena = some value →
    value.Placed) (fun arenas initial arena value live => ?_)
    fun arenas call next placed allowed stepped => ?_
  · rw [initial] at live
    cases live
  have update {arenas : Arenas} (others : ∀ arena value, arenas arena = some value → value.Placed)
      (arena : Nat) {changed : SlabArena} (isPlaced : changed.Placed) (other : Nat)
      (value : SlabArena) (live : Function.update arenas arena (some changed) other = some value) :
      value.Placed := by
    by_cases same : other = arena
    · subst same
      rw [Function.update_self] at live
      cases live
      exact isPlaced
    · rw [Function.update_of_ne same] at live
      exact others other value live
  have empty (pool : Option Nat) : ({ m_pool := pool } : SlabArena).Placed :=
    .of_none rfl rfl rfl rfl
  cases call with
  | construct arena pool =>
      simp only [arenaCalls, ArenaCall.perform, Option.ite_none_right_eq_some] at stepped
      cases stepped.2
      exact update placed arena (empty (some pool))
  | allocate arena around bytes exponent =>
      obtain ⟨value, live, rfl⟩ := Option.map_eq_some_iff.mp stepped
      obtain ⟨isSize, few, proper, fit⟩ := allowed value live
      exact update placed arena ((placed arena value live).allocate isSize few proper fit)
  | allocateSpan arena around size exponent count =>
      obtain ⟨value, live, rfl⟩ := Option.map_eq_some_iff.mp stepped
      obtain ⟨few, proper, fit⟩ := allowed value live
      exact update placed arena ((placed arena value live).allocateSpan few proper fit)
  | reset arena around =>
      obtain ⟨value, live, rfl⟩ := Option.map_eq_some_iff.mp stepped
      exact update placed arena ((placed arena value live).reset (allowed value live))
  | moveConstruct arena other =>
      simp only [arenaCalls, ArenaCall.perform, Option.ite_none_right_eq_some] at stepped
      obtain ⟨value, live, rfl⟩ := Option.map_eq_some_iff.mp stepped.2
      exact update (update placed arena (placed other value live)) other (empty none)
  | moveAssign arena other around =>
      simp only [arenaCalls, ArenaCall.perform, Option.ite_none_right_eq_some] at stepped
      obtain ⟨value, live, rfl⟩ := Option.map_eq_some_iff.mp stepped.2
      split
      · exact placed
      · exact update (update placed arena (placed other value live)) other (empty none)
  | destroy arena around =>
      simp only [arenaCalls, ArenaCall.perform, Option.ite_none_right_eq_some] at stepped
      cases stepped.2
      intro other value live
      by_cases same : other = arena
      · subst same
        rw [Function.update_self] at live
        cases live
      · rw [Function.update_of_ne same] at live
        exact placed other value live

/-- In every run whose requests meet the condition, a request is served right exactly when it
meets the condition. -/
theorem requests_served_iff {arenas : Arenas}
    (reachable : arenaCalls.ReachableBy ArenaCall.Allowed arenas) {arena : Nat}
    {value : SlabArena} (live : arenas arena = some value) (around : Surroundings) :
    (∀ bytes exponent, bytes < 2 ^ 64 → exponent < 64 →
      around.Proper value bytes (2 ^ exponent) →
      (value.Served around bytes (value.allocateIn around bytes (2 ^ exponent)) ↔
        value.SumsFit around bytes (raisedAlignment (2 ^ exponent)))) ∧
    ∀ size exponent count, exponent < 64 →
      around.Proper value (u64 (size * count)) (2 ^ exponent) →
      (value.Served around (size * count)
          (value.allocateSpanIn around size (2 ^ exponent) count) ↔
        value.SpanFits around size (raisedAlignment (2 ^ exponent)) count) := by
  have placed := placed_of_reachable reachable arena value live
  exact ⟨fun bytes exponent isSize few proper =>
      SlabArena.served_iff_sumsFit placed isSize few proper,
    fun size exponent count few proper => SlabArena.served_iff_spanFits placed few proper⟩

namespace ArenaRequests

/-- A pool with one slab on its freelist. -/
def oneSlab : Surroundings where
  pool := some { m_head := { ptr := some 65536 }, m_available_slabs := 1, m_total_slabs := 1 }
  answers := {}
  memory := { next := fun _ => none }

/-- An arena that has handed out 64 bytes of that slab. -/
def started : SlabArena := ((SlabArena.construct 7).allocateIn oneSlab 64 (2 ^ 6)).arena

theorem proper_oneSlab {arena : SlabArena} {bytes alignment : Nat}
    (hasPool : arena.m_pool = some 7) : oneSlab.Proper arena bytes alignment := by
  refine ⟨by rw [hasPool]; rfl, fun slab acquired => ?_, fun raw_mem answered => ?_⟩
  · cases acquired
    exact ⟨by decide, by decide, by decide⟩
  · cases answered

theorem started_reachable : ∃ arenas, arenaCalls.ReachableBy ArenaCall.Allowed arenas ∧
    arenas 0 = some started := by
  have constructed : arenaCalls.ReachableBy ArenaCall.Allowed
      (Function.update (fun _ => none) 0 (some (.construct 7))) :=
    @Machine.ReachableBy.step _ _ _ _ _ _ (.construct 0 7) (.start rfl) trivial rfl
  refine ⟨_, @Machine.ReachableBy.step _ _ _ _ _ _ (.allocate 0 oneSlab 64 6) constructed ?_ rfl,
    rfl⟩
  intro value live
  cases live
  exact ⟨by decide, by decide, proper_oneSlab rfl, by decide +kernel⟩

end ArenaRequests

open ArenaRequests

/-- A request of 64 bytes is served right. -/
theorem requests_served_iff_started : ∃ arenas, arenaCalls.ReachableBy ArenaCall.Allowed arenas ∧
    arenas 0 = some started ∧
      started.Served oneSlab 64 (started.allocateIn oneSlab 64 (2 ^ 4)) := by
  obtain ⟨arenas, reachable, live⟩ := started_reachable
  refine ⟨arenas, reachable, live, ?_⟩
  exact ((requests_served_iff reachable live oneSlab).1 64 4 (by decide) (by decide)
    (proper_oneSlab rfl)).mpr (by decide +kernel)

/-- A request of nearly all bytes of the address space gets a block of the slab, and moves the
bump pointer back over the block handed out before it. -/
theorem request_moves_back : ∃ arenas, arenaCalls.ReachableBy ArenaCall.Allowed arenas ∧
    arenas 0 = some started ∧
    ¬ started.Served oneSlab (2 ^ 64 - 64) (started.allocateIn oneSlab (2 ^ 64 - 64) (2 ^ 4)) ∧
    (started.allocateIn oneSlab (2 ^ 64 - 64) (2 ^ 4)).result ≠ 0 ∧
    (started.allocateIn oneSlab (2 ^ 64 - 64) (2 ^ 4)).arena.m_bump_ptr < started.m_bump_ptr := by
  obtain ⟨arenas, reachable, live⟩ := started_reachable
  refine ⟨arenas, reachable, live, ?_, by decide +kernel, by decide +kernel⟩
  rw [SlabArena.served_iff_sumsFit (placed_of_reachable reachable 0 started live) (by decide)
    (by decide) (proper_oneSlab rfl)]
  decide +kernel

end LightFlow
