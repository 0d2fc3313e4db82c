import LightFlow.Memory.SharedPool
import Mathlib.Algebra.Order.Group.Multiset
import Mathlib.Data.Nat.ModEq
import Mathlib.Tactic.Abel

/-!
# Every slab has one owner

At every point of every thread, the slabs of the chunks are on the freelist, with their holders, or
in the hands of the calls that are on their way.  `m_head` never has the same tag twice, so the
pointer that a thread has read from a slab counts only if the slab was at the head all the time.
-/

namespace LightFlow

namespace SlabShared

variable {shared : SlabShared} {slab other : Nat} {next : Option Nat}

theorem setNext_self : (shared.setNext slab next).memory.next slab = next :=
  Function.update_self ..

theorem setNext_of_ne (different : other ≠ slab) :
    (shared.setNext slab next).memory.next other = shared.memory.next other :=
  Function.update_of_ne different ..

end SlabShared

/-! ## What calls have and know -/

namespace SlabCall

/-- The slabs in the hands of a call; `count` is the size of new chunks. -/
def hands (count : Nat) : SlabCall → Multiset Nat
  | .uncounting slab | .detaching slab => {slab}
  | .totalling raw_mem | .countingChunk raw_mem => ↑(slabsFrom raw_mem count)
  | .detachingFirst raw_mem | .partitioning raw_mem _ => ↑(slabsFrom raw_mem count)
  | .loadingTop chain acquired | .linkingTail chain _ acquired | .pushing chain _ acquired =>
      ↑chain.slabs + ↑acquired.toList
  | .counting _ acquired | .unlocking acquired => ↑acquired.toList
  | _ => 0

/-- Slabs on the freelist that the call has still to count. -/
def adds : SlabCall → Nat
  | .counting count _ => count
  | _ => 0

/-- Slabs off the freelist that the call has still to discount. -/
def subs : SlabCall → Nat
  | .uncounting _ => 1
  | _ => 0

/-- Slabs of a chunk in the list that the call has still to add to the total. -/
def totals (count : Nat) : SlabCall → Nat
  | .totalling _ => count
  | _ => 0

/-- The chunk that is not in the list yet. -/
def unlinked (count : Nat) : SlabCall → Multiset Chunk
  | .recording raw_mem | .freeing raw_mem | .loadingChunks raw_mem | .linkingChunk raw_mem _ =>
      {{ base_ptr := raw_mem, slab_count := count }}
  | _ => 0

/-- The call has the growth lock. -/
def locks : SlabCall → Nat
  | .checking | .yielding | .allocating | .recording _ | .freeing _ | .loadingChunks _ => 1
  | .linkingChunk _ _ | .totalling _ | .countingChunk _ | .detachingFirst _ => 1
  | .partitioning _ _ | .unlocking _ => 1
  | .loadingTop _ acquired | .linkingTail _ _ acquired => acquired.toList.length
  | .pushing _ _ acquired => acquired.toList.length
  | .counting _ acquired => acquired.toList.length
  | _ => 0

/-- What a call knows. -/
def Knows (shared : SlabShared) : SlabCall → Prop
  | .loadingNext slab tag => tag ≤ shared.pool.m_head.tag ∧
      (tag = shared.pool.m_head.tag → shared.pool.m_head.ptr = some slab)
  | .popping slab tag next_ptr => tag ≤ shared.pool.m_head.tag ∧
      (tag = shared.pool.m_head.tag → shared.pool.m_head.ptr = some slab ∧
        shared.memory.next slab = next_ptr)
  | .totalling raw_mem | .countingChunk raw_mem | .detachingFirst raw_mem =>
      shared.chunk raw_mem ∈ shared.pool.m_chunks
  | .partitioning raw_mem index => shared.chunk raw_mem ∈ shared.pool.m_chunks ∧
      index + 1 < shared.pool.m_chunk_slabs ∧
        ∀ earlier < index, shared.memory.next (raw_mem + (earlier + 1) * slabSize) =
          some (raw_mem + (earlier + 1 + 1) * slabSize)
  | .loadingTop chain _ | .linkingTail chain _ _ =>
      IsSlabChain shared.memory.next (some chain.head) (some chain.tail) chain.count chain.slabs
  | .pushing chain current _ =>
      IsSlabChain shared.memory.next (some chain.head) (some chain.tail) chain.count chain.slabs ∧
        shared.memory.next chain.tail = current.ptr
  | _ => True

end SlabCall

/-- A chain stays one while the pointers of its slabs stay. -/
theorem IsSlabChain.congr {next moved : Nat → Option Nat} {head tail : Option Nat} {count : Nat}
    {slabs : List Nat} (isChain : IsSlabChain next head tail count slabs)
    (kept : ∀ slab ∈ slabs, some slab ≠ tail → moved slab = next slab) (distinct : slabs.Nodup) :
    IsSlabChain moved head tail count slabs := by
  obtain ⟨isHead, isTail, isCount, linked⟩ := isChain
  refine ⟨isHead, isTail, isCount, ?_⟩
  clear isHead isCount
  induction slabs with
  | nil => exact .nil
  | cons slab slabs ih =>
      cases slabs with
      | nil => exact .singleton _
      | cons after slabs =>
          rw [List.isChain_cons_cons] at linked ⊢
          rw [List.getLast?_cons_cons] at isTail
          have notLast : some slab ≠ tail := by
            rintro rfl
            exact (List.nodup_cons.mp distinct).1 (List.mem_of_getLast? isTail)
          have same := kept slab (List.mem_cons_self ..) notLast
          refine ⟨same.trans linked.1, ih ?_ ?_ isTail linked.2⟩
          · exact fun other member => kept other (List.mem_cons_of_mem _ member)
          · exact (List.nodup_cons.mp distinct).2

/-- A chain whose tail leads to a list is a list. -/
theorem IsSlabChain.segment {next : Nat → Option Nat} {head tail : Nat} {count : Nat}
    {slabs : List Nat} (isChain : IsSlabChain next (some head) (some tail) count slabs)
    {free : List Nat} (onward : Segment next (next tail) free) :
    Segment next (some head) (slabs ++ free) := by
  obtain ⟨isHead, isTail, -, linked⟩ := isChain
  induction slabs generalizing head with
  | nil => cases isHead
  | cons slab slabs ih =>
      obtain rfl : slab = head := Option.some.inj isHead
      refine .cons ?_
      cases slabs with
      | nil =>
          obtain rfl : slab = tail := Option.some.inj isTail
          exact onward
      | cons after slabs =>
          rw [List.isChain_cons_cons] at linked
          rw [List.getLast?_cons_cons] at isTail
          rw [linked.1]
          exact ih rfl isTail linked.2

/-- What a call knows stays true while its slabs and the head are left alone, and when the head
moves on to another tag. -/
theorem SlabCall.Knows.mono {shared next : SlabShared} {call : SlabCall} (knows : call.Knows shared)
    (size : next.pool.m_chunk_slabs = shared.pool.m_chunk_slabs)
    (chunks : shared.pool.m_chunks ⊆ next.pool.m_chunks)
    (head : next.pool.m_head = shared.pool.m_head ∨
      shared.pool.m_head.tag < next.pool.m_head.tag)
    (kept : ∀ slab, slab ∈ call.hands shared.pool.m_chunk_slabs ∨
      next.pool.m_head = shared.pool.m_head ∧ shared.pool.m_head.ptr = some slab →
        next.memory.next slab = shared.memory.next slab)
    (distinct : (call.hands shared.pool.m_chunk_slabs).Nodup) : call.Knows next := by
  have sameChunk (raw_mem : Nat) : next.chunk raw_mem = shared.chunk raw_mem := by
    rw [SlabShared.chunk, SlabShared.chunk, size]
  have isChain {chain : SlabChain} {acquired : Option Nat}
      (hands : call.hands shared.pool.m_chunk_slabs = ↑chain.slabs + ↑acquired.toList)
      (known : IsSlabChain shared.memory.next (some chain.head) (some chain.tail) chain.count
        chain.slabs) :
      IsSlabChain next.memory.next (some chain.head) (some chain.tail) chain.count chain.slabs := by
    rw [hands] at distinct kept
    refine known.congr (fun slab member _ => kept slab (.inl ?_))
      (Multiset.coe_nodup.mp (Multiset.nodup_of_le (Multiset.le_add_right _ _) distinct))
    exact Multiset.mem_add.mpr (.inl member)
  cases call with
  | loadingNext slab tag =>
      rcases head with same | later
      · rwa [Knows, same]
      · exact ⟨knows.1.trans later.le, fun isNow => absurd knows.1 (by omega)⟩
  | popping slab tag next_ptr =>
      rcases head with same | later
      · refine ⟨same ▸ knows.1, fun isNow => ?_⟩
        obtain ⟨isTop, isNext⟩ := knows.2 (same ▸ isNow)
        exact ⟨same ▸ isTop, (kept slab (.inr ⟨same, isTop⟩)).trans isNext⟩
      · exact ⟨knows.1.trans later.le, fun isNow => absurd knows.1 (by omega)⟩
  | totalling raw_mem | countingChunk raw_mem | detachingFirst raw_mem =>
      rw [Knows, sameChunk]
      exact chunks knows
  | partitioning raw_mem index =>
      obtain ⟨member, inRange, linked⟩ := knows
      refine ⟨sameChunk _ ▸ chunks member, size ▸ inRange, fun earlier before => ?_⟩
      rw [← linked earlier before]
      exact kept _ (.inl (mem_slabsFrom.mpr ⟨earlier + 1, by omega, rfl⟩))
  | loadingTop | linkingTail => exact isChain rfl knows
  | pushing chain current acquired =>
      refine ⟨isChain rfl knows.1, (kept _ (.inl ?_)).trans knows.2⟩
      exact Multiset.mem_add.mpr (.inl (List.mem_of_getLast? knows.1.2.1))
  | _ => trivial

/-! ## The law of the pool -/

/-- The slabs of all chunks. -/
def SlabShared.slabs (shared : SlabShared) : List Nat :=
  shared.pool.m_chunks.flatMap Chunk.slabs

/-- The pool, the holders of slabs and the threads belong together. -/
structure SlabLaw (shared : SlabShared) (pool : Multiset SlabCall) : Prop where
  owned : ∃ free : List Nat, Segment shared.memory.next shared.pool.m_head.ptr free ∧
    ↑free + shared.held + (pool.map (·.hands shared.pool.m_chunk_slabs)).sum = ↑shared.slabs ∧
    shared.pool.m_available_slabs + (pool.map (·.adds)).sum ≡
      free.length + (pool.map (·.subs)).sum [MOD 2 ^ 64]
  available : shared.pool.m_available_slabs < 2 ^ 64
  totals : shared.pool.m_total_slabs + (pool.map (·.totals shared.pool.m_chunk_slabs)).sum ≡
    shared.slabs.length [MOD 2 ^ 64]
  total : shared.pool.m_total_slabs < 2 ^ 64
  live : ↑shared.pool.m_chunks + (pool.map (·.unlinked shared.pool.m_chunk_slabs)).sum =
    (↑shared.live : Multiset Chunk)
  inMemory : ∀ chunk ∈ shared.live, chunk.InMemory
  apart : (shared.live.flatMap Chunk.slabs).Nodup
  sized : 0 < shared.pool.m_chunk_slabs
  tagged : shared.pool.m_head.tag = shared.updates ∧ shared.updates < 2 ^ 64
  locked : (pool.map (·.locks)).sum = if shared.m_growth_lock then 1 else 0
  knows : ∀ call ∈ pool, call.Knows shared

namespace SlabLaw

variable {shared : SlabShared} {here moved : SlabCall} {rest pool : Multiset SlabCall}

/-- The slabs of the chunks are distinct. -/
theorem distinct (law : SlabLaw shared pool) : shared.slabs.Nodup := by
  have live := law.live
  obtain ⟨unlinked, isUnlinked⟩ : ∃ chunks : List Chunk,
      ↑chunks = (pool.map (·.unlinked shared.pool.m_chunk_slabs)).sum := Quot.exists_rep _
  rw [← isUnlinked] at live
  have split : (shared.pool.m_chunks ++ unlinked).Perm shared.live := Multiset.coe_eq_coe.mp live
  have apart := (split.flatMap_right Chunk.slabs).nodup_iff.mpr law.apart
  rw [List.flatMap_append] at apart
  exact apart.of_append_left

theorem mem_live (law : SlabLaw shared pool) {chunk : Chunk}
    (member : chunk ∈ shared.pool.m_chunks) : chunk ∈ shared.live := by
  rw [← Multiset.mem_coe, ← law.live, Multiset.mem_add]
  exact .inl member

/-- Whose a slab is: that of the freelist, of a holder, or of one call. -/
theorem exclusive (law : SlabLaw shared (here ::ₘ rest)) {free : List Nat}
    (owned : ↑free + shared.held +
      ((here ::ₘ rest).map (·.hands shared.pool.m_chunk_slabs)).sum = ↑shared.slabs) :
    free.Nodup ∧ (here.hands shared.pool.m_chunk_slabs).Nodup ∧
      (∀ slab ∈ here.hands shared.pool.m_chunk_slabs, slab ∉ free ∧ slab ∉ shared.held ∧
        ∀ call ∈ rest, slab ∉ call.hands shared.pool.m_chunk_slabs) ∧
      ∀ slab ∈ shared.held, slab ∉ free ∧
        ∀ call ∈ here ::ₘ rest, slab ∉ call.hands shared.pool.m_chunk_slabs := by
  have distinct : (↑shared.slabs : Multiset Nat).Nodup := Multiset.coe_nodup.mpr law.distinct
  rw [← owned] at distinct
  have kept := Multiset.nodup_add.mp distinct
  have outside := Multiset.nodup_add.mp kept.1
  have inSum {call : SlabCall} (member : call ∈ here ::ₘ rest) :
      call.hands shared.pool.m_chunk_slabs ≤
        ((here ::ₘ rest).map (·.hands shared.pool.m_chunk_slabs)).sum :=
    Multiset.le_sum_of_mem (Multiset.mem_map_of_mem _ member)
  have calls := kept.2.1
  rw [Multiset.map_cons, Multiset.sum_cons] at calls
  have apart := Multiset.nodup_add.mp calls
  refine ⟨Multiset.coe_nodup.mp outside.1, apart.1, fun slab mine => ⟨?_, ?_, ?_⟩,
    fun slab isHeld => ⟨?_, ?_⟩⟩
  · exact fun isFree => Multiset.disjoint_left.mp kept.2.2 (Multiset.mem_add.mpr (.inl isFree))
      (Multiset.mem_of_le (inSum (Multiset.mem_cons_self _ _)) mine)
  · exact fun isHeld => Multiset.disjoint_left.mp kept.2.2 (Multiset.mem_add.mpr (.inr isHeld))
      (Multiset.mem_of_le (inSum (Multiset.mem_cons_self _ _)) mine)
  · intro call member theirs
    exact Multiset.disjoint_left.mp apart.2.2 mine (Multiset.mem_of_le
      (Multiset.le_sum_of_mem (Multiset.mem_map_of_mem _ member)) theirs)
  · exact fun isFree => Multiset.disjoint_left.mp outside.2.2 isFree isHeld
  · intro call member theirs
    exact Multiset.disjoint_left.mp kept.2.2 (Multiset.mem_add.mpr (.inr isHeld))
      (Multiset.mem_of_le (inSum member) theirs)

/-- The calls of the other threads keep what they know. -/
theorem others_know (law : SlabLaw shared (here ::ₘ rest)) {next : SlabShared}
    (size : next.pool.m_chunk_slabs = shared.pool.m_chunk_slabs)
    (chunks : shared.pool.m_chunks ⊆ next.pool.m_chunks)
    (head : next.pool.m_head = shared.pool.m_head ∨
      shared.pool.m_head.tag < next.pool.m_head.tag)
    (kept : ∀ call ∈ rest, ∀ slab, slab ∈ call.hands shared.pool.m_chunk_slabs ∨
      next.pool.m_head = shared.pool.m_head ∧ shared.pool.m_head.ptr = some slab →
        next.memory.next slab = shared.memory.next slab) :
    ∀ call ∈ rest, call.Knows next := by
  intro call member
  obtain ⟨free, -, owned, -⟩ := law.owned
  obtain ⟨others, rfl⟩ := Multiset.exists_cons_of_mem member
  rw [Multiset.cons_swap] at law owned
  exact (law.knows call (Multiset.mem_cons_self _ _)).mono size chunks head (kept call member)
    (law.exclusive owned).2.1

/-! ## Steps that leave the shared state alone -/

/-- What the counts of the law say of the two calls is the same. -/
def SameCounts (count : Nat) (here moved : SlabCall) : Prop :=
  moved.adds = here.adds ∧ moved.subs = here.subs ∧ moved.totals count = here.totals count ∧
    moved.unlinked count = here.unlinked count

/-- The call moves, and hands slabs to a holder or takes them. -/
theorem handed (law : SlabLaw shared (here ::ₘ rest)) {held : Multiset Nat}
    (hands : held + moved.hands shared.pool.m_chunk_slabs =
      shared.held + here.hands shared.pool.m_chunk_slabs)
    (counts : SameCounts shared.pool.m_chunk_slabs here moved) {lock : Bool}
    (locks : moved.locks + (if shared.m_growth_lock then 1 else 0) =
      here.locks + if lock then 1 else 0)
    (knows : moved.Knows shared) :
    SlabLaw { shared with held, m_growth_lock := lock } (moved ::ₘ rest) := by
  obtain ⟨free, segment, owned, available⟩ := law.owned
  obtain ⟨adds, subs, totals, unlinked⟩ := counts
  refine
    { law with
      owned := ⟨free, segment, ?_, ?_⟩
      totals := ?_
      live := ?_
      locked := ?_
      knows := (Multiset.forall_mem_cons).mpr ⟨?_, fun call member => ?_⟩ }
  · refine Eq.trans ?_ owned
    rw [Multiset.map_cons, Multiset.sum_cons, Multiset.map_cons, Multiset.sum_cons]
    simp only
    rw [add_assoc, add_assoc, ← add_assoc held, hands, add_assoc]
  · rw [Multiset.map_cons, Multiset.sum_cons, Multiset.map_cons, Multiset.sum_cons] at available ⊢
    rwa [adds, subs]
  · have kept := law.totals
    rw [Multiset.map_cons, Multiset.sum_cons] at kept ⊢
    simp only
    rwa [totals]
  · have kept := law.live
    rw [Multiset.map_cons, Multiset.sum_cons] at kept ⊢
    simp only
    rwa [unlinked]
  · have kept := law.locked
    rw [Multiset.map_cons, Multiset.sum_cons] at kept ⊢
    simp only
    omega
  · cases moved <;> exact knows
  · have kept := law.knows call (Multiset.mem_cons_of_mem member)
    cases call <;> exact kept

/-- The call moves on. -/
theorem onward (law : SlabLaw shared (here ::ₘ rest))
    (hands : moved.hands shared.pool.m_chunk_slabs = here.hands shared.pool.m_chunk_slabs)
    (counts : SameCounts shared.pool.m_chunk_slabs here moved) (locks : moved.locks = here.locks)
    (knows : moved.Knows shared) : SlabLaw shared (moved ::ₘ rest) :=
  law.handed (congrArg _ hands) counts (congrArg (· + _) locks) knows

/-! ## Headers and counters -/

/-- The owner of a slab writes to its header. -/
theorem wrote (law : SlabLaw shared (here ::ₘ rest)) {slab : Nat} {next : Option Nat}
    (mine : slab ∈ here.hands shared.pool.m_chunk_slabs ∨ slab ∈ shared.held)
    (knows : here.Knows (shared.setNext slab next)) :
    SlabLaw (shared.setNext slab next) (here ::ₘ rest) := by
  obtain ⟨free, segment, owned, available⟩ := law.owned
  obtain ⟨-, -, fromHands, fromHeld⟩ := law.exclusive owned
  have notFree : slab ∉ free := mine.elim (fun isMine => (fromHands slab isMine).1)
    fun isHeld => (fromHeld slab isHeld).1
  have notTheirs : ∀ call ∈ rest, slab ∉ call.hands shared.pool.m_chunk_slabs := mine.elim
    (fun isMine => (fromHands slab isMine).2.2)
    fun isHeld call member => (fromHeld slab isHeld).2 call (Multiset.mem_cons_of_mem member)
  refine
    { law with
      owned := ⟨free, segment.congr fun other isFree => SlabShared.setNext_of_ne ?_, owned,
        available⟩
      knows := (Multiset.forall_mem_cons).mpr ⟨knows, law.others_know rfl (List.Subset.refl _)
        (.inl rfl) fun call member other relevant => SlabShared.setNext_of_ne ?_⟩ }
  · rintro rfl
    exact notFree isFree
  · rintro rfl
    rcases relevant with theirs | ⟨-, isTop⟩
    · exact notTheirs call member theirs
    · obtain ⟨_, rfl, -⟩ := (isTop ▸ segment).of_some
      exact notFree (List.mem_cons_self ..)

/-- A call moves on and changes the counters of the pool. -/
theorem tallied (law : SlabLaw shared (here ::ₘ rest)) {available total chunks : Nat}
    (hands : moved.hands shared.pool.m_chunk_slabs = here.hands shared.pool.m_chunk_slabs)
    (unlinked : moved.unlinked shared.pool.m_chunk_slabs = here.unlinked shared.pool.m_chunk_slabs)
    (locks : moved.locks = here.locks) (availableLt : available < 2 ^ 64)
    (totalLt : total < 2 ^ 64)
    (counts : available + moved.adds + here.subs ≡
      shared.pool.m_available_slabs + here.adds + moved.subs [MOD 2 ^ 64])
    (totals : total + moved.totals shared.pool.m_chunk_slabs ≡
      shared.pool.m_total_slabs + here.totals shared.pool.m_chunk_slabs [MOD 2 ^ 64])
    (knows : moved.Knows shared) :
    SlabLaw
      { shared with
        pool :=
          { shared.pool with
            m_available_slabs := available
            m_total_slabs := total
            m_chunk_count := chunks } }
      (moved ::ₘ rest) := by
  obtain ⟨free, segment, owned, known⟩ := law.owned
  have others := law.others_know
    (show (SlabShared.pool { shared with
        pool :=
          { shared.pool with
            m_available_slabs := available
            m_total_slabs := total
            m_chunk_count := chunks } }).m_chunk_slabs = shared.pool.m_chunk_slabs from rfl)
    (List.Subset.refl _) (.inl rfl) fun _ _ _ _ => rfl
  refine
    { inMemory := law.inMemory
      apart := law.apart
      sized := law.sized
      tagged := law.tagged
      available := availableLt
      total := totalLt
      owned := ⟨free, segment, Eq.trans ?_ owned, ?_⟩
      totals := ?_
      live := Eq.trans ?_ law.live
      locked := Eq.trans ?_ law.locked
      knows := (Multiset.forall_mem_cons).mpr ⟨?_, others⟩ }
  · rw [Multiset.map_cons, Multiset.sum_cons, Multiset.map_cons, Multiset.sum_cons]
    simp only
    rw [hands]
  · rw [Multiset.map_cons, Multiset.sum_cons, Multiset.map_cons, Multiset.sum_cons] at known ⊢
    refine Nat.ModEq.add_right_cancel' here.subs ?_
    calc available + (moved.adds + (rest.map (·.adds)).sum) + here.subs
        = available + moved.adds + here.subs + (rest.map (·.adds)).sum := by omega
      _ ≡ shared.pool.m_available_slabs + here.adds + moved.subs + (rest.map (·.adds)).sum
          [MOD 2 ^ 64] := counts.add_right _
      _ = shared.pool.m_available_slabs + (here.adds + (rest.map (·.adds)).sum) + moved.subs := by
          omega
      _ ≡ free.length + (here.subs + (rest.map (·.subs)).sum) + moved.subs [MOD 2 ^ 64] :=
          known.add_right _
      _ = free.length + (moved.subs + (rest.map (·.subs)).sum) + here.subs := by omega
  · have kept := law.totals
    rw [Multiset.map_cons, Multiset.sum_cons, ← Nat.add_assoc] at kept ⊢
    exact (totals.add_right _).trans kept
  · rw [Multiset.map_cons, Multiset.sum_cons, Multiset.map_cons, Multiset.sum_cons]
    simp only
    rw [unlinked]
  · rw [Multiset.map_cons, Multiset.sum_cons, Multiset.map_cons, Multiset.sum_cons, locks]
  · cases moved <;> exact knows

/-- `fetch_sub(1)`. -/
theorem discount {value : Nat} (bounded : value < 2 ^ 64) :
    u64Sub value 1 + 1 ≡ value [MOD 2 ^ 64] ∧ u64Sub value 1 < 2 ^ 64 := by
  rw [u64Sub]
  split
  next some => exact ⟨by rw [Nat.sub_add_cancel some], by omega⟩
  next none =>
    refine ⟨?_, by omega⟩
    rw [Nat.sub_add_cancel (by omega)]
    exact Nat.add_modEq_right

/-! ## The head of the freelist -/

/-- A call exchanges the head. -/
theorem exchanged (law : SlabLaw shared (here ::ₘ rest)) {m_head : TaggedSlab}
    (isTag : m_head.tag = shared.updates + 1) (few : shared.updates + 1 < 2 ^ 64)
    (totals : moved.totals shared.pool.m_chunk_slabs = here.totals shared.pool.m_chunk_slabs)
    (unlinked : moved.unlinked shared.pool.m_chunk_slabs = here.unlinked shared.pool.m_chunk_slabs)
    (locks : moved.locks = here.locks) (knows : moved.Knows (shared.setHead m_head))
    {free : List Nat} (segment : Segment shared.memory.next m_head.ptr free)
    (owned : ↑free + shared.held +
      ((moved ::ₘ rest).map (·.hands shared.pool.m_chunk_slabs)).sum = ↑shared.slabs)
    (available : shared.pool.m_available_slabs + ((moved ::ₘ rest).map (·.adds)).sum ≡
      free.length + ((moved ::ₘ rest).map (·.subs)).sum [MOD 2 ^ 64]) :
    SlabLaw (shared.setHead m_head) (moved ::ₘ rest) where
  owned := ⟨free, segment, owned, available⟩
  available := law.available
  totals := by
    have kept := law.totals
    rw [Multiset.map_cons, Multiset.sum_cons] at kept ⊢
    rw [← totals] at kept
    exact kept
  total := law.total
  live := by
    have kept := law.live
    rw [Multiset.map_cons, Multiset.sum_cons] at kept ⊢
    rw [← unlinked] at kept
    exact kept
  inMemory := law.inMemory
  apart := law.apart
  sized := law.sized
  tagged := ⟨isTag, few⟩
  locked := by
    have kept := law.locked
    rw [Multiset.map_cons, Multiset.sum_cons] at kept ⊢
    rw [locks]
    exact kept
  knows := by
    rw [Multiset.forall_mem_cons]
    refine ⟨knows, law.others_know rfl (List.Subset.refl _) (.inr ?_) fun _ _ _ _ => rfl⟩
    show shared.pool.m_head.tag < m_head.tag
    rw [isTag, law.tagged.1]
    exact Nat.lt_succ_self _

/-- The compare-exchange of `acquire_slab` takes the first slab. -/
theorem popped {slab tag : Nat} {next_ptr : Option Nat}
    (law : SlabLaw shared (.popping slab tag next_ptr ::ₘ rest))
    (isHead : shared.pool.m_head = ⟨some slab, tag⟩) (few : shared.updates + 1 < 2 ^ 64) :
    SlabLaw (shared.setHead ⟨next_ptr, u64 (tag + 1)⟩) (.uncounting slab ::ₘ rest) := by
  obtain ⟨free, segment, owned, available⟩ := law.owned
  have isTag : u64 (tag + 1) = shared.updates + 1 := by
    rw [← u64_of_lt few, ← law.tagged.1, isHead]
  have isNext := (law.knows _ (Multiset.mem_cons_self _ _)).2 (by rw [isHead])
  rw [isHead] at segment
  obtain ⟨free, rfl, onward⟩ := segment.of_some
  rw [isNext.2] at onward
  rw [Multiset.map_cons, Multiset.sum_cons] at owned
  rw [Multiset.map_cons, Multiset.sum_cons, Multiset.map_cons, Multiset.sum_cons] at available
  refine law.exchanged isTag few rfl rfl rfl trivial onward ?_ ?_
  · rw [← owned, Multiset.map_cons, Multiset.sum_cons, ← Multiset.cons_coe,
      ← Multiset.singleton_add]
    simp only [SlabCall.hands]
    abel
  · rw [Multiset.map_cons, Multiset.sum_cons, Multiset.map_cons, Multiset.sum_cons]
    simp only [SlabCall.adds, SlabCall.subs, List.length_cons, Nat.zero_add] at available ⊢
    rwa [← Nat.add_assoc]

/-- The compare-exchange of `release_slab_chain` puts the chain on the freelist. -/
theorem pushed {chain : SlabChain} {current : TaggedSlab} {acquired : Option Nat}
    (law : SlabLaw shared (.pushing chain current acquired ::ₘ rest))
    (isHead : shared.pool.m_head = current) (few : shared.updates + 1 < 2 ^ 64) :
    SlabLaw (shared.setHead ⟨some chain.head, u64 (current.tag + 1)⟩)
      (.counting chain.count acquired ::ₘ rest) := by
  obtain ⟨free, segment, owned, available⟩ := law.owned
  have isTag : u64 (current.tag + 1) = shared.updates + 1 := by
    rw [← isHead, law.tagged.1, u64_of_lt few]
  obtain ⟨isChain, isNext⟩ := law.knows _ (Multiset.mem_cons_self _ _)
  rw [isHead, ← isNext] at segment
  rw [Multiset.map_cons, Multiset.sum_cons] at owned
  rw [Multiset.map_cons, Multiset.sum_cons, Multiset.map_cons, Multiset.sum_cons] at available
  refine law.exchanged isTag few rfl rfl rfl trivial (isChain.segment segment) ?_ ?_
  · rw [← owned, Multiset.map_cons, Multiset.sum_cons, ← Multiset.coe_add]
    simp only [SlabCall.hands]
    abel
  · rw [Multiset.map_cons, Multiset.sum_cons, Multiset.map_cons, Multiset.sum_cons]
    simp only [SlabCall.adds, SlabCall.subs, List.length_append, Nat.zero_add] at available ⊢
    rw [← isChain.2.2.1, ← Nat.add_assoc, Nat.add_right_comm, Nat.add_comm chain.slabs.length,
      Nat.add_right_comm free.length]
    exact available.add_right _

/-! ## Memory of chunks -/

/-- A call gets memory from `alloc`, or frees it. -/
theorem reserved (law : SlabLaw shared (here ::ₘ rest)) {memory : Memory} {live : List Chunk}
    (sameNext : memory.next = shared.memory.next)
    (hands : moved.hands shared.pool.m_chunk_slabs = here.hands shared.pool.m_chunk_slabs)
    (adds : moved.adds = here.adds) (subs : moved.subs = here.subs)
    (totals : moved.totals shared.pool.m_chunk_slabs = here.totals shared.pool.m_chunk_slabs)
    (unlinked : (↑live : Multiset Chunk) + here.unlinked shared.pool.m_chunk_slabs =
      ↑shared.live + moved.unlinked shared.pool.m_chunk_slabs)
    (inMemory : ∀ chunk ∈ live, chunk.InMemory) (apart : (live.flatMap Chunk.slabs).Nodup)
    (locks : moved.locks = here.locks) (knows : moved.Knows { shared with memory, live }) :
    SlabLaw { shared with memory, live } (moved ::ₘ rest) where
  owned := by
    obtain ⟨free, segment, owned, available⟩ := law.owned
    rw [Multiset.map_cons, Multiset.sum_cons] at owned
    rw [Multiset.map_cons, Multiset.sum_cons, Multiset.map_cons, Multiset.sum_cons] at available
    refine ⟨free, sameNext ▸ segment, ?_, ?_⟩
    · rw [Multiset.map_cons, Multiset.sum_cons, hands]
      exact owned
    · rw [Multiset.map_cons, Multiset.sum_cons, Multiset.map_cons, Multiset.sum_cons, adds, subs]
      exact available
  available := law.available
  totals := by
    have kept := law.totals
    rw [Multiset.map_cons, Multiset.sum_cons] at kept ⊢
    rw [totals]
    exact kept
  total := law.total
  live := by
    have kept := law.live
    rw [Multiset.map_cons, Multiset.sum_cons] at kept ⊢
    refine add_right_cancel (b := here.unlinked shared.pool.m_chunk_slabs) ?_
    rw [unlinked, ← kept]
    abel
  inMemory := inMemory
  apart := apart
  sized := law.sized
  tagged := law.tagged
  locked := by
    have kept := law.locked
    rw [Multiset.map_cons, Multiset.sum_cons] at kept ⊢
    rw [locks]
    exact kept
  knows := by
    rw [Multiset.forall_mem_cons]
    exact ⟨knows, law.others_know rfl (List.Subset.refl _) (.inl rfl) fun _ _ slab _ =>
      congrFun sameNext slab⟩

/-- The compare-exchange of `m_chunks` puts a chunk in the list. -/
theorem chunkLinked {raw_mem : Nat}
    (law : SlabLaw shared (.linkingChunk raw_mem shared.pool.m_chunks ::ₘ rest)) :
    SlabLaw
      { shared with
        pool :=
          { shared.pool with m_chunks := shared.chunk raw_mem :: shared.pool.m_chunks } }
      (.totalling raw_mem ::ₘ rest) where
  owned := by
    obtain ⟨free, segment, owned, available⟩ := law.owned
    rw [Multiset.map_cons, Multiset.sum_cons] at owned
    rw [Multiset.map_cons, Multiset.sum_cons, Multiset.map_cons, Multiset.sum_cons] at available
    refine ⟨free, segment, ?_, ?_⟩
    rotate_left
    · rw [Multiset.map_cons, Multiset.sum_cons, Multiset.map_cons, Multiset.sum_cons]
      exact available
    rw [Multiset.map_cons, Multiset.sum_cons]
    calc ↑free + shared.held + (↑(slabsFrom raw_mem shared.pool.m_chunk_slabs) +
          (rest.map (·.hands shared.pool.m_chunk_slabs)).sum)
        = ↑(slabsFrom raw_mem shared.pool.m_chunk_slabs) + (↑free + shared.held +
          (0 + (rest.map (·.hands shared.pool.m_chunk_slabs)).sum)) := by abel
      _ = ↑(slabsFrom raw_mem shared.pool.m_chunk_slabs) + ↑shared.slabs := congrArg _ owned
  available := law.available
  totals := by
    have kept := law.totals
    rw [Multiset.map_cons, Multiset.sum_cons] at kept ⊢
    simp only [SlabCall.totals, SlabShared.slabs, List.flatMap_cons, List.length_append] at kept ⊢
    rw [Chunk.slabs, slabsFrom_length, SlabShared.chunk, Nat.add_left_comm]
    rw [Nat.zero_add] at kept
    exact kept.add_left _
  total := law.total
  live := by
    have kept := law.live
    rw [Multiset.map_cons, Multiset.sum_cons] at kept ⊢
    rw [← kept]
    simp only [SlabCall.unlinked, SlabShared.chunk]
    rw [zero_add, ← Multiset.cons_coe, ← Multiset.singleton_add]
    abel
  inMemory := law.inMemory
  apart := law.apart
  sized := law.sized
  tagged := law.tagged
  locked := by
    have kept := law.locked
    rw [Multiset.map_cons, Multiset.sum_cons] at kept ⊢
    exact kept
  knows := by
    rw [Multiset.forall_mem_cons]
    exact ⟨List.mem_cons_self .., law.others_know rfl (List.subset_cons_self _ _) (.inl rfl)
      fun _ _ _ _ => rfl⟩

end SlabLaw

/-! ## The slabs of a new chunk -/

/-- Slabs that are linked in the order of their addresses. -/
theorem slabsFrom_isSlabChain {next : Nat → Option Nat} {base count : Nat} (some : 0 < count)
    (linked : ∀ index, index + 1 < count →
      next (base + index * slabSize) = .some (base + (index + 1) * slabSize)) :
    IsSlabChain next (.some base) (.some (base + (count - 1) * slabSize)) count
      (slabsFrom base count) := by
  refine ⟨?_, ?_, slabsFrom_length .., ?_⟩
  · obtain ⟨count, rfl⟩ := Nat.exists_eq_succ_of_ne_zero some.ne'
    rw [slabsFrom_succ]
    rfl
  · rw [slabsFrom, List.getLast?_map, List.getLast?_range, if_neg some.ne']
    rfl
  · rw [List.isChain_iff_getElem]
    intro index inRange
    rw [slabsFrom_length] at inRange
    simp only [slabsFrom, List.getElem_map, List.getElem_range]
    exact linked index inRange

namespace SlabLaw

variable {shared : SlabShared} {here moved : SlabCall} {rest pool : Multiset SlabCall}

/-- The chunk of a call that has put it in the list. -/
theorem chunk_fits (law : SlabLaw shared pool) {raw_mem : Nat}
    (member : shared.chunk raw_mem ∈ shared.pool.m_chunks) :
    raw_mem + shared.pool.m_chunk_slabs * slabSize ≤ 2 ^ 64 :=
  (law.inMemory _ (law.mem_live member)).fits

/-- Addresses in the rest of a new chunk. -/
theorem restChain_head (law : SlabLaw shared pool) {raw_mem : Nat}
    (member : shared.chunk raw_mem ∈ shared.pool.m_chunks) (more : 1 < shared.pool.m_chunk_slabs) :
    (shared.restChain raw_mem).head = raw_mem + slabSize ∧
      ∀ index < shared.pool.m_chunk_slabs - 1,
        slabAt (shared.restChain raw_mem).head index = raw_mem + slabSize + index * slabSize := by
  have fits := law.chunk_fits member
  have isHead : (shared.restChain raw_mem).head = raw_mem + slabSize := by
    rw [SlabShared.restChain, slabAt_eq more fits, Nat.one_mul]
  refine ⟨isHead, fun index inRange => ?_⟩
  rw [isHead, slabAt_eq inRange]
  rw [Nat.sub_mul, Nat.one_mul]
  have := Nat.mul_le_mul_right slabSize more.le
  omega

/-- A new chunk is its first slab and the rest of it. -/
theorem slabsFrom_rest (law : SlabLaw shared pool) {raw_mem : Nat}
    (member : shared.chunk raw_mem ∈ shared.pool.m_chunks) (more : 1 < shared.pool.m_chunk_slabs) :
    slabsFrom raw_mem shared.pool.m_chunk_slabs = raw_mem :: (shared.restChain raw_mem).slabs := by
  obtain ⟨isHead, -⟩ := law.restChain_head member more
  have split := slabsFrom_succ raw_mem (shared.pool.m_chunk_slabs - 1)
  rw [Nat.sub_add_cancel more.le, ← isHead] at split
  exact split

/-- The first slab of a new chunk is detached. -/
theorem firstDetached {raw_mem : Nat} (law : SlabLaw shared (.detachingFirst raw_mem ::ₘ rest)) :
    SlabLaw (shared.setNext raw_mem none)
      ((if 1 < shared.pool.m_chunk_slabs then .partitioning raw_mem 0
        else .unlocking (some raw_mem)) ::ₘ rest) := by
  have member := law.knows _ (Multiset.mem_cons_self _ _)
  have isFirst : raw_mem ∈ slabsFrom raw_mem shared.pool.m_chunk_slabs :=
    mem_slabsFrom.mpr ⟨0, law.sized, by rw [Nat.zero_mul, Nat.add_zero]⟩
  have detached : SlabLaw (shared.setNext raw_mem none) (.detachingFirst raw_mem ::ₘ rest) :=
    law.wrote (.inl isFirst) member
  split
  next more =>
    refine detached.onward rfl ⟨rfl, rfl, rfl, rfl⟩ rfl ⟨member, more, fun earlier before => ?_⟩
    exact absurd before (Nat.not_lt_zero _)
  next single =>
    have one : shared.pool.m_chunk_slabs = 1 := by
      have := law.sized
      omega
    refine detached.onward ?_ ⟨rfl, rfl, rfl, rfl⟩ rfl trivial
    show ([raw_mem] : Multiset Nat) = ↑(slabsFrom raw_mem shared.pool.m_chunk_slabs)
    rw [one]
    rfl

/-- A turn of `partition_slab_chain` links one slab. -/
theorem partitioned {raw_mem index : Nat}
    (law : SlabLaw shared (.partitioning raw_mem index ::ₘ rest)) :
    let chain := shared.restChain raw_mem
    SlabLaw
      (shared.setNext (slabAt chain.head index)
        (if index + 1 < chain.count then some (slabAt chain.head (index + 1)) else none))
      ((if index + 1 < chain.count then .partitioning raw_mem (index + 1)
        else .loadingTop chain (some raw_mem)) ::ₘ rest) := by
  intro chain
  obtain ⟨member, inRange, linked⟩ := law.knows _ (Multiset.mem_cons_self _ _)
  have more : 1 < shared.pool.m_chunk_slabs := by omega
  obtain ⟨isHead, isSlab⟩ := law.restChain_head member more
  have isCount : chain.count = shared.pool.m_chunk_slabs - 1 := rfl
  have address (place : Nat) :
      raw_mem + slabSize + place * slabSize = raw_mem + (place + 1) * slabSize := by
    rw [Nat.add_mul, Nat.one_mul, Nat.add_assoc, Nat.add_comm slabSize]
  have here : slabAt chain.head index = raw_mem + (index + 1) * slabSize :=
    (isSlab index (by omega)).trans (address index)
  have positive : 0 < slabSize := by decide
  have apart (one two : Nat) (different : one ≠ two) :
      raw_mem + one * slabSize ≠ raw_mem + two * slabSize := fun same =>
    different (Nat.eq_of_mul_eq_mul_right positive (Nat.add_left_cancel same))
  have mine : slabAt chain.head index ∈ slabsFrom raw_mem shared.pool.m_chunk_slabs :=
    mem_slabsFrom.mpr ⟨index + 1, inRange, here.symm⟩
  have kept (next : Option Nat) (earlier : Nat) (before : earlier < index) :
      (shared.setNext (slabAt chain.head index) next).memory.next
        (raw_mem + (earlier + 1) * slabSize) = some (raw_mem + (earlier + 1 + 1) * slabSize) := by
    rw [← linked earlier before, here]
    exact SlabShared.setNext_of_ne (apart (earlier + 1) (index + 1) (by omega))
  have written (next : Option Nat) :
      (shared.setNext (slabAt chain.head index) next).memory.next
        (raw_mem + (index + 1) * slabSize) = next := by
    rw [← here]
    exact SlabShared.setNext_self
  split
  next inChain =>
    have after : slabAt chain.head (index + 1) = raw_mem + (index + 1 + 1) * slabSize :=
      (isSlab (index + 1) (by omega)).trans (address (index + 1))
    refine (law.wrote (.inl mine) ⟨member, inRange, kept _⟩).onward rfl ⟨rfl, rfl, rfl, rfl⟩ rfl
      ⟨member, ?_, fun earlier before => ?_⟩
    · show index + 1 + 1 < shared.pool.m_chunk_slabs
      omega
    · rcases Nat.lt_succ_iff_lt_or_eq.mp before with early | rfl
      · exact kept _ earlier early
      · exact (written _).trans (congrArg some after)
  next isLast =>
    refine (law.wrote (.inl mine) ⟨member, inRange, kept _⟩).onward ?_ ⟨rfl, rfl, rfl, rfl⟩ rfl ?_
    · show (↑chain.slabs + ↑[raw_mem] : Multiset Nat) =
        ↑(slabsFrom raw_mem shared.pool.m_chunk_slabs)
      rw [law.slabsFrom_rest member more, ← Multiset.cons_coe, ← Multiset.singleton_add, add_comm]
      rfl
    · have isTail : chain.tail = chain.head + (chain.count - 1) * slabSize := by
        rw [isHead]
        exact isSlab _ (by omega)
      have isChain := @slabsFrom_isSlabChain
        (shared.setNext (slabAt chain.head index) none).memory.next chain.head chain.count
        (by omega) fun earlier before => by
          have inChunk (place : Nat) :
              chain.head + place * slabSize = raw_mem + (place + 1) * slabSize := by
            rw [← address, ← isHead]
          rw [inChunk, inChunk]
          exact kept none earlier (by omega)
      rw [← isTail] at isChain
      exact isChain

/-- The tail of a chain is linked to the freelist. -/
theorem tailLinked {chain : SlabChain} {current : TaggedSlab} {acquired : Option Nat}
    (law : SlabLaw shared (.linkingTail chain current acquired ::ₘ rest)) :
    SlabLaw (shared.setNext chain.tail current.ptr) (.pushing chain current acquired ::ₘ rest) := by
  have isChain := law.knows _ (Multiset.mem_cons_self _ _)
  obtain ⟨free, -, owned, -⟩ := law.owned
  have inHands : (↑chain.slabs + ↑acquired.toList : Multiset Nat).Nodup :=
    (law.exclusive owned).2.1
  have distinct := Multiset.coe_nodup.mp (Multiset.nodup_of_le (Multiset.le_add_right _ _) inHands)
  have mine : chain.tail ∈ (↑chain.slabs + ↑acquired.toList : Multiset Nat) :=
    Multiset.mem_add.mpr (.inl (List.mem_of_getLast? isChain.2.1))
  have still : IsSlabChain (shared.setNext chain.tail current.ptr).memory.next (some chain.head)
      (some chain.tail) chain.count chain.slabs :=
    isChain.congr (fun slab _ notTail => SlabShared.setNext_of_ne
      fun same => notTail (congrArg some same)) distinct
  refine (law.wrote (.inl mine) still).onward rfl ⟨rfl, rfl, rfl, rfl⟩ rfl
    ⟨still, SlabShared.setNext_self⟩

end SlabLaw

end LightFlow
