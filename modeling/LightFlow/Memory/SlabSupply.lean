import LightFlow.Lib.Areas
import LightFlow.Memory.SlabOwners

/-!
# Slabs between a pool and its callers

What `acquire_slab` and `release_slab_chain` of a single thread do to the freelist, and which
`next` pointers they leave alone.
-/

namespace LightFlow

/-- The area of a slab. -/
def slabArea (slab : Nat) : Area := ⟨slab, slabSize⟩

def Chunk.area (chunk : Chunk) : Area := ⟨chunk.base_ptr, chunk.slab_count * slabSize⟩

namespace BlockPool

/-- A call of `acquire_slab` where the freelist is `free`: it returns null and leaves the freelist
alone, or it takes the first slab of the freelist, after it has added those of a new chunk to an
empty one. -/
inductive Supplies (pool : BlockPool) (memory : Memory) (free : List Nat)
    (answers : MemoryAnswers) : Memory × BlockPool × Option Nat → Prop where
  | refused {after : Memory} : after.next = memory.next →
      Supplies pool memory free answers (after, pool, none)
  | supplied {after : Memory} {next : BlockPool} {slab : Nat} {rest added : List Nat} :
      free ++ added = slab :: rest → Segment after.next next.m_head.ptr rest →
      (∀ other, other ∉ free ++ added → after.next other = memory.next other) →
      (added = [] ∧ next.m_chunks = pool.m_chunks ∨
        free = [] ∧ ∃ raw_mem ∈ answers.memory, ∃ chunk : Chunk,
          chunk = { base_ptr := raw_mem, slab_count := pool.m_chunk_slabs } ∧
            added = chunk.slabs ∧ next.m_chunks = chunk :: pool.m_chunks) →
      next.m_callbacks = pool.m_callbacks → next.m_chunk_slabs = pool.m_chunk_slabs →
      Supplies pool memory free answers (after, next, some slab)

section

variable {pool : BlockPool} {memory : Memory} {free : List Nat} {answers : MemoryAnswers}

/-- The first slab of a new chunk is returned, and the others become the freelist. -/
theorem allocateChunkAndAcquire_supplies (none : pool.m_head.ptr = none)
    (sized : pool.m_callbacks.isValid = true → 0 < pool.m_chunk_slabs)
    (fits : ∀ raw_mem ∈ answers.memory, raw_mem + pool.m_chunk_slabs * slabSize ≤ 2 ^ 64) :
    pool.Supplies memory [] answers (pool.allocateChunkAndAcquire answers memory) := by
  rw [allocateChunkAndAcquire]
  split
  next => exact .refused rfl
  next valid =>
    have some := sized (by simpa using valid)
    cases isMemory : answers.memory with
    | none => exact .refused rfl
    | some raw_mem =>
        have inSpace := fits raw_mem isMemory
        have first := slabsFrom_succ raw_mem (pool.m_chunk_slabs - 1)
        rw [Nat.sub_add_cancel some] at first
        have isFirst : raw_mem ∈ slabsFrom raw_mem pool.m_chunk_slabs := by
          rw [first]
          exact List.mem_cons_self ..
        simp only
        split
        next =>
          split
          next more =>
            have start : slabAt raw_mem 1 = raw_mem + slabSize := by
              rw [slabAt_eq more inSpace, Nat.one_mul]
            have rest : raw_mem + slabSize + (pool.m_chunk_slabs - 1) * slabSize ≤ 2 ^ 64 := by
              have total : pool.m_chunk_slabs = pool.m_chunk_slabs - 1 + 1 := by omega
              rw [total, Nat.add_mul, Nat.one_mul] at inSpace
              omega
            have last : slabAt (raw_mem + slabSize) (pool.m_chunk_slabs - 1 - 1) =
                raw_mem + slabSize + (pool.m_chunk_slabs - 1 - 1) * slabSize :=
              slabAt_eq (by omega) rest
            rw [start]
            generalize isBefore : (memory.record (.allocated ⟨raw_mem,
              u64 (pool.m_chunk_slabs * slabSize), slabSize,
              pool.m_callbacks.user_data⟩)).link raw_mem Option.none = before
            obtain ⟨linked, others, -⟩ := @partition_links (raw_mem + slabSize)
              (pool.m_chunk_slabs - 1) before rest (pool.m_chunk_slabs - 1) le_rfl
            change ∀ index < pool.m_chunk_slabs - 1, (partitionSlabChain (raw_mem + slabSize)
              (pool.m_chunk_slabs - 1) before).next _ = _ at linked
            change ∀ slab, _ → (partitionSlabChain (raw_mem + slabSize)
              (pool.m_chunk_slabs - 1) before).next slab = _ at others
            have segment := @partitionSlabChain_segment (raw_mem + slabSize)
              (pool.m_chunk_slabs - 1) before rest (by omega)
            have atEnd := linked (pool.m_chunk_slabs - 1 - 1) (by omega)
            rw [if_neg (by omega)] at atEnd
            generalize partitionSlabChain (raw_mem + slabSize) (pool.m_chunk_slabs - 1) before =
              chained at *
            rw [releaseSlabChain]
            simp only
            rw [if_neg (by omega)]
            -- The last slab is linked to null once more.
            have same : (chained.link (slabAt (raw_mem + slabSize) (pool.m_chunk_slabs - 1 - 1))
                pool.m_head.ptr).next = chained.next := by
              rw [Memory.link, last, none, ← atEnd]
              exact Function.update_eq_self ..
            refine .supplied first ?_ ?_ (.inr ⟨rfl, raw_mem, isMemory, _, rfl, rfl, rfl⟩) rfl rfl
            · rw [same]
              exact segment
            · intro other notIn
              rw [same]
              change other ∉ slabsFrom raw_mem pool.m_chunk_slabs at notIn
              rw [first, List.mem_cons, not_or] at notIn
              rw [others other ?_, ← isBefore]
              · exact Function.update_of_ne notIn.1 ..
              · rintro index inRange rfl
                exact notIn.2 (mem_slabsFrom.mpr ⟨index, inRange, rfl⟩)
          next single =>
            have one : pool.m_chunk_slabs = 1 := by omega
            have only : slabsFrom raw_mem pool.m_chunk_slabs = [raw_mem] := by
              rw [first, one]
              rfl
            refine .supplied only ?_ ?_ (.inr ⟨rfl, raw_mem, isMemory, _, rfl, rfl, rfl⟩) rfl rfl
            · show Segment _ pool.m_head.ptr []
              rw [none]
              exact .nil
            · intro other notIn
              exact Function.update_of_ne (fun same => notIn (by rw [same]; exact isFirst)) ..
        next => exact .refused rfl

/-- What `acquire_slab` does. -/
theorem acquireSlab_supplies (segment : Segment memory.next pool.m_head.ptr free)
    (sized : pool.m_callbacks.isValid = true → 0 < pool.m_chunk_slabs)
    (fits : ∀ raw_mem ∈ answers.memory, raw_mem + pool.m_chunk_slabs * slabSize ≤ 2 ^ 64) :
    pool.Supplies memory free answers (pool.acquireSlab answers memory) := by
  rw [acquireSlab]
  cases isHead : pool.m_head.ptr with
  | none =>
      rw [isHead] at segment
      cases segment
      simp only
      split
      next => exact allocateChunkAndAcquire_supplies isHead sized fits
      next => exact .refused rfl
  | some slab =>
      have distinct := segment.nodup
      rw [isHead] at segment
      obtain ⟨rest, rfl, onward⟩ := segment.of_some
      refine .supplied (List.append_nil _) ?_ ?_ (.inl ⟨rfl, rfl⟩) rfl rfl
      · refine onward.congr fun other member => Function.update_of_ne ?_ ..
        exact ne_of_mem_of_not_mem member (List.nodup_cons.mp distinct).1
      · intro other notIn
        refine Function.update_of_ne ?_ ..
        rintro rfl
        exact notIn (List.mem_append_left _ (List.mem_cons_self ..))

/-- `release_slab_chain` puts a chain in front of the freelist. -/
theorem releaseSlabChain_supplies {head tail : Nat} {count : Nat} {slabs : List Nat}
    (segment : Segment memory.next pool.m_head.ptr free)
    (isChain : IsSlabChain memory.next (some head) (some tail) count slabs)
    (distinct : slabs.Nodup) (apart : ∀ slab ∈ slabs, slab ∉ free) :
    let (after, next) := pool.releaseSlabChain (some head) (some tail) count memory
    Segment after.next next.m_head.ptr (slabs ++ free) ∧
      (∀ other, other ∉ slabs → after.next other = memory.next other) ∧
      next.m_chunks = pool.m_chunks ∧ next.m_callbacks = pool.m_callbacks ∧
      next.m_chunk_slabs = pool.m_chunk_slabs := by
  have isLast : tail ∈ slabs := List.mem_of_getLast? isChain.2.1
  have some : count ≠ 0 := by
    rw [← isChain.2.2.1]
    exact (List.length_pos_of_mem isLast).ne'
  simp only [releaseSlabChain, if_neg some]
  refine ⟨?_, ?_, trivial, trivial, trivial⟩
  · have moved : IsSlabChain (memory.link tail pool.m_head.ptr).next (.some head) (.some tail)
        count slabs := isChain.congr
      (fun slab _ notLast => Function.update_of_ne (fun same => notLast (by rw [same])) ..) distinct
    refine moved.segment ?_
    rw [show (memory.link tail pool.m_head.ptr).next tail = pool.m_head.ptr from
      Function.update_self ..]
    refine segment.congr fun slab member => Function.update_of_ne ?_ ..
    rintro rfl
    exact apart slab isLast member
  · intro other notIn
    exact Function.update_of_ne (fun same => notIn (by rw [same]; exact isLast)) ..

/-- A pool that was constructed has the slabs of one chunk, or none. -/
theorem construct_supplies {callbacks : MemoryCallbacks} {initial_slabs chunk_slabs : Nat}
    {allow_growth : Bool}
    (fits : ∀ raw_mem ∈ answers.memory, raw_mem + initial_slabs * slabSize ≤ 2 ^ 64)
    {built : Memory × BlockPool}
    (isBuilt :
      built = construct callbacks initial_slabs chunk_slabs allow_growth answers memory) :
    0 < built.2.m_chunk_slabs ∧
      (built.2.m_head.ptr = none ∧ built.2.m_chunks = [] ∧ built.1.next = memory.next ∨
        ∃ raw_mem ∈ answers.memory, ∃ chunk : Chunk,
          chunk = { base_ptr := raw_mem, slab_count := initial_slabs } ∧
            built.2.m_chunks = [chunk] ∧ Segment built.1.next built.2.m_head.ptr chunk.slabs ∧
            ∀ other, other ∉ chunk.slabs → built.1.next other = memory.next other) := by
  subst isBuilt
  have sized : 0 < if 0 < chunk_slabs then chunk_slabs else 256 := by
    split
    next some => exact some
    next => decide
  simp only [construct]
  split
  next => exact ⟨sized, .inl ⟨rfl, rfl, rfl⟩⟩
  next =>
    split
    next => exact ⟨sized, .inl ⟨rfl, rfl, rfl⟩⟩
    next some =>
      cases isMemory : answers.memory with
      | none => exact ⟨sized, .inl ⟨rfl, rfl, rfl⟩⟩
      | some raw_mem =>
          have inSpace := fits raw_mem isMemory
          simp only
          split
          next =>
            refine ⟨sized, .inr ⟨raw_mem, rfl, _, rfl, rfl, ?_, fun other notIn => ?_⟩⟩
            · exact partitionSlabChain_segment inSpace (Nat.pos_of_ne_zero some)
            · obtain ⟨-, others, -⟩ := @partition_links raw_mem initial_slabs
                (memory.record (.allocated ⟨raw_mem, u64 (initial_slabs * slabSize), slabSize,
                  callbacks.user_data⟩)) inSpace initial_slabs le_rfl
              refine others other fun index inRange same => notIn ?_
              rw [same]
              exact mem_slabsFrom.mpr ⟨index, inRange, rfl⟩
          next => exact ⟨sized, .inl ⟨rfl, rfl, rfl⟩⟩

end

end BlockPool

end LightFlow
