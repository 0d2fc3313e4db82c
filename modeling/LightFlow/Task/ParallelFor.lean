import LightFlow.Lib.Tiling
import LightFlow.Task.BuildingSteps
import LightFlow.Task.Wiring
import Mathlib.Algebra.Order.Floor.Div

/-!
# Partitioned loops

The chunks of `parallelFor` tile the range, and lie between the entry node and the join barrier,
unless the sum that rounds their number up wraps: then it rounds to zero, and the loop has no
chunks.
-/

namespace LightFlow

/-- The targets of the edges of a node. -/
def targets (store : NodeStore) (node : NodeId) : List NodeId :=
  (store node).successors.map (·.target)

theorem precedes_iff {store : NodeStore} {source target : NodeId} :
    Precedes store source target ↔ target ∈ targets store source := by
  simp [Precedes, targets]

theorem targets_addEdge (graph : TaskGraph) (source target : NodeId) (branch : Int)
    (node : NodeId) : targets (graph.addEdge source target branch).node node =
      if node = source then target :: targets graph.node node else targets graph.node node := by
  rw [targets, TaskGraph.addEdge_successors]
  split <;> rfl

/-- The nodes of a path of edges, from its first node to its last one. -/
def IsPath (store : NodeStore) (first last : NodeId) (path : List NodeId) : Prop :=
  path.head? = some first ∧ path.getLast? = some last ∧ path.IsChain (Precedes store)

/-- The half-open interval of a chunk. -/
def ChunkRange.bounds (range : ChunkRange) : Nat × Nat := (range.start, range.end)

namespace Construction

variable {building : Construction} {make : Nat → NodeCallable} {domain : TaskDomain}
  {entry join : NodeId} {turns : Nat}

/-! ## The edges of a loop -/

theorem targets_withNode (type : TaskType) (domain : TaskDomain) (node : NodeId) :
    targets (building.withNode type domain).graph.node node =
      if node = .node building.created then [] else targets building.graph.node node := by
  simp only [targets, withNode, NodeStore.set]
  split <;> simp_all

theorem targets_withEdge (source target : NodeId) (branch : Int) (node : NodeId) :
    targets (building.withEdge source target branch).graph.node node =
      if node = source then target :: targets building.graph.node node
      else targets building.graph.node node :=
  targets_addEdge building.graph source target branch node

@[simp] theorem setInline_node (node : NodeId) (callable : NodeCallable) :
    (building.setInline node callable).graph.node = building.graph.node := rfl

@[simp] theorem appendNode_node (node : NodeId) :
    (building.appendNode node).graph.node = building.graph.node := rfl

@[simp] theorem skip_node (allocations : Nat) :
    (building.skip allocations).graph.node = building.graph.node := rfl

theorem targets_withChunk (callable : NodeCallable) (other : entry ≠ .node building.created)
    (node : NodeId) :
    targets (building.withChunk callable domain entry join).graph.node node =
      if node = .node building.created then [join]
      else if node = entry then .node building.created :: targets building.graph.node node
      else targets building.graph.node node := by
  simp only [withChunk, targets_withEdge, appendNode_node, setInline_node, targets_withNode]
  by_cases isChunk : node = .node building.created
  · simp [isChunk, Ne.symm other]
  · simp [isChunk]

/-- The chunks come behind the entry, and the join behind each of them. -/
theorem targets_withChunks (make : Nat → NodeCallable) (domain : TaskDomain) (join : NodeId)
    (turns : Nat) (fresh : ∀ turn, entry ≠ .node (building.created + turn))
    (node : NodeId) :
    targets (building.withChunks make domain entry join turns).graph.node node =
      if node ∈ building.chunksFrom turns then [join]
      else if node = entry then
        (building.chunksFrom turns).reverse ++ targets building.graph.node node
      else targets building.graph.node node := by
  induction turns with
  | zero => simp [withChunks, chunksFrom]
  | succ turns ih =>
      have chunks : building.chunksFrom (turns + 1) =
          building.chunksFrom turns ++ [.node (building.created + turns)] := by
        simp [chunksFrom, List.range_succ]
      have later : NodeId.node (building.created + turns) ∉ building.chunksFrom turns := by
        simp [chunksFrom]
      rw [withChunks, targets_withChunk _ (by simpa using fresh turns), ih, withChunks_created,
        chunks]
      by_cases isChunk : node = .node (building.created + turns)
      · simp [isChunk]
      · by_cases isEntry : node = entry
        · have outside : entry ∉ building.chunksFrom turns := by
            simp only [chunksFrom, List.mem_map, not_exists, not_and]
            exact fun turn _ equal => fresh turn equal.symm
          simp [isEntry, outside, fresh turns]
        · simp [isChunk, isEntry]

/-- Each chunk has the callable that was made for it. -/
theorem callable_withChunks :
    (building.chunksFrom turns).map
        (building.withChunks make domain entry join turns).callable =
      (List.range turns).map make := by
  induction turns with
  | zero => rfl
  | succ turns ih =>
      have update : (building.withChunks make domain entry join (turns + 1)).callable =
          Function.update (building.withChunks make domain entry join turns).callable
            (.node (building.created + turns)) (make turns) := by
        rw [← withChunks_created make domain entry join turns]
        rfl
      have older : (building.chunksFrom turns).map
          (building.withChunks make domain entry join (turns + 1)).callable =
          (List.range turns).map make := by
        rw [← ih, update]
        refine List.map_congr_left fun chunk member => Function.update_of_ne ?_ _ _
        rintro rfl
        simp [chunksFrom] at member
      rw [List.range_succ, List.map_append, ← older, update]
      simp [chunksFrom, List.range_succ]

/-! ## The paths of a loop -/

/-- Every path from `entry` to `exit` goes through a chunk, and every chunk lies on one. -/
def GoesThrough (store : NodeStore) (entry exit : NodeId) (chunks : List NodeId) : Prop :=
  (∀ path, IsPath store entry exit path → ∃ chunk ∈ chunks, chunk ∈ path) ∧
    ∀ chunk ∈ chunks, ∃ path, IsPath store entry exit path ∧ chunk ∈ path

/-- A chunk that is entry and exit. -/
theorem goesThrough_self (store : NodeStore) (chunk : NodeId) :
    GoesThrough store chunk chunk [chunk] := by
  constructor
  · rintro path ⟨first, -, -⟩
    exact ⟨chunk, List.mem_singleton_self chunk, List.mem_of_mem_head? first⟩
  · rintro other member
    obtain rfl := List.mem_singleton.mp member
    exact ⟨[other], ⟨rfl, rfl, .singleton other⟩, member⟩

/-- Chunks between an entry that only they follow and an exit. -/
theorem goesThrough_of_targets {store : NodeStore} {entry exit : NodeId} {chunks : List NodeId}
    (different : entry ≠ exit)
    (behind : ∀ node, node ∈ targets store entry ↔ node ∈ chunks)
    (before : ∀ chunk ∈ chunks, exit ∈ targets store chunk) :
    GoesThrough store entry exit chunks := by
  constructor
  · rintro path ⟨first, last, chain⟩
    match path, first, last, chain with
    | [node], first, last, _ =>
        cases first
        cases last
        exact absurd rfl different
    | node :: next :: rest, first, _, chain =>
        cases first
        have step := (List.isChain_cons_cons.mp chain).1
        exact ⟨next, (behind next).mp (precedes_iff.mp step), by simp⟩
  · intro chunk member
    refine ⟨[entry, chunk, exit], ⟨rfl, rfl, ?_⟩, by simp⟩
    refine .cons_cons (precedes_iff.mpr ((behind chunk).mpr member)) ?_
    exact .cons_cons (precedes_iff.mpr (before chunk member)) (.singleton exit)

/-- The entry of a loop has no edges before the chunk loop. -/
theorem targets_withFrame (numChunks : Nat) :
    targets (building.withFrame numChunks domain).graph.node (.node building.created) = [] := by
  simp only [withFrame, withEmpty, skip_node, setInline_node, appendNode_node, targets_withNode]
  rw [if_neg (by simp [withNode, setInline, appendNode, skip])]
  exact if_pos rfl

/-- The entry of a loop, its chunks and its join barrier. -/
theorem goesThrough_withLoop (building : Construction) (make : Nat → NodeCallable)
    (domain : TaskDomain) (numChunks : Nat) :
    GoesThrough (building.withLoop make domain numChunks).graph.node (.node building.created)
      (.node (building.created + 1))
      ((building.withFrame numChunks domain).chunksFrom numChunks) := by
  have fresh (turn : Nat) : NodeId.node building.created ≠
      .node ((building.withFrame numChunks domain).created + turn) := by
    change _ ≠ NodeId.node (building.created + 2 + turn)
    simp only [ne_eq, NodeId.node.injEq]
    omega
  have frame := targets_withChunks make domain (.node (building.created + 1)) numChunks fresh
  refine goesThrough_of_targets (by simp) (fun node => ?_) fun chunk member => ?_
  · have outside : NodeId.node building.created ∉
        (building.withFrame numChunks domain).chunksFrom numChunks := by
      simp only [chunksFrom, List.mem_map, not_exists, not_and]
      exact fun turn _ equal => fresh turn equal.symm
    rw [withLoop, appendNode_node, frame, if_neg outside, if_pos rfl, targets_withFrame]
    simp
  · rw [withLoop, appendNode_node, frame, if_pos member]
    exact List.mem_singleton_self _

/-! ## The ranges of a loop -/

section Sizes

variable {count batchSize : Nat}

theorem max_eq_clamp (batchSize : Nat) :
    max 1 batchSize = if batchSize = 0 then 1 else batchSize := by
  split <;> omega

/-- The number of chunks is rounded up where the sum does not wrap. -/
theorem parallelForChunkCount_eq (narrow : count + max 1 batchSize - 1 < 2 ^ 64) :
    TaskGraph.parallelForChunkCount count batchSize = count ⌈/⌉ max 1 batchSize := by
  rw [TaskGraph.parallelForChunkCount, ← max_eq_clamp, Nat.ceilDiv_eq_add_pred_div]
  exact congrArg (· / _) (u64_of_lt narrow)

/-- Where the sum wraps, the number of chunks is zero. -/
theorem parallelForChunkCount_of_wrap (countBound : count < 2 ^ 64)
    (batchBound : batchSize < 2 ^ 64) (wraps : 2 ^ 64 ≤ count + max 1 batchSize - 1) :
    TaskGraph.parallelForChunkCount count batchSize = 0 := by
  rw [TaskGraph.parallelForChunkCount, ← max_eq_clamp]
  have wrapped : u64 (count + max 1 batchSize - 1) = count + max 1 batchSize - 1 - 2 ^ 64 := by
    rw [u64, Nat.mod_eq_sub_mod wraps, Nat.mod_eq_of_lt (by omega)]
  refine Nat.div_eq_of_lt ?_
  rw [wrapped]
  omega

/-- The number of chunks is the least that covers the range. -/
theorem ceilDiv_bounds (batchSize : Nat) (positive : 0 < count) :
    (count ⌈/⌉ max 1 batchSize - 1) * max 1 batchSize < count ∧
      count ≤ count ⌈/⌉ max 1 batchSize * max 1 batchSize := by
  have size : 0 < max 1 batchSize := by omega
  constructor
  · by_contra covers
    have fewer := (ceilDiv_le_iff_le_mul size).mpr
      ((not_lt.mp covers).trans (Nat.mul_comm _ _).le)
    have some : 0 < count ⌈/⌉ max 1 batchSize := by
      by_contra none
      have := (ceilDiv_le_iff_le_mul size).mp (Nat.le_of_not_lt none)
      omega
    omega
  · rw [Nat.mul_comm]
    exact (ceilDiv_le_iff_le_mul size).mp le_rfl

/-- No border of a chunk wraps. -/
theorem chunkRange_bounds (numChunks : Nat) {size c : Nat} (narrow : count + size - 1 < 2 ^ 64)
    (starts : c * size < count) :
    (chunkRange count size numChunks c).bounds = (c * size, min count (c * size + size)) := by
  have start : u64 (c * size) = c * size := u64_of_lt (by omega)
  simp only [chunkRange, ChunkRange.bounds, start]
  rw [u64_of_lt (by omega)]

end Sizes

/-! ## What a loop is to be -/

/-- The chunks of a loop are the pieces of its range.  `make` is the callable of a piece. -/
structure Partitions (make : ChunkRange → NodeCallable) (count batchSize : Nat)
    (built : Construction) (handle : ParallelForHandle) : Prop where
  chunkCount : handle.chunkCount = count ⌈/⌉ max 1 batchSize
  pieces : ∃ ranges : List ChunkRange,
    handle.chunks.map built.callable = ranges.map make ∧
      ranges.map (·.chunkIndex) = List.range handle.chunkCount ∧
      Tiles 0 (ranges.map (·.bounds)) count ∧
      ∀ range ∈ ranges, range.end - range.start ≤ max 1 batchSize
  between : 0 < count → GoesThrough built.graph.node handle.entry handle.exit handle.chunks

/-- The chunks of a loop with `ByChunk` have the indices of the pieces. -/
structure PartitionsByChunk (count batchSize : Nat) (built : Construction)
    (handle : ParallelForHandle) : Prop where
  chunkCount : handle.chunkCount = count ⌈/⌉ max 1 batchSize
  indices : handle.chunks.map built.callable = (List.range handle.chunkCount).map .byChunk
  between : 0 < count → GoesThrough built.graph.node handle.entry handle.exit handle.chunks

theorem Partitions.byChunk {count batchSize : Nat} {built : Construction}
    {handle : ParallelForHandle}
    (partitions : Partitions (fun range => .byChunk range.chunkIndex) count batchSize built
      handle) :
    PartitionsByChunk count batchSize built handle where
  chunkCount := partitions.chunkCount
  indices := by
    obtain ⟨ranges, callables, indices, -, -⟩ := partitions.pieces
    rw [callables, ← indices, List.map_map]
    rfl
  between := partitions.between

/-- A loop over items makes one call for each item of the range, in order. -/
theorem Partitions.items {count batchSize : Nat} {built : Construction}
    {handle : ParallelForHandle}
    (partitions : Partitions (.chunk .item) count batchSize built handle) :
    ∃ ranges : List ChunkRange, handle.chunks.map built.callable = ranges.map (.chunk .item) ∧
      ranges.flatMap LoopKind.item.calls = (List.range count).map .item := by
  obtain ⟨ranges, callables, -, tiles, -⟩ := partitions.pieces
  refine ⟨ranges, callables, ?_⟩
  have numbers := congrArg (List.map LoopCall.item) tiles.flatMap_range'
  rw [List.flatMap_map, List.map_flatMap, Nat.sub_zero, ← List.range_eq_range'] at numbers
  exact numbers

section Results

variable {count batchSize : Nat} (building : Construction) (make : ChunkRange → NodeCallable)
  (single : ClosureType) (domain : TaskDomain)

/-- The pass-through node of an empty range. -/
theorem partitions_zero :
    ∃ built handle, building.parallelForWith (fun _ => true) 0 batchSize make single domain =
        some (built, handle) ∧ Partitions make 0 batchSize built handle := by
  rw [parallelForWith_zero, if_pos (Granted.all _ _)]
  refine ⟨_, _, rfl, ?_, ⟨[], rfl, rfl, .nil, nofun⟩, nofun⟩
  simp

/-- A loop of one chunk. -/
theorem partitions_one (positive : 0 < count)
    (narrow : count + max 1 batchSize - 1 < 2 ^ 64) (one : count ⌈/⌉ max 1 batchSize = 1) :
    ∃ built handle, building.parallelForWith (fun _ => true) count batchSize make single domain =
        some (built, handle) ∧ Partitions make count batchSize built handle := by
  have rounded := parallelForChunkCount_eq narrow
  rw [parallelForWith_one positive.ne' (rounded.trans one), if_pos (Granted.all _ _)]
  refine ⟨_, _, rfl, one.symm, ⟨[⟨0, count, 0, 1⟩], ?_, rfl, ?_, ?_⟩, fun _ => ?_⟩
  · simp [withTask, withCallable, appendNode, setInline, skip]
  · exact .cons positive .nil
  · have covers := (ceilDiv_bounds batchSize positive).2
    simpa [one] using covers
  · exact goesThrough_self _ _

/-- A loop of several chunks. -/
theorem partitions_many (positive : 0 < count)
    (narrow : count + max 1 batchSize - 1 < 2 ^ 64) (many : count ⌈/⌉ max 1 batchSize ≠ 1) :
    ∃ built handle, building.parallelForWith (fun _ => true) count batchSize make single domain =
        some (built, handle) ∧ Partitions make count batchSize built handle := by
  have rounded := parallelForChunkCount_eq narrow
  have bounds := ceilDiv_bounds batchSize positive
  rw [parallelForWith_many positive.ne' (by rwa [rounded])]
  simp only [rounded, ← max_eq_clamp, if_pos (Granted.all _ _)]
  generalize counted : count ⌈/⌉ max 1 batchSize = numChunks at *
  have starts (c : Nat) (member : c ∈ List.range numChunks) : c * max 1 batchSize < count := by
    have less := List.mem_range.mp member
    exact (Nat.mul_le_mul_right _ (by omega)).trans_lt bounds.1
  refine ⟨_, _, rfl, counted.symm, ⟨(List.range numChunks).map (chunkRange count (max 1 batchSize)
    numChunks), ?_, ?_, ?_, ?_⟩, fun _ => goesThrough_withLoop _ _ _ _⟩
  · rw [List.map_map]
    exact callable_withChunks
  · rw [List.map_map]
    exact List.map_id _
  · have tiles := Tiles.cut (by omega : 0 < max 1 batchSize) numChunks (.inr bounds.1)
    rw [min_eq_left bounds.2] at tiles
    rw [List.map_map, List.map_congr_left (g := fun c =>
      (c * max 1 batchSize, min count (c * max 1 batchSize + max 1 batchSize)))]
    · exact tiles
    · intro c member
      exact chunkRange_bounds numChunks narrow (starts c member)
  · intro range member
    obtain ⟨c, turn, rfl⟩ := List.mem_map.mp member
    have border := chunkRange_bounds numChunks narrow (starts c turn)
    simp only [ChunkRange.bounds, Prod.mk.injEq] at border
    omega

/-- Where the sum does not wrap, a loop partitions its range. -/
theorem partitions_of_narrow
    (narrow : count + max 1 batchSize - 1 < 2 ^ 64) :
    ∃ built handle, building.parallelForWith (fun _ => true) count batchSize make single domain =
        some (built, handle) ∧ Partitions make count batchSize built handle := by
  rcases Nat.eq_zero_or_pos count with rfl | positive
  · exact partitions_zero building make single domain
  · by_cases one : count ⌈/⌉ max 1 batchSize = 1
    · exact partitions_one building make single domain positive narrow one
    · exact partitions_many building make single domain positive narrow one

/-- Where the sum wraps, a loop has no chunks. -/
theorem parallelForWith_of_wrap (countBound : count < 2 ^ 64)
    (batchBound : batchSize < 2 ^ 64) (wraps : 2 ^ 64 ≤ count + max 1 batchSize - 1) :
    ∃ built handle, building.parallelForWith (fun _ => true) count batchSize make single domain =
        some (built, handle) ∧ handle.chunkCount ≠ count ⌈/⌉ max 1 batchSize := by
  have none := parallelForChunkCount_of_wrap countBound batchBound wraps
  rw [parallelForWith_many (by omega) (by omega)]
  simp only [none, if_pos (Granted.all _ _)]
  refine ⟨_, _, rfl, fun equal => ?_⟩
  have covers := (ceilDiv_bounds batchSize (by omega : 0 < count)).2
  rw [← equal] at covers
  simp only [Nat.zero_mul] at covers
  omega

end Results

/-- Loops partition their ranges exactly where `count + batchSize - 1` does not wrap.  Otherwise
`numChunks` is zero: nothing of the range is run, and no edge leads from the entry to the join
barrier. -/
theorem parallelFor_partitions_iff (building : Construction) (count batchSize : Nat)
    (kind : LoopKind) (single : ClosureType) (domain : TaskDomain) (countBound : count < 2 ^ 64)
    (batchBound : batchSize < 2 ^ 64) :
    (∃ built handle,
        building.parallelFor (fun _ => true) count batchSize kind single domain =
            some (built, handle) ∧
          (Partitions (.chunk kind) count batchSize built handle ↔
            count + max 1 batchSize - 1 < 2 ^ 64)) ∧
      ∃ built handle,
        building.parallelForByChunk (fun _ => true) count batchSize single domain =
            some (built, handle) ∧
          (PartitionsByChunk count batchSize built handle ↔
            count + max 1 batchSize - 1 < 2 ^ 64) := by
  by_cases narrow : count + max 1 batchSize - 1 < 2 ^ 64
  · obtain ⟨built, handle, result, partitions⟩ :=
      partitions_of_narrow building (.chunk kind) single domain narrow
    obtain ⟨builtByChunk, handleByChunk, resultByChunk, partitionsByChunk⟩ :=
      partitions_of_narrow building (fun range => .byChunk range.chunkIndex) single domain narrow
    exact ⟨⟨built, handle, result, iff_of_true partitions narrow⟩,
      ⟨builtByChunk, handleByChunk, resultByChunk, iff_of_true partitionsByChunk.byChunk narrow⟩⟩
  · obtain ⟨built, handle, result, wrong⟩ :=
      parallelForWith_of_wrap building (.chunk kind) single domain countBound batchBound
        (not_lt.mp narrow)
    obtain ⟨builtByChunk, handleByChunk, resultByChunk, wrongByChunk⟩ :=
      parallelForWith_of_wrap building (fun range => .byChunk range.chunkIndex) single domain
        countBound batchBound (not_lt.mp narrow)
    exact ⟨⟨built, handle, result, iff_of_false (fun partitions => wrong partitions.chunkCount)
        narrow⟩,
      ⟨builtByChunk, handleByChunk, resultByChunk,
        iff_of_false (fun partitions => wrongByChunk partitions.chunkCount) narrow⟩⟩

/-- Ten elements in batches of four make three chunks, one call for each element or for each
chunk. -/
theorem parallelFor_partitions_ten :
    (∃ built handle,
      ({} : Construction).parallelFor (fun _ => true) 10 4 .item ⟨0, 16, 8⟩ .worker =
          some (built, handle) ∧
        handle.chunkCount = 3 ∧ Partitions (.chunk .item) 10 4 built handle) ∧
      ∃ built handle,
        ({} : Construction).parallelForByChunk (fun _ => true) 10 4 ⟨0, 16, 8⟩ .worker =
            some (built, handle) ∧
          PartitionsByChunk 10 4 built handle := by
  obtain ⟨⟨built, handle, result, partitions⟩, builtByChunk, handleByChunk, resultByChunk,
      byChunk⟩ :=
    parallelFor_partitions_iff {} 10 4 .item ⟨0, 16, 8⟩ .worker (by decide) (by decide)
  have all := partitions.mpr (by decide)
  exact ⟨⟨built, handle, result, all.chunkCount, all⟩,
    builtByChunk, handleByChunk, resultByChunk, byChunk.mpr (by decide)⟩

/-- Ten elements in batches of the greatest size make no chunk. -/
theorem single_batch_is_lost :
    ¬ ∀ (building : Construction) (count batchSize : Nat) (kind : LoopKind)
      (single : ClosureType) (domain : TaskDomain) (built : Construction)
      (handle : ParallelForHandle),
      count < 2 ^ 64 → batchSize < 2 ^ 64 →
      building.parallelFor (fun _ => true) count batchSize kind single domain =
        some (built, handle) → Partitions (.chunk kind) count batchSize built handle := by
  intro all
  obtain ⟨built, handle, result, different⟩ :=
    parallelForWith_of_wrap {} (.chunk .item) ⟨0, 16, 8⟩ .worker (by decide : 10 < 2 ^ 64)
      (by decide : 2 ^ 64 - 1 < 2 ^ 64) (by decide)
  exact different (all {} 10 (2 ^ 64 - 1) .item ⟨0, 16, 8⟩ .worker built handle (by decide)
    (by decide) result).chunkCount

end Construction

end LightFlow
