import LightFlow.Task.Building

/-!
# What the building operations do

A building operation succeeds exactly when the allocations that it needs are granted, and then
does all that it is for.
-/

namespace LightFlow

/-- The next `needed` allocations are granted. -/
def Granted (granted : Nat → Bool) (next needed : Nat) : Prop :=
  ∀ k < needed, granted (next + k) = true

namespace Granted

variable {granted : Nat → Bool} {next needed : Nat}

instance : Decidable (Granted granted next needed) :=
  inferInstanceAs (Decidable (∀ k < needed, granted (next + k) = true))

@[simp] theorem zero : Granted granted next 0 := fun _ less => absurd less (Nat.not_lt_zero _)

@[simp] theorem one_iff : Granted granted next 1 ↔ granted next = true := by
  constructor
  · intro all
    exact all 0 Nat.one_pos
  · intro first k less
    obtain rfl : k = 0 := by omega
    exact first

theorem add_iff (further : Nat) :
    Granted granted next (needed + further) ↔
      Granted granted next needed ∧ Granted granted (next + needed) further := by
  constructor
  · intro all
    refine ⟨fun k less => all k (by omega), fun k less => ?_⟩
    rw [Nat.add_assoc]
    exact all (needed + k) (by omega)
  · rintro ⟨before, after⟩ k less
    rcases Nat.lt_or_ge k needed with early | late
    · exact before k early
    · have granted := after (k - needed) (by omega)
      rwa [Nat.add_assoc, Nat.add_sub_of_le late] at granted

/-- Nothing is denied. -/
theorem all (next needed : Nat) : Granted (fun _ => true) next needed := fun _ _ => rfl

/-- What needs some allocations, and then what needs some more of them. -/
theorem bind {α β : Type} {needed further total : Nat} {first : α} {last : β}
    {rest : α → Option β} (sum : needed + further = total)
    (onward : rest first = if Granted granted (next + needed) further then some last else none) :
    (if Granted granted next needed then some first else none).bind rest =
      if Granted granted next total then some last else none := by
  subst sum
  by_cases before : Granted granted next needed
  · rw [if_pos before, Option.bind_some, onward]
    exact if_congr (by simp [add_iff, before]) rfl rfl
  · rw [if_neg before, if_neg fun both => before ((add_iff further).mp both).1]
    rfl

/-- What needs some allocations, and then nothing. -/
theorem bind_some {α β : Type} {needed : Nat} {first : α} {last : β} {rest : α → Option β}
    (onward : rest first = some last) :
    (if Granted granted next needed then some first else none).bind rest =
      if Granted granted next needed then some last else none :=
  bind (Nat.add_zero needed) (by rw [onward, if_pos zero])

end Granted

/-- Number of allocations that storing a closure takes. -/
def ClosureType.spilled (closure : ClosureType) : Nat :=
  if closure.isInline then 0 else 1

namespace Construction

variable {granted : Nat → Bool} {building : Construction}

/-- The next allocations were made, whatever they returned. -/
def skip (building : Construction) (allocations : Nat) : Construction :=
  { building with allocations := building.allocations + allocations }

theorem allocate_eq (granted : Nat → Bool) (building : Construction) :
    building.allocate granted = (building.skip 1, granted building.allocations) := rfl

theorem allocateUsed_eq (granted : Nat → Bool) (building : Construction) :
    building.allocateUsed granted =
      if Granted granted building.allocations 1 then
        some (building.skip 1)
      else none :=
  if_congr Granted.one_iff.symm rfl rfl

/-- A node was created. -/
def withNode (building : Construction) (type : TaskType) (domain : TaskDomain) : Construction :=
  { building with
    graph :=
      { building.graph with
        node := building.graph.node.set (.node building.created) { type, domain }
        m_nodeCount := u32 (building.graph.m_nodeCount + 1) }
    created := building.created + 1
    id := Function.update building.id (.node building.created) building.graph.m_nodeCount
    allocations := building.allocations + 1 }

theorem createNode_eq (type : TaskType) (domain : TaskDomain) :
    building.createNode granted type domain =
      if Granted granted building.allocations 1 then
        some (building.withNode type domain, .node building.created)
      else none := by
  rw [createNode, allocateUsed_eq, Option.map_eq_bind]
  exact Granted.bind_some rfl

/-- A callable was set. -/
def withCallable (building : Construction) (node : NodeId) (closure : ClosureType)
    (callable : NodeCallable) : Construction :=
  { building.setInline node callable with allocations := building.allocations + closure.spilled }

theorem setCallable_eq (node : NodeId) (closure : ClosureType) (callable : NodeCallable) :
    building.setCallable granted node closure callable =
      if Granted granted building.allocations closure.spilled then
        some (building.withCallable node closure callable)
      else none := by
  rw [setCallable, allocateUsed_eq, withCallable, ClosureType.spilled, Option.map_eq_bind]
  cases closure.isInline with
  | true => exact (if_pos Granted.zero).symm
  | false => exact Granted.bind_some rfl

/-- A node was emplaced. -/
def withTask (building : Construction) (type : TaskType) (domain : TaskDomain)
    (closure : ClosureType) (callable : NodeCallable) : Construction :=
  ((building.withNode type domain).withCallable (.node building.created) closure
    callable).appendNode (.node building.created)

theorem emplace_eq (type : TaskType) (domain : TaskDomain) (closure : ClosureType) :
    building.emplace granted type domain closure =
      if Granted granted building.allocations (1 + closure.spilled) then
        some (building.withTask type domain closure (.user closure), .node building.created)
      else none := by
  rw [emplace, createNode_eq]
  refine Granted.bind rfl ?_
  simp only [setCallable_eq]
  exact Granted.bind_some rfl

/-- An edge was added. -/
def withEdge (building : Construction) (source target : NodeId) (branch : Int := -1) :
    Construction :=
  { building with
    graph := building.graph.addEdge source target branch
    allocations := building.allocations + 1 }

theorem addEdge_eq (source target : NodeId) (branch : Int) :
    building.addEdge granted source target branch =
      if Granted granted building.allocations 1 then
        some (building.withEdge source target branch)
      else none := by
  rw [addEdge, allocateUsed_eq, Option.map_eq_bind]
  exact Granted.bind_some rfl

/-- A wait point was added. -/
def withWaitPoint (building : Construction) (node : NodeId) (syncPoint : Nat) : Construction :=
  let counted :=
    { building.skip 1 with
      graph := { building.graph with node := TaskGraph.countEdge building.graph.node node } }
  if building.m_scheduler then
    { counted with registered := (node, syncPoint) :: counted.registered }
  else { counted with waitNodes := (node, syncPoint) :: counted.waitNodes }

theorem addWaitPoint_eq (node : NodeId) (syncPoint : Nat) :
    building.addWaitPoint granted node syncPoint =
      if Granted granted building.allocations 1 then
        some (building.withWaitPoint node syncPoint)
      else none := by
  rw [addWaitPoint, allocateUsed_eq, Option.map_eq_bind]
  exact Granted.bind_some rfl

/-! ## The chunk loop -/

/-- A turn of the chunk loop was made. -/
def withChunk (building : Construction) (callable : NodeCallable) (domain : TaskDomain)
    (entry join : NodeId) : Construction :=
  let chunk := NodeId.node building.created
  ((((building.withNode .parallelForChunk domain).setInline chunk callable).appendNode
    chunk).withEdge entry chunk).withEdge chunk join

/-- A turn of the chunk loop makes three allocations. -/
theorem parallelForChunk_eq (make : Nat → NodeCallable) (domain : TaskDomain)
    (entry join : NodeId) (hasSpan : Bool) (chunks : List NodeId) (c : Nat) :
    parallelForChunk granted make domain entry join hasSpan (building, chunks) c =
      if hasSpan ∧ Granted granted building.allocations 3 then
        some (building.withChunk (make c) domain entry join, chunks ++ [.node building.created])
      else none := by
  rw [parallelForChunk, createNode_eq]
  cases hasSpan with
  | false => split <;> simp
  | true =>
      simp only [true_and]
      refine Granted.bind (by rfl : 1 + 2 = 3) ?_
      simp only [addEdge_eq, guard_true, Option.pure_def, Option.bind_eq_bind, Option.bind_some]
      exact Granted.bind (by rfl : 1 + 1 = 2) (Granted.bind_some rfl)

/-- Some turns of the chunk loop were made. -/
def withChunks (building : Construction) (make : Nat → NodeCallable) (domain : TaskDomain)
    (entry join : NodeId) : Nat → Construction
  | 0 => building
  | turns + 1 => (building.withChunks make domain entry join turns).withChunk (make turns) domain
      entry join

/-- The chunks that some turns create. -/
def chunksFrom (building : Construction) (turns : Nat) : List NodeId :=
  (List.range turns).map fun c => .node (building.created + c)

section Loop

variable (make : Nat → NodeCallable) (domain : TaskDomain) (entry join : NodeId)

@[simp] theorem withChunks_created (turns : Nat) :
    (building.withChunks make domain entry join turns).created = building.created + turns := by
  induction turns with
  | zero => rfl
  | succ turns ih =>
      change (building.withChunks make domain entry join turns).created + 1 = _
      rw [ih]
      rfl

@[simp] theorem withChunks_allocations (turns : Nat) :
    (building.withChunks make domain entry join turns).allocations =
      building.allocations + 3 * turns := by
  induction turns with
  | zero => rfl
  | succ turns ih =>
      change (building.withChunks make domain entry join turns).allocations + 1 + 1 + 1 = _
      rw [ih]
      omega

/-- The chunk loop comes to its end exactly when all its allocations are granted. -/
theorem chunkLoop_eq (hasSpan : Bool) (turns : Nat) :
    (List.range turns).foldlM (parallelForChunk granted make domain entry join hasSpan)
        (building, []) =
      if (turns = 0 ∨ hasSpan) ∧ Granted granted building.allocations (3 * turns) then
        some (building.withChunks make domain entry join turns, building.chunksFrom turns)
      else none := by
  induction turns with
  | zero => simp [withChunks, chunksFrom]
  | succ turns ih =>
      rw [List.range_succ, List.foldlM_append, ih]
      simp only [Nat.mul_succ, Granted.add_iff]
      by_cases before : (turns = 0 ∨ hasSpan = true) ∧
          Granted granted building.allocations (3 * turns)
      · rw [if_pos before, Option.bind_eq_bind, Option.bind_some, List.foldlM_cons,
          parallelForChunk_eq, withChunks_allocations]
        by_cases turn : hasSpan = true ∧ Granted granted (building.allocations + 3 * turns) 3
        · rw [if_pos turn, if_pos ⟨.inr turn.1, before.2, turn.2⟩]
          simp [chunksFrom, withChunks, List.range_succ]
        · rw [if_neg turn, if_neg]
          · rfl
          · rintro ⟨span, -, granted⟩
            exact turn ⟨span.resolve_left (Nat.succ_ne_zero _), granted⟩
      · rw [if_neg before, if_neg]
        · rfl
        · rintro ⟨span, granted, -⟩
          exact before ⟨.inr (span.resolve_left (Nat.succ_ne_zero _)), granted⟩

/-- The span of the chunks, and the chunk loop. -/
theorem spannedLoop_eq (turns : Nat) :
    (List.range turns).foldlM
        (parallelForChunk granted make domain entry join
          (if turns = 0 then (building, false)
            else (building.skip 1, granted building.allocations)).2)
        ((if turns = 0 then (building, false)
          else (building.skip 1, granted building.allocations)).1, []) =
      if Granted granted building.allocations (if turns = 0 then 0 else 1 + 3 * turns) then
        some ((building.skip (if turns = 0 then 0 else 1)).withChunks make domain entry join turns,
          building.chunksFrom turns)
      else none := by
  cases turns with
  | zero => exact (if_pos Granted.zero).symm
  | succ turns =>
      rw [if_neg (Nat.succ_ne_zero _), chunkLoop_eq]
      refine if_congr ?_ rfl rfl
      rw [if_neg (Nat.succ_ne_zero _), Granted.add_iff, Granted.one_iff]
      exact and_congr_left fun _ => or_iff_right (Nat.succ_ne_zero _)

end Loop

/-! ## `parallelFor` -/

/-- A node with an empty callable was created. -/
def withEmpty (building : Construction) (type : TaskType) (domain : TaskDomain) : Construction :=
  (building.withNode type domain).setInline (.node building.created) .empty

theorem createEmpty_eq (type : TaskType) (domain : TaskDomain) :
    building.createEmpty granted type domain =
      if Granted granted building.allocations 1 then
        some (building.withEmpty type domain, .node building.created)
      else none := by
  rw [createEmpty, createNode_eq, Option.map_eq_bind]
  exact Granted.bind_some rfl

/-- The entry node, the join barrier and the span of a loop were made. -/
def withFrame (building : Construction) (numChunks : Nat) (domain : TaskDomain) : Construction :=
  let entry := NodeId.node building.created
  ((((building.skip 1).withEmpty .static domain).appendNode entry).withEmpty .static
    domain).skip (if numChunks = 0 then 0 else 1)

/-- A loop of several chunks was built. -/
def withLoop (building : Construction) (make : Nat → NodeCallable) (domain : TaskDomain)
    (numChunks : Nat) : Construction :=
  let entry := NodeId.node building.created
  let join := NodeId.node (building.created + 1)
  ((building.withFrame numChunks domain).withChunks make domain entry join numChunks).appendNode
    join

/-- The batch size 0 is read as 1. -/
@[simp] theorem parallelForChunkCount_clamp (count batchSize : Nat) :
    TaskGraph.parallelForChunkCount count (if batchSize = 0 then 1 else batchSize) =
      TaskGraph.parallelForChunkCount count batchSize := by
  by_cases zero : batchSize = 0
  · rw [if_pos zero, zero]
    rfl
  · rw [if_neg zero]

section Loops

variable {count batchSize : Nat} {make : ChunkRange → NodeCallable} {single : ClosureType}
  {domain : TaskDomain}

/-- The node of an empty loop. -/
theorem parallelForWith_zero :
    building.parallelForWith granted 0 batchSize make single domain =
      if Granted granted building.allocations 1 then
        some ((building.withEmpty .parallelForChunk domain).appendNode (.node building.created),
          ⟨.node building.created, .node building.created, 0, []⟩)
      else none := by
  simp only [parallelForWith, ↓reduceIte, createEmpty_eq]
  exact Granted.bind_some rfl

/-- The node of a loop of one chunk. -/
theorem parallelForWith_one (positive : count ≠ 0)
    (one : TaskGraph.parallelForChunkCount count batchSize = 1) :
    building.parallelForWith granted count batchSize make single domain =
      if Granted granted building.allocations (1 + single.spilled + 1) then
        some ((building.withTask .parallelForChunk domain single (make ⟨0, count, 0, 1⟩)).skip 1,
          ⟨.node building.created, .node building.created, 1, [.node building.created]⟩)
      else none := by
  simp only [parallelForWith, positive, ↓reduceIte, parallelForChunkCount_clamp, one,
    createNode_eq]
  refine Granted.bind (Nat.add_assoc 1 _ 1).symm ?_
  simp only [setCallable_eq]
  refine Granted.bind rfl ?_
  rw [allocateUsed_eq]
  exact Granted.bind_some rfl

/-- A loop of several chunks, or of none because their number wrapped. -/
theorem parallelForWith_many (positive : count ≠ 0)
    (many : TaskGraph.parallelForChunkCount count batchSize ≠ 1) :
    building.parallelForWith granted count batchSize make single domain =
      let numChunks := TaskGraph.parallelForChunkCount count batchSize
      let size := if batchSize = 0 then 1 else batchSize
      if Granted granted (building.allocations + 1)
          (2 + if numChunks = 0 then 0 else 1 + 3 * numChunks) then
        some (building.withLoop (fun c => make (chunkRange count size numChunks c)) domain
            numChunks,
          ⟨.node building.created, .node (building.created + 1), numChunks,
            (building.withFrame numChunks domain).chunksFrom numChunks⟩)
      else none := by
  simp only [parallelForWith, positive, ↓reduceIte, parallelForChunkCount_clamp, many,
    allocate_eq, createEmpty_eq]
  refine Granted.bind (by rw [← Nat.add_assoc] : 1 + (1 + _) = _) ?_
  simp only
  refine Granted.bind rfl ?_
  simp only [spannedLoop_eq]
  exact Granted.bind_some rfl

end Loops

end Construction

end LightFlow
