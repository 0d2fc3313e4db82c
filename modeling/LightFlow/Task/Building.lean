import LightFlow.Task.Graph
import LightFlow.Task.MoveOnlyTask

/-!
# Building with an arena

The building operations of `TaskGraph` with the arena allocations that they make and the
callables that they install.  A node is named by the order of its creation here, as a pointer
names it; its `id` is a label, which wraps.  Each operation uses what the arena returned at
once, so its result is `none` where the arena returned null and the null was used.
-/

namespace LightFlow

/-- `ChunkRange`. -/
structure ChunkRange where
  start : Nat
  «end» : Nat
  chunkIndex : Nat
  totalChunks : Nat
  deriving DecidableEq, Repr

/-- What a range callable is invoked with: the concepts of `parallel_for.hpp`. -/
inductive LoopKind where
  | chunkRange
  | rangeWithChunkIdx
  | range
  | chunkIndex
  | item
  deriving DecidableEq, Repr

/-- A call of the callable of a loop. -/
inductive LoopCall where
  | chunkRange (range : ChunkRange)
  | rangeWithChunkIdx (start «end» chunkIdx : Nat)
  | range (start «end» : Nat)
  | chunkIndex (index : Nat)
  | item (index : Nat)
  deriving DecidableEq, Repr

/-- The calls that a chunk makes. -/
def LoopKind.calls (kind : LoopKind) (range : ChunkRange) : List LoopCall :=
  match kind with
  | .chunkRange => [.chunkRange range]
  | .rangeWithChunkIdx => [.rangeWithChunkIdx range.start range.end range.chunkIndex]
  | .range => [.range range.start range.end]
  | .chunkIndex => [.chunkIndex range.chunkIndex]
  | .item => (List.range' range.start (range.end - range.start)).map .item

/-- The callable of a node. -/
inductive NodeCallable where
  | none
  /-- `[]() noexcept {}`. -/
  | empty
  | user (closure : ClosureType)
  /-- A chunk of a range loop. -/
  | chunk (kind : LoopKind) (range : ChunkRange)
  /-- A chunk of a loop with `ByChunk`. -/
  | byChunk (index : Nat)
  deriving DecidableEq, Repr

/-- A graph and its arena. -/
structure Construction where
  graph : TaskGraph := {}
  /-- Nodes created so far. -/
  created : Nat := 0
  id : NodeId → Nat := fun _ => 0
  callable : NodeId → NodeCallable := fun _ => .none
  /-- `m_scheduler` is set. -/
  m_scheduler : Bool := false
  /-- The chain from `m_firstWaitNode`: node and sync point. -/
  waitNodes : List (NodeId × Nat) := []
  /-- Wait nodes given to the reactor. -/
  registered : List (NodeId × Nat) := []
  /-- Allocations asked for so far. -/
  allocations : Nat := 0

/-- `ParallelForHandle`. -/
structure ParallelForHandle where
  entry : NodeId
  exit : NodeId
  chunkCount : Nat
  chunks : List NodeId
  deriving DecidableEq, Repr

namespace Construction

/-- `m_arena.allocate(…)`: whether it returned memory.  `granted` are the answers to the
allocations, in their order. -/
def allocate (granted : Nat → Bool) (building : Construction) : Construction × Bool :=
  ({ building with allocations := building.allocations + 1 }, granted building.allocations)

/-- An allocation that is used at once. -/
def allocateUsed (granted : Nat → Bool) (building : Construction) : Option Construction :=
  let (asked, isGranted) := building.allocate granted
  if isGranted then some asked else none

/-- `m_arena.create<TaskNode>()` and the stores into the node. -/
def createNode (granted : Nat → Bool) (building : Construction) (type : TaskType)
    (domain : TaskDomain) : Option (Construction × NodeId) :=
  (building.allocateUsed granted).map fun building =>
    let node := NodeId.node building.created
    ({ building with
        graph :=
          { building.graph with
            node := building.graph.node.set node { type, domain }
            m_nodeCount := u32 (building.graph.m_nodeCount + 1) }
        created := building.created + 1
        id := Function.update building.id node building.graph.m_nodeCount }, node)

/-- The callable goes into the node itself. -/
def setInline (building : Construction) (node : NodeId) (callable : NodeCallable) :
    Construction :=
  { building with callable := Function.update building.callable node callable }

/-- `setCallable` and `setConditionCallable`: a large closure is constructed in the arena. -/
def setCallable (granted : Nat → Bool) (building : Construction) (node : NodeId)
    (closure : ClosureType) (callable : NodeCallable) : Option Construction :=
  if closure.isInline then some (building.setInline node callable)
  else (building.allocateUsed granted).map fun building => building.setInline node callable

/-- `appendNode`. -/
def appendNode (building : Construction) (node : NodeId) : Construction :=
  { building with graph := building.graph.appendNode node }

/-- `emplace`, `emplaceCondition` and `emplaceSubflow`, which differ in the type of the node. -/
def emplace (granted : Nat → Bool) (building : Construction) (type : TaskType)
    (domain : TaskDomain) (closure : ClosureType) : Option (Construction × NodeId) := do
  let (building, node) ← building.createNode granted type domain
  let building ← building.setCallable granted node closure (.user closure)
  return (building.appendNode node, node)

/-- `addEdge(from, to, branch)`. -/
def addEdge (granted : Nat → Bool) (building : Construction) (source target : NodeId)
    (branch : Int := -1) : Option Construction :=
  (building.allocateUsed granted).map fun building =>
    { building with graph := building.graph.addEdge source target branch }

/-- `addWaitPoint(node, syncPoint)`. -/
def addWaitPoint (granted : Nat → Bool) (building : Construction) (node : NodeId)
    (syncPoint : Nat) : Option Construction :=
  (building.allocateUsed granted).map fun building =>
    let counted :=
      { building with
        graph := { building.graph with node := TaskGraph.countEdge building.graph.node node } }
    if building.m_scheduler then
      { counted with registered := (node, syncPoint) :: counted.registered }
    else { counted with waitNodes := (node, syncPoint) :: counted.waitNodes }

/-! ## `parallelFor` -/

/-- A node with an empty callable: the node of an empty loop, the entry and the join barrier. -/
def createEmpty (granted : Nat → Bool) (building : Construction) (type : TaskType)
    (domain : TaskDomain) : Option (Construction × NodeId) :=
  (building.createNode granted type domain).map fun (building, node) =>
    (building.setInline node .empty, node)

/-- `{start, end, c, numChunks}` of a turn of the chunk loop. -/
def chunkRange (count batchSize numChunks c : Nat) : ChunkRange :=
  let start := u64 (c * batchSize)
  { start, «end» := min count (u64 (start + batchSize)), chunkIndex := c,
    totalChunks := numChunks }

/-- A turn of the chunk loop, where `hasSpan` says that the span of the chunks is not empty. -/
def parallelForChunk (granted : Nat → Bool) (make : Nat → NodeCallable) (domain : TaskDomain)
    (entry join : NodeId) (hasSpan : Bool) (state : Construction × List NodeId) (c : Nat) :
    Option (Construction × List NodeId) := do
  let (building, chunks) := state
  let (building, chunk) ← building.createNode granted .parallelForChunk domain
  let building := (building.setInline chunk (make c)).appendNode chunk
  guard hasSpan
  let building ← building.addEdge granted entry chunk
  let building ← building.addEdge granted chunk join
  return (building, chunks ++ [chunk])

/-- What both overloads of `parallelFor` do.  `make` is the callable of a chunk, and `single` the
closure that is installed where there is only one. -/
def parallelForWith (granted : Nat → Bool) (building : Construction) (count batchSize : Nat)
    (make : ChunkRange → NodeCallable) (single : ClosureType) (domain : TaskDomain) :
    Option (Construction × ParallelForHandle) := do
  let batchSize := if batchSize = 0 then 1 else batchSize
  if count = 0 then
    let (building, passThrough) ← building.createEmpty granted .parallelForChunk domain
    return (building.appendNode passThrough,
      { entry := passThrough, exit := passThrough, chunkCount := 0, chunks := [] })
  else
    let numChunks := TaskGraph.parallelForChunkCount count batchSize
    if numChunks = 1 then
      let (building, chunk) ← building.createNode granted .parallelForChunk domain
      let building ← building.setCallable granted chunk single (make ⟨0, count, 0, 1⟩)
      let building ← (building.appendNode chunk).allocateUsed granted
      return (building, { entry := chunk, exit := chunk, chunkCount := 1, chunks := [chunk] })
    else
      -- The callable is only used by the chunks, when they run.
      let (building, _) := building.allocate granted
      let (building, entry) ← building.createEmpty granted .static domain
      let (building, join) ← (building.appendNode entry).createEmpty granted .static domain
      let (building, hasSpan) :=
        if numChunks = 0 then (building, false) else building.allocate granted
      let (building, chunks) ← (List.range numChunks).foldlM
        (parallelForChunk granted (fun c => make (chunkRange count batchSize numChunks c)) domain
          entry join hasSpan) (building, [])
      return (building.appendNode join,
        { entry, exit := join, chunkCount := numChunks, chunks })

/-- `parallelFor(count, batchSize, callable)`. -/
def parallelFor (granted : Nat → Bool) (building : Construction) (count batchSize : Nat)
    (kind : LoopKind) (single : ClosureType) (domain : TaskDomain) :
    Option (Construction × ParallelForHandle) :=
  building.parallelForWith granted count batchSize (.chunk kind) single domain

/-- `parallelFor(count, batchSize, ByChunk, callable)`. -/
def parallelForByChunk (granted : Nat → Bool) (building : Construction) (count batchSize : Nat)
    (single : ClosureType) (domain : TaskDomain) : Option (Construction × ParallelForHandle) :=
  building.parallelForWith granted count batchSize (fun range => .byChunk range.chunkIndex) single
    domain

end Construction

end LightFlow
