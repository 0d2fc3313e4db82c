import LightFlow.Task.Reaches
import Mathlib.Algebra.BigOperators.Group.List.Basic

/-!
# Building a task graph

`TaskGraph` before a run: the nodes made by `emplace`, `emplaceCondition`,
`emplaceSubflow` and `parallelFor`, in the order of the `m_firstNode` chain, and
the edges added by `addEdge`.
-/

namespace LightFlow

/-- The part of `TaskGraph` that construction fills. -/
structure TaskGraph where
  node : NodeStore := fun _ => {}
  /-- The chain from `m_firstNode` through `nextInGraph`. -/
  order : List NodeId := []
  m_nodeCount : Nat := 0

namespace TaskGraph

/-- `m_arena.create<TaskNode>()` with `id = m_nodeCount++`, before `appendNode`. -/
def createNode (graph : TaskGraph) (type : TaskType) (domain : TaskDomain) :
    TaskGraph × NodeId :=
  let id := NodeId.node graph.m_nodeCount
  ({ graph with
      node := graph.node.set id { type, domain }
      m_nodeCount := u32 (graph.m_nodeCount + 1) }, id)

/-- `appendNode`. -/
def appendNode (graph : TaskGraph) (id : NodeId) : TaskGraph :=
  { graph with order := graph.order ++ [id] }

/-- `emplace` (type `static`), `emplaceCondition` and `emplaceSubflow`. -/
def emplace (graph : TaskGraph) (type : TaskType) (domain : TaskDomain) : TaskGraph :=
  let (created, id) := graph.createNode type domain
  created.appendNode id

/-- Prepend an edge to the successor list of `source`. -/
def linkEdge (store : NodeStore) (source : NodeId) (edge : SuccessorEdge) : NodeStore :=
  store.set source { store source with successors := edge :: (store source).successors }

/-- `to->initialInDegree++` and the store that follows it. -/
def countEdge (store : NodeStore) (target : NodeId) : NodeStore :=
  let initialInDegree := u32 ((store target).initialInDegree + 1)
  store.set target { store target with initialInDegree, inDegree := initialInDegree }

/-- `isLoop` of `addEdge`.  The new edge is already linked in when `reaches` looks. -/
def closesLoop (store : NodeStore) (source target : NodeId) (branch : Int) : Bool :=
  ((store source).type = .condition ∨ 0 ≤ branch) &&
    reaches (linkEdge store source { target, branch }) target source

/-- `addEdge(from, to, branch)`. -/
def addEdge (graph : TaskGraph) (source target : NodeId) (branch : Int := -1) : TaskGraph :=
  let isLoop := closesLoop graph.node source target branch
  let linked := linkEdge graph.node source { target, branch, isLoopBack := isLoop }
  { graph with node := if isLoop then linked else countEdge linked target }

/-- The chunk loop of `parallelFor`: each chunk is emplaced and wired between the
entry node and the join barrier. -/
def parallelForChunks (domain : TaskDomain) (entry join : NodeId) :
    TaskGraph → Nat → TaskGraph
  | graph, 0 => graph
  | graph, chunks + 1 =>
      let (created, chunk) := graph.createNode .parallelForChunk domain
      let appended := created.appendNode chunk
      parallelForChunks domain entry join
        ((appended.addEdge entry chunk).addEdge chunk join) chunks

/-- `numChunks = (count + batchSize - 1) / batchSize` in `usize` arithmetic. -/
def parallelForChunkCount (count batchSize : Nat) : Nat :=
  let batchSize := if batchSize = 0 then 1 else batchSize
  u64 (count + batchSize - 1) / batchSize

/-- The nodes and edges `parallelFor(count, batchSize, …)` adds. -/
def parallelFor (graph : TaskGraph) (count batchSize : Nat) (domain : TaskDomain) :
    TaskGraph :=
  if count = 0 then
    graph.emplace .parallelForChunk domain
  else
    let numChunks := parallelForChunkCount count batchSize
    if numChunks = 1 then
      graph.emplace .parallelForChunk domain
    else
      let (created, entry) := graph.createNode .static domain
      let (prepared, join) := (created.appendNode entry).createNode .static domain
      (parallelForChunks domain entry join prepared numChunks).appendNode join

/-- Number of edges into `target` from the listed sources. -/
def incoming (store : NodeStore) (sources : List NodeId) (target : NodeId) : Nat :=
  (sources.map fun source => edgesInto target (store source).successors).sum

/-- Graphs made by the construction interface.  Ids and `m_nodeCount` are `u32`, so
a node can only be created while its id is fresh; edges join existing nodes. -/
inductive Built : TaskGraph → Prop where
  | empty : Built {}
  | emplace {graph : TaskGraph} (type : TaskType) (domain : TaskDomain) :
      Built graph → graph.m_nodeCount + 1 < 2 ^ 32 → Built (graph.emplace type domain)
  | parallelFor {graph : TaskGraph} (count batchSize : Nat) (domain : TaskDomain) :
      Built graph →
      graph.m_nodeCount + 2 + parallelForChunkCount count batchSize < 2 ^ 32 →
      Built (graph.parallelFor count batchSize domain)
  | addEdge {graph : TaskGraph} {source target : NodeId} (branch : Int) :
      Built graph → source ∈ graph.order → target ∈ graph.order →
      Built (graph.addEdge source target branch)

/-- The edges contain no directed cycle. -/
def Acyclic (graph : TaskGraph) : Prop :=
  ∀ node, ¬ Relation.TransGen (Precedes graph.node) node node

end TaskGraph

end LightFlow
