import LightFlow.Task.Counter

/-!
# Task nodes and successor edges

The fields of `TaskNode` and `SuccessorEdge` that dependency tracking reads and
writes.  A node is named by how it came into being: graph nodes by the `u32` id
that `emplace` hands out, the nodes of a subflow by the subflow node and their
position in its child list, and the `SubflowExit` barrier by its subflow node.
-/

namespace LightFlow

/-- `enum class TaskDomain`. -/
inductive TaskDomain where
  | worker
  | mainThread
  | io
  deriving DecidableEq, Repr

/-- `enum class TaskType`. -/
inductive TaskType where
  | static
  | parallelForChunk
  | subflow
  | condition
  | gpuSubmit
  deriving DecidableEq, Repr

/-- `enum class TaskState`. -/
inductive TaskState where
  | pending
  | executing
  | completed
  | skipped
  | timeout
  deriving DecidableEq, Repr

/-- Identity of a `TaskNode`. -/
inductive NodeId where
  | node (id : Nat)
  | child (parent : NodeId) (index : Nat)
  | exit (parent : NodeId)
  deriving DecidableEq, Repr

/-- `struct SuccessorEdge`; the intrusive `next` pointer is the list order. -/
structure SuccessorEdge where
  target : NodeId
  branch : Int := -1
  isLoopBack : Bool := false
  deriving DecidableEq, Repr

/-- `struct TaskNode`, less the callable storage and the scheduler's queue links. -/
structure TaskNode where
  domain : TaskDomain := .worker
  type : TaskType := .static
  state : TaskState := .pending
  inDegree : Nat := 0
  initialInDegree : Nat := 0
  /-- `userData`: the branch a condition callable returned. -/
  userData : Int := 0
  successors : List SuccessorEdge := []
  deriving DecidableEq, Repr

/-- The nodes reachable through `TaskNode*`. -/
abbrev NodeStore := NodeId → TaskNode

namespace NodeStore

/-- Overwrite one node. -/
def set (store : NodeStore) (id : NodeId) (node : TaskNode) : NodeStore :=
  fun query => if query = id then node else store query

@[simp] theorem set_self (store : NodeStore) (id : NodeId) (node : TaskNode) :
    store.set id node id = node := by
  simp [set]

theorem set_of_ne (store : NodeStore) {id query : NodeId} (node : TaskNode)
    (different : query ≠ id) : store.set id node query = store query := by
  simp [set, different]

end NodeStore

/-- Number of edges of a successor list that lead to `target`. -/
def edgesInto (target : NodeId) (edges : List SuccessorEdge) : Nat :=
  edges.countP fun edge => edge.target = target

@[simp] theorem edgesInto_nil (target : NodeId) : edgesInto target [] = 0 := rfl

@[simp] theorem edgesInto_cons (target : NodeId) (edge : SuccessorEdge)
    (edges : List SuccessorEdge) :
    edgesInto target (edge :: edges) =
      edgesInto target edges + if edge.target = target then 1 else 0 := by
  simp [edgesInto, List.countP_cons]

theorem edgesInto_pos {target : NodeId} {edges : List SuccessorEdge} :
    0 < edgesInto target edges ↔ ∃ edge ∈ edges, edge.target = target := by
  simp [edgesInto, List.countP_pos_iff]

end LightFlow
