import LightFlow.Task.Workload
import LightFlow.Task.Wiring

/-!
# The ledger of a run

What a workload, its counters and its history have to do with each other.  For every
node of the run and every milestone, exactly one of these holds: the node still waits
for dependencies, somebody owes it the milestone, or it is past it.  The two halves of
a dependency counter are paid for by edges: those of unreleased sources and those in a
loop over successors.
-/

namespace LightFlow

/-- What every node of a run comes past, in this order. -/
inductive Milestone where
  /-- Executed or skipped was decided and begun. -/
  | called
  /-- `Completed` or `Skipped` was stored. -/
  | settled
  /-- The successors are being decremented. -/
  | released
  /-- `onTaskCompleted` was called. -/
  | finished
  deriving DecidableEq

/-- The event takes `node` past the milestone. -/
def Event.passes (milestone : Milestone) (node : NodeId) : Event → Bool
  | .executed other => milestone = .called && other = node
  | .completed other => milestone = .settled && other = node
  | .skipped other => (milestone = .called || milestone = .settled) && other = node
  | .released other => milestone = .released && other = node
  | .finished other => milestone = .finished && other = node
  | _ => false

/-- How often `node` came past the milestone. -/
def passed (milestone : Milestone) (node : NodeId) (log : List Event) : Nat :=
  log.countP (·.passes milestone node)

@[simp] theorem passed_nil (milestone : Milestone) (node : NodeId) :
    passed milestone node [] = 0 := rfl

@[simp] theorem passed_cons (milestone : Milestone) (node : NodeId) (event : Event)
    (log : List Event) : passed milestone node (event :: log) =
      passed milestone node log + if event.passes milestone node then 1 else 0 := by
  simp [passed, List.countP_cons]

@[simp] theorem passed_append (milestone : Milestone) (node : NodeId)
    (newer older : List Event) : passed milestone node (newer ++ older) =
      passed milestone node newer + passed milestone node older := by
  simp [passed]

/-! ## What frames owe -/

namespace Frame

/-- Nodes the frame is about to have executed. -/
@[simp] def toRun : Frame → List NodeId
  | .executing node => [node]
  | .calling node => [node]
  | .dispatching _ roots => roots
  | .handingOver _ _ succ _ _ => [succ]
  | .scheduling node => [node]
  | _ => []

/-- Nodes the frame is about to skip. -/
@[simp] def toSkip : Frame → List NodeId
  | .skipping node => [node]
  | _ => []

/-- The frame's own node, called but not yet past the milestone. -/
@[simp] def busy (milestone : Milestone) : Frame → List NodeId
  | .dispatching node _ | .joining node | .completing node =>
      if milestone = .called then [] else [node]
  | .unblocking node _ _ _ | .handingOver node _ _ _ _ | .finishing node =>
      if milestone = .finished then [node] else []
  | .skipped node => if milestone = .released ∨ milestone = .finished then [node] else []
  | _ => []

/-- Nodes to which the frame owes the milestone. -/
def owes (milestone : Milestone) (frame : Frame) : List NodeId :=
  frame.toRun ++ (frame.toSkip ++ frame.busy milestone)

@[simp] theorem count_owes (milestone : Milestone) (frame : Frame) (node : NodeId) :
    (frame.owes milestone).count node = frame.toRun.count node +
      (frame.toSkip.count node + (frame.busy milestone).count node) := by
  simp [owes]

/-- Edges the frame has yet to decrement. -/
@[simp] def todo : Frame → List SuccessorEdge
  | .unblocking _ _ todo _ => todo
  | .handingOver _ _ _ todo _ => todo
  | .cascading _ todo => todo
  | _ => []

/-- Edges of a list into `target` that a walk with this branch takes. -/
def taken (branch : Option Int) (target : NodeId) (edges : List SuccessorEdge) : Nat :=
  edges.countP fun edge => edge.target = target && takes branch edge

/-- Active decrements of `target` the frame has yet to make. -/
@[simp] def activeInto (target : NodeId) : Frame → Nat
  | .unblocking _ branch todo _ => taken branch target todo
  | .handingOver _ branch _ todo _ => taken branch target todo
  | _ => 0

/-- No loop-back edge is on the frame's way, no loop is being reset, and a cascade that
is left has edges left. -/
def Forward : Frame → Prop
  | .resetting _ _ _ _ => False
  | .resettingState _ _ _ _ _ => False
  | .rescheduling _ _ => False
  | .cascading _ todo => todo ≠ [] ∧ ∀ edge ∈ todo, edge.isLoopBack = false
  | frame => ∀ edge ∈ frame.todo, edge.isLoopBack = false

/-- The subflow node whose splice or join the frame is in. -/
@[simp] def splicing : Frame → Option NodeId
  | .dispatching node _ => some node
  | .joining node => some node
  | _ => none

end Frame

/-- Branch a node's walk over its successors goes by. -/
def chosenBranch (node : TaskNode) : Option Int :=
  if node.type = .condition then some node.userData else none

/-! ## The nodes of a run -/

section Nodes

variable (graph : TaskGraph) (callables : Callables)

/-- Nodes that are part of the run: the graph's, and those of every spliced subflow. -/
def live : List Event → List NodeId
  | [] => graph.order
  | .spliced parent :: log => (callables.subflow parent).members parent ++ live log
  | _ :: log => live log

/-- A node as construction or `splice` leaves it. -/
def declared : NodeId → TaskNode
  | .node id => graph.node (.node id)
  | .child parent index =>
      let children := callables.subflow parent
      { type := (children.nodes.getD index {}).type
        domain := (children.nodes.getD index {}).domain
        successors := children.childSuccessors parent index
        initialInDegree := u32 (children.childInDegree index)
        inDegree := u32 (children.childInDegree index) }
  | .exit parent =>
      let children := callables.subflow parent
      { domain := (declared parent).domain
        successors := if children.mode = .joined then [] else (declared parent).successors
        initialInDegree := u32 children.sinkCount
        inDegree := u32 children.sinkCount }

/-- The node's successors were handed to its exit barrier. -/
def Moved (log : List Event) (node : NodeId) : Prop :=
  .spliced node ∈ log ∧ (callables.subflow node).mode = .spliced

instance (log : List Event) (node : NodeId) : Decidable (Moved callables log node) :=
  inferInstanceAs (Decidable (_ ∧ _))

/-- Sum of a weight over the nodes that have not come past a milestone. -/
def remaining (milestone : Milestone) (log : List Event) (weight : NodeId → Nat) : Nat :=
  ((live graph callables log).map fun node =>
    if passed milestone node log = 0 then weight node else 0).sum

/-- Edges into `target` taken by nodes that have completed. -/
def completedActive (shared : Shared) (target : NodeId) : Nat :=
  ((live graph callables shared.log).map fun source =>
    shared.log.count (.completed source) *
      Frame.taken (chosenBranch (shared.node source)) target
        (shared.node source).successors).sum

/-- The node may run: it had no dependencies, or an active one. -/
def Runnable (got : NodeId → Nat) (node : NodeId) : Prop :=
  (declared graph callables node).initialInDegree = 0 ∨ 0 < got node

/-- One for a node with dependencies left. -/
def waiting (need : Nat) : Nat := if need = 0 then 0 else 1

@[simp] theorem waiting_zero : waiting 0 = 0 := rfl

/-- How many of the workload's items owe `node` the milestone. -/
def Workload.awaiting (load : Workload) (milestone : Milestone) (node : NodeId) : Nat :=
  load.ready.count node + (load.frames.map fun frame => (frame.owes milestone).count node).sum

/-- The invariant of a run.  `need` counts the dependencies a node has left, `got` the
active decrements it received. -/
structure Ledger (need got : NodeId → Nat) (load : Workload) : Prop where
  distinct : (live graph callables load.shared.log).Nodup
  passage : ∀ milestone node,
    waiting (need node) + load.awaiting milestone node + passed milestone node load.shared.log =
      (live graph callables load.shared.log).count node
  edges : ∀ target, need target =
    remaining graph callables .released load.shared.log
      (fun source => edgesInto target (load.shared.node source).successors) +
    (load.frames.map fun frame => edgesInto target frame.todo).sum
  active : ∀ target, got target + (load.frames.map (Frame.activeInto target)).sum =
    completedActive graph callables load.shared target
  packed : ∀ node ∈ live graph callables load.shared.log,
    Packed (load.shared.node node).inDegree (need node) (got node)
  fits : ∀ node, need node + got node ≤ 2 ^ 16
  free : ∀ node ∈ live graph callables load.shared.log,
    (declared graph callables node).initialInDegree = 0 → need node = 0
  willRun : ∀ node,
    0 < load.ready.count node + (load.frames.map fun frame => frame.toRun.count node).sum +
      load.shared.log.count (.executed node) → Runnable graph callables got node
  willSkip : ∀ node,
    0 < (load.frames.map fun frame => frame.toSkip.count node).sum +
      load.shared.log.count (.skipped node) → ¬ Runnable graph callables got node
  status : ∀ node,
    (.completed node ∈ load.shared.log → (load.shared.node node).state = .completed) ∧
      (.skipped node ∈ load.shared.log → (load.shared.node node).state = .skipped)
  shape : ∀ node ∈ live graph callables load.shared.log,
    (load.shared.node node).type = (declared graph callables node).type ∧
      (load.shared.node node).initialInDegree = (declared graph callables node).initialInDegree ∧
      (load.shared.node node).successors =
        if Moved callables load.shared.log node then []
        else (declared graph callables node).successors
  targets : ∀ node ∈ live graph callables load.shared.log,
    ∀ edge ∈ (declared graph callables node).successors,
      edge.target ∈ live graph callables load.shared.log
  forward : ∀ frame ∈ load.frames, frame.Forward
  within : ∀ frame ∈ load.frames, ∀ node, frame.splicing = some node →
    .spliced node ∈ load.shared.log
  pending : load.shared.m_pendingTasks =
    remaining graph callables .finished load.shared.log fun _ => 1
  splices : ∀ node, .spliced node ∈ load.shared.log → .executed node ∈ load.shared.log ∧
    (declared graph callables node).type = .subflow

end Nodes

end LightFlow
