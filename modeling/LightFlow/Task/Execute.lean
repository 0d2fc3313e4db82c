import LightFlow.Task.Subflow

/-!
# Executing a node

`TaskNode::execute` and the functions it calls, cut at their atomic accesses.  A
frame is the rest of one call; firing it performs the next atomic access together
with the plain reads and writes around it, which only the executing thread makes.
-/

namespace LightFlow

/-- History of one run, for stating what happened in which order. -/
inductive Event where
  /-- `executeFn` was called. -/
  | executed (node : NodeId)
  /-- `TaskState::Completed` was stored. -/
  | completed (node : NodeId)
  /-- `TaskState::Skipped` was stored. -/
  | skipped (node : NodeId)
  /-- The walk over the successor list began. -/
  | released (node : NodeId)
  /-- `onTaskCompleted` was called. -/
  | finished (node : NodeId)
  /-- `splice` added the child graph to the run. -/
  | spliced (node : NodeId)
  /-- The dependency counter of `target` was decremented on behalf of `source`. -/
  | decremented (source target : NodeId) (active : Bool)
  /-- `scheduleNode(node, notify)`. -/
  | scheduled (node : NodeId) (notify : Bool)
  /-- `notifyWorker(count)`. -/
  | notified (count : Nat)
  deriving DecidableEq, Repr

/-- User code of a graph. -/
structure Callables where
  /-- Branch returned by the `k`-th call of a condition callable. -/
  result : NodeId → Nat → Int
  /-- Child graph built by a subflow callable. -/
  subflow : NodeId → ChildGraph

/-- What all threads of a run share, less the scheduler's queues. -/
structure Shared where
  node : NodeStore
  m_pendingTasks : Nat := 0
  /-- `m_isDone` of the `Subflow` that belongs to a node. -/
  isDone : NodeId → Bool := fun _ => false
  /-- How often `executeFn` of a node was called, over all runs. -/
  calls : NodeId → Nat := fun _ => 0
  /-- Newest event first. -/
  log : List Event := []

namespace Shared

def record (shared : Shared) (event : Event) : Shared :=
  { shared with log := event :: shared.log }

/-- `state.store(…)`. -/
def setState (shared : Shared) (node : NodeId) (state : TaskState) : Shared :=
  { shared with node := shared.node.set node { shared.node node with state } }

/-- `inDegree.store(…)`, and the write half of `fetch_add` and `fetch_sub`. -/
def setInDegree (shared : Shared) (node : NodeId) (inDegree : Nat) : Shared :=
  { shared with node := shared.node.set node { shared.node node with inDegree } }

/-- `TaskGraph::onTaskCompleted`. -/
def onTaskCompleted (shared : Shared) (node : NodeId) : Shared :=
  { shared with m_pendingTasks := u32Sub shared.m_pendingTasks 1 }.record (.finished node)

/-- `TaskGraph::addPendingTasks`. -/
def addPendingTasks (shared : Shared) (count : Nat) : Shared :=
  { shared with m_pendingTasks := u32 (shared.m_pendingTasks + count) }

@[simp] theorem record_log (shared : Shared) (event : Event) :
    (shared.record event).log = event :: shared.log := rfl

@[simp] theorem record_node (shared : Shared) (event : Event) :
    (shared.record event).node = shared.node := rfl

@[simp] theorem record_isDone (shared : Shared) (event : Event) :
    (shared.record event).isDone = shared.isDone := rfl

@[simp] theorem record_pending (shared : Shared) (event : Event) :
    (shared.record event).m_pendingTasks = shared.m_pendingTasks := rfl

@[simp] theorem setState_log (shared : Shared) (node : NodeId) (state : TaskState) :
    (shared.setState node state).log = shared.log := rfl

@[simp] theorem setState_pending (shared : Shared) (node : NodeId) (state : TaskState) :
    (shared.setState node state).m_pendingTasks = shared.m_pendingTasks := rfl

theorem setState_node (shared : Shared) (node query : NodeId) (state : TaskState) :
    (shared.setState node state).node query =
      { shared.node query with
        state := if query = node then state else (shared.node query).state } := by
  by_cases same : query = node
  · subst same
    simp [setState]
  · simp [setState, NodeStore.set_of_ne, same]

@[simp] theorem setInDegree_log (shared : Shared) (node : NodeId) (inDegree : Nat) :
    (shared.setInDegree node inDegree).log = shared.log := rfl

@[simp] theorem setInDegree_pending (shared : Shared) (node : NodeId) (inDegree : Nat) :
    (shared.setInDegree node inDegree).m_pendingTasks = shared.m_pendingTasks := rfl

theorem setInDegree_node (shared : Shared) (node query : NodeId) (inDegree : Nat) :
    (shared.setInDegree node inDegree).node query =
      { shared.node query with
        inDegree := if query = node then inDegree else (shared.node query).inDegree } := by
  by_cases same : query = node
  · subst same
    simp [setInDegree]
  · simp [setInDegree, NodeStore.set_of_ne, same]

@[simp] theorem onTaskCompleted_log (shared : Shared) (node : NodeId) :
    (shared.onTaskCompleted node).log = .finished node :: shared.log := rfl

@[simp] theorem onTaskCompleted_node (shared : Shared) (node : NodeId) :
    (shared.onTaskCompleted node).node = shared.node := rfl

@[simp] theorem onTaskCompleted_pending (shared : Shared) (node : NodeId) :
    (shared.onTaskCompleted node).m_pendingTasks = u32Sub shared.m_pendingTasks 1 := rfl

end Shared

/-- The rest of a call. -/
inductive Frame where
  /-- `execute` before `TaskState::Executing` is stored. -/
  | executing (node : NodeId)
  /-- `execute` at `executeFn(this)`. -/
  | calling (node : NodeId)
  /-- `splice` in its loop over the children, roots left to schedule. -/
  | dispatching (node : NodeId) (roots : List NodeId)
  /-- `join` in `helpUntil`. -/
  | joining (node : NodeId)
  /-- `execute` before `TaskState::Completed` is stored. -/
  | completing (node : NodeId)
  /-- `unblockSuccessors` in its loop; `branch` is the chosen branch of a condition. -/
  | unblocking (node : NodeId) (branch : Option Int) (todo : List SuccessorEdge)
      (unblockedCount : Nat)
  /-- The same loop after `decrementActive` returned true for `succ`. -/
  | handingOver (node : NodeId) (branch : Option Int) (succ : NodeId)
      (todo : List SuccessorEdge) (unblockedCount : Nat)
  /-- `execute` at `onTaskCompleted`. -/
  | finishing (node : NodeId)
  /-- `cascadeSkip` before `TaskState::Skipped` is stored. -/
  | skipping (node : NodeId)
  /-- `cascadeSkip` at `onTaskCompleted`. -/
  | skipped (node : NodeId)
  /-- `cascadeSkip` in its loop over the successors. -/
  | cascading (node : NodeId) (todo : List SuccessorEdge)
  /-- `decrementSkipped` at `scheduleNode`. -/
  | scheduling (node : NodeId)
  /-- Loop-back branch of `unblockSuccessors` in its loop over the cycle nodes, at the
  `inDegree` store or, for the target, the `state` store of the next one; after the
  last one at `addPendingTasks`. -/
  | resetting (node target : NodeId) (todo : List NodeId) (cycleCount : Nat)
  /-- The same loop at the `state` store of a node other than the target. -/
  | resettingState (node target curr : NodeId) (todo : List NodeId) (cycleCount : Nat)
  /-- Loop-back branch at `scheduleNode`. -/
  | rescheduling (node target : NodeId)
  deriving DecidableEq, Repr

/-- Effect of firing a frame: the shared state, the frames that replace it on the
stack of its thread, the nodes handed to the scheduler, and the node staged in
`t_nextInlineTask`. -/
structure Effect where
  shared : Shared
  frames : List Frame := []
  queued : List NodeId := []
  staged : Option NodeId := none

/-- The root children `splice` schedules. -/
def spliceRoots (store : NodeStore) (parent : NodeId) (children : ChildGraph) : List NodeId :=
  (children.childIds parent).filter fun child => (store child).initialInDegree = 0

/-- The callable of a subflow node: user code, then `join` or `splice` up to the
`fetch_add` on `m_pendingTasks`. -/
def callSubflow (shared : Shared) (node : NodeId) (children : ChildGraph) :
    Shared × List Frame :=
  let m_nodeCount := u32 children.nodes.length
  if m_nodeCount = 0 then
    ({ shared with isDone := Function.update shared.isDone node true }, [.completing node])
  else
    let store := Subflow.spliceStore shared.node node children
    let totalSubflowTasks :=
      if children.mode = .detached then m_nodeCount else u32 (m_nodeCount + 1)
    (({ shared with
        node := store
        isDone :=
          Function.update shared.isDone node (children.mode == SubflowMode.detached)
      }.addPendingTasks totalSubflowTasks).record (.spliced node),
      [.dispatching node (spliceRoots store node children)])

/-- `executeFn(this)` by kind of node.  The callable of an exit barrier sets `m_isDone`
when the subflow is joined. -/
def executeFn (callables : Callables) (shared : Shared) (node : NodeId) :
    Shared × List Frame :=
  let called := { shared with
    calls := Function.update shared.calls node (shared.calls node + 1) }.record (.executed node)
  match (shared.node node).type with
  | .condition =>
      let userData := callables.result node (shared.calls node)
      ({ called with node := called.node.set node { called.node node with userData } },
        [.completing node])
  | .subflow => callSubflow called node (callables.subflow node)
  | .static | .parallelForChunk | .gpuSubmit =>
      match node with
      | .exit parent =>
          if (callables.subflow parent).mode = .joined then
            ({ called with isDone := Function.update called.isDone parent true },
              [.completing node])
          else
            (called, [.completing node])
      | _ => (called, [.completing node])

/-- The call starts no subflow with nodes. -/
def CallsNoSplice (callables : Callables) (shared : Shared) (node : NodeId) : Prop :=
  (shared.node node).type = .subflow → u32 (callables.subflow node).nodes.length = 0

/-- A call that splices nothing is recorded, and changes at most `userData`. -/
theorem executeFn_of_callsNoSplice {callables : Callables} {shared : Shared} {node : NodeId}
    (noSplice : CallsNoSplice callables shared node) :
    (executeFn callables shared node).2 = [.completing node] ∧
      (executeFn callables shared node).1.log = .executed node :: shared.log ∧
      (executeFn callables shared node).1.m_pendingTasks = shared.m_pendingTasks ∧
      ∀ query, ∃ userData,
        (executeFn callables shared node).1.node query = { shared.node query with userData } ∧
          (query ≠ node → userData = (shared.node query).userData) := by
  have unchanged (query : NodeId) : ∃ userData,
      shared.node query = { shared.node query with userData } ∧
        (query ≠ node → userData = (shared.node query).userData) :=
    ⟨_, rfl, fun _ => rfl⟩
  simp only [executeFn]
  split
  next =>
    refine ⟨rfl, rfl, rfl, fun query => ?_⟩
    by_cases same : query = node
    · subst same
      exact ⟨callables.result query (shared.calls query), by simp, fun other => absurd rfl other⟩
    · refine ⟨_, ?_, fun _ => rfl⟩
      simp [NodeStore.set_of_ne, same]
  next isSubflow =>
    simpa only [callSubflow, noSplice isSubflow, ↓reduceIte, true_and] using
      ⟨rfl, rfl, unchanged⟩
  all_goals
    split
    · split <;> exact ⟨rfl, rfl, rfl, unchanged⟩
    · exact ⟨rfl, rfl, rfl, unchanged⟩

theorem executeFn_calls (callables : Callables) (shared : Shared) (node : NodeId) :
    (executeFn callables shared node).1.calls =
      Function.update shared.calls node (shared.calls node + 1) := by
  simp only [executeFn]
  split
  next => rfl
  next =>
    simp only [callSubflow]
    split <;> rfl
  all_goals
    split
    · split <;> rfl
    · rfl

/-- A call goes on to complete its node, or to schedule the roots of its subflow. -/
theorem executeFn_frames (callables : Callables) (shared : Shared) (node : NodeId) :
    (executeFn callables shared node).2 = [.completing node] ∨
      ∃ roots, (executeFn callables shared node).2 = [.dispatching node roots] := by
  simp only [executeFn]
  split
  next => exact .inl rfl
  next =>
    simp only [callSubflow]
    split
    · exact .inl rfl
    · exact .inr ⟨_, rfl⟩
  all_goals
    split
    · split <;> exact .inl rfl
    · exact .inl rfl

/-- A condition stores the branch its callable returned. -/
theorem executeFn_userData {callables : Callables} {shared : Shared} {node : NodeId}
    (isCondition : (shared.node node).type = .condition) :
    ((executeFn callables shared node).1.node node).userData =
      callables.result node (shared.calls node) := by
  simp only [executeFn, isCondition]
  simp

/-- The call of a subflow node that has nodes to add. -/
theorem executeFn_of_splices {callables : Callables} {shared : Shared} {node : NodeId}
    (isSubflow : (shared.node node).type = .subflow)
    (nonempty : (callables.subflow node).nodes ≠ [])
    (fits : shared.m_pendingTasks + (callables.subflow node).nodes.length + 1 < 2 ^ 32) :
    let children := callables.subflow node
    let result := executeFn callables shared node
    let store := Subflow.spliceStore shared.node node children
    result.2 = [.dispatching node (spliceRoots store node children)] ∧
      result.1.log = .spliced node :: .executed node :: shared.log ∧
      result.1.node = store ∧
      result.1.m_pendingTasks = shared.m_pendingTasks + (children.members node).length := by
  have someNodes : 0 < (callables.subflow node).nodes.length :=
    List.length_pos_iff.mpr nonempty
  have count : u32 (callables.subflow node).nodes.length =
      (callables.subflow node).nodes.length := u32_of_lt (by omega)
  have notZero : (callables.subflow node).nodes.length ≠ 0 := by omega
  simp only [executeFn, isSubflow, callSubflow, count, notZero, ↓reduceIte]
  refine ⟨rfl, rfl, rfl, ?_⟩
  simp only [Shared.record, Shared.addPendingTasks, ChildGraph.members, ChildGraph.childIds]
  split
  · simp only [List.length_append, List.length_map, List.length_range, List.length_nil]
    rw [u32_of_lt (by omega)]
    rfl
  · simp only [List.length_append, List.length_map, List.length_range, List.length_singleton]
    have total : u32 ((callables.subflow node).nodes.length + 1) =
        (callables.subflow node).nodes.length + 1 := u32_of_lt (by omega)
    rw [total, u32_of_lt (by omega)]

/-- `unblockSuccessors` up to its first atomic access. -/
def unblockSuccessors (store : NodeStore) (node : NodeId) : Frame :=
  let self := store node
  match self.type with
  | .condition =>
      let chosenBranch := self.userData
      match self.successors.find? fun edge =>
          (edge.branch = -1 ∨ edge.branch = chosenBranch) && edge.isLoopBack with
      | some chosenLoopEdge =>
          let target := chosenLoopEdge.target
          let nodes := cycleNodes store node target
          .resetting node target nodes nodes.length
      | none => .unblocking node (some chosenBranch) self.successors 0
  | _ => .unblocking node none self.successors 0

/-- Whether the walk of `unblockSuccessors` takes the edge: always, or for a condition
when the edge is unlabelled or carries the chosen branch. -/
def takes (branch : Option Int) (edge : SuccessorEdge) : Bool :=
  match branch with
  | none => true
  | some chosenBranch => edge.branch = -1 ∨ edge.branch = chosenBranch

/-- `decrementActive` on the successor behind the first edge. -/
def unblockActive (shared : Shared) (node : NodeId) (branch : Option Int) (succ : NodeId)
    (todo : List SuccessorEdge) (unblockedCount : Nat) : Effect :=
  let (inDegree, unblocked) := decrementActive (shared.node succ).inDegree
  { shared := (shared.setInDegree succ inDegree).record (.decremented node succ true)
    frames :=
      [if unblocked then .handingOver node branch succ todo unblockedCount
       else .unblocking node branch todo unblockedCount] }

/-- `decrementSkipped` on `succ`, called from a loop that continues with `rest`. -/
def unblockSkipped (shared : Shared) (node succ : NodeId) (rest : List Frame) : Effect :=
  let (inDegree, resolution) := decrementSkipped (shared.node succ).inDegree
  { shared := (shared.setInDegree succ inDegree).record (.decremented node succ false)
    frames :=
      match resolution with
      | .pending => rest
      | .run => .scheduling succ :: rest
      | .skip => .skipping succ :: rest }

/-- Staging in the inline slot or `scheduleNode(succ, false)`, with the batched
notification. -/
def handOver (shared : Shared) (inlineFree : Bool) (node : NodeId) (branch : Option Int)
    (succ : NodeId) (todo : List SuccessorEdge) (unblockedCount : Nat) : Effect :=
  if inlineFree && (shared.node succ).domain = .worker then
    { shared, frames := [.unblocking node branch todo unblockedCount], staged := some succ }
  else
    let scheduled := shared.record (.scheduled succ false)
    if (shared.node succ).domain = .worker then
      if 64 ≤ unblockedCount + 1 then
        { shared := scheduled.record (.notified (unblockedCount + 1))
          frames := [.unblocking node branch todo 0]
          queued := [succ] }
      else
        { shared := scheduled
          frames := [.unblocking node branch todo (unblockedCount + 1)]
          queued := [succ] }
    else
      { shared := scheduled
        frames := [.unblocking node branch todo unblockedCount]
        queued := [succ] }

/-- The loop of `cascadeSkip` ends without a step of its own. -/
def cascade (node : NodeId) : List SuccessorEdge → List Frame
  | [] => []
  | todo => [.cascading node todo]

/-- Perform the next atomic access of a frame.  `inlineFree` says whether the thread may
inline tasks and its slot is empty; `none` means the frame has to wait. -/
def Frame.fire (callables : Callables) (inlineFree : Bool) (shared : Shared) :
    Frame → Option Effect
  | .executing node =>
      some { shared := shared.setState node .executing, frames := [.calling node] }
  | .calling node =>
      let (shared, frames) := executeFn callables shared node
      some { shared, frames }
  | .dispatching node [] =>
      some
        { shared
          frames :=
            [if (callables.subflow node).mode = .joined then .joining node
             else .completing node] }
  | .dispatching node (root :: roots) =>
      some
        { shared := shared.record (.scheduled root true)
          frames := [.dispatching node roots]
          queued := [root] }
  | .joining node =>
      if shared.isDone node then some { shared, frames := [.completing node] } else none
  | .completing node =>
      some
        { shared :=
            ((shared.setState node .completed).record (.completed node)).record (.released node)
          frames := [unblockSuccessors shared.node node] }
  | .unblocking node _ [] unblockedCount =>
      some
        { shared := if 0 < unblockedCount then shared.record (.notified unblockedCount) else shared
          frames := [.finishing node] }
  | .unblocking node branch (edge :: todo) unblockedCount =>
      if takes branch edge then
        some (unblockActive shared node branch edge.target todo unblockedCount)
      else if edge.isLoopBack then
        some { shared, frames := [.unblocking node branch todo unblockedCount] }
      else
        some (unblockSkipped shared node edge.target
          [.unblocking node branch todo unblockedCount])
  | .handingOver node branch succ todo unblockedCount =>
      some (handOver shared inlineFree node branch succ todo unblockedCount)
  | .finishing node => some { shared := shared.onTaskCompleted node }
  | .skipping node =>
      some
        { shared := (shared.setState node .skipped).record (.skipped node)
          frames := [.skipped node] }
  | .skipped node =>
      some
        { shared := (shared.onTaskCompleted node).record (.released node)
          frames := cascade node (shared.node node).successors }
  | .cascading _ [] => some { shared }
  | .cascading node (edge :: todo) =>
      some (unblockSkipped shared node edge.target (cascade node todo))
  | .scheduling node => some { shared := shared.record (.scheduled node true), queued := [node] }
  | .resetting node target [] cycleCount =>
      some
        { shared := shared.addPendingTasks (u32 cycleCount)
          frames := [.rescheduling node target] }
  | .resetting node target (curr :: todo) cycleCount =>
      if curr = target then
        some
          { shared := shared.setState curr .pending
            frames := [.resetting node target todo cycleCount] }
      else
        some
          { shared := shared.setInDegree curr (shared.node curr).initialInDegree
            frames := [.resettingState node target curr todo cycleCount] }
  | .resettingState node target curr todo cycleCount =>
      some
        { shared := shared.setState curr .pending
          frames := [.resetting node target todo cycleCount] }
  | .rescheduling node target =>
      some
        { shared := shared.record (.scheduled target true)
          frames := [.finishing node]
          queued := [target] }

end LightFlow
