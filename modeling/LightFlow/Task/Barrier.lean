import LightFlow.Task.Semantics
import LightFlow.Task.Walk

/-!
# A spliced subflow is a barrier

The successors of a spliced subflow node are decremented by its exit, which is called
only after every node inside the subflow is done, however deep the subflows are nested.
-/

namespace LightFlow

section Barrier

variable (graph : TaskGraph) (callables : Callables)

/-- The children of a subflow and, recursively, those of its nested subflows. -/
inductive Inside (parent : NodeId) : NodeId → Prop where
  | child {index : Nat} : index < (callables.subflow parent).nodes.length →
      Inside parent (.child parent index)
  | nested {inner : NodeId} {index : Nat} : Inside parent inner →
      (declared graph callables inner).type = .subflow →
      index < (callables.subflow inner).nodes.length → Inside parent (.child inner index)

/-- A node has completed or, when it is a subflow with nodes, its exit has. -/
def Done (log : List Event) (node : NodeId) : Prop :=
  (¬ Grows graph callables node → .completed node ∈ log) ∧
    (Grows graph callables node → .spliced node ∈ log ∧ .completed (.exit node) ∈ log)

variable {graph callables} {need got : NodeId → Nat} {load : Workload}

/-! ## Milestones come in order -/

/-- Whoever owes a node a milestone owes it the later ones too. -/
theorem Ledger.passed_le (ledger : Ledger graph callables need got load)
    {earlier later : Milestone}
    (ordered : ∀ frame node, (Frame.busy earlier frame).count node ≤
      (Frame.busy later frame).count node) (node : NodeId) :
    passed later node load.shared.log ≤ passed earlier node load.shared.log := by
  have first := ledger.passage earlier node
  have second := ledger.passage later node
  have owed : load.awaiting earlier node ≤ load.awaiting later node := by
    refine Nat.add_le_add_left (Multiset.sum_map_le_sum_map _ _ fun frame _ => ?_) _
    rw [Frame.count_owes, Frame.count_owes]
    have := ordered frame node
    omega
  omega

theorem Ledger.settled_of_released (ledger : Ledger graph callables need got load) {node : NodeId}
    (released : 0 < passed .released node load.shared.log) :
    0 < passed .settled node load.shared.log :=
  released.trans_le (ledger.passed_le (fun frame _ => by cases frame <;> simp) node)

theorem Ledger.called_of_settled (ledger : Ledger graph callables need got load) {node : NodeId}
    (settled : 0 < passed .settled node load.shared.log) :
    0 < passed .called node load.shared.log :=
  settled.trans_le (ledger.passed_le (fun frame _ => by cases frame <;> simp) node)

/-- A node that was called has no dependencies left. -/
theorem Ledger.need_of_called (ledger : Ledger graph callables need got load) {node : NodeId}
    (called : 0 < passed .called node load.shared.log) : need node = 0 := by
  have law := ledger.passage .called node
  have single := ledger.count_live_le node
  exact waiting_eq_zero.mp (by omega)

theorem Ledger.mem_live_of_passed (ledger : Ledger graph callables need got load)
    {milestone : Milestone} {node : NodeId}
    (past : 0 < passed milestone node load.shared.log) :
    node ∈ live graph callables load.shared.log := by
  by_contra outside
  have := ((ledger.outside outside).2.2 milestone).2
  omega

/-- When a node has no dependencies left, every node with an edge to it is released. -/
theorem Ledger.source_released (ledger : Ledger graph callables need got load)
    {source target : NodeId} (free : need target = 0)
    (inRun : source ∈ live graph callables load.shared.log)
    (hasEdge : 0 < edgesInto target (load.shared.node source).successors) :
    0 < passed .released source load.shared.log := by
  have law := ledger.edges target
  have none : remaining graph callables .released load.shared.log
      (fun source => edgesInto target (load.shared.node source).successors) = 0 := by omega
  have zero := (List.sum_eq_zero_iff.mp none) _ (List.mem_map_of_mem inRun)
  by_contra unreleased
  simp only [Nat.eq_zero_of_not_pos unreleased, ↓reduceIte] at zero
  omega

/-! ## Inside a subflow -/

theorem mem_live_of_spliced {log : List Event} {parent member : NodeId}
    (spliced : .spliced parent ∈ log)
    (isMember : member ∈ (callables.subflow parent).members parent) :
    member ∈ live graph callables log := by
  induction log with
  | nil => simp at spliced
  | cons event log ih =>
      rcases List.mem_cons.mp spliced with rfl | earlier
      · exact List.mem_append_left _ isMember
      · cases event with
        | spliced => exact List.mem_append_right _ (ih earlier)
        | _ => exact ih earlier

theorem not_mem_order_of_member (sound : graph.Sound) {children : ChildGraph}
    {parent member : NodeId} (isMember : member ∈ children.members parent) :
    member ∉ graph.order := by
  intro inOrder
  obtain ⟨id, equal⟩ := sound.named member inOrder
  rcases ChildGraph.mem_members.mp isMember with ⟨index, -, rfl⟩ | ⟨-, rfl⟩ <;> cases equal

/-- The exit of a subflow holds the successors its subflow node gave away. -/
theorem Ledger.exit_successors (ledger : Ledger graph callables need got load) {parent : NodeId}
    (moved : Moved callables load.shared.log parent) :
    .exit parent ∈ live graph callables load.shared.log ∧
      (load.shared.node (.exit parent)).successors =
        (declared graph callables parent).successors := by
  obtain ⟨spliced, mode⟩ := moved
  have inRun : .exit parent ∈ live graph callables load.shared.log :=
    mem_live_of_spliced spliced (ChildGraph.mem_members.mpr (.inr ⟨by simp [mode], rfl⟩))
  refine ⟨inRun, ?_⟩
  rw [(ledger.shape _ inRun).2.2, if_neg fun moved => ?_]
  · simp [declared, mode]
  · exact absurd (ledger.splices _ moved.1).2 (by simp [declared])

/-- A completed call, when the node was not skipped. -/
theorem completed_of_settled {log : List Event} {node : NodeId}
    (settled : 0 < passed .settled node log) (notSkipped : .skipped node ∉ log) :
    .completed node ∈ log := by
  rw [passed_settled, List.count_eq_zero_of_not_mem notSkipped] at settled
  exact List.count_pos_iff.mp settled

theorem Ledger.called_of_done (ledger : Ledger graph callables need got load) {node : NodeId}
    (done : Done graph callables load.shared.log node) :
    0 < passed .called node load.shared.log := by
  by_cases grows : Grows graph callables node
  · rw [passed_called]
    have executed := List.count_pos_iff.mpr (ledger.splices node (done.2 grows).1).1
    omega
  · exact ledger.called_of_settled (passed_settled_of_completed (done.1 grows))

/-- When a node has no dependencies left, the members with an edge to it are done. -/
theorem Walks.done_of_edge (sound : graph.Sound) (nested : Nested callables)
    (ledger : Ledger graph callables need got load) (calls : Calls graph callables load)
    (walks : Walks graph load)
    {source target : NodeId} (free : need target = 0)
    (inRun : source ∈ live graph callables load.shared.log) (member : source ∉ graph.order)
    (hasEdge : 0 < edgesInto target (declared graph callables source).successors) :
    Done graph callables load.shared.log source := by
  by_cases spliced : .spliced source ∈ load.shared.log
  · obtain ⟨exitInRun, successors⟩ :=
      ledger.exit_successors ⟨spliced, (nested source).2.1⟩
    have released := ledger.source_released free exitInRun (successors ▸ hasEdge)
    have completed := completed_of_settled (ledger.settled_of_released released) fun skipped => by
      obtain ⟨id, equal⟩ := sound.named _ (walks.skips _ skipped)
      cases equal
    exact ⟨fun still =>
      absurd ⟨(ledger.splices source spliced).2, calls.nonempty source spliced⟩ still,
      fun _ => ⟨spliced, completed⟩⟩
  · have successors := (ledger.shape source inRun).2.2
    rw [if_neg fun moved => spliced moved.1] at successors
    have released := ledger.source_released free inRun (successors ▸ hasEdge)
    have settled := ledger.settled_of_released released
    have notSkipped : .skipped source ∉ load.shared.log := fun skipped =>
      member (walks.skips source skipped)
    have executed : .executed source ∈ load.shared.log := by
      have called := ledger.called_of_settled settled
      rw [passed_called, List.count_eq_zero_of_not_mem notSkipped] at called
      exact List.count_pos_iff.mp called
    exact ⟨fun _ => completed_of_settled settled notSkipped,
      fun grows => absurd (calls.spliced source executed grows) spliced⟩

/-- Once the exit of a subflow is called, its children are done: those without successors
have an edge to the exit, the others one to a child that is done. -/
theorem Walks.children_done (sound : graph.Sound) (nested : Nested callables)
    (ledger : Ledger graph callables need got load) (calls : Calls graph callables load)
    (walks : Walks graph load)
    {parent : NodeId} (spliced : .spliced parent ∈ load.shared.log)
    (free : need (.exit parent) = 0) :
    ∀ index < (callables.subflow parent).nodes.length,
      Done graph callables load.shared.log (.child parent index) := by
  obtain ⟨childSound, mode, -⟩ := nested parent
  have backwards : Cycleless fun target source => ∃ edge ∈ (callables.subflow parent).edges,
      edge.source = source ∧ edge.target = target := by
    intro index cycle
    exact childSound.acyclic index (Relation.transGen_swap.mp cycle)
  have along := backwards.induction_on (Finset.range (callables.subflow parent).nodes.length)
    (motive := fun index => Done graph callables load.shared.log (.child parent index)) ?_
  · exact fun index inBounds => along index (Finset.mem_range.mpr inBounds)
  intro index inBounds later
  rw [Finset.mem_range] at inBounds
  have isMember : .child parent index ∈ (callables.subflow parent).members parent :=
    ChildGraph.mem_members.mpr (.inl ⟨index, inBounds, rfl⟩)
  have inRun : .child parent index ∈ live graph callables load.shared.log :=
    mem_live_of_spliced spliced isMember
  have outer := not_mem_order_of_member sound isMember
  by_cases isSink : (callables.subflow parent).IsSink index
  · refine walks.done_of_edge sound nested ledger calls free inRun outer ?_
    simp [declared, ChildGraph.childSuccessors, mode, isSink]
  · simp only [ChildGraph.IsSink, not_forall, not_not] at isSink
    obtain ⟨edge, inEdges, isSource⟩ := isSink
    have done := later edge.target
      (Finset.mem_range.mpr (childSound.valid edge inEdges).2) ⟨edge, inEdges, isSource, rfl⟩
    have targetFree := ledger.need_of_called (ledger.called_of_done done)
    refine walks.done_of_edge sound nested ledger calls targetFree inRun outer ?_
    rw [declared, ChildGraph.edgesInto_childSuccessors, ChildGraph.edgesInto_ownSuccessors,
      List.countP_pos_iff]
    exact ⟨edge, inEdges, by simp [isSource]⟩

/-- Once the exit of a subflow is called, everything inside is done. -/
theorem Walks.inside_done (sound : graph.Sound) (nested : Nested callables)
    (ledger : Ledger graph callables need got load) (calls : Calls graph callables load)
    (walks : Walks graph load)
    {parent node : NodeId} (spliced : .spliced parent ∈ load.shared.log)
    (called : 0 < passed .called (.exit parent) load.shared.log)
    (inside : Inside graph callables parent node) :
    Done graph callables load.shared.log node := by
  induction inside with
  | child inBounds =>
      exact walks.children_done sound nested ledger calls spliced (ledger.need_of_called called) _
        inBounds
  | @nested inner index _ isSubflow inBounds ih =>
      have grows : Grows graph callables inner :=
        ⟨isSubflow, List.ne_nil_of_length_pos (by omega)⟩
      obtain ⟨innerSpliced, completed⟩ := ih.2 grows
      have innerCalled := ledger.called_of_settled (passed_settled_of_completed completed)
      exact walks.children_done sound nested ledger calls innerSpliced
        (ledger.need_of_called innerCalled) _ inBounds

/-! ## The first run -/

variable {threads : Nat}

/-- Calling a subflow node does not overflow `m_pendingTasks`. -/
def Frame.Fits (callables : Callables) (shared : Shared) : Frame → Prop
  | .calling node => (shared.node node).type = .subflow →
      shared.m_pendingTasks + (callables.subflow node).nodes.length + 1 < 2 ^ 32
  | _ => True

instance (callables : Callables) (shared : Shared) :
    (frame : Frame) → Decidable (frame.Fits callables shared)
  | .calling _ => inferInstanceAs (Decidable (_ → _))
  | .executing _ | .dispatching _ _ | .joining _ | .completing _ | .unblocking _ _ _ _
  | .handingOver _ _ _ _ _ | .finishing _ | .skipping _ | .skipped _ | .cascading _ _
  | .scheduling _ | .resetting _ _ _ _ | .resettingState _ _ _ _ _ | .rescheduling _ _ =>
      inferInstanceAs (Decidable True)

/-- Steps of the first run that do not overflow `m_pendingTasks`. -/
def RunState.FirstRun (callables : Callables) (state : RunState threads) :
    RunAction threads → Prop
  | .prepareRun => state.runs = 0
  | .fire index => ∀ frame ∈ (state.thread index).stack.take 1, frame.Fits callables state.shared
  | _ => True

instance (callables : Callables) (state : RunState threads) :
    (action : RunAction threads) → Decidable (state.FirstRun callables action)
  | .prepareRun => inferInstanceAs (Decidable (_ = _))
  | .fire _ => inferInstanceAs (Decidable (∀ _ ∈ _, _))
  | .dispatchRoot | .setCanInline _ _ | .take _ _ | .takeInline _ =>
      inferInstanceAs (Decidable True)

theorem proper_of_firstRun (sound : graph.Sound) (nested : Nested callables)
    {state : RunState threads}
    (reachable : (graph.machine callables threads).ReachableBy (RunState.FirstRun callables)
      state) :
    (graph.machine callables threads).ReachableBy (RunState.Proper graph callables) state := by
  refine Machine.ReachableBy.strengthen (fun state action next before first _ => ?_) reachable
  cases action with
  | fire index =>
      intro frame stack onTop
      refine ⟨?_, fun parent _ => by simp [(nested parent).2.1]⟩
      rintro node rfl isSubflow
      exact ⟨(nested node).1, first (.calling node) (by simp [onTop]) isSubflow⟩
  | prepareRun =>
      intro node _ moved
      rcases balanced_of_reachable sound before with ⟨-, -, notes, -⟩ | ⟨running, -⟩
      · exact absurd (notes _ moved.1) (by simp [Event.isNote])
      · exact absurd first (Nat.ne_of_gt running)
  | _ => trivial

theorem walks_of_reachable (sound : graph.Sound) (nested : Nested callables)
    {state : RunState threads}
    (reachable : (graph.machine callables threads).ReachableBy
      (RunState.Proper graph callables) state) (running : 0 < state.runs) :
    Walks graph state.load := by
  refine ledger_invariant sound (motive := Walks graph)
    (fun load noEvents noFrames => ?_)
    (fun need got load next ledger walks stepped => walks.step sound nested ledger stepped)
    reachable running
  exact
    { walked := by simp [noEvents, noFrames, decrements]
      outer := by simp [noFrames]
      skips := by simp [noEvents]
      inactive := by simp [noEvents] }

/-- What it means for spliced subflows to be barriers. -/
structure SplicedBarrier (graph : TaskGraph) (callables : Callables) (state : RunState threads) :
    Prop where
  /-- Subflow nodes with children are spliced when called. -/
  splices : ∀ node, .executed node ∈ state.shared.log → Grows graph callables node →
    .spliced node ∈ state.shared.log
  /-- No node is executed twice. -/
  atMostOnce : ∀ node, state.shared.log.count (.executed node) ≤ 1
  /-- No child and no exit is skipped, and all are executed before the run ends. -/
  once : ∀ parent, .spliced parent ∈ state.shared.log →
    ∀ node ∈ (callables.subflow parent).members parent,
      .skipped node ∉ state.shared.log ∧
        (state.shared.m_pendingTasks = 0 → state.shared.log.count (.executed node) = 1)
  /-- The subflow node decrements none of its original successors, its exit decrements each
  along every edge once. -/
  decremented : ∀ parent, .spliced parent ∈ state.shared.log → ∀ target,
    decrements parent target state.shared.log = 0 ∧
      state.shared.log.count (.decremented (.exit parent) target false) = 0 ∧
      state.shared.log.count (.decremented (.exit parent) target true) ≤
        edgesInto target (declared graph callables parent).successors ∧
      (state.shared.m_pendingTasks = 0 →
        state.shared.log.count (.decremented (.exit parent) target true) =
          edgesInto target (declared graph callables parent).successors)
  /-- When the exit has decremented anything, everything inside is done. -/
  after : ∀ parent target active,
    .decremented (.exit parent) target active ∈ state.shared.log →
      ∀ node, Inside graph callables parent node → Done graph callables state.shared.log node
  /-- `m_pendingTasks` is zero only when every node of the run has completed, or, for a node
  of the graph itself, was skipped. -/
  completed : state.shared.m_pendingTasks = 0 →
    ∀ node ∈ live graph callables state.shared.log,
      .completed node ∈ state.shared.log ∨
        (node ∈ graph.order ∧ .skipped node ∈ state.shared.log)

/-- The graphs and callables in question: any built graph with at most 65535 edges into any
node whose subflows are spliced and consist of static tasks and further subflows. -/
structure InScope (graph : TaskGraph) (callables : Callables) : Prop where
  built : graph.Built
  narrow : ∀ node, TaskGraph.incoming graph.node graph.order node ≤ 65535
  nested : Nested callables

/-! ## Where subflows are no barriers -/

/-- A subflow node with one successor. -/
def subflowThen : TaskGraph :=
  let nodes := (({} : TaskGraph).emplace .subflow .worker).emplace .static .worker
  nodes.addEdge (.node 0) (.node 1)

/-- A subflow node and a condition that loops back to it. -/
def subflowLoop : TaskGraph :=
  let nodes := (({} : TaskGraph).emplace .subflow .worker).emplace .condition .worker
  (nodes.addEdge (.node 0) (.node 1)).addEdge (.node 1) (.node 0) 1

theorem subflowThen_built : subflowThen.Built := by
  refine .addEdge (-1) (.emplace _ _ (.emplace _ _ .empty ?_) ?_) ?_ ?_
  all_goals decide

theorem subflowLoop_built : subflowLoop.Built := by
  refine .addEdge 1 (.addEdge (-1) (.emplace _ _ (.emplace _ _ .empty ?_) ?_) ?_ ?_) ?_ ?_
  all_goals decide

/-- Children in a row. -/
def chain (length : Nat) (type : TaskType) : ChildGraph where
  nodes := List.replicate length { type }
  edges := (List.range (length - 1)).map fun index => { source := index, target := index + 1 }

theorem chain_sound (length : Nat) (type : TaskType) : (chain length type).Sound where
  valid := by
    intro edge member
    simp only [chain, List.mem_map, List.mem_range, List.length_replicate] at member ⊢
    obtain ⟨index, inBounds, rfl⟩ := member
    dsimp only
    omega
  acyclic := by
    refine Cycleless.of_increasing (fun source target related => (?_ : id source < id target))
    obtain ⟨edge, member, rfl, rfl⟩ := related
    simp only [chain, List.mem_map] at member
    obtain ⟨index, -, rfl⟩ := member
    exact Nat.lt_succ_self index
  narrow := by
    intro index
    have into : (chain length type).childInDegree index =
        (List.range (length - 1)).countP fun source => decide (source + 1 = index) := by
      simp [ChildGraph.childInDegree, chain, List.countP_map, Function.comp_def]
    have once : (List.range (length - 1)).countP (fun source => decide (source + 1 = index)) ≤
        (List.range (length - 1)).count (index - 1) := by
      rw [List.count]
      refine List.countP_mono_left fun source _ isIndex => ?_
      simp only [decide_eq_true_eq] at isIndex
      simp [← isIndex]
    have := List.nodup_iff_count_le_one.mp (List.nodup_range (n := length - 1)) (index - 1)
    omega
  narrowExit := by
    have sinks : (chain length type).sinkCount ≤ (List.range length).count (length - 1) := by
      rw [ChildGraph.sinkCount, List.count]
      have sameLength : (chain length type).nodes.length = length := by simp [chain]
      rw [sameLength]
      refine List.countP_mono_left fun index member isSink => ?_
      have noEdge := of_decide_eq_true isSink
      by_contra notLast
      rw [beq_iff_eq] at notLast
      rw [List.mem_range] at member
      refine noEdge { source := index, target := index + 1 } (List.mem_map.mpr ⟨index, ?_, rfl⟩) rfl
      rw [List.mem_range]
      omega
    have := List.nodup_iff_count_le_one.mp (List.nodup_range (n := length)) (length - 1)
    omega

/-- Every subflow callable builds a chain of static tasks of the given length. -/
def chains (length : Nat) : Callables where
  result := fun _ calls => if calls = 0 then 1 else 0
  subflow := fun _ => chain length .static

theorem chains_nested (length : Nat) : Nested (chains length) := by
  refine fun parent => ⟨chain_sound length .static, rfl, fun child member => .inl ?_⟩
  rw [(List.mem_replicate.mp member).2]

/-- The child of a graph node is a subflow with one static task. -/
def nestedOnce : Callables where
  result := fun _ _ => 0
  subflow := fun
    | .node _ => chain 1 .subflow
    | _ => chain 1 .static

theorem nestedOnce_nested : Nested nestedOnce := by
  intro parent
  cases parent with
  | node id =>
      refine ⟨chain_sound 1 .subflow, rfl, fun child member => .inr ?_⟩
      rw [(List.mem_replicate.mp member).2]
  | _ =>
      refine ⟨chain_sound 1 .static, rfl, fun child member => .inl ?_⟩
      rw [(List.mem_replicate.mp member).2]

/-- A subflow without nodes has no exit; its node decrements the successors itself. -/
theorem decrements_without_nodes : ∃ state,
    (subflowThen.machine (chains 0) 1).Reachable state ∧ state.runs = 1 ∧ state.Ended ∧
      .decremented (.node 0) (.node 1) true ∈ state.shared.log ∧
      .executed (.exit (.node 0)) ∉ state.shared.log :=
  Machine.ReachableBy.exists_of_run (.start rfl)
    (List.flatten
      [[.prepareRun, .dispatchRoot, .dispatchRoot], RunAction.work 0 (.node 0) 7,
        RunAction.work 0 (.node 1) 5])
    (by decide +kernel)

/-- A nested subflow's exit, and after it the outer one, may be through while the thread
that called the nested subflow is still busy splicing it. -/
theorem exits_before_completed : ∃ state,
    (subflowThen.machine nestedOnce 2).Reachable state ∧ state.runs = 1 ∧
      .decremented (.exit (.node 0)) (.node 1) true ∈ state.shared.log ∧
      .child (.node 0) 0 ∈ (nestedOnce.subflow (.node 0)).members (.node 0) ∧
      .completed (.child (.node 0) 0) ∉ state.shared.log ∧
      (state.shared.node (.child (.node 0) 0)).state = .executing :=
  Machine.ReachableBy.exists_of_run (.start rfl)
    (List.flatten
      [[.prepareRun, .dispatchRoot, .dispatchRoot], RunAction.work 0 (.node 0) 7,
        RunAction.work 1 (.child (.node 0) 0) 3,
        RunAction.work 0 (.child (.child (.node 0) 0) 0) 7,
        RunAction.work 0 (.exit (.child (.node 0) 0)) 7, RunAction.work 0 (.exit (.node 0)) 4])
    (by decide +kernel)

/-- In a loop the subflow node is called and spliced a second time, and of the two exits only the
first has successors to decrement. -/
theorem executes_again : ∃ state,
    (subflowLoop.machine (chains 1) 1).Reachable state ∧ state.runs = 1 ∧ state.Ended ∧
      state.shared.log.count (.spliced (.node 0)) = 2 ∧
      decrements (.exit (.node 0)) (.node 1) state.shared.log = 1 :=
  Machine.ReachableBy.exists_of_run (.start rfl)
    (List.flatten
      [[.prepareRun, .dispatchRoot, .dispatchRoot], RunAction.work 0 (.node 0) 7,
        RunAction.work 0 (.child (.node 0) 0) 7, RunAction.work 0 (.exit (.node 0)) 7,
        RunAction.work 0 (.node 1) 7, RunAction.work 0 (.node 0) 7,
        RunAction.work 0 (.child (.node 0) 0) 7, RunAction.work 0 (.exit (.node 0)) 5])
    (by decide +kernel)

/-- Splicing adds to `m_pendingTasks` in `u32` arithmetic. -/
theorem pending_of_splice {shared : Shared} {node : NodeId}
    (isSubflow : (shared.node node).type = .subflow)
    (attached : (callables.subflow node).mode ≠ .detached)
    (someNodes : 0 < (callables.subflow node).nodes.length)
    (small : (callables.subflow node).nodes.length + 1 < 2 ^ 32) :
    (executeFn callables shared node).1.m_pendingTasks =
        u32 (shared.m_pendingTasks + ((callables.subflow node).nodes.length + 1)) ∧
      (executeFn callables shared node).1.log = .spliced node :: .executed node :: shared.log := by
  have count : u32 (callables.subflow node).nodes.length =
      (callables.subflow node).nodes.length := u32_of_lt (by omega)
  have notZero : (callables.subflow node).nodes.length ≠ 0 := by omega
  simp only [executeFn, isSubflow, callSubflow, count, notZero, attached, ↓reduceIte,
    Shared.record, Shared.addPendingTasks, u32_of_lt small, and_self]

/-- A subflow may add so many nodes that `m_pendingTasks` wraps around to zero. -/
theorem pending_wraps : ∃ state,
    (subflowThen.machine (chains (2 ^ 32 - 3)) 1).Reachable state ∧ state.runs = 1 ∧
      state.Ended ∧ .spliced (.node 0) ∈ state.shared.log ∧
      ∀ node, .completed node ∉ state.shared.log := by
  generalize environment : chains (2 ^ 32 - 3) = callables
  obtain ⟨state, performed, running, prepared, pending, onTop, isSubflow, log⟩ : ∃ state,
      (subflowThen.machine callables 1).run (fun _ _ => True) (subflowThen.initialState 1)
        [.prepareRun, .dispatchRoot, .dispatchRoot, .take 0 (.node 0), .fire 0] = some state ∧
      state.runs = 1 ∧ state.preparing = none ∧ state.shared.m_pendingTasks = 2 ∧
      (state.thread 0).stack = [.calling (.node 0)] ∧
      (state.shared.node (.node 0)).type = .subflow ∧
      state.shared.log = [.notified 1, .scheduled (.node 0) false] :=
    ⟨_, rfl, rfl, rfl, rfl, rfl, rfl, rfl⟩
  have length : (callables.subflow (.node 0)).nodes.length = 2 ^ 32 - 3 := by
    rw [← environment]
    exact List.length_replicate
  have attached : (callables.subflow (.node 0)).mode ≠ .detached := by
    rw [← environment]
    nofun
  obtain ⟨wrapped, newLog⟩ := pending_of_splice isSubflow attached (by omega) (by omega)
  rw [pending, length] at wrapped
  have reached := Machine.ReachableBy.of_run (.start rfl) performed
  have stepped : ∃ next, (subflowThen.machine callables 1).step state (.fire 0) = some next ∧
      next.runs = 1 ∧ next.preparing = none ∧ next.shared = (executeFn callables state.shared
        (.node 0)).1 := by
    simp only [TaskGraph.machine, RunState.step, RunState.fire, onTop, Frame.fire, Option.map_some]
    exact ⟨_, rfl, running, prepared, rfl⟩
  obtain ⟨next, fired, stillRunning, noRoots, shared⟩ := stepped
  refine ⟨next, .step reached trivial fired, stillRunning, ⟨noRoots, ?_⟩, ?_, fun node => ?_⟩
  · rw [shared, wrapped]
    decide
  · rw [shared, newLog]
    exact List.mem_cons_self ..
  · rw [shared, newLog, log]
    simp

theorem subflowThen_scope {callables : Callables} (nested : Nested callables) :
    InScope subflowThen callables where
  built := subflowThen_built
  narrow := fun node => (TaskGraph.incoming_le _ _ _).trans (by decide)
  nested := nested

/-- Five ways in which a subflow is no barrier: without nodes it has no exit, a nested
subflow may be through before its node has completed, in a loop the second exit decrements
nothing, `m_pendingTasks` wraps, and skipped nodes never complete. -/
theorem not_always_barrier :
    (InScope subflowThen (chains 0) ∧ ∃ state,
      (subflowThen.machine (chains 0) 1).Reachable state ∧ state.runs = 1 ∧ state.Ended ∧
        .decremented (.node 0) (.node 1) true ∈ state.shared.log ∧
        .executed (.exit (.node 0)) ∉ state.shared.log) ∧
    (InScope subflowThen nestedOnce ∧ ∃ state,
      (subflowThen.machine nestedOnce 2).Reachable state ∧ state.runs = 1 ∧
        .decremented (.exit (.node 0)) (.node 1) true ∈ state.shared.log ∧
        .child (.node 0) 0 ∈ (nestedOnce.subflow (.node 0)).members (.node 0) ∧
        .completed (.child (.node 0) 0) ∉ state.shared.log ∧
        (state.shared.node (.child (.node 0) 0)).state = .executing) ∧
    (InScope subflowLoop (chains 1) ∧ ∃ state,
      (subflowLoop.machine (chains 1) 1).Reachable state ∧ state.runs = 1 ∧ state.Ended ∧
        state.shared.log.count (.spliced (.node 0)) = 2 ∧
        decrements (.exit (.node 0)) (.node 1) state.shared.log = 1) ∧
    (InScope subflowThen (chains (2 ^ 32 - 3)) ∧ ∃ state,
      (subflowThen.machine (chains (2 ^ 32 - 3)) 1).Reachable state ∧ state.runs = 1 ∧
        state.Ended ∧ .spliced (.node 0) ∈ state.shared.log ∧
        ∀ node, .completed node ∉ state.shared.log) ∧
    (InScope branching (chains 0) ∧ ∃ state,
      (branching.machine (chains 0) 1).Reachable state ∧ state.runs = 1 ∧ state.Ended ∧
        .completed (.node 2) ∉ state.shared.log) := by
  refine ⟨⟨subflowThen_scope (chains_nested 0), decrements_without_nodes⟩,
    ⟨subflowThen_scope nestedOnce_nested, exits_before_completed⟩,
    ⟨⟨subflowLoop_built, fun node => (TaskGraph.incoming_le _ _ _).trans (by decide),
      chains_nested 1⟩, executes_again⟩,
    ⟨subflowThen_scope (chains_nested _), pending_wraps⟩,
    ⟨⟨branching_built, branching_narrow, chains_nested 0⟩, ?_⟩⟩
  exact Machine.ReachableBy.exists_of_run (.start rfl) branchingRun (by decide +kernel)

/-! ## Where they are -/

/-- In the first run, spliced subflows are barriers, whatever their size and depth and
whatever the threads do. -/
theorem spliced_barrier (scope : InScope graph callables) (acyclic : graph.Acyclic)
    {state : RunState threads}
    (reachable : (graph.machine callables threads).ReachableBy (RunState.FirstRun callables)
      state) (running : 0 < state.runs) : SplicedBarrier graph callables state := by
  obtain ⟨built, narrow, nested⟩ := scope
  have sound := built.sound acyclic fun node => (narrow node).trans (by decide)
  have proper := proper_of_firstRun sound nested reachable
  have calls := calls_of_reachable sound proper running
  have walks := walks_of_reachable sound nested proper running
  rcases balanced_of_reachable sound proper with ⟨noRun, -⟩ | ⟨-, need, got, ledger⟩
  · omega
  have notSkipped {parent node : NodeId}
      (isMember : node ∈ (callables.subflow parent).members parent) :
      .skipped node ∉ state.shared.log := fun skipped =>
    not_mem_order_of_member sound isMember (walks.skips node skipped)
  refine
    { splices := calls.spliced
      atMostOnce := ledger.count_executed_le
      once := fun parent spliced node isMember => ⟨notSkipped isMember, fun done => ?once⟩
      decremented := fun parent spliced target => ?decremented
      after := fun parent target active decremented node inside => ?after
      completed := fun done node inRun => ?completed }
  case once =>
    rcases ledger.settled_of_done done (mem_live_of_spliced spliced isMember) with
      ⟨executed, -⟩ | ⟨-, skipped, -⟩
    · exact executed
    · exact absurd (List.count_pos_iff.mp (skipped ▸ Nat.one_pos)) (notSkipped isMember)
  case decremented =>
    have mode := (nested parent).2.1
    obtain ⟨exitInRun, successors⟩ := ledger.exit_successors ⟨spliced, mode⟩
    have inRun := ledger.mem_live_of_executed (ledger.splices parent spliced).1
    have moved := (ledger.shape parent inRun).2.2
    rw [if_pos ⟨spliced, mode⟩] at moved
    have ofParent := walks.walked parent target
    have ofExit := walks.walked (.exit parent) target
    rw [moved, edgesInto_nil, Nat.mul_zero] at ofParent
    rw [successors] at ofExit
    have inactive : state.shared.log.count (.decremented (.exit parent) target false) = 0 :=
      List.count_eq_zero_of_not_mem fun member => by
        obtain ⟨id, equal⟩ := sound.named _ (walks.inactive _ _ member)
        cases equal
    change decrements _ _ state.shared.log + _ = 0 at ofParent
    change decrements _ _ state.shared.log + _ = _ at ofExit
    rw [decrements, inactive] at ofExit
    refine ⟨by omega, inactive, ?_, fun done => ?_⟩
    · have law := ledger.passage .released (.exit parent)
      have single := ledger.count_live_le (.exit parent)
      have atMost : passed .released (.exit parent) state.load.shared.log ≤ 1 := by omega
      have bounded := Nat.mul_le_mul_right
        (edgesInto target (declared graph callables parent).successors) atMost
      omega
    · have released : passed .released (.exit parent) state.load.shared.log = 1 := by
        have law := ledger.passage .released (.exit parent)
        have finished := ledger.passed_finished done exitInRun
        have ordered : passed .finished (.exit parent) state.load.shared.log ≤
            passed .released (.exit parent) state.load.shared.log :=
          ledger.passed_le (fun frame node => by cases frame <;> simp) (.exit parent)
        have single := ledger.count_live_le (.exit parent)
        omega
      rw [(ledger.empty_of_done done).2, Multiset.map_zero, Multiset.sum_zero, released] at ofExit
      omega
  case after =>
    have positive : 0 < decrements (.exit parent) target state.shared.log := by
      have := List.count_pos_iff.mpr decremented
      cases active <;> rw [decrements] <;> omega
    have law := walks.walked (.exit parent) target
    change decrements _ _ state.shared.log + _ = _ at law
    have released : 0 < passed .released (.exit parent) state.load.shared.log := by
      by_contra unreleased
      rw [Nat.eq_zero_of_not_pos unreleased, Nat.zero_mul] at law
      omega
    have spliced := (spliced_of_mem_live sound (ledger.mem_live_of_passed released) (.inr rfl)).1
    exact walks.inside_done sound nested ledger calls spliced
      (ledger.called_of_settled (ledger.settled_of_released released)) inside
  case completed =>
    rcases ledger.settled_of_done done inRun with ⟨-, -, completed, -⟩ | ⟨-, skipped, -, -⟩
    · exact .inl (List.count_pos_iff.mp (completed ▸ Nat.one_pos))
    · have member := List.count_pos_iff.mp (skipped ▸ Nat.one_pos)
      exact .inr ⟨walks.skips node member, member⟩

theorem spliced_barrier_nested : ∃ state : RunState 1, state.Ended ∧
    .spliced (.node 0) ∈ state.shared.log ∧ SplicedBarrier subflowThen nestedOnce state := by
  obtain ⟨state, reachable, running, ended, spliced⟩ : ∃ state,
      (subflowThen.machine nestedOnce 1).ReachableBy (RunState.FirstRun nestedOnce) state ∧
        0 < state.runs ∧ state.Ended ∧ .spliced (.node 0) ∈ state.shared.log :=
    Machine.ReachableBy.exists_of_run (.start rfl)
      (List.flatten
        [[.prepareRun, .dispatchRoot, .dispatchRoot], RunAction.work 0 (.node 0) 7,
          RunAction.work 0 (.child (.node 0) 0) 7,
          RunAction.work 0 (.child (.child (.node 0) 0) 0) 7,
          RunAction.work 0 (.exit (.child (.node 0) 0)) 7, RunAction.work 0 (.exit (.node 0)) 7,
          RunAction.work 0 (.node 1) 5])
      (by decide +kernel)
  exact ⟨state, ended, spliced, spliced_barrier (subflowThen_scope nestedOnce_nested)
    (subflowThen_built.acyclic_of_increasing NodeId.index (by decide)) reachable running⟩

end Barrier

end LightFlow
