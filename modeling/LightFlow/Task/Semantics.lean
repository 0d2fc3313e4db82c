import LightFlow.Task.Outcome

/-!
# Reference semantics and completion accounting

Graphs of `emplace` and `emplaceCondition` nodes without directed cycles: the set of
executed nodes is a function of the graph and the answers of its conditions, and
`m_pendingTasks` counts the unfinished nodes in every state of every run.
-/

namespace LightFlow

variable {graph : TaskGraph} {callables : Callables} {threads : Nat}

/-! ## A graph with a branch -/

/-- A condition with two branches that meet again. -/
def branching : TaskGraph :=
  let nodes := ((({} : TaskGraph).emplace .condition .worker).emplace .static .worker).emplace
    .static .worker |>.emplace .static .worker
  let branches := (nodes.addEdge (.node 0) (.node 1) 1).addEdge (.node 0) (.node 2) 0
  (branches.addEdge (.node 1) (.node 3)).addEdge (.node 2) (.node 3)

theorem branching_built : branching.Built := by
  refine .addEdge (-1) (.addEdge (-1) (.addEdge 0 (.addEdge 1 (.emplace _ _ (.emplace _ _
    (.emplace _ _ (.emplace _ _ .empty ?_) ?_) ?_) ?_) ?_ ?_) ?_ ?_) ?_ ?_) ?_ ?_
  all_goals decide

/-- Ids of graph nodes; the edges of the concrete graphs lead from lower to higher ones. -/
def NodeId.index : NodeId → Nat
  | .node id => id
  | _ => 0

theorem branching_acyclic : branching.Acyclic :=
  branching_built.acyclic_of_increasing NodeId.index (by decide)

theorem branching_plain : ∀ node, (branching.node node).type ≠ .subflow :=
  branching_built.not_subflow (by decide)

theorem branching_narrow (node : NodeId) :
    TaskGraph.incoming branching.node branching.order node ≤ 65535 :=
  (TaskGraph.incoming_le _ _ _).trans (by decide)

/-- The condition chooses the first branch. -/
def chooseFirst : Callables where
  result := fun _ _ => 1
  subflow := fun _ => {}

/-- A thread takes a node and performs the given number of accesses. -/
def RunAction.work (thread : Fin threads) (node : NodeId) (accesses : Nat) :
    List (RunAction threads) :=
  .take thread node :: List.replicate accesses (.fire thread)

/-- One thread executes the condition, the first branch and the common successor. -/
def branchingRun : List (RunAction 1) :=
  List.flatten
    [[.prepareRun, .dispatchRoot, .dispatchRoot], RunAction.work 0 (.node 0) 11,
      RunAction.work 0 (.node 1) 7, RunAction.work 0 (.node 3) 5]

theorem branchingRun_ends : ∃ state, (branching.machine chooseFirst 1).Reachable state ∧
    0 < state.runs ∧ state.Ended :=
  Machine.ReachableBy.exists_of_run (.start rfl) branchingRun (by decide +kernel)

/-! ## Reference semantics -/

/-- In every run, of any number of threads in any order, every node is executed once or
skipped once, and it is executed exactly when it has no incoming edge or an active one.
The executed set does not depend on the schedule. -/
theorem run_semantics (built : graph.Built) (acyclic : graph.Acyclic)
    (plain : ∀ node, (graph.node node).type ≠ .subflow)
    (narrow : ∀ node, TaskGraph.incoming graph.node graph.order node ≤ 65535)
    {state : RunState threads} (reachable : (graph.machine callables threads).Reachable state)
    (running : 0 < state.runs) :
    (∀ node, state.shared.log.count (.executed node) +
      state.shared.log.count (.skipped node) ≤ 1) ∧
    (state.Ended →
      (∀ node ∈ graph.order,
        (state.shared.log.count (.executed node) = 1 ∧
          state.shared.log.count (.skipped node) = 0 ∧
          (state.shared.node node).state = .completed) ∨
        (state.shared.log.count (.executed node) = 0 ∧
          state.shared.log.count (.skipped node) = 1 ∧
          (state.shared.node node).state = .skipped)) ∧
      (∀ node ∈ graph.order, state.Executed node ↔
        TaskGraph.incoming graph.node graph.order node = 0 ∨
          ∃ source ∈ graph.order, state.ActiveEdge graph callables source node) ∧
      ∀ (otherThreads : Nat) (others : Callables) (other : RunState otherThreads),
        (graph.machine others otherThreads).Reachable other → 0 < other.runs → other.Ended →
        (∀ node ∈ graph.order, (graph.node node).type = .condition → state.Executed node →
          other.Executed node → state.result callables node = other.result others node) →
        ∀ node ∈ graph.order, state.Executed node ↔ other.Executed node) := by
  have sound := built.sound acyclic fun node => (narrow node).trans (by decide)
  obtain ⟨need, got, ledger, whole, -, -⟩ := plain_ledger sound plain reachable running
  refine ⟨fun node => ?_, fun ended => ⟨fun node member => ?_, fun node member => ?_, ?_⟩⟩
  · have law := ledger.passage .called node
    have single := ledger.count_live_le node
    rw [passed_called] at law
    have same : state.load.shared = state.shared := rfl
    rw [same] at law single
    omega
  · have status := ledger.status node
    rcases ledger.settled_of_done ended.2 (whole.symm ▸ member : node ∈ live graph callables _) with
      ⟨executed, notSkipped, completed, -⟩ | ⟨notExecuted, skipped, -, -⟩
    · exact .inl ⟨executed, notSkipped,
        status.1 (List.count_pos_iff.mp (completed ▸ Nat.one_pos))⟩
    · exact .inr ⟨notExecuted, skipped,
        status.2 (List.count_pos_iff.mp (skipped ▸ Nat.one_pos))⟩
  · exact executed_iff_active sound plain reachable running ended member
  · intro otherThreads others other otherReachable otherRunning otherEnded agree
    exact executed_unique sound acyclic plain reachable otherReachable running otherRunning ended
      otherEnded agree

theorem run_semantics_branching : ∃ state, (branching.machine chooseFirst 1).Reachable state ∧
    ∀ node ∈ branching.order, state.Executed node ↔
      TaskGraph.incoming branching.node branching.order node = 0 ∨
        ∃ source ∈ branching.order, state.ActiveEdge branching chooseFirst source node := by
  obtain ⟨state, reachable, running, ended⟩ := branchingRun_ends
  exact ⟨state, reachable, ((run_semantics branching_built branching_acyclic branching_plain
    branching_narrow reachable running).2 ended).2.1⟩

/-! ## Completion accounting -/

/-- The node whose call a frame is part of. -/
def Frame.node : Frame → NodeId
  | .executing node | .calling node | .dispatching node _ | .joining node | .completing node
  | .unblocking node _ _ _ | .handingOver node _ _ _ _ | .finishing node | .skipping node
  | .skipped node | .cascading node _ | .scheduling node | .resetting node _ _ _
  | .resettingState node _ _ _ _ | .rescheduling node _ => node

namespace RunState

/-- The node is queued, next to be scheduled by `prepareRun`, in an inline slot, being
executed, or in a skip cascade. -/
def Holds (state : RunState threads) (node : NodeId) : Prop :=
  node ∈ state.queued ∨ node ∈ state.unscheduled ∨
    (∃ index, (state.thread index).t_nextInlineTask = some node) ∨
    ∃ index, ∃ frame ∈ (state.thread index).stack, frame.node = node

theorem mem_ready {state : RunState threads} {node : NodeId} :
    node ∈ state.load.ready ↔ node ∈ state.queued ∨ node ∈ state.unscheduled ∨
      ∃ index, (state.thread index).t_nextInlineTask = some node := by
  simp only [load, slots, Multiset.mem_add, Multiset.mem_coe, Multiset.mem_sum,
    Finset.mem_univ, true_and, Option.mem_toList]
  exact or_assoc

theorem holds_iff {state : RunState threads} :
    (∃ node, state.Holds node) ↔ state.load.ready ≠ 0 ∨ state.load.frames ≠ 0 := by
  have nonempty {Item : Type} {items : Multiset Item} {item : Item} (member : item ∈ items) :
      items ≠ 0 := fun none => Multiset.notMem_zero item (none ▸ member)
  constructor
  · rintro ⟨node, queued | unscheduled | staged | ⟨index, frame, member, -⟩⟩
    · exact .inl (nonempty (mem_ready.mpr (.inl queued)))
    · exact .inl (nonempty (mem_ready.mpr (.inr (.inl unscheduled))))
    · exact .inl (nonempty (mem_ready.mpr (.inr (.inr staged))))
    · exact .inr (nonempty (mem_frames.mpr ⟨index, member⟩))
  · rintro (ready | frames)
    · obtain ⟨node, member⟩ := Multiset.exists_mem_of_ne_zero ready
      rcases mem_ready.mp member with queued | unscheduled | staged
      · exact ⟨node, .inl queued⟩
      · exact ⟨node, .inr (.inl unscheduled)⟩
      · exact ⟨node, .inr (.inr (.inl staged))⟩
    · obtain ⟨frame, member⟩ := Multiset.exists_mem_of_ne_zero frames
      obtain ⟨index, onStack⟩ := mem_frames.mp member
      exact ⟨frame.node, .inr (.inr (.inr ⟨index, frame, onStack, rfl⟩))⟩

end RunState

/-- Actions that carry a run on. -/
def RunAction.carriesOn : RunAction threads → Bool
  | .prepareRun => false
  | .setCanInline _ _ => false
  | _ => true

/-- Only a join has to wait. -/
theorem Frame.fire_isSome {inlineFree : Bool} {shared : Shared} {frame : Frame}
    (notJoining : ∀ node, frame = .joining node → shared.isDone node = true) :
    (frame.fire callables inlineFree shared).isSome := by
  cases frame with
  | joining node => simp [Frame.fire, notJoining node rfl]
  | dispatching node roots => cases roots <;> rfl
  | unblocking node branch todo unblockedCount =>
      cases todo with
      | nil => rfl
      | cons edge todo =>
          simp only [Frame.fire]
          split <;> [skip; split] <;> rfl
  | cascading node todo => cases todo <;> rfl
  | resetting node target todo cycleCount =>
      cases todo with
      | nil => rfl
      | cons curr todo =>
          simp only [Frame.fire]
          split <;> rfl
  | _ => rfl

namespace RunState

/-- A thread whose innermost call does not wait for a join can perform its next access. -/
theorem fire_of_onTop {state : RunState threads} {index : Fin threads} {frame : Frame}
    {stack : List Frame} (onTop : (state.thread index).stack = frame :: stack)
    (notJoining : ∀ node, frame = .joining node → state.shared.isDone node = true) :
    ∃ next, state.step graph callables (.fire index) = some next := by
  obtain ⟨effect, fired⟩ : ∃ effect,
      frame.fire callables (state.thread index).inlineFree state.shared = some effect :=
    Option.isSome_iff_exists.mp (Frame.fire_isSome notJoining)
  simp only [step, fire, onTop, fired, Option.map_some]
  exact ⟨_, rfl⟩

theorem dispatchRoot_of_preparing {state : RunState threads}
    (preparing : state.preparing ≠ none) :
    ∃ next, state.step graph callables .dispatchRoot = some next := by
  simp only [step, dispatchRoot]
  split
  next none => exact absurd none preparing
  all_goals exact ⟨_, rfl⟩

/-- While something is left to do, some thread, or `prepareRun`, can carry on, as long as
no innermost call waits for a join. -/
theorem exists_step {state : RunState threads} (someThread : 0 < threads)
    (noJoin : ∀ index node, .joining node ∉ (state.thread index).stack)
    (held : ∃ node, state.Holds node) :
    ∃ action next, action.carriesOn = true ∧ state.step graph callables action = some next := by
  by_cases preparing : state.preparing = none
  · by_cases calling : ∃ index, (state.thread index).stack ≠ []
    · obtain ⟨index, nonempty⟩ := calling
      obtain ⟨frame, stack, onTop⟩ := List.exists_cons_of_ne_nil nonempty
      obtain ⟨next, fired⟩ : ∃ next, state.step graph callables (.fire index) = some next :=
        fire_of_onTop onTop fun node joining =>
          absurd (joining ▸ onTop ▸ List.mem_cons_self ..) (noJoin index node)
      exact ⟨.fire index, next, rfl, fired⟩
    · push Not at calling
      obtain ⟨node, queued | unscheduled | ⟨index, staged⟩ | ⟨index, frame, member, -⟩⟩ := held
      · have enabled : (state.thread ⟨0, someThread⟩).looking ∧ node ∈ state.queued :=
          ⟨by simp [Thread.looking, calling], queued⟩
        exact ⟨.take ⟨0, someThread⟩ node, _, rfl, if_pos enabled⟩
      · simp [RunState.unscheduled, preparing] at unscheduled
      · have looking : (state.thread index).looking = true := by
          simp [Thread.looking, calling]
        obtain ⟨next, stepped⟩ :
            ∃ next, state.step graph callables (.takeInline index) = some next := by
          simp only [step, staged, looking, ↓reduceIte]
          exact ⟨_, rfl⟩
        exact ⟨.takeInline index, next, rfl, stepped⟩
      · simp [calling] at member
  · obtain ⟨next, stepped⟩ : ∃ next, state.step graph callables .dispatchRoot = some next :=
      dispatchRoot_of_preparing preparing
    exact ⟨.dispatchRoot, next, rfl, stepped⟩

end RunState

/-- A thread that finds nothing queued and calls nothing cannot do anything. -/
theorem stuck_of_idle {state : RunState threads} (prepared : state.preparing = none)
    (noneQueued : state.queued = [])
    (idle : ∀ index, (state.thread index).stack = [] ∧
      (state.thread index).t_nextInlineTask = none)
    {action : RunAction threads} (carriesOn : action.carriesOn = true) :
    state.step graph callables action = none := by
  cases action with
  | prepareRun => simp [RunAction.carriesOn] at carriesOn
  | setCanInline => simp [RunAction.carriesOn] at carriesOn
  | dispatchRoot => simp [RunState.step, RunState.dispatchRoot, prepared]
  | take index node => simp [RunState.step, noneQueued]
  | takeInline index => simp [RunState.step, (idle index).2]
  | fire index => simp [RunState.step, RunState.fire, (idle index).1]

theorem count_finished (node : NodeId) (log : List Event) :
    passed .finished node log = log.count (.finished node) := by
  induction log with
  | nil => rfl
  | cons event log ih =>
      cases event <;> simp [ih, Event.passes, List.count_cons]

/-- `m_pendingTasks` counts the nodes of the run that are not finished. -/
theorem Ledger.pending_eq_length {need got : NodeId → Nat} {load : Workload}
    (ledger : Ledger graph callables need got load) :
    load.shared.m_pendingTasks = ((live graph callables load.shared.log).filter
      fun node => .finished node ∉ load.shared.log).length := by
  rw [ledger.pending, remaining, Counting.sum_map_indicator, List.countP_eq_length_filter]
  congr 1
  refine List.filter_congr fun node _ => ?_
  simp only [count_finished, List.count_eq_zero]

/-- `m_pendingTasks` is the number of nodes for which `onTaskCompleted` was not called
yet; no call finds it at zero, at zero every node was executed or skipped, and above zero
the run is not stuck. -/
theorem pending_accounting (built : graph.Built) (acyclic : graph.Acyclic)
    (plain : ∀ node, (graph.node node).type ≠ .subflow)
    (narrow : ∀ node, TaskGraph.incoming graph.node graph.order node ≤ 65535)
    {state : RunState threads} (reachable : (graph.machine callables threads).Reachable state)
    (running : 0 < state.runs) :
    state.shared.m_pendingTasks =
        (graph.order.filter fun node => .finished node ∉ state.shared.log).length ∧
      (∀ node, state.shared.log.count (.finished node) ≤ 1) ∧
      (∀ index node, .finishing node ∈ (state.thread index).stack ∨
        .skipped node ∈ (state.thread index).stack → 0 < state.shared.m_pendingTasks) ∧
      (state.shared.m_pendingTasks = 0 → ∀ node ∈ graph.order,
        (.executed node ∈ state.shared.log ∧ .completed node ∈ state.shared.log) ∨
          .skipped node ∈ state.shared.log) ∧
      (0 < state.shared.m_pendingTasks →
        (∃ node, state.Holds node) ∧
        (0 < threads → ∃ action next, action.carriesOn = true ∧
          state.step graph callables action = some next)) := by
  have sound := built.sound acyclic fun node => (narrow node).trans (by decide)
  obtain ⟨need, got, ledger, whole, asBuilt, -⟩ := plain_ledger sound plain reachable running
  have notSpliced := ledger.not_spliced sound plain
  refine ⟨?_, fun node => ?_, fun index node closing => ?_, fun done node member => ?_,
    fun unfinished => ?_⟩
  · rw [← whole]
    exact ledger.pending_eq_length
  · have law := ledger.passage .finished node
    have single := ledger.count_live_le node
    rw [count_finished] at law
    change _ + _ + state.shared.log.count _ = _ at law
    omega
  · by_contra none
    have noFrames := (ledger.empty_of_done (Nat.eq_zero_of_not_pos none)).2
    rcases closing with member | member
    · exact Multiset.notMem_zero _ (noFrames ▸ RunState.mem_frames.mpr ⟨index, member⟩)
    · exact Multiset.notMem_zero _ (noFrames ▸ RunState.mem_frames.mpr ⟨index, member⟩)
  · rcases ledger.settled_of_done done (whole.symm ▸ member) with
      ⟨executed, -, completed, -⟩ | ⟨-, skipped, -, -⟩
    · exact .inl ⟨List.count_pos_iff.mp (executed ▸ Nat.one_pos),
        List.count_pos_iff.mp (completed ▸ Nat.one_pos)⟩
    · exact .inr (List.count_pos_iff.mp (skipped ▸ Nat.one_pos))
  · have held : ∃ node, state.Holds node := by
      rw [RunState.holds_iff]
      refine ledger.exists_work acyclic (fun source inRun edge inEdges => ?_) unfinished
      have inOrder : source ∈ graph.order := whole ▸ inRun
      exact ⟨edge, (asBuilt source inOrder).2 ▸ inEdges, rfl⟩
    refine ⟨held, fun someThread => RunState.exists_step someThread (fun index node member => ?_)
      held⟩
    exact notSpliced node (ledger.within _ (RunState.mem_frames.mpr ⟨index, member⟩) node rfl)

theorem pending_accounting_branching :
    ∃ state, (branching.machine chooseFirst 1).Reachable state ∧ state.Ended ∧
      ∀ node ∈ branching.order,
        (.executed node ∈ state.shared.log ∧ .completed node ∈ state.shared.log) ∨
          .skipped node ∈ state.shared.log := by
  obtain ⟨state, reachable, running, ended⟩ := branchingRun_ends
  exact ⟨state, reachable, ended, (pending_accounting branching_built branching_acyclic
    branching_plain branching_narrow reachable running).2.2.2.1 ended.2⟩

end LightFlow
