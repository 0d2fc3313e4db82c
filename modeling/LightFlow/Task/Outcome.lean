import LightFlow.Task.Calls

/-!
# The outcome of a run

A run of an acyclic graph without subflows: which nodes are executed and which are
skipped, what `m_pendingTasks` counts meanwhile, and why the run cannot get stuck.
-/

namespace LightFlow

section Outcome

variable {graph : TaskGraph} {callables : Callables} {need got : NodeId → Nat}

/-! ## Conclusions from a ledger -/

theorem passed_settled (node : NodeId) (log : List Event) :
    passed .settled node log = log.count (.completed node) + log.count (.skipped node) := by
  induction log with
  | nil => rfl
  | cons event log ih =>
      cases event <;> simp [ih, Event.passes, List.count_cons] <;> grind

/-- While nodes are unfinished, something is left to do: of the nodes that wait, one
that comes first could only wait for an edge somebody is about to decrement. -/
theorem Ledger.exists_work {load : Workload} (ledger : Ledger graph callables need got load)
    {earlier : NodeId → NodeId → Prop} (cycleless : Cycleless earlier)
    (ordered : ∀ source ∈ live graph callables load.shared.log,
      ∀ edge ∈ (load.shared.node source).successors, earlier source edge.target)
    (unfinished : 0 < load.shared.m_pendingTasks) : load.ready ≠ 0 ∨ load.frames ≠ 0 := by
  by_contra nothing
  push Not at nothing
  obtain ⟨noReady, noFrames⟩ := nothing
  have passage (milestone : Milestone) (node : NodeId) : waiting (need node) +
      passed milestone node load.shared.log =
        (live graph callables load.shared.log).count node := by
    simpa [Workload.awaiting, noReady, noFrames] using ledger.passage milestone node
  have waits {milestone : Milestone} {node : NodeId}
      (inRun : node ∈ live graph callables load.shared.log)
      (before : passed milestone node load.shared.log = 0) : need node ≠ 0 := by
    have law := passage milestone node
    rw [before, List.count_eq_one_of_mem ledger.distinct inRun] at law
    intro none
    simp [none] at law
  let waiters := (live graph callables load.shared.log).toFinset.filter fun node => need node ≠ 0
  have nonempty : waiters.Nonempty := by
    rw [ledger.pending, remaining, Counting.sum_map_pos] at unfinished
    obtain ⟨node, inRun, positive⟩ := unfinished
    have before : passed .finished node load.shared.log = 0 := by
      by_contra past
      simp [past] at positive
    exact ⟨node, Finset.mem_filter.mpr ⟨List.mem_toFinset.mpr inRun, waits inRun before⟩⟩
  obtain ⟨first, isWaiter, noneBefore⟩ := cycleless.exists_source nonempty
  have needs := (Finset.mem_filter.mp isWaiter).2
  have sources := ledger.edges first
  rw [noFrames, Multiset.map_zero, Multiset.sum_zero, Nat.add_zero] at sources
  have positive : 0 < need first := Nat.pos_of_ne_zero needs
  rw [sources, remaining, Counting.sum_map_pos] at positive
  obtain ⟨source, inRun, hasEdge⟩ := positive
  split at hasEdge
  next before =>
    obtain ⟨edge, inEdges, isTarget⟩ := edgesInto_pos.mp hasEdge
    refine noneBefore source ?_ (isTarget ▸ ordered source inRun edge inEdges)
    exact Finset.mem_filter.mpr ⟨List.mem_toFinset.mpr inRun, waits inRun before⟩
  next => simp at hasEdge

/-- At the end of a run every node was either executed, and completed, or skipped. -/
theorem Ledger.settled_of_done {load : Workload} (ledger : Ledger graph callables need got load)
    (done : load.shared.m_pendingTasks = 0) {node : NodeId}
    (inRun : node ∈ live graph callables load.shared.log) :
    (load.shared.log.count (.executed node) = 1 ∧ load.shared.log.count (.skipped node) = 0 ∧
      load.shared.log.count (.completed node) = 1 ∧
      Runnable graph callables got node) ∨
    (load.shared.log.count (.executed node) = 0 ∧ load.shared.log.count (.skipped node) = 1 ∧
      load.shared.log.count (.completed node) = 0 ∧
      ¬ Runnable graph callables got node) := by
  obtain ⟨noReady, noFrames⟩ := ledger.empty_of_done done
  have none := (ledger.quiet_of_done done node).1
  have single := List.count_eq_one_of_mem ledger.distinct inRun
  have called := ledger.passage .called node
  have settled := ledger.passage .settled node
  simp only [Workload.awaiting, noReady, noFrames, none, single, waiting_zero,
    Multiset.count_zero, Multiset.map_zero, Multiset.sum_zero, Nat.zero_add, passed_called,
    passed_settled] at called settled
  rcases Nat.eq_zero_or_pos (load.shared.log.count (.skipped node)) with notSkipped | skipped
  · have executed : 0 < load.shared.log.count (.executed node) := by omega
    exact .inl ⟨by omega, notSkipped, by omega, ledger.willRun node (by omega)⟩
  · exact .inr ⟨by omega, by omega, by omega, ledger.willSkip node (by omega)⟩

theorem Frame.taken_pos {branch : Option Int} {target : NodeId} {edges : List SuccessorEdge} :
    0 < Frame.taken branch target edges ↔
      ∃ edge ∈ edges, edge.target = target ∧ takes branch edge = true := by
  simp [Frame.taken, List.countP_pos_iff]

/-- At the end of a run the executed nodes are those without dependencies and those an
executed node took an edge to. -/
theorem Ledger.executed_iff {load : Workload} (ledger : Ledger graph callables need got load)
    (done : load.shared.m_pendingTasks = 0) {node : NodeId}
    (inRun : node ∈ live graph callables load.shared.log) :
    .executed node ∈ load.shared.log ↔
      (declared graph callables node).initialInDegree = 0 ∨
        ∃ source ∈ live graph callables load.shared.log, .executed source ∈ load.shared.log ∧
          ∃ edge ∈ (load.shared.node source).successors, edge.target = node ∧
            takes (chosenBranch (load.shared.node source)) edge = true := by
  have runs : .executed node ∈ load.shared.log ↔ Runnable graph callables got node := by
    rw [← List.count_pos_iff]
    rcases ledger.settled_of_done done inRun with
      ⟨executed, -, -, runnable⟩ | ⟨executed, -, -, notRunnable⟩
    · simp [executed, runnable]
    · simp [executed, notRunnable]
  have paid := ledger.active node
  rw [(ledger.empty_of_done done).2, Multiset.map_zero, Multiset.sum_zero, Nat.add_zero] at paid
  rw [runs, Runnable, paid, completedActive, Counting.sum_map_pos]
  refine or_congr_right (exists_congr fun source => and_congr_right fun sourceInRun => ?_)
  have completed : .completed source ∈ load.shared.log ↔ .executed source ∈ load.shared.log := by
    rw [← List.count_pos_iff, ← List.count_pos_iff]
    rcases ledger.settled_of_done done sourceInRun with
      ⟨executed, -, completed, -⟩ | ⟨executed, -, completed, -⟩ <;> simp [executed, completed]
  rw [Nat.pos_iff_ne_zero, Nat.mul_ne_zero_iff, ← Nat.pos_iff_ne_zero, ← Nat.pos_iff_ne_zero,
    Frame.taken_pos, List.count_pos_iff, completed]

/-! ## The results of condition callables -/

/-- An executed condition holds the result of its latest call. -/
def Answered (callables : Callables) (shared : Shared) : Prop :=
  ∀ node, .executed node ∈ shared.log → (shared.node node).type = .condition →
    (shared.node node).userData = callables.result node (shared.calls node - 1)

theorem Answered.call {shared : Shared} {node : NodeId} {ready : Multiset NodeId}
    {rest : Multiset Frame} (sound : graph.Sound)
    (ledger : Ledger graph callables need got ⟨shared, ready, .calling node ::ₘ rest⟩)
    (answered : Answered callables shared) (admitted : Admits callables shared (.calling node)) :
    Answered callables (executeFn callables shared node).1 := by
  have calls := executeFn_calls callables shared node
  -- Nodes that were executed before keep type and result.
  have keeps : (∀ other, .executed other ∈ (executeFn callables shared node).1.log →
        other ≠ node → .executed other ∈ shared.log) ∧
      ∀ other, .executed other ∈ shared.log ∨ other = node →
        ((executeFn callables shared node).1.node other).type = (shared.node other).type ∧
        (other ≠ node → ((executeFn callables shared node).1.node other).userData =
          (shared.node other).userData) := by
    by_cases noSplice : CallsNoSplice callables shared node
    · obtain ⟨-, log, -, nodes⟩ := executeFn_of_callsNoSplice noSplice
      refine ⟨fun other executed different => ?_, fun other _ => ?_⟩
      · simpa [log, different] using executed
      · obtain ⟨userData, stored, others⟩ := nodes other
        rw [stored]
        exact ⟨rfl, others⟩
    · simp only [CallsNoSplice, Classical.not_imp] at noSplice
      obtain ⟨childSound, room⟩ := admitted.splices node rfl noSplice.1
      have nonempty : (callables.subflow node).nodes ≠ [] := by
        intro empty
        simp [empty, u32] at noSplice
      obtain ⟨-, log, store, -⟩ := executeFn_of_splices noSplice.1 nonempty room
      refine ⟨fun other executed different => ?_, fun other known => ?_⟩
      · simpa [log, different] using executed
      · by_cases isSelf : other = node
        · rw [isSelf, store, Subflow.spliceStore_parent]
          exact ⟨rfl, fun different => absurd rfl different⟩
        · rw [store, ledger.store_of_live sound
            (ledger.mem_live_of_executed (known.resolve_right isSelf)) isSelf]
          exact ⟨rfl, fun _ => rfl⟩
  intro other executed isCondition
  by_cases isSelf : other = node
  · subst isSelf
    rw [(keeps.2 other (.inr rfl)).1] at isCondition
    rw [executeFn_userData isCondition, calls, Function.update_self, Nat.add_sub_cancel]
  · have before := keeps.1 other executed isSelf
    obtain ⟨sameType, sameData⟩ := keeps.2 other (.inl before)
    rw [sameData isSelf, calls, Function.update_of_ne isSelf]
    exact answered other before (sameType ▸ isCondition)

theorem Answered.step (sound : graph.Sound) {load next : Workload}
    (ledger : Ledger graph callables need got load) (answered : Answered callables load.shared)
    (stepped : Workload.Step callables (Admits callables) load next) :
    Answered callables next.shared := by
  cases stepped with
  | start => exact answered
  | @note shared ready frames event isNote =>
      intro node executed isCondition
      have before : .executed node ∈ shared.log := by
        rcases List.mem_cons.mp executed with rfl | before
        · simp [Event.isNote] at isNote
        · exact before
      exact answered node before isCondition
  | @fire shared ready frame rest inlineFree effect admitted fired =>
      by_cases isCall : ∃ node, frame = .calling node
      · obtain ⟨node, rfl⟩ := isCall
        cases fired
        exact answered.call sound ledger admitted
      · push Not at isCall
        obtain ⟨calls, -, ⟨events, log, quiet⟩, nodes, -⟩ := Frame.fire_keeps isCall fired
        intro node inLog isCondition
        rw [(nodes node).2, calls]
        rw [log, mem_append_of_call (fun event member => (quiet event member).1) rfl] at inLog
        exact answered node inLog ((nodes node).1 ▸ isCondition)

variable {threads : Nat}

/-- In every state of every run, executed conditions hold their results. -/
theorem answered_of_reachable (sound : graph.Sound) {state : RunState threads}
    (reachable : (graph.machine callables threads).ReachableBy
      (RunState.Proper graph callables) state) (running : 0 < state.runs) :
    Answered callables state.shared := by
  refine ledger_invariant sound (motive := fun load => Answered callables load.shared)
    (fun load noEvents _ node executed => ?_)
    (fun need got load next ledger answered stepped => answered.step sound ledger stepped)
    reachable running
  simp [noEvents] at executed

/-! ## Graphs without subflows -/

theorem Ledger.mem_live_of_member {load : Workload} (ledger : Ledger graph callables need got load)
    {frame : Frame} (member : frame ∈ load.frames) {milestone : Milestone} {node : NodeId}
    (owed : 0 < (frame.owes milestone).count node) :
    node ∈ live graph callables load.shared.log := by
  obtain ⟨rest, split⟩ := Multiset.exists_cons_of_mem member
  obtain ⟨shared, ready, frames⟩ := load
  dsimp only at split
  subst split
  exact ledger.mem_live_of_owes owed

/-- Without subflow nodes nothing is ever spliced. -/
theorem Ledger.not_spliced (sound : graph.Sound)
    (plain : ∀ node, (graph.node node).type ≠ .subflow) {load : Workload}
    (ledger : Ledger graph callables need got load) (node : NodeId) :
    .spliced node ∉ load.shared.log := by
  induction node with
  | node id => exact fun spliced => plain (.node id) (ledger.splices _ spliced).2
  | child parent index ih =>
      intro spliced
      have inRun := ledger.mem_live_of_executed (ledger.splices _ spliced).1
      exact ih (spliced_of_mem_live sound inRun (.inl ⟨index, rfl⟩)).1
  | exit parent ih =>
      intro spliced
      have inRun := ledger.mem_live_of_executed (ledger.splices _ spliced).1
      exact ih (spliced_of_mem_live sound inRun (.inr rfl)).1

theorem live_eq_order {log : List Event} (notSpliced : ∀ node, .spliced node ∉ log) :
    live graph callables log = graph.order := by
  rw [← List.append_nil log, live_append notSpliced]
  rfl

theorem RunState.mem_frames {state : RunState threads} {frame : Frame} :
    frame ∈ state.load.frames ↔ ∃ index, frame ∈ (state.thread index).stack := by
  simp [RunState.load, RunState.calls, Multiset.mem_sum]

/-- Every run of a graph without subflows consists of proper steps. -/
theorem proper_of_plain (sound : graph.Sound) (plain : ∀ node, (graph.node node).type ≠ .subflow)
    {state : RunState threads} (reachable : (graph.machine callables threads).Reachable state) :
    (graph.machine callables threads).ReachableBy (RunState.Proper graph callables) state := by
  refine Machine.ReachableBy.strengthen ?_ reachable
  intro state action next before _ stepped
  rcases balanced_of_reachable sound before with
    ⟨-, -, notes, -, noFrames⟩ | ⟨-, need, got, ledger⟩
  · cases action with
    | fire index =>
        intro frame stack onTop
        have member : frame ∈ state.load.frames :=
          RunState.mem_frames.mpr ⟨index, by rw [onTop]; exact List.mem_cons_self ..⟩
        rw [noFrames] at member
        exact absurd member (Multiset.notMem_zero frame)
    | prepareRun =>
        intro node _ moved
        exact absurd (notes _ moved.1) (by simp [Event.isNote])
    | _ => trivial
  · cases action with
    | fire index =>
        intro frame stack onTop
        have member : frame ∈ state.load.frames :=
          RunState.mem_frames.mpr ⟨index, by rw [onTop]; exact List.mem_cons_self ..⟩
        refine ⟨?_, ?_⟩
        · rintro node rfl isSubflow
          have inRun := ledger.mem_live_of_member member
            (show 0 < List.count node (Frame.owes .called _) by simp)
          have sameType := (ledger.shape node inRun).1
          rw [live_eq_order (ledger.not_spliced sound plain)] at inRun
          rw [declared_of_mem_order sound inRun] at sameType
          exact absurd (sameType ▸ isSubflow) (plain node)
        · rintro parent rfl
          have inRun := ledger.mem_live_of_member member
            (show 0 < List.count (.exit parent) (Frame.owes .called _) by simp)
          exact absurd (spliced_of_mem_live sound inRun (.inr rfl)).1
            (ledger.not_spliced sound plain parent)
    | prepareRun => exact fun node _ moved => absurd moved.1 (ledger.not_spliced sound plain node)
    | _ => trivial

namespace RunState

/-- The callable of the node was called in this run. -/
def Executed (state : RunState threads) (node : NodeId) : Prop :=
  .executed node ∈ state.shared.log

/-- The branch returned by the latest call of a condition. -/
def result (callables : Callables) (state : RunState threads) (node : NodeId) : Int :=
  callables.result node (state.shared.calls node - 1)

/-- An edge from `source` to `target` that lets its target run. -/
def ActiveEdge (graph : TaskGraph) (callables : Callables) (state : RunState threads)
    (source target : NodeId) : Prop :=
  state.Executed source ∧ ∃ edge ∈ (graph.node source).successors, edge.target = target ∧
    ((graph.node source).type ≠ .condition ∨ edge.branch = -1 ∨
      edge.branch = state.result callables source)

end RunState

/-- What a state of a run of a plain graph has to offer. -/
theorem plain_ledger (sound : graph.Sound) (plain : ∀ node, (graph.node node).type ≠ .subflow)
    {state : RunState threads} (reachable : (graph.machine callables threads).Reachable state)
    (running : 0 < state.runs) :
    ∃ need got, Ledger graph callables need got state.load ∧
      live graph callables state.shared.log = graph.order ∧
      (∀ node ∈ graph.order, (state.shared.node node).type = (graph.node node).type ∧
        (state.shared.node node).successors = (graph.node node).successors) ∧
      Answered callables state.shared := by
  have proper := proper_of_plain sound plain reachable
  rcases balanced_of_reachable sound proper with ⟨noRun, -⟩ | ⟨-, need, got, ledger⟩
  · omega
  have whole : live graph callables state.shared.log = graph.order :=
    live_eq_order (ledger.not_spliced sound plain)
  refine ⟨need, got, ledger, whole, fun node member => ?_,
    answered_of_reachable sound proper running⟩
  obtain ⟨sameType, -, successors⟩ := ledger.shape node (whole.symm ▸ member)
  rw [declared_of_mem_order sound member] at sameType successors
  rw [if_neg fun moved => ledger.not_spliced sound plain node moved.1] at successors
  exact ⟨sameType, successors⟩

/-- At the end of a run a node was executed exactly when it has no incoming edge or an
active one. -/
theorem executed_iff_active (sound : graph.Sound)
    (plain : ∀ node, (graph.node node).type ≠ .subflow)
    {state : RunState threads} (reachable : (graph.machine callables threads).Reachable state)
    (running : 0 < state.runs) (ended : state.Ended) {node : NodeId}
    (member : node ∈ graph.order) :
    state.Executed node ↔ TaskGraph.incoming graph.node graph.order node = 0 ∨
      ∃ source ∈ graph.order, state.ActiveEdge graph callables source node := by
  obtain ⟨need, got, ledger, whole, asBuilt, answered⟩ :=
    plain_ledger sound plain reachable running
  have narrow := sound.narrow node
  have law := ledger.executed_iff ended.2 (whole.symm ▸ member : node ∈ live graph callables _)
  rw [declared_of_mem_order sound member, sound.degree, u32_of_lt (by omega)] at law
  refine law.trans (or_congr_right ?_)
  rw [show live graph callables state.load.shared.log = graph.order from whole]
  refine exists_congr fun source => and_congr_right fun isSource => and_congr_right
    fun executed => ?_
  obtain ⟨sameType, successors⟩ := asBuilt source isSource
  rw [show state.load.shared = state.shared from rfl, successors]
  refine exists_congr fun edge => and_congr_right fun _ => and_congr_right fun _ => ?_
  rw [chosenBranch, sameType]
  split
  next isCondition =>
    rw [answered source executed (sameType ▸ isCondition)]
    simp [takes, isCondition, RunState.result]
  next notCondition => simp [takes, notCondition]

/-- Two ended runs in which the executed conditions gave the same answers executed the
same nodes: along the edges, node by node. -/
theorem executed_unique (sound : graph.Sound) (acyclic : graph.Acyclic)
    (plain : ∀ node, (graph.node node).type ≠ .subflow)
    {otherThreads : Nat} {others : Callables}
    {state : RunState threads} {other : RunState otherThreads}
    (reachable : (graph.machine callables threads).Reachable state)
    (otherReachable : (graph.machine others otherThreads).Reachable other)
    (running : 0 < state.runs) (otherRunning : 0 < other.runs)
    (ended : state.Ended) (otherEnded : other.Ended)
    (agree : ∀ node ∈ graph.order, (graph.node node).type = .condition →
      state.Executed node → other.Executed node →
      state.result callables node = other.result others node) :
    ∀ node ∈ graph.order, state.Executed node ↔ other.Executed node := by
  have along := Cycleless.induction_on acyclic graph.order.toFinset
    (motive := fun node => state.Executed node ↔ other.Executed node) ?_
  · exact fun node member => along node (List.mem_toFinset.mpr member)
  intro node member before
  rw [List.mem_toFinset] at member
  rw [executed_iff_active sound plain reachable running ended member,
    executed_iff_active sound plain otherReachable otherRunning otherEnded member]
  refine or_congr_right (exists_congr fun source => and_congr_right fun isSource => ?_)
  by_cases hasEdge : ∃ edge ∈ (graph.node source).successors, edge.target = node
  · have same := before source (List.mem_toFinset.mpr isSource) hasEdge
    simp only [RunState.ActiveEdge, same]
    refine and_congr_right fun executed => exists_congr fun edge => and_congr_right fun _ =>
      and_congr_right fun _ => ?_
    by_cases isCondition : (graph.node source).type = .condition
    · rw [agree source isSource isCondition (same.mpr executed) executed]
    · simp [isCondition]
  · simp only [RunState.ActiveEdge]
    constructor
    · rintro ⟨-, edge, inEdges, isTarget, -⟩
      exact absurd ⟨edge, inEdges, isTarget⟩ hasEdge
    · rintro ⟨-, edge, inEdges, isTarget, -⟩
      exact absurd ⟨edge, inEdges, isTarget⟩ hasEdge

end Outcome

end LightFlow
