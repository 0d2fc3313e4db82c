import LightFlow.Task.LedgerSplice

/-!
# Every reachable state is balanced

Runs of any number of threads keep the ledger from one run to the next: `prepareRun`
opens it, every step keeps it, and when `m_pendingTasks` is back at zero nothing is left
that could disturb the following run.
-/

namespace LightFlow

section Balance

variable {graph : TaskGraph} {callables : Callables} {need got : NodeId → Nat}

/-- What a firing frame may rely on: a splice adds a sound child graph and finds room in
`m_pendingTasks`, and the exit of a joined subflow is not skipped. -/
structure Admits (callables : Callables) (shared : Shared) (frame : Frame) : Prop where
  splices : ∀ node, frame = .calling node → (shared.node node).type = .subflow →
    (callables.subflow node).Sound ∧
      shared.m_pendingTasks + (callables.subflow node).nodes.length + 1 < 2 ^ 32
  skips : ∀ parent, frame = .skipping (.exit parent) → (callables.subflow parent).mode ≠ .joined

theorem Ledger.start {shared : Shared} {node : NodeId} {ready : Multiset NodeId}
    {frames : Multiset Frame}
    (ledger : Ledger graph callables need got ⟨shared, node ::ₘ ready, frames⟩) :
    Ledger graph callables need got ⟨shared, ready, .executing node ::ₘ frames⟩ :=
  { ledger with
    passage := fun milestone query => by
      have before := ledger.passage milestone query
      by_cases same : query = node
      · subst same
        simp [Workload.awaiting] at before ⊢
        omega
      · simpa [Workload.awaiting, same, Ne.symm same] using before
    edges := by simpa using ledger.edges
    active := by simpa using ledger.active
    willRun := fun query some => by
      refine ledger.willRun query ?_
      by_cases same : query = node
      · subst same
        simp
      · simpa [same, Ne.symm same] using some
    willSkip := fun query some => ledger.willSkip query (by simpa using some)
    forward := fun frame member => by
      rcases Multiset.mem_cons.mp member with rfl | isOld
      · simp [Frame.Forward]
      · exact ledger.forward frame isOld
    within := fun frame member => by
      rcases Multiset.mem_cons.mp member with rfl | isOld
      · simp
      · exact ledger.within frame isOld }

/-- Events that note what the scheduler was told leave the ledger as it is. -/
theorem Ledger.note {load : Workload} (ledger : Ledger graph callables need got load)
    {event : Event} (isNote : event.isNote) :
    Ledger graph callables need got { load with shared := load.shared.record event } := by
  have sameLive : live graph callables (event :: load.shared.log) =
      live graph callables load.shared.log := by
    cases event <;> simp_all [Event.isNote, live]
  have samePassed (milestone : Milestone) (node : NodeId) :
      passed milestone node (event :: load.shared.log) =
        passed milestone node load.shared.log := by
    cases event <;> simp_all [Event.isNote, Event.passes]
  have sameRemaining (milestone : Milestone) (weight : NodeId → Nat) :
      remaining graph callables milestone (event :: load.shared.log) weight =
        remaining graph callables milestone load.shared.log weight := by
    simp only [remaining, sameLive, samePassed]
  have absent {other : Event} (real : other.isNote = false) : other ≠ event := by
    rintro rfl
    simp [isNote] at real
  have sameCount (other : Event) (real : other.isNote = false) :
      (event :: load.shared.log).count other = load.shared.log.count other :=
    List.count_cons_of_ne (absent real).symm
  have sameMember (other : Event) (real : other.isNote = false) :
      other ∈ event :: load.shared.log ↔ other ∈ load.shared.log := by
    simp [absent real]
  constructor
  case distinct => simpa only [Shared.record_log, sameLive] using ledger.distinct
  case passage =>
    simpa only [Workload.awaiting, Shared.record_log, sameLive, samePassed] using ledger.passage
  case edges => simpa only [Shared.record_log, Shared.record_node, sameRemaining] using ledger.edges
  case active =>
    have sameActive (target : NodeId) :
        completedActive graph callables (load.shared.record event) target =
          completedActive graph callables load.shared target := by
      simp only [completedActive, Shared.record_log, Shared.record_node, sameLive,
        sameCount (.completed _) rfl]
    simpa only [sameActive] using ledger.active
  case packed => simpa only [Shared.record_log, Shared.record_node, sameLive] using ledger.packed
  case fits => exact ledger.fits
  case free => simpa only [Shared.record_log, sameLive] using ledger.free
  case willRun =>
    simpa only [Shared.record_log, sameCount (.executed _) rfl] using ledger.willRun
  case willSkip =>
    simpa only [Shared.record_log, sameCount (.skipped _) rfl] using ledger.willSkip
  case status =>
    simpa only [Shared.record_log, Shared.record_node, sameMember (.completed _) rfl,
      sameMember (.skipped _) rfl] using ledger.status
  case shape =>
    intro node member
    have sameMoved : Moved callables (event :: load.shared.log) node ↔
        Moved callables load.shared.log node := by
      simp only [Moved, sameMember (.spliced _) rfl]
    rw [Shared.record_log, sameLive] at member
    obtain ⟨sameType, degree, successors⟩ := ledger.shape node member
    refine ⟨sameType, degree, ?_⟩
    rw [Shared.record_node, successors]
    exact if_congr sameMoved.symm rfl rfl
  case targets => simpa only [Shared.record_log, sameLive] using ledger.targets
  case forward => exact ledger.forward
  case within =>
    simpa only [Shared.record_log, sameMember (.spliced _) rfl] using ledger.within
  case pending => 
    simpa only [Shared.record_log, Shared.record_pending, sameRemaining] using ledger.pending
  case splices =>
    simpa only [Shared.record_log, sameMember (.spliced _) rfl,
      sameMember (.executed _) rfl] using ledger.splices

/-- Every step of the workload keeps the ledger. -/
theorem Ledger.step {load next : Workload} (sound : graph.Sound)
    (ledger : Ledger graph callables need got load)
    (stepped : Workload.Step callables (Admits callables) load next) :
    ∃ need' got', Ledger graph callables need' got' next := by
  cases stepped with
  | start => exact ⟨_, _, ledger.start⟩
  | note isNote => exact ⟨_, _, ledger.note isNote⟩
  | @fire shared ready frame rest inlineFree effect admitted fired =>
      by_cases splices : ∃ node, frame = .calling node ∧ ¬ CallsNoSplice callables shared node
      · obtain ⟨node, rfl, splices⟩ := splices
        simp only [CallsNoSplice, Classical.not_imp] at splices
        obtain ⟨childSound, room⟩ := admitted.splices node rfl splices.1
        have nonempty : (callables.subflow node).nodes ≠ [] := by
          intro empty
          simp [empty, u32] at splices
        cases fired
        exact ⟨_, _, ledger.splice sound splices.1 childSound nonempty room⟩
      · push Not at splices
        exact ledger.fire sound splices fired

/-! ## The end of a run -/

/-- `m_pendingTasks` is zero only when every node of the run is finished. -/
theorem Ledger.passed_finished {load : Workload} (ledger : Ledger graph callables need got load)
    (done : load.shared.m_pendingTasks = 0) {node : NodeId}
    (inRun : node ∈ live graph callables load.shared.log) :
    passed .finished node load.shared.log = 1 := by
  have none := ledger.pending
  rw [done, eq_comm, remaining] at none
  have zero := (List.sum_eq_zero_iff.mp none) _ (List.mem_map_of_mem inRun)
  have law := ledger.passage .finished node
  have single := ledger.count_live_le node
  have past : passed .finished node load.shared.log ≠ 0 := fun unfinished => by
    simp [unfinished] at zero
  omega

theorem Ledger.quiet_of_done {load : Workload} (ledger : Ledger graph callables need got load)
    (done : load.shared.m_pendingTasks = 0) (node : NodeId) :
    need node = 0 ∧ load.awaiting .finished node = 0 := by
  by_cases inRun : node ∈ live graph callables load.shared.log
  · have law := ledger.passage .finished node
    have single := ledger.count_live_le node
    rw [ledger.passed_finished done inRun] at law
    exact ⟨waiting_eq_zero.mp (by omega), by omega⟩
  · obtain ⟨none, -, nobody⟩ := ledger.outside inRun
    exact ⟨none, (nobody .finished).1⟩

/-- At the end of a run no node waits to be executed, and no call is left. -/
theorem Ledger.empty_of_done {load : Workload} (ledger : Ledger graph callables need got load)
    (done : load.shared.m_pendingTasks = 0) : load.ready = 0 ∧ load.frames = 0 := by
  have quiet := ledger.quiet_of_done done
  constructor
  · refine Multiset.eq_zero_of_forall_notMem fun node member => ?_
    have nobody := (quiet node).2
    have some := Multiset.count_pos.mpr member
    rw [Workload.awaiting] at nobody
    omega
  · refine Multiset.eq_zero_of_forall_notMem fun frame member => ?_
    have owesNone (node : NodeId) : (frame.owes .finished).count node = 0 := by
      have nobody := (quiet node).2
      have part := Multiset.single_le_sum (fun _ _ => Nat.zero_le _) _
        (Multiset.mem_map_of_mem (fun frame : Frame => (frame.owes .finished).count node) member)
      rw [Workload.awaiting] at nobody
      omega
    have forward := ledger.forward frame member
    cases frame with
    | cascading node todo =>
        obtain ⟨edge, rest, isTodo⟩ := List.exists_cons_of_ne_nil forward.1
        obtain ⟨others, split⟩ := Multiset.exists_cons_of_mem member
        obtain ⟨shared, ready, frames⟩ := load
        dsimp only at split
        subst split
        have waits := (ledger.target_waits (show 0 < edgesInto edge.target
          (Frame.cascading node todo).todo by simp [isTodo])).1
        have none := (quiet edge.target).1
        omega
    | resetting node target todo cycleCount => exact forward
    | resettingState node target curr todo cycleCount => exact forward
    | rescheduling node target => exact forward
    | dispatching node roots =>
        have none := owesNone node
        simp at none
    | handingOver node branch succ todo unblockedCount =>
        have none := owesNone node
        simp at none
    | executing node | calling node | joining node | completing node | finishing node
    | skipping node | skipped node | scheduling node =>
        have none := owesNone node
        simp at none
    | unblocking node branch todo unblockedCount =>
        have none := owesNone node
        simp at none

/-! ## The start of a run -/

/-- The graph nodes have the type, the in-degree and the successors they were built with. -/
def Restored (graph : TaskGraph) (store : NodeStore) : Prop :=
  ∀ node ∈ graph.order, (store node).type = (graph.node node).type ∧
    (store node).initialInDegree = (graph.node node).initialInDegree ∧
    (store node).successors = (graph.node node).successors

theorem declared_of_mem_order (sound : graph.Sound) {node : NodeId}
    (member : node ∈ graph.order) : declared graph callables node = graph.node node := by
  obtain ⟨id, rfl⟩ := sound.named node member
  rfl

theorem resetNodes_of_mem {order : List NodeId} {store : NodeStore} {node : NodeId}
    (member : node ∈ order) : RunState.resetNodes order store node =
      { store node with inDegree := (store node).initialInDegree, state := .pending } :=
  if_pos member

theorem mem_live_of_mem_order {node : NodeId} (inOrder : node ∈ graph.order) (log : List Event) :
    node ∈ live graph callables log := by
  induction log with
  | nil => exact inOrder
  | cons event log ih =>
      cases event with
      | spliced => exact List.mem_append_right _ ih
      | _ => exact ih

variable {threads : Nat}

/-- `prepareRun` opens the ledger. -/
theorem Ledger.prepare (sound : graph.Sound) {state : RunState threads}
    (restored : Restored graph state.shared.node)
    (empty : state.load.ready = 0 ∧ state.load.frames = 0) :
    Ledger graph callables (TaskGraph.incoming graph.node graph.order) (fun _ => 0)
      (state.prepareRun graph).load := by
  have frames : (state.prepareRun graph).load.frames = 0 := empty.2
  have ready : (state.prepareRun graph).load.ready =
      ↑(RunState.roots graph.order state.shared.node) := by
    have parts : (↑state.queued : Multiset NodeId) = 0 ∧ RunState.slots state.thread = 0 := by
      have none := empty.1
      simp only [RunState.load, add_eq_zero] at none
      exact ⟨none.1.1, none.2⟩
    have roots : (state.prepareRun graph).unscheduled =
        RunState.roots graph.order state.shared.node := by
      simp only [RunState.unscheduled, RunState.prepareRun]
      split_ifs with noNodes
      · rw [sound.count, List.length_eq_zero_iff] at noNodes
        simp [RunState.roots, noNodes]
      · rfl
    change ↑state.queued + ↑(state.prepareRun graph).unscheduled + RunState.slots state.thread = _
    rw [roots, parts.1, parts.2, zero_add, add_zero]
  have log : (state.prepareRun graph).load.shared.log = [] := rfl
  have nodes : live graph callables (state.prepareRun graph).load.shared.log = graph.order := rfl
  have store : (state.prepareRun graph).load.shared.node =
      RunState.resetNodes graph.order state.shared.node := rfl
  have pending : (state.prepareRun graph).load.shared.m_pendingTasks = graph.m_nodeCount := rfl
  generalize (state.prepareRun graph).load = load at *
  have isRoot (node : NodeId) : node ∈ RunState.roots graph.order state.shared.node ↔
      node ∈ graph.order ∧ TaskGraph.incoming graph.node graph.order node = 0 := by
    simp only [RunState.roots, List.mem_filter, decide_eq_true_eq]
    refine and_congr_right fun member => ?_
    have narrow := sound.narrow node
    rw [(restored node member).2.1, sound.degree, u32_of_lt (by omega)]
  have noEdges {node : NodeId} (outside : node ∉ graph.order) :
      TaskGraph.incoming graph.node graph.order node = 0 := by
    refine Counting.sum_map_eq_zero fun source member => ?_
    rw [edgesInto, List.countP_eq_zero]
    intro edge inEdges isTarget
    simp only [decide_eq_true_eq] at isTarget
    exact outside (isTarget ▸ sound.targets source member edge inEdges)
  constructor
  case distinct => exact nodes ▸ sound.distinct
  case passage =>
    intro milestone node
    simp only [Workload.awaiting, ready, frames, log, Multiset.coe_count, Multiset.map_zero,
      Multiset.sum_zero, passed_nil, live, Nat.add_zero]
    by_cases member : node ∈ graph.order
    · rw [List.count_eq_one_of_mem sound.distinct member]
      by_cases free : TaskGraph.incoming graph.node graph.order node = 0
      · have distinct : (RunState.roots graph.order state.shared.node).Nodup :=
          sound.distinct.filter _
        rw [free, List.count_eq_one_of_mem distinct ((isRoot node).mpr ⟨member, free⟩)]
        rfl
      · rw [List.count_eq_zero_of_not_mem fun root => free ((isRoot node).mp root).2,
          waiting_of_pos (Nat.pos_of_ne_zero free)]
    · rw [noEdges member, List.count_eq_zero_of_not_mem member,
        List.count_eq_zero_of_not_mem fun root => member ((isRoot node).mp root).1]
      rfl
  case edges =>
    intro target
    simp only [frames, log, store, remaining, live, passed_nil, ↓reduceIte, Multiset.map_zero,
      Multiset.sum_zero, Nat.add_zero]
    refine Counting.sum_map_congr fun source member => ?_
    rw [resetNodes_of_mem member, (restored source member).2.2]
  case active =>
    intro target
    simp [frames, completedActive, log]
  case packed =>
    intro node member
    rw [nodes] at member
    have narrow := sound.narrow node
    rw [store, resetNodes_of_mem member]
    simp only [(restored node member).2.1, sound.degree, Packed, Nat.mul_zero, Nat.add_zero]
  case fits => exact fun node => sound.narrow node
  case free =>
    intro node member isFree
    rw [nodes] at member
    have narrow := sound.narrow node
    rwa [declared_of_mem_order sound member, sound.degree, u32_of_lt (by omega)] at isFree
  case willRun =>
    intro node some
    simp only [ready, frames, log, Multiset.coe_count, Multiset.map_zero, Multiset.sum_zero,
      List.count_nil, Nat.add_zero] at some
    obtain ⟨member, free⟩ := (isRoot node).mp (List.count_pos_iff.mp some)
    refine .inl ?_
    rw [declared_of_mem_order sound member, sound.degree, free]
    rfl
  case willSkip => simp [frames, log]
  case status => simp [log]
  case shape =>
    intro node member
    rw [nodes] at member
    rw [store, resetNodes_of_mem member, declared_of_mem_order sound member,
      if_neg (by simp [Moved, log])]
    exact restored node member
  case targets =>
    intro node member edge inEdges
    rw [nodes] at member ⊢
    rw [declared_of_mem_order sound member] at inEdges
    exact sound.targets node member edge inEdges
  case forward => simp [frames]
  case within => simp [frames]
  case pending => simp [pending, log, remaining, live, sound.count]
  case splices => simp [log]

/-! ## All runs -/

/-- Steps that do not reach a defect of the library: splices are of sound child graphs and
fit `m_pendingTasks`, no joined subflow's exit is skipped, and no run starts while a graph
node has lost its successors. -/
def RunState.Proper (graph : TaskGraph) (callables : Callables) (state : RunState threads) :
    RunAction threads → Prop
  | .fire index => ∀ frame stack, (state.thread index).stack = frame :: stack →
      Admits callables state.shared frame
  | .prepareRun => ∀ node ∈ graph.order, Moved callables state.shared.log node →
      (graph.node node).successors = []
  | _ => True

/-- Before the first run the graph is as built, from then on there is a ledger. -/
def Balanced (graph : TaskGraph) (callables : Callables) (state : RunState threads) : Prop :=
  (state.runs = 0 ∧ state.shared.node = graph.node ∧ (∀ event ∈ state.shared.log, event.isNote) ∧
    state.load.ready = 0 ∧ state.load.frames = 0) ∨
  (0 < state.runs ∧ ∃ need got, Ledger graph callables need got state.load)

theorem Restored.of_ledger (sound : graph.Sound) {load : Workload}
    (ledger : Ledger graph callables need got load)
    (unmoved : ∀ node ∈ graph.order, Moved callables load.shared.log node →
      (graph.node node).successors = []) : Restored graph load.shared.node := by
  intro node member
  have inRun : node ∈ live graph callables load.shared.log := mem_live_of_mem_order member _
  obtain ⟨sameType, degree, successors⟩ := ledger.shape node inRun
  rw [declared_of_mem_order sound member] at sameType degree successors
  refine ⟨sameType, degree, ?_⟩
  rw [successors]
  split
  next moved => exact (unmoved node member moved).symm
  next => rfl

/-- Without anything to do, a workload can only take notes. -/
theorem Workload.steps_of_empty {allowed : Shared → Frame → Prop} {load next : Workload}
    (empty : load.ready = 0 ∧ load.frames = 0)
    (steps : Relation.ReflTransGen (Workload.Step callables allowed) load next) :
    next.shared.node = load.shared.node ∧
      (∀ event ∈ next.shared.log, event ∈ load.shared.log ∨ event.isNote) ∧
      next.ready = 0 ∧ next.frames = 0 := by
  induction steps with
  | refl => exact ⟨rfl, fun _ => .inl, empty⟩
  | tail _ last ih =>
      cases last with
      | fire => exact absurd ih.2.2.2 Multiset.cons_ne_zero
      | start => exact absurd ih.2.2.1 Multiset.cons_ne_zero
      | note isNote =>
          refine ⟨ih.1, fun event member => ?_, ih.2.2⟩
          rcases List.mem_cons.mp member with rfl | before
          · exact .inr isNote
          · exact ih.2.1 event before

theorem Ledger.steps {load next : Workload} (sound : graph.Sound)
    (balanced : ∃ need got, Ledger graph callables need got load)
    (steps : Relation.ReflTransGen (Workload.Step callables (Admits callables)) load next) :
    ∃ need got, Ledger graph callables need got next := by
  induction steps with
  | refl => exact balanced
  | tail _ last ih =>
      obtain ⟨need, got, ledger⟩ := ih
      exact ledger.step sound last

theorem RunState.Proper.admits {state : RunState threads} {action : RunAction threads}
    (proper : state.Proper graph callables action) :
    ∀ index frame stack, action = .fire index → (state.thread index).stack = frame :: stack →
      Admits callables state.shared frame := by
  rintro index frame stack rfl onTop
  exact proper frame stack onTop

/-- Every state that proper steps reach is balanced. -/
theorem balanced_of_reachable (sound : graph.Sound) {state : RunState threads}
    (reachable : (graph.machine callables threads).ReachableBy
      (RunState.Proper graph callables) state) : Balanced graph callables state := by
  refine reachable.invariant ?_ ?_
  · rintro state rfl
    refine .inl ⟨rfl, rfl, by simp [TaskGraph.initialState], ?_, ?_⟩
    · simp [RunState.load, TaskGraph.initialState, RunState.unscheduled, RunState.slots]
    · simp [RunState.load, TaskGraph.initialState, RunState.calls]
  · intro state action next balanced proper stepped
    rcases RunState.load_step proper.admits stepped with
      ⟨rfl, ended, rfl⟩ | ⟨sameRuns, steps⟩
    · refine .inr ⟨Nat.succ_pos _, _, _, Ledger.prepare sound ?_ ?_⟩
      · rcases balanced with ⟨-, asBuilt, -, -⟩ | ⟨-, need, got, ledger⟩
        · rw [asBuilt]
          exact fun node _ => ⟨rfl, rfl, rfl⟩
        · exact .of_ledger sound ledger proper
      · rcases balanced with ⟨-, -, -, empty⟩ | ⟨-, need, got, ledger⟩
        · exact empty
        · exact ledger.empty_of_done ended.2
    · rcases balanced with ⟨noRun, asBuilt, notes, empty⟩ | ⟨someRun, balanced⟩
      · obtain ⟨sameNodes, older, stillEmpty⟩ := Workload.steps_of_empty empty steps
        exact .inl ⟨sameRuns ▸ noRun, sameNodes.trans asBuilt,
          fun event member => (older event member).elim (notes event) id, stillEmpty⟩
      · exact .inr ⟨sameRuns ▸ someRun, Ledger.steps sound balanced steps⟩

/-- A property of workloads that holds when a run starts, and that every step keeps while
there is a ledger, holds in every state of every run. -/
theorem ledger_invariant (sound : graph.Sound) {motive : Workload → Prop}
    (prepared : ∀ load : Workload, load.shared.log = [] → load.frames = 0 → motive load)
    (kept : ∀ need got load next, Ledger graph callables need got load → motive load →
      Workload.Step callables (Admits callables) load next → motive next)
    {state : RunState threads} (reachable : (graph.machine callables threads).ReachableBy
      (RunState.Proper graph callables) state) (running : 0 < state.runs) :
    motive state.load := by
  refine reachable.invariant_of_reachable
    (motive := fun state => 0 < state.runs → motive state.load) ?_ ?_ running
  · rintro state rfl noRun
    exact absurd noRun (Nat.lt_irrefl 0)
  · intro state action next before holds proper stepped running
    have balanced := balanced_of_reachable sound before
    rcases RunState.load_step proper.admits stepped with ⟨rfl, ended, rfl⟩ | ⟨sameRuns, steps⟩
    · refine prepared _ rfl ?_
      rcases balanced with ⟨-, -, -, empty⟩ | ⟨-, need, got, ledger⟩
      · exact empty.2
      · exact (ledger.empty_of_done ended.2).2
    · rcases balanced with ⟨noRun, -⟩ | ⟨someRun, balanced⟩
      · omega
      · have both : (∃ need got, Ledger graph callables need got next.load) ∧ motive next.load := by
          have start := holds someRun
          generalize next.load = after at steps
          induction steps with
          | refl => exact ⟨balanced, start⟩
          | tail _ last ih =>
              obtain ⟨⟨need, got, ledger⟩, holds⟩ := ih
              exact ⟨ledger.step sound last, kept need got _ _ ledger holds last⟩
        exact both.2

end Balance

end LightFlow
