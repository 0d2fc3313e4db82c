import LightFlow.Task.Effort

/-!
# A graph runs again, or does not

After a run, `prepareRun` restores counters and states.  What `splice` moved to the exit of
a subflow stays there: a subflow node of the graph that had successors has lost them.  As
long as no run is started from there, all runs are alike.
-/

namespace LightFlow

section Rerun

variable {graph : TaskGraph} {callables : Callables} {threads : Nat}

/-! ## Steps after which the graph can run again -/

/-- The frame does not skip the exit of a joined subflow. -/
def Frame.KeepsExit (callables : Callables) : Frame → Prop
  | .skipping (.exit parent) => (callables.subflow parent).mode ≠ .joined
  | _ => True

instance (callables : Callables) : (frame : Frame) → Decidable (frame.KeepsExit callables)
  | .skipping (.exit _) => inferInstanceAs (Decidable (_ ≠ _))
  | .skipping (.node _) | .skipping (.child _ _) | .calling _ | .executing _ | .dispatching _ _
  | .joining _ | .completing _ | .unblocking _ _ _ _ | .handingOver _ _ _ _ _ | .finishing _
  | .skipped _ | .cascading _ _ | .scheduling _ | .resetting _ _ _ _
  | .resettingState _ _ _ _ _ | .rescheduling _ _ => inferInstanceAs (Decidable True)

/-- Steps that overflow no counter and strand no join, and with which no run is started
after a graph node gave its successors away. -/
def RunState.Repeatable (graph : TaskGraph) (callables : Callables) (state : RunState threads) :
    RunAction threads → Prop
  | .prepareRun => ∀ node ∈ graph.order, Moved callables state.shared.log node →
      (graph.node node).successors = []
  | .fire index => ∀ frame ∈ (state.thread index).stack.take 1,
      frame.Fits callables state.shared ∧ frame.KeepsExit callables
  | _ => True

instance (graph : TaskGraph) (callables : Callables) (state : RunState threads) :
    (action : RunAction threads) → Decidable (state.Repeatable graph callables action)
  | .prepareRun => inferInstanceAs (Decidable (∀ _ ∈ _, _ → _))
  | .fire _ => inferInstanceAs (Decidable (∀ _ ∈ _, _))
  | .dispatchRoot | .setCanInline _ _ | .take _ _ | .takeInline _ =>
      inferInstanceAs (Decidable True)

theorem RunState.Repeatable.proper (childSound : ∀ parent, (callables.subflow parent).Sound)
    {state : RunState threads} {action : RunAction threads}
    (repeatable : state.Repeatable graph callables action) :
    state.Proper graph callables action := by
  cases action with
  | fire index =>
      intro frame stack onTop
      obtain ⟨fits, keeps⟩ := repeatable frame (by simp [onTop])
      refine ⟨?_, ?_⟩
      · rintro node rfl isSubflow
        exact ⟨childSound node, fits isSubflow⟩
      · rintro parent rfl
        exact keeps
  | prepareRun => exact repeatable
  | _ => trivial

/-! ## Order -/

/-- Nodes are executed in the order of their edges and of their nesting. -/
structure Ordered (graph : TaskGraph) (callables : Callables) (log : List Event) : Prop where
  /-- Whatever has an edge to an executed node has settled and gone through its successors;
  for a node that gave its successors to its exit, the exit has. -/
  sources : ∀ target, .executed target ∈ log → ∀ source ∈ live graph callables log,
    ∀ edge ∈ (declared graph callables source).successors, edge.target = target →
      let last := if Moved callables log source then .exit source else source
      (.completed last ∈ log ∨ .skipped last ∈ log) ∧ .released last ∈ log
  /-- Children and exit are executed after their subflow node. -/
  nested : ∀ parent node, ((∃ index, node = .child parent index) ∨ node = .exit parent) →
    .executed node ∈ log → .executed parent ∈ log

theorem mem_of_passed {log : List Event} {milestone : Milestone} {node : NodeId}
    (past : 0 < passed milestone node log) :
    (milestone = .settled → .completed node ∈ log ∨ .skipped node ∈ log) ∧
      (milestone = .released → .released node ∈ log) := by
  obtain ⟨event, member, passes⟩ := List.countP_pos_iff.mp past
  constructor
  · rintro rfl
    cases event <;> simp [Event.passes] at passes <;> subst passes
    · exact .inl member
    · exact .inr member
  · rintro rfl
    cases event <;> simp [Event.passes] at passes
    exact passes ▸ member

theorem ordered_of_ledger (sound : graph.Sound) {need got : NodeId → Nat} {load : Workload}
    (ledger : Ledger graph callables need got load) (calls : Calls graph callables load) :
    Ordered graph callables load.shared.log where
  sources := by
    intro target executed source inRun edge inEdges isTarget last
    have called : 0 < passed .called target load.shared.log := by
      rw [passed_called]
      exact Nat.add_pos_left (List.count_pos_iff.mpr executed) _
    have hasEdge : 0 < edgesInto target (declared graph callables source).successors :=
      edgesInto_pos.mpr ⟨edge, inEdges, isTarget⟩
    have released : 0 < passed .released last load.shared.log := by
      by_cases moved : Moved callables load.shared.log source
      · obtain ⟨exitInRun, successors⟩ := ledger.exit_successors moved
        simp only [last, if_pos moved]
        exact ledger.source_released (ledger.need_of_called called) exitInRun
          (successors ▸ hasEdge)
      · have successors := (ledger.shape source inRun).2.2
        rw [if_neg moved] at successors
        simp only [last, if_neg moved]
        exact ledger.source_released (ledger.need_of_called called) inRun (successors ▸ hasEdge)
    exact ⟨(mem_of_passed (ledger.settled_of_released released)).1 rfl,
      (mem_of_passed released).2 rfl⟩
  nested := fun parent node made executed =>
    (calls.chronological.made_after sound ledger.count_executed_le made executed).1

/-! ## Ends -/

/-- As long as the run has not ended, somebody can carry it on. -/
theorem ended_or_carries_on (sound : graph.Sound)
    (childSound : ∀ parent, (callables.subflow parent).Sound) {state : RunState threads}
    (reachable : (graph.machine callables threads).ReachableBy
      (RunState.Proper graph callables) state) (running : 0 < state.runs)
    (someThread : 0 < threads) : state.Ended ∨
      ∃ action next, action.carriesOn = true ∧ state.step graph callables action = some next := by
  by_cases unfinished : 0 < state.shared.m_pendingTasks
  · exact .inr (exists_step_of_unfinished sound childSound reachable running someThread unfinished)
  · by_cases prepared : state.preparing = none
    · exact .inl ⟨prepared, Nat.eq_zero_of_not_pos unfinished⟩
    · obtain ⟨next, stepped⟩ : ∃ next, state.step graph callables .dispatchRoot = some next :=
        RunState.dispatchRoot_of_preparing prepared
      exact .inr ⟨.dispatchRoot, next, rfl, stepped⟩

/-- Steps of one run: each one that carries it on spends some of what is left to do. -/
theorem actions_le_effort (sound : graph.Sound)
    (childSound : ∀ parent, (callables.subflow parent).Sound) {all : Finset NodeId}
    (confined : Confined graph callables all) {actions : List (RunAction threads)}
    {state final : RunState threads}
    (reachable : (graph.machine callables threads).ReachableBy
      (RunState.Repeatable graph callables) state) (running : 0 < state.runs)
    (sameRun : .prepareRun ∉ actions)
    (performed : (graph.machine callables threads).run (RunState.Repeatable graph callables) state
      actions = some final) :
    actions.countP (·.carriesOn) + final.effort graph callables all ≤
      state.effort graph callables all := by
  induction actions generalizing state with
  | nil =>
      cases performed
      simp
  | cons action actions ih =>
      rw [List.mem_cons, not_or] at sameRun
      simp only [Machine.run] at performed
      split at performed
      next repeatable =>
        obtain ⟨next, stepped, rest⟩ := Option.bind_eq_some_iff.mp performed
        have proper := reachable.mono fun _ _ => RunState.Repeatable.proper childSound
        have sameRuns : next.runs = state.runs := by
          rcases RunState.load_step (repeatable.proper childSound).admits stepped with
            ⟨prepares, -⟩ | ⟨sameRuns, -⟩
          · exact absurd prepares.symm sameRun.1
          · exact sameRuns
        have spent := ih (.step reachable repeatable stepped) (sameRuns ▸ running) sameRun.2 rest
        rw [List.countP_cons]
        by_cases carriesOn : action.carriesOn = true
        · have less := effort_step sound confined proper running carriesOn
            (repeatable.proper childSound) stepped
          rw [if_pos carriesOn]
          omega
        · have same : next.effort graph callables all = state.effort graph callables all := by
            cases action with
            | setCanInline index canInline =>
                cases stepped
                rw [RunState.effort, RunState.load_setCanInline]
                rfl
            | prepareRun => exact absurd rfl sameRun.1
            | _ => exact absurd rfl carriesOn
          rw [if_neg carriesOn]
          omega
      next => simp at performed

/-! ## All runs are alike -/

theorem final_of_ended (sound : graph.Sound) {state : RunState threads}
    (reachable : (graph.machine callables threads).ReachableBy
      (RunState.Proper graph callables) state) (running : 0 < state.runs) (ended : state.Ended) :
    Final graph callables state.load := by
  rcases balanced_of_reachable sound reachable with ⟨noRun, -⟩ | ⟨-, balanced⟩
  · omega
  · exact
      { balanced
        calls := calls_of_reachable sound reachable running
        answered := answered_of_reachable sound reachable running
        done := ended.2 }

/-- What the theorems about repeated runs assume of a graph and its callables: no cycles, no
more edges into a node than its counter can hold, finite nesting, and callables that do the
same whenever they are called. -/
structure Steady (graph : TaskGraph) (callables : Callables) (all : Finset NodeId) : Prop where
  built : graph.Built
  acyclic : graph.Acyclic
  narrow : ∀ node, TaskGraph.incoming graph.node graph.order node ≤ 2 ^ 16
  children : ∀ parent, (callables.subflow parent).Sound
  confined : Confined graph callables all
  result : ∀ node first second, callables.result node first = callables.result node second

/-- In all runs, whatever the threads do: nodes are executed in order; a run goes on until it
has ended, with at most `effort` steps; once ended, it has executed every node as often as
any other run has, the first among them; and when it may be repeated, `prepareRun` finds the
structure the graph was built with. -/
theorem runs_again {all : Finset NodeId} (steady : Steady graph callables all)
    {state : RunState threads} (reachable : (graph.machine callables threads).ReachableBy
      (RunState.Repeatable graph callables) state) (running : 0 < state.runs) :
    Ordered graph callables state.shared.log ∧
      (0 < threads → state.Ended ∨
        ∃ action next, action.carriesOn = true ∧ state.step graph callables action = some next) ∧
      (∀ actions final, .prepareRun ∉ actions →
        (graph.machine callables threads).run (RunState.Repeatable graph callables) state actions =
          some final →
        actions.countP (·.carriesOn) ≤ state.effort graph callables all) ∧
      (state.Ended → ∀ (others : Nat) (other : RunState others),
        (graph.machine callables others).ReachableBy (RunState.Repeatable graph callables) other →
        0 < other.runs → other.Ended →
        ∀ node, state.shared.log.count (.executed node) = other.shared.log.count (.executed node)) ∧
      (state.Ended → state.Repeatable graph callables .prepareRun →
        Restored graph state.shared.node) := by
  have sound := steady.built.sound steady.acyclic steady.narrow
  have proper := reachable.mono fun _ _ => RunState.Repeatable.proper steady.children
  obtain ⟨need, got, ledger⟩ : ∃ need got, Ledger graph callables need got state.load := by
    rcases balanced_of_reachable sound proper with ⟨noRun, -⟩ | ⟨-, balanced⟩
    · omega
    · exact balanced
  refine ⟨ordered_of_ledger sound ledger (calls_of_reachable sound proper running),
    ended_or_carries_on sound steady.children proper running,
    fun actions final sameRun performed => ?_,
    fun ended others other otherReachable otherRunning otherEnded node => ?_,
    fun ended repeatable => .of_ledger sound ledger repeatable⟩
  · have := actions_le_effort sound steady.children steady.confined reachable running sameRun
      performed
    omega
  · have otherProper := otherReachable.mono fun _ _ => RunState.Repeatable.proper steady.children
    have final := final_of_ended sound proper running ended
    have otherFinal := final_of_ended sound otherProper otherRunning otherEnded
    have same := final.executed_iff sound steady.children steady.result otherFinal node
    obtain ⟨_, _, otherLedger⟩ := otherFinal.balanced
    have once := ledger.count_executed_le node
    have otherOnce := otherLedger.count_executed_le node
    rw [← List.count_pos_iff, ← List.count_pos_iff] at same
    dsimp only [RunState.load] at same once otherOnce
    omega

/-! ## A graph that runs only once -/

/-- Every subflow callable builds one static child. -/
def oneChild (mode : SubflowMode) : Callables where
  result := fun _ _ => 0
  subflow := fun _ => { chain 1 .static with mode }

/-- The nodes that `subflowThen` comes to run. -/
def subflowThenNodes : Finset NodeId :=
  {.node 0, .node 1, .child (.node 0) 0, .exit (.node 0)}

theorem subflowThen_steady (mode : SubflowMode) :
    Steady subflowThen (oneChild mode) subflowThenNodes where
  built := subflowThen_built
  acyclic := subflowThen_built.acyclic_of_increasing NodeId.index (by decide)
  narrow := fun node => (TaskGraph.incoming_le _ _ _).trans (by decide)
  children := fun _ => { chain_sound 1 .static with }
  confined :=
    { order := by decide
      members := by cases mode <;> decide }
  result := fun _ _ _ => rfl

/-- Two runs of a thread, the second one cut off where nothing is left to take. -/
def secondRun : List (RunAction 1) :=
  List.flatten
    [[.prepareRun, .dispatchRoot, .dispatchRoot], RunAction.work 0 (.node 0) 7,
      RunAction.work 0 (.child (.node 0) 0) 7, RunAction.work 0 (.exit (.node 0)) 7,
      RunAction.work 0 (.node 1) 5,
      [.prepareRun, .dispatchRoot, .dispatchRoot], RunAction.work 0 (.node 0) 7,
      RunAction.work 0 (.child (.node 0) 0) 7, RunAction.work 0 (.exit (.node 0)) 5]

/-- The subflow node gave its successor to the exit of the first run.  In the second run
nothing decrements that successor: it is never executed, and the run never ends. -/
theorem not_runs_again : Steady subflowThen (oneChild .spliced) subflowThenNodes ∧
    (∃ state : RunState 1, (subflowThen.machine (oneChild .spliced) 1).Reachable state ∧
      state.runs = 1 ∧ state.Ended ∧ .executed (.node 1) ∈ state.shared.log) ∧
    ∃ state : RunState 1, (subflowThen.machine (oneChild .spliced) 1).Reachable state ∧
      state.runs = 2 ∧ state.shared.m_pendingTasks = 1 ∧
      .executed (.node 1) ∉ state.shared.log ∧ ¬ Restored subflowThen state.shared.node ∧
      ∀ action : RunAction 1, action.carriesOn = true →
        state.step subflowThen (oneChild .spliced) action = none := by
  refine ⟨subflowThen_steady .spliced,
    Machine.ReachableBy.exists_of_run (.start rfl) (secondRun.take 33) (by decide +kernel), ?_⟩
  obtain ⟨state, reachable, again, pending, notExecuted, lost, prepared, queued, idle⟩ : ∃ state,
      (subflowThen.machine (oneChild .spliced) 1).Reachable state ∧ state.runs = 2 ∧
        state.shared.m_pendingTasks = 1 ∧ .executed (.node 1) ∉ state.shared.log ∧
        (state.shared.node (.node 0)).successors ≠ (subflowThen.node (.node 0)).successors ∧
        state.preparing = none ∧ state.queued = [] ∧
        ∀ index, (state.thread index).stack = [] ∧
          (state.thread index).t_nextInlineTask = none :=
    Machine.ReachableBy.exists_of_run (.start rfl) secondRun (by decide +kernel)
  exact ⟨state, reachable, again, pending, notExecuted,
    fun restored => lost (restored (.node 0) (by decide)).2.2,
    fun action carriesOn => stuck_of_idle prepared queued idle carriesOn⟩

/-- A joined subflow keeps its successors to itself, so its graph runs again. -/
theorem runs_again_joined : ∃ first second : RunState 1, first.runs = 1 ∧ first.Ended ∧
    second.runs = 2 ∧ second.Ended ∧ .executed (.child (.node 0) 0) ∈ first.shared.log ∧
    ∀ node, second.shared.log.count (.executed node) = first.shared.log.count (.executed node) := by
  let oneRun : List (RunAction 1) := List.flatten
    [[.prepareRun, .dispatchRoot, .dispatchRoot], RunAction.work 0 (.node 0) 4,
      RunAction.work 0 (.child (.node 0) 0) 7, RunAction.work 0 (.exit (.node 0)) 5,
      List.replicate 6 (.fire 0), RunAction.work 0 (.node 1) 5]
  obtain ⟨first, reachable, running, ended, executed⟩ : ∃ state,
      (subflowThen.machine (oneChild .joined) 1).ReachableBy
        (RunState.Repeatable subflowThen (oneChild .joined)) state ∧ state.runs = 1 ∧
        state.Ended ∧ .executed (.child (.node 0) 0) ∈ state.shared.log :=
    Machine.ReachableBy.exists_of_run (.start rfl) oneRun (by decide +kernel)
  obtain ⟨second, againReachable, again, againEnded⟩ : ∃ state,
      (subflowThen.machine (oneChild .joined) 1).ReachableBy
        (RunState.Repeatable subflowThen (oneChild .joined)) state ∧ state.runs = 2 ∧
        state.Ended :=
    Machine.ReachableBy.exists_of_run (.start rfl) (List.flatten [oneRun, oneRun])
      (by decide +kernel)
  exact ⟨first, second, running, ended, again, againEnded, executed,
    (runs_again (subflowThen_steady .joined) againReachable (by omega)).2.2.2.1 againEnded 1 first
      reachable (by omega) ended⟩

end Rerun

end LightFlow
