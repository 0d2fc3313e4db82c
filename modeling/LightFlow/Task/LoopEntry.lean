import LightFlow.Task.NestedLoops

/-!
# Loops with dependencies from outside

Taking a loop-back edge makes the nodes of the loop wait for all of their predecessors
again.  Those outside of the loop have finished and do not come round: unless they precede
its target only, which is scheduled without waiting, the run hangs.
-/

namespace LightFlow

variable {graph : TaskGraph} {callables : Callables} {threads : Nat}

namespace TaskGraph

/-- Cycles are closed by loop-back edges of conditions only. -/
structure ConditionLoops (graph : TaskGraph) : Prop where
  built : graph.Built
  plain : ∀ node, (graph.node node).type ≠ .subflow
  acyclic : Cycleless graph.Forward
  conditions : ∀ source target, graph.LoopEdge source target →
    (graph.node source).type = .condition

/-- What the loop of the loop-back edge waits for after its target is in the loop itself. -/
def Reenterable (graph : TaskGraph) (source target : NodeId) : Prop :=
  target = source ∨ graph.Contained source target ∧ graph.EnteredAtTarget source target

namespace ConditionLoops

theorem looped (loops : graph.ConditionLoops)
    (narrow : ∀ node, incoming graph.node graph.order node ≤ 65535) : graph.Looped :=
  loops.built.looped loops.plain loops.acyclic
    (fun node edge member isLoop => loops.conditions node _ ⟨edge, member, isLoop, rfl⟩) narrow

theorem rearmed (loops : graph.ConditionLoops) : graph.Rearmed graph.Reenterable := by
  rintro source target (rfl | ⟨contained, -⟩)
  · exact ⟨collects_self loops.acyclic, leftAtSource_self loops.acyclic⟩
  · exact ⟨contained.collects loops.acyclic, contained.left⟩

theorem rule (loops : graph.ConditionLoops) : Tally.Rule graph callables graph.Reenterable
    fun tally _ => ∀ node, tally.extra node = 0 := by
  refine .noExtra ?_
  rintro source target (rfl | ⟨-, entered⟩)
  · exact enteredAtTarget_self loops.acyclic
  · exact entered

end ConditionLoops

end TaskGraph

/-- When a loop-back edge is being taken every activation of its loop has been executed or
skipped. -/
theorem Looping.resolved_of_resetting {allowed : NodeId → NodeId → Prop} {tally : Tally}
    {state : RunState threads} (looping : Looping graph callables allowed tally state.load)
    (looped : graph.Looped) {source target : NodeId} {todo : List NodeId} {cycleCount : Nat}
    (resets : .resetting source target todo cycleCount ∈ state.load.frames) {node : NodeId}
    (inBody : graph.Body source target node) :
    state.resolved node = state.activations graph callables node := by
  obtain ⟨rest, split⟩ := Multiset.exists_cons_of_mem resets
  have load : state.load = ⟨state.shared, state.load.ready,
      .resetting source target todo cycleCount ::ₘ rest⟩ := by
    rw [← split]
    rfl
  have account := looping.account
  rw [looping.activations_eq]
  rw [load] at account
  have free := account.free_of_rearms looped looping.own rfl inBody
  have inOrder : node ∈ graph.order := by
    have carried := account.of_carried (show 0 < List.count source _ by simp) looped.distinct
    obtain same | ⟨next, ⟨edge, member, -⟩, -⟩ := Relation.ReflTransGen.cases_head inBody.2
    · exact same ▸ carried.1
    · by_contra stray
      rw [looped.strays node stray] at member
      simp at member
  have passage := account.passage node
  have called := account.called node
  have single := List.count_eq_one_of_mem looped.distinct inOrder
  have uncalled := Workload.uncalled_le_carried ⟨state.shared, state.load.ready, rest⟩ node
  rw [passed_called] at called
  rw [amount_cons] at passage called
  simp only [Quantity.ofFrame, Frame.carries, Frame.uncalled, List.count_nil, Nat.zero_add,
    List.count_singleton, beq_iff_eq, free, waiting_zero, single] at passage called
  by_cases isSource : source = node
  · subst isSource
    rw [if_pos rfl] at passage
    rw [RunState.resolved]
    omega
  · have path : Relation.TransGen graph.Forward node source :=
      (Relation.reflTransGen_iff_eq_or_transGen.mp inBody.2).resolve_left isSource
    have needs : tally.need source = 0 :=
      account.free_of_rearms looped looping.own rfl ⟨inBody.1.trans inBody.2, .refl⟩
    have closed := (account.closed_before looped looping.own needs path).1
    rw [if_neg isSource] at passage
    rw [RunState.resolved]
    omega

/-- In every run in which the loops of the loop-back edges taken wait for nothing outside
after their targets: whenever a loop-back edge is taken its loop has been resolved anew, at
the end every node has been resolved once more for every time it was made pending again,
and until then something is queued, staged, executing or cascading. -/
theorem loop_entry (loops : graph.ConditionLoops)
    (narrow : ∀ node, TaskGraph.incoming graph.node graph.order node ≤ 65535)
    {state : RunState threads}
    (reachable : (graph.machine callables threads).ReachableBy
      (RunState.Guarded graph.Reenterable) state) (running : 0 < state.runs) :
    (∀ index source target todo cycleCount,
      .resetting source target todo cycleCount ∈ (state.thread index).stack →
        ∀ node, graph.Body source target node →
          state.resolved node = state.activations graph callables node) ∧
      (∀ node ∈ graph.order, state.resolved node ≤ state.activations graph callables node ∧
        (state.outstanding graph callables = 0 →
          state.resolved node = 1 + graph.revivals callables state.shared node)) ∧
      state.shared.m_pendingTasks = u32 (state.outstanding graph callables) ∧
      (0 < state.shared.m_pendingTasks → ∃ node, state.Holds node) ∧
      (0 < threads → state.Ended ∨
        ∃ action next, action.carriesOn = true ∧
          state.step graph callables action = some next) := by
  have looped := loops.looped narrow
  obtain ⟨tally, looping, kept⟩ : ∃ tally,
      Looping graph callables graph.Reenterable tally state.load ∧
        ∀ node, tally.extra node = 0 := by
    rcases looping_of_reachable looped loops.rearmed loops.rule reachable with
      ⟨noRun, -⟩ | ⟨-, looping⟩
    · omega
    · exact looping
  refine ⟨fun index source target todo cycleCount resets node inBody => ?_,
    fun node member => ⟨?_, fun done => looping.resolved_of_done looped done member⟩,
    looping.pending_eq looped, fun unfinished => ?_, looping.carries_on looped kept⟩
  · exact looping.resolved_of_resetting looped (RunState.mem_frames.mpr ⟨index, resets⟩) inBody
  · have called := looping.account.called node
    have same : state.load.shared = state.shared := rfl
    rw [passed_called, List.count_eq_one_of_mem looped.distinct member, same] at called
    rw [looping.activations_eq, RunState.resolved]
    omega
  · exact RunState.holds_iff.mpr (looping.exists_work looped kept unfinished)

/-! ## A loop that waits for a task before it -/

/-- Two tasks before the first condition of a loop, one of them its target. -/
def enteredLater : TaskGraph :=
  let nodes := (((({} : TaskGraph).emplace .static .worker).emplace .static .worker).emplace
    .static .worker).emplace .condition .worker |>.emplace .static .worker
  let body := ((nodes.addEdge (.node 0) (.node 2)).addEdge (.node 1) (.node 2)).addEdge
    (.node 2) (.node 3)
  (body.addEdge (.node 3) (.node 1) 0).addEdge (.node 3) (.node 4) 1

theorem enteredLater_built : enteredLater.Built := by
  refine .addEdge 1 (.addEdge 0 (.addEdge (-1) (.addEdge (-1) (.addEdge (-1)
    (.emplace _ _ (.emplace _ _ (.emplace _ _ (.emplace _ _ (.emplace _ _ .empty ?_) ?_) ?_) ?_) ?_)
      ?_ ?_) ?_ ?_) ?_ ?_) ?_ ?_) ?_ ?_
  all_goals decide

theorem enteredLater_loopEdge {source target : NodeId}
    (isEdge : enteredLater.LoopEdge source target) : source = .node 3 ∧ target = .node 1 := by
  obtain ⟨edge, member, isLoop, rfl⟩ := isEdge
  have oneLoop : ∀ source ∈ enteredLater.order, ∀ edge ∈ (enteredLater.node source).successors,
      edge.isLoopBack = true → source = .node 3 ∧ edge.target = .node 1 := by decide
  exact oneLoop source (enteredLater_built.source_mem member) edge member isLoop

theorem enteredLater_loops : enteredLater.ConditionLoops where
  built := enteredLater_built
  plain := enteredLater_built.not_subflow (by decide)
  acyclic := Cycleless.of_increasing fun source target related => by
    obtain ⟨edge, member, forward, rfl⟩ := related
    have increases : ∀ source ∈ enteredLater.order, ∀ edge ∈ (enteredLater.node source).successors,
        edge.isLoopBack = false → source.index < edge.target.index := by decide
    exact increases source (enteredLater_built.source_mem member) edge member forward
  conditions := fun source target isEdge => by
    rw [(enteredLater_loopEdge isEdge).1]
    rfl

/-- The condition goes back once; then the target of the loop is executed. -/
def enteredLaterRun : List (RunAction 1) :=
  List.flatten
    [[.prepareRun, .dispatchRoot, .dispatchRoot, .dispatchRoot], RunAction.work 0 (.node 0) 6,
      RunAction.work 0 (.node 1) 7, RunAction.work 0 (.node 2) 7, RunAction.work 0 (.node 3) 11,
      RunAction.work 0 (.node 1) 6]

/-- After the loop-back edge was taken `.node 2` waits for `.node 0` again, which has
finished: it is not executed another time, and the run hangs. -/
theorem not_loop_entry : enteredLater.ConditionLoops ∧
    (∀ node, TaskGraph.incoming enteredLater.node enteredLater.order node ≤ 65535) ∧
    (∀ source target, enteredLater.LoopEdge source target →
      source = .node 3 ∧ target = .node 1) ∧
    ∃ state : RunState 1, (enteredLater.machine (backOnce (.node 3)) 1).Reachable state ∧
      state.runs = 1 ∧ state.shared.m_pendingTasks = 3 ∧
      state.shared.log.count (.executed (.node 1)) = 2 ∧
      state.resolved (.node 2) = 1 ∧ (∀ node, ¬ state.Holds node) ∧
      ∀ action : RunAction 1, action.carriesOn = true →
        state.step enteredLater (backOnce (.node 3)) action = none := by
  refine ⟨enteredLater_loops, fun node => (TaskGraph.incoming_le _ _ _).trans (by decide),
    fun source target => enteredLater_loopEdge, ?_⟩
  obtain ⟨state, reachable, once, pending, again, notAgain, prepared, queued, idle⟩ :
      ∃ state, (enteredLater.machine (backOnce (.node 3)) 1).Reachable state ∧ state.runs = 1 ∧
        state.shared.m_pendingTasks = 3 ∧ state.shared.log.count (.executed (.node 1)) = 2 ∧
        state.resolved (.node 2) = 1 ∧ state.preparing = none ∧ state.queued = [] ∧
        ∀ index, (state.thread index).stack = [] ∧
          (state.thread index).t_nextInlineTask = none :=
    Machine.ReachableBy.exists_of_run (.start rfl) enteredLaterRun (by decide +kernel)
  refine ⟨state, reachable, once, pending, again, notAgain, fun node holds => ?_,
    fun action carriesOn => stuck_of_idle prepared queued idle carriesOn⟩
  obtain inQueue | unscheduled | ⟨index, staged⟩ | ⟨index, frame, member, -⟩ := holds
  · simp [queued] at inQueue
  · simp [RunState.unscheduled, prepared] at unscheduled
  · simp [(idle index).2] at staged
  · simp [(idle index).1] at member

theorem loop_entry_twice : ∃ state : RunState 1,
    (twoNodeLoop.machine twice 1).ReachableBy (RunState.Guarded twoNodeLoop.Reenterable) state ∧
      0 < state.runs ∧ state.shared.m_pendingTasks = 1 ∧ ∃ node, state.Holds node := by
  obtain ⟨state, reachable, running, pending⟩ : ∃ state : RunState 1,
      (twoNodeLoop.machine twice 1).ReachableBy
        (RunState.Guarded fun source target => source = .node 2 ∧ target = .node 1) state ∧
        0 < state.runs ∧ state.shared.m_pendingTasks = 1 :=
    Machine.ReachableBy.exists_of_run (.start rfl) (twoNodeLoopRun.take 46) (by decide +kernel)
  have oneLoop := twoNodeLoop_oneLoop
  have reenterable : ∀ source target : NodeId, source = .node 2 ∧ target = .node 1 →
      twoNodeLoop.Reenterable source target := by
    rintro source target ⟨rfl, rfl⟩
    exact .inr ⟨oneLoop.contained, oneLoop.entered⟩
  have guarded := reachable.mono fun state action guarded => guarded.mono reenterable
  obtain ⟨-, -, -, held, -⟩ := loop_entry
    { built := oneLoop.built
      plain := oneLoop.plain
      acyclic := oneLoop.acyclic
      conditions := fun source target ⟨edge, member, isLoop, _⟩ =>
        (oneLoop.mem_loopBack member isLoop).1 ▸ oneLoop.isCondition }
    oneLoop.narrow guarded running
  exact ⟨state, guarded, running, pending, held (by omega)⟩

end LightFlow
