import LightFlow.Task.OneLoop

/-!
# A structured loop runs its body once an iteration

The body of a structured loop is resolved once, and once more for every time its condition
goes back; `m_pendingTasks` counts the outstanding activations; and when the condition has
returned another branch the run comes to its end.
-/

namespace LightFlow

variable {graph : TaskGraph} {callables : Callables} {condition target : NodeId} {branch : Int}
  {tally : Tally} {threads : Nat}

/-- How often the callable of the condition returned `branch` in this run. -/
def Shared.chosen (callables : Callables) (shared : Shared) (condition : NodeId) (branch : Int) :
    Nat :=
  (List.range (shared.log.count (.executed condition))).countP fun back =>
    callables.result condition (shared.calls condition - (back + 1)) = branch

/-- The latest call of the condition returned another branch. -/
def Exited (callables : Callables) (condition : NodeId) (branch : Int) (shared : Shared) : Prop :=
  .executed condition ∈ shared.log ∧
    callables.result condition (shared.calls condition - 1) ≠ branch

theorem Exited.chosen_lt {shared : Shared} (exited : Exited callables condition branch shared) :
    shared.chosen callables condition branch < shared.log.count (.executed condition) := by
  have some := List.count_pos_iff.mpr exited.1
  obtain ⟨earlier, isSucc⟩ := Nat.exists_eq_add_one_of_ne_zero some.ne'
  have latest : decide (callables.result condition (shared.calls condition - (0 + 1)) = branch) =
      false := by
    simpa using exited.2
  rw [Shared.chosen, isSucc, List.range_succ_eq_map, List.countP_cons, latest, List.countP_map]
  exact Nat.lt_succ_of_le (List.countP_le_length.trans (by simp))

namespace TaskGraph.OneLoop

theorem revivals_eq (loop : graph.OneLoop condition target branch) (shared : Shared)
    {node : NodeId} (inBody : graph.Body condition target node) :
    graph.revivals callables shared node = shared.chosen callables condition branch := by
  classical
  have inOrder : condition ∈ graph.order := by
    by_contra stray
    have member := loop.mem_successors
    rw [loop.looped.strays condition stray] at member
    simp at member
  have returns (source : NodeId) : graph.returns callables shared source node =
      if condition = source then shared.chosen callables source branch else 0 := by
    rw [TaskGraph.returns]
    split
    next same =>
      subst same
      refine List.countP_congr fun back _ => ?_
      simp [loop.goesBack_iff, inBody]
    next different =>
      rw [List.countP_eq_zero]
      intro back _ goesBack
      rw [decide_eq_true_eq, loop.goesBack_iff] at goesBack
      exact different goesBack.1.symm
  rw [TaskGraph.revivals, Counting.sum_map_congr fun source _ => returns source]
  exact Counting.sum_map_single loop.looped.distinct inOrder fun source =>
    shared.chosen callables source branch

theorem revivals_outside (loop : graph.OneLoop condition target branch) (shared : Shared)
    {node : NodeId} (outside : ¬ graph.Body condition target node) :
    graph.revivals callables shared node = 0 := by
  classical
  refine Counting.sum_map_eq_zero fun source _ => ?_
  rw [TaskGraph.returns, List.countP_eq_zero]
  intro back _ goesBack
  rw [decide_eq_true_eq, loop.goesBack_iff] at goesBack
  exact outside goesBack.2.2

/-! ## After the exit -/

/-- A condition that has returned another branch is not called again, and goes back no
more. -/
theorem free_of_exited (loop : graph.OneLoop condition target branch) {load : Workload}
    (looping : Looping graph callables (allowed condition target) tally load)
    (exited : Exited callables condition branch load.shared) :
    load.amount (.uncalled condition) = 0 ∧
      (load.frames.map fun frame => frame.revives graph load.shared.node condition).sum = 0 := by
  have fewer := exited.chosen_lt
  have revived := looping.revived condition
  rw [loop.revivals_eq load.shared ⟨loop.path, .refl⟩] at revived
  have called := looping.account.called condition
  rw [passed_called] at called
  have single := List.nodup_iff_count_le_one.mp loop.looped.distinct condition
  exact ⟨by omega, by omega⟩

/-- What the rest of a run keeps once the condition has returned another branch. -/
def Leaving (graph : TaskGraph) (callables : Callables) (condition target : NodeId) (branch : Int)
    (load : Workload) : Prop :=
  (∃ tally, Looping graph callables (allowed condition target) tally load ∧
    Keeps condition target tally load.frames) ∧ Exited callables condition branch load.shared

theorem leaving_step (loop : graph.OneLoop condition target branch) {load next : Workload}
    (leaving : Leaving graph callables condition target branch load)
    (stepped : Workload.Step callables
      (fun shared frame => frame.Guarded (allowed condition target) shared) load next) :
    Leaving graph callables condition target branch next := by
  obtain ⟨⟨tally, looping, kept⟩, exited⟩ := leaving
  refine ⟨Looping.step loop.looped loop.rearmed loop.rule ⟨tally, looping, kept⟩ stepped, ?_⟩
  cases stepped with
  | start => exact exited
  | note isNote => exact ⟨List.mem_cons_of_mem _ exited.1, exited.2⟩
  | @fire shared ready frame rest inlineFree effect guarded fired =>
      by_cases isCall : ∃ node, frame = .calling node
      · obtain ⟨node, rfl⟩ := isCall
        have other : condition ≠ node := by
          rintro rfl
          have free := (loop.free_of_exited looping exited).1
          simp [Workload.amount] at free
        have noSplice : CallsNoSplice callables shared node := fun isSubflow =>
          absurd ((looping.account.shape node).1 ▸ isSubflow) (loop.plain node)
        obtain ⟨-, log, -⟩ := executeFn_of_callsNoSplice noSplice
        have called : effect = { shared := (executeFn callables shared node).1
                                 frames := (executeFn callables shared node).2 } := by
          cases fired
          rfl
        subst called
        refine ⟨log ▸ List.mem_cons_of_mem _ exited.1, ?_⟩
        rw [executeFn_calls, Function.update_of_ne other]
        exact exited.2
      · push Not at isCall
        obtain ⟨calls, -, ⟨events, log, -⟩, -⟩ := Frame.fire_keeps isCall fired
        exact ⟨log ▸ List.mem_append_right _ exited.1, calls ▸ exited.2⟩

/-- Steps of a run that is leaving its loop take no loop-back edge. -/
theorem leaving_advance (loop : graph.OneLoop condition target branch)
    {state next : RunState threads} {action : RunAction threads} (sameRun : action ≠ .prepareRun)
    (leaving : Leaving graph callables condition target branch state.load)
    (stepped : state.step graph callables action = some next) :
    (state.Guarded (allowed condition target) action ∧ ¬ state.TakesBack action) ∧
      Leaving graph callables condition target branch next.load := by
  obtain ⟨⟨tally, looping, kept⟩, exited⟩ := leaving
  have here {index : Fin threads} {frame : Frame} (onStack : frame ∈ (state.thread index).stack) :
      ∃ rest, state.load.frames = frame ::ₘ rest :=
    Multiset.exists_cons_of_mem (RunState.mem_frames.mpr ⟨index, onStack⟩)
  have guarded {index : Fin threads} {frame : Frame}
      (onTop : frame ∈ (state.thread index).stack) :
      frame.Guarded (allowed condition target) state.shared := by
    obtain ⟨rest, split⟩ := here onTop
    have atTop : Looping graph callables (allowed condition target) tally
        ⟨state.shared, state.load.ready, frame ::ₘ rest⟩ := split ▸ looping
    exact loop.guarded atTop (split ▸ kept)
  refine ⟨⟨?_, ?_⟩, ?_⟩
  · cases action with
    | prepareRun => exact absurd rfl sameRun
    | fire index => exact fun frame onTop => guarded (List.mem_of_mem_take onTop)
    | _ => trivial
  · cases action with
    | fire index =>
        rintro ⟨frame, stack, onTop, jumps⟩
        have onStack : frame ∈ (state.thread index).stack := onTop ▸ List.mem_cons_self ..
        obtain ⟨rest, split⟩ := here onStack
        have none := (loop.free_of_exited looping exited).2
        cases frame with
        | completing node =>
            obtain ⟨goal, loops⟩ := Option.ne_none_iff_exists'.mp jumps
            have shape := looping.account.shape node
            obtain ⟨rfl, rfl⟩ := guarded onStack goal loops
            have goesBack : graph.GoesBack node (state.shared.node node).userData node :=
              ⟨goal, (loopBack_congr shape.1 shape.2.2).trans loops, loop.path, .refl⟩
            have same : state.load.shared = state.shared := rfl
            simp [split, same, Frame.revives, goesBack] at none
        | _ => exact jumps
    | _ => exact id
  · have permitted (index : Fin threads) (frame : Frame) (stack : List Frame)
        (_ : action = .fire index) (onTop : (state.thread index).stack = frame :: stack) :
        frame.Guarded (allowed condition target) state.shared :=
          guarded (onTop ▸ List.mem_cons_self ..)
    rcases RunState.load_step permitted stepped with ⟨isPrepare, -⟩ | ⟨-, steps⟩
    · exact absurd isPrepare sameRun
    · generalize next.load = after at steps ⊢
      induction steps with
      | refl => exact ⟨⟨tally, looping, kept⟩, exited⟩
      | tail _ last ih => exact loop.leaving_step ih last

end TaskGraph.OneLoop

/-! ## The runs of a structured loop -/

/-- In every run of a structured loop, of any number of threads in any order: the nodes of
the body are resolved once more for every time the condition has gone back, and not before
it has; the other nodes once; `m_pendingTasks` is the number of outstanding activations;
and once the condition has returned another branch the run comes to its end. -/
theorem structured_loop (loop : graph.OneLoop condition target branch) {state : RunState threads}
    (reachable : (graph.machine callables threads).ReachableBy RunState.Prepared state)
    (running : 0 < state.runs) :
    (∀ node, graph.Body condition target node →
      state.resolved node + state.load.amount (.uncalled node) ≤
          1 + state.shared.chosen callables condition branch ∧
        (state.outstanding graph callables = 0 →
          state.resolved node = 1 + state.shared.chosen callables condition branch)) ∧
      (∀ node ∈ graph.order, ¬ graph.Body condition target node → state.resolved node ≤ 1 ∧
        (state.outstanding graph callables = 0 → state.resolved node = 1)) ∧
      state.shared.m_pendingTasks = u32 (state.outstanding graph callables) ∧
      (graph.order.length + threads < 2 ^ 32 →
        state.shared.m_pendingTasks = state.outstanding graph callables) ∧
      (0 < threads → state.Ended ∨
        ∃ action next, action.carriesOn = true ∧ state.step graph callables action = some next) ∧
      (.executed condition ∈ state.shared.log → state.result callables condition ≠ branch →
        ∃ bound, ∀ actions final, .prepareRun ∉ actions →
          (graph.machine callables threads).run (fun _ _ => True) state actions = some final →
          actions.countP (·.carriesOn) ≤ bound) := by
  classical
  have guarded := loop.guarded_of_reachable reachable
  have looped := loop.looped
  obtain ⟨tally, looping, kept⟩ : ∃ tally,
      Looping graph callables (TaskGraph.OneLoop.allowed condition target) tally state.load ∧
        TaskGraph.OneLoop.Keeps condition target tally state.load.frames := by
    rcases looping_of_reachable looped loop.rearmed loop.rule guarded with ⟨noRun, -⟩ | ⟨-, looping⟩
    · omega
    · exact looping
  have inBody {node : NodeId} (body : graph.Body condition target node) : node ∈ graph.order := by
    obtain same | ⟨previous, -, edge, member, -, rfl⟩ := Relation.ReflTransGen.cases_tail body.1
    · exact same ▸ looped.targets condition _ loop.mem_successors
    · exact looped.targets previous edge member
  refine ⟨fun node body => ?_, fun node member outside => ?_, looping.pending_eq looped,
    fun room => ?_, looping.carries_on looped kept.1, fun executed exits => ?_⟩
  · rw [← loop.revivals_eq state.shared body]
    exact ⟨looping.resolved_le looped node,
      fun done => looping.resolved_of_done looped done (inBody body)⟩
  · have atMost := looping.resolved_le looped node
    rw [loop.revivals_outside state.shared outside] at atMost
    refine ⟨by omega, fun done => ?_⟩
    rw [looping.resolved_of_done looped done member, loop.revivals_outside state.shared outside]
  · have few := looping.outstanding_le looped
      (cascaded_of_reachable looped loop.rearmed loop.rule guarded)
    rw [looping.pending_eq looped, u32_of_lt (by omega)]
  · refine ⟨state.work graph tally, fun actions final sameRun performed => ?_⟩
    have leaving : TaskGraph.OneLoop.Leaving graph callables condition target branch state.load :=
      ⟨⟨tally, looping, kept⟩, executed, exits⟩
    have straight := Machine.run_strengthen
      (fun state : RunState threads =>
        TaskGraph.OneLoop.Leaving graph callables condition target branch state.load)
      (fun state action next member leaving _ stepped =>
        loop.leaving_advance (fun isPrepare => sameRun (isPrepare ▸ member)) leaving stepped)
      leaving performed
    exact looping.actions_le_work kept looped loop.rearmed loop.rule sameRun straight

/-! ## A loop of two nodes -/

/-- A task, a loop of a task and a condition, and a task after the loop. -/
def twoNodeLoop : TaskGraph :=
  let nodes := ((({} : TaskGraph).emplace .static .worker).emplace .static .worker).emplace
    .condition .worker |>.emplace .static .worker
  let body := (nodes.addEdge (.node 0) (.node 1)).addEdge (.node 1) (.node 2)
  (body.addEdge (.node 2) (.node 1) 0).addEdge (.node 2) (.node 3) 1

theorem twoNodeLoop_built : twoNodeLoop.Built := by
  refine .addEdge 1 (.addEdge 0 (.addEdge (-1) (.addEdge (-1) (.emplace _ _ (.emplace _ _
    (.emplace _ _ (.emplace _ _ .empty ?_) ?_) ?_) ?_) ?_ ?_) ?_ ?_) ?_ ?_) ?_ ?_
  all_goals decide

/-- The first call goes back, the second one leaves the loop. -/
def twice : Callables where
  result := fun _ call => if call = 0 then 0 else 1
  subflow := fun _ => {}

/-- Forward edges lead from lower to higher ids. -/
theorem twoNodeLoop_increases {source target : NodeId}
    (related : twoNodeLoop.Forward source target) :
    source ∈ twoNodeLoop.order ∧ target ∈ twoNodeLoop.order ∧ source.index < target.index := by
  obtain ⟨edge, member, forward, rfl⟩ := related
  have listed := twoNodeLoop_built.source_mem member
  have increases : ∀ source ∈ twoNodeLoop.order, ∀ edge ∈ (twoNodeLoop.node source).successors,
      edge.isLoopBack = false → edge.target ∈ twoNodeLoop.order ∧
        source.index < edge.target.index := by decide
  exact ⟨listed, increases source listed edge member forward⟩

theorem twoNodeLoop_body {node : NodeId} (body : twoNodeLoop.Body (.node 2) (.node 1) node) :
    node = .node 1 ∨ node = .node 2 := by
  have index {first last : NodeId} (path : Relation.ReflTransGen twoNodeLoop.Forward first last) :
      first.index ≤ last.index := by
    induction path with
    | refl => exact le_rfl
    | tail _ related ih => exact ih.trans (twoNodeLoop_increases related).2.2.le
  have listed : node ∈ twoNodeLoop.order := by
    obtain same | ⟨previous, -, related⟩ := Relation.ReflTransGen.cases_tail body.1
    · exact same ▸ by decide
    · exact (twoNodeLoop_increases related).2.1
  have between : ∀ node ∈ twoNodeLoop.order, 1 ≤ node.index → node.index ≤ 2 →
      node = .node 1 ∨ node = .node 2 := by decide
  exact between node listed (index body.1) (index body.2)

theorem twoNodeLoop_oneLoop : twoNodeLoop.OneLoop (.node 2) (.node 1) 0 := by
  have related : twoNodeLoop.Forward (.node 1) (.node 2) :=
    ⟨{ target := .node 2, branch := -1 }, by decide, rfl, rfl⟩
  have first : twoNodeLoop.Body (.node 2) (.node 1) (.node 1) := ⟨.refl, .single related⟩
  have second : twoNodeLoop.Body (.node 2) (.node 1) (.node 2) := ⟨.single related, .refl⟩
  refine
    { built := twoNodeLoop_built
      plain := twoNodeLoop_built.not_subflow (by decide)
      acyclic := Cycleless.of_increasing fun source target related =>
        (twoNodeLoop_increases related).2.2
      narrow := fun node => (TaskGraph.incoming_le _ _ _).trans (by decide)
      isCondition := rfl
      nonnegative := le_rfl
      single := fun node => ?_
      small := ⟨[.node 1, .node 2], by decide, fun node body => by
        simpa using twoNodeLoop_body body⟩
      entered := fun node body inside previous related => ?_
      left := fun node body edge member outside => ?_ }
  · by_cases listed : node ∈ twoNodeLoop.order
    · exact (by decide : ∀ node ∈ twoNodeLoop.order,
        (twoNodeLoop.node node).successors.filter (·.isLoopBack) =
          if node = .node 2 then [{ target := .node 1, branch := 0, isLoopBack := true }]
          else []) node listed
    · have isDefault := twoNodeLoop_built.edgeless_of_notMem listed
      rw [isDefault, if_neg]
      · rfl
      · rintro rfl
        exact listed (by decide)
  · obtain rfl | rfl := twoNodeLoop_body body
    · exact absurd rfl inside
    · have before : ∀ source ∈ twoNodeLoop.order, ∀ edge ∈ (twoNodeLoop.node source).successors,
          edge.isLoopBack = false → edge.target = .node 2 → source = .node 1 := by decide
      obtain ⟨edge, member, forward, isTarget⟩ := related
      exact before previous (twoNodeLoop_built.source_mem member) edge member forward isTarget ▸
        first
  · obtain rfl | rfl := twoNodeLoop_body body
    · have onward : ∀ edge ∈ (twoNodeLoop.node (.node 1)).successors, edge.target = .node 2 := by
        decide
      exact absurd (onward edge member ▸ second) outside
    · have onward : ∀ edge ∈ (twoNodeLoop.node (.node 2)).successors,
          edge.target = .node 1 ∨ edge.branch ≠ 0 := by decide
      exact ⟨rfl, (onward edge member).resolve_left fun isTarget => outside (isTarget ▸ first)⟩

/-- Two iterations and the exit. -/
def twoNodeLoopRun : List (RunAction 1) :=
  List.flatten
    [[.prepareRun, .dispatchRoot, .dispatchRoot], RunAction.work 0 (.node 0) 7,
      RunAction.work 0 (.node 1) 7, RunAction.work 0 (.node 2) 9, RunAction.work 0 (.node 1) 7,
      RunAction.work 0 (.node 2) 8, RunAction.work 0 (.node 3) 5]

theorem structured_loop_twice : ∃ state : RunState 1,
    (twoNodeLoop.machine twice 1).ReachableBy RunState.Prepared state ∧ state.Ended ∧
      state.shared.chosen twice (.node 2) 0 = 1 ∧ state.resolved (.node 1) = 2 := by
  obtain ⟨state, reachable, running, ended, once⟩ : ∃ state : RunState 1,
      (twoNodeLoop.machine twice 1).ReachableBy RunState.Prepared state ∧ 0 < state.runs ∧
        state.Ended ∧ state.shared.chosen twice (.node 2) 0 = 1 :=
    Machine.ReachableBy.exists_of_run (.start rfl) twoNodeLoopRun (by decide +kernel)
  obtain ⟨body, -, -, pending, -⟩ := structured_loop twoNodeLoop_oneLoop reachable running
  have done : state.outstanding twoNodeLoop twice = 0 := (pending (by decide)).symm.trans ended.2
  have related : twoNodeLoop.Forward (.node 1) (.node 2) :=
    ⟨{ target := .node 2, branch := -1 }, by decide, rfl, rfl⟩
  have resolved := (body (.node 1) ⟨.refl, .single related⟩).2 done
  exact ⟨state, reachable, ended, once, by rw [resolved, once]⟩

end LightFlow
