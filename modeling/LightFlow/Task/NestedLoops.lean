import LightFlow.Task.StructuredLoop

/-!
# Nested loops

The search that collects a loop goes along all edges, loop-back ones included.  Where the
exit of an inner loop leads back to its condition by way of an outer loop, nodes of the
outer loop are counted as pending again although they have not run, and the run hangs.  As
long as no such loop-back edge is taken the accounts are right.
-/

namespace LightFlow

variable {graph : TaskGraph} {callables : Callables} {threads : Nat}

namespace TaskGraph

/-- A loop-back edge leads from `source` to `target`. -/
def LoopEdge (graph : TaskGraph) (source target : NodeId) : Prop :=
  ∃ edge ∈ (graph.node source).successors, edge.isLoopBack = true ∧ edge.target = target

/-- Loops of conditions, entered at their targets and left from their conditions only,
small enough for the arrays of the searches. -/
structure NestedLoops (graph : TaskGraph) : Prop where
  built : graph.Built
  plain : ∀ node, (graph.node node).type ≠ .subflow
  acyclic : Cycleless graph.Forward
  conditions : ∀ source target, graph.LoopEdge source target →
    (graph.node source).type = .condition
  few : graph.order.length ≤ 128
  path : ∀ source target, graph.LoopEdge source target →
    Relation.ReflTransGen graph.Forward target source
  small : ∀ source target, graph.LoopEdge source target → ∃ body : List NodeId,
    body.length ≤ 64 ∧ ∀ node, graph.Body source target node → node ∈ body
  entered : ∀ source target, graph.LoopEdge source target → graph.EnteredAtTarget source target
  left : ∀ source target, graph.LoopEdge source target → graph.LeftAtSource source target

/-- The condition goes back to itself, or nothing that follows its loop leads back to it. -/
def Outermost (graph : TaskGraph) (source target : NodeId) : Prop :=
  target = source ∨ ∀ next, graph.Forward source next →
    ¬ Relation.ReflTransGen (Precedes graph.node) next source

namespace NestedLoops

theorem looped (nested : graph.NestedLoops)
    (narrow : ∀ node, incoming graph.node graph.order node ≤ 65535) : graph.Looped :=
  nested.built.looped nested.plain nested.acyclic
    (fun node edge member isLoop => nested.conditions node _ ⟨edge, member, isLoop, rfl⟩) narrow

/-- Loop-back edges that rearm just their loops. -/
def Allowed (graph : TaskGraph) (source target : NodeId) : Prop :=
  graph.LoopEdge source target ∧ graph.Outermost source target

theorem rearmed (nested : graph.NestedLoops) : graph.Rearmed (Allowed graph) := by
  rintro source target ⟨isEdge, outermost⟩
  refine ⟨?_, nested.left source target isEdge⟩
  rcases outermost with rfl | apart
  · exact collects_self nested.acyclic
  · have inOrder {node : NodeId} (inBody : graph.Body source target node) :
        node ∈ graph.order := by
      obtain same | ⟨next, ⟨edge, member, -⟩, -⟩ := Relation.ReflTransGen.cases_head inBody.2
      · obtain ⟨edge, member, -⟩ := isEdge
        exact same ▸ nested.built.source_mem member
      · exact nested.built.source_mem member
    refine Contained.collects ⟨nested.path source target isEdge, nested.small source target isEdge,
      ⟨graph.order, nested.few, fun node => inOrder, fun node member inside edge isSuccessor => ?_⟩,
      nested.left source target isEdge, apart⟩ nested.acyclic
    exact .inr (nested.built.target_mem isSuccessor)

theorem rule (nested : graph.NestedLoops) : Tally.Rule graph callables (Allowed graph)
    fun tally _ => ∀ node, tally.extra node = 0 :=
  .noExtra fun source target permitted => nested.entered source target permitted.1

end NestedLoops

end TaskGraph

/-- Loop-back edges that are taken are edges of the graph. -/
theorem guarded_of_loopEdge {allowed wide : NodeId → NodeId → Prop} (looped : graph.Looped)
    (rearmed : graph.Rearmed allowed)
    (narrows : ∀ source target, graph.LoopEdge source target → wide source target →
      allowed source target)
    {state : RunState threads}
    (reachable : (graph.machine callables threads).ReachableBy (RunState.Guarded wide) state) :
    (graph.machine callables threads).ReachableBy (RunState.Guarded allowed) state := by
  refine reachable.strengthen fun state action next before guarded _ => ?_
  cases action with
  | fire index =>
      intro frame onTop
      have inFrames : frame ∈ state.load.frames :=
        RunState.mem_frames.mpr ⟨index, List.mem_of_mem_take onTop⟩
      have permitted := guarded frame onTop
      cases frame with
      | completing node =>
          intro target loops
          rcases looping_of_reachable looped rearmed (.none graph callables allowed) before with
            ⟨-, -, -, noFrames⟩ | ⟨-, tally, looping, -⟩
          · exact absurd (noFrames ▸ inFrames) (Multiset.notMem_zero _)
          · obtain ⟨-, edge, member, isLoop, -, isTarget⟩ := exists_loopBack loops
            have same : state.load.shared.node = state.shared.node := rfl
            rw [← same, (looping.account.shape node).2.2] at member
            exact narrows node target ⟨edge, member, isLoop, isTarget⟩ (permitted target loops)
      | cascading node todo => cases todo <;> exact permitted
      | _ => exact permitted
  | _ => exact guarded

/-- A step that takes no loop-back edge takes only allowed ones. -/
theorem RunState.Guarded.of_not_takesBack {wide allowed : NodeId → NodeId → Prop}
    {state : RunState threads} {action : RunAction threads} (guarded : state.Guarded wide action)
    (noBack : ¬ state.TakesBack action) : state.Guarded allowed action := by
  cases action with
  | fire index =>
      intro frame onTop
      have permitted := guarded frame onTop
      cases frame with
      | completing node =>
          intro target loops
          obtain ⟨rest, isStack⟩ :
              ∃ rest, (state.thread index).stack = .completing node :: rest := by
            cases isStack : (state.thread index).stack with
            | nil => simp [isStack] at onTop
            | cons top rest =>
                rw [isStack, List.take_succ_cons, List.take_zero, List.mem_singleton] at onTop
                exact ⟨rest, onTop ▸ rfl⟩
          exact absurd ⟨_, rest, isStack, Option.ne_none_iff_exists'.mpr ⟨target, loops⟩⟩ noBack
      | cascading node todo => cases todo <;> exact permitted
      | _ => exact permitted
  | _ => exact guarded

open Classical in
/-- In every run in which the loop-back edges taken belong to loops that nothing leads back
to, and skipped conditions find the targets of their loops at rest: `m_pendingTasks` is the
number of activations that have not finished, the run can be carried on until it has ended,
and it comes to its end when the conditions choose exits. -/
theorem nested_loops (nested : graph.NestedLoops)
    (narrow : ∀ node, TaskGraph.incoming graph.node graph.order node ≤ 65535)
    {state : RunState threads}
    (reachable : (graph.machine callables threads).ReachableBy
      (RunState.Guarded graph.Outermost) state) (running : 0 < state.runs) :
    state.shared.m_pendingTasks = u32 (state.outstanding graph callables) ∧
      (graph.order.length + threads < 2 ^ 32 →
        state.shared.m_pendingTasks = state.outstanding graph callables) ∧
      (0 < threads → state.Ended ∨
        ∃ action next, action.carriesOn = true ∧ state.step graph callables action = some next) ∧
      ∃ bound, ∀ actions final, .prepareRun ∉ actions →
        (graph.machine callables threads).run (fun state action =>
          state.Guarded graph.Outermost action ∧ ¬ state.TakesBack action) state actions =
            some final → actions.countP (·.carriesOn) ≤ bound := by
  have looped := nested.looped narrow
  have guarded := guarded_of_loopEdge looped nested.rearmed (fun _ _ => And.intro) reachable
  obtain ⟨tally, looping, kept⟩ : ∃ tally,
      Looping graph callables (TaskGraph.NestedLoops.Allowed graph) tally state.load ∧
        ∀ node, tally.extra node = 0 := by
    rcases looping_of_reachable looped nested.rearmed nested.rule guarded with
      ⟨noRun, -⟩ | ⟨-, looping⟩
    · omega
    · exact looping
  refine ⟨looping.pending_eq looped, fun room => ?_, looping.carries_on looped kept, ?_⟩
  · have few := looping.outstanding_le looped
      (cascaded_of_reachable looped nested.rearmed nested.rule guarded)
    rw [looping.pending_eq looped, u32_of_lt (by omega)]
  · refine ⟨state.work graph tally, fun actions final sameRun performed => ?_⟩
    have straight : (graph.machine callables threads).run (fun state action =>
        state.Guarded (TaskGraph.NestedLoops.Allowed graph) action ∧ ¬ state.TakesBack action)
        state actions = some final :=
      Machine.run_strengthen (fun _ => True) (fun _ _ _ _ _ permitted _ =>
        ⟨⟨permitted.1.of_not_takesBack permitted.2, permitted.2⟩, trivial⟩) trivial performed
    exact looping.actions_le_work kept looped nested.rearmed nested.rule sameRun straight

/-! ## A loop in a loop -/

/-- A task and a condition, in the loop of another condition, and a task after the loops. -/
def loopInLoop : TaskGraph :=
  let nodes := (((({} : TaskGraph).emplace .static .worker).emplace .static .worker).emplace
    .condition .worker).emplace .condition .worker |>.emplace .static .worker
  let chain := (((nodes.addEdge (.node 0) (.node 1)).addEdge (.node 1) (.node 2)).addEdge
    (.node 2) (.node 3) 1).addEdge (.node 3) (.node 4) 1
  (chain.addEdge (.node 2) (.node 1) 0).addEdge (.node 3) (.node 0) 0

theorem loopInLoop_built : loopInLoop.Built := by
  refine .addEdge 0 (.addEdge 0 (.addEdge 1 (.addEdge 1 (.addEdge (-1) (.addEdge (-1)
    (.emplace _ _ (.emplace _ _ (.emplace _ _ (.emplace _ _ (.emplace _ _ .empty ?_) ?_) ?_) ?_) ?_)
      ?_ ?_) ?_ ?_) ?_ ?_) ?_ ?_) ?_ ?_) ?_ ?_
  all_goals decide

/-- The forward edges are a chain. -/
theorem loopInLoop_forward {source target : NodeId} : loopInLoop.Forward source target ↔
    source ∈ loopInLoop.order.dropLast ∧ target = .node (source.index + 1) := by
  constructor
  · rintro ⟨edge, member, forward, rfl⟩
    have chained : ∀ source ∈ loopInLoop.order, ∀ edge ∈ (loopInLoop.node source).successors,
        edge.isLoopBack = false → source ∈ loopInLoop.order.dropLast ∧
          edge.target = .node (source.index + 1) := by decide
    exact chained source (loopInLoop_built.source_mem member) edge member forward
  · rintro ⟨member, rfl⟩
    have chained : ∀ source ∈ loopInLoop.order.dropLast,
        ∃ edge ∈ (loopInLoop.node source).successors, edge.isLoopBack = false ∧
          edge.target = .node (source.index + 1) := by decide
    exact chained source member

theorem loopInLoop_loopEdge {source target : NodeId} : loopInLoop.LoopEdge source target ↔
    source = .node 2 ∧ target = .node 1 ∨ source = .node 3 ∧ target = .node 0 := by
  constructor
  · rintro ⟨edge, member, isLoop, rfl⟩
    have twoLoops : ∀ source ∈ loopInLoop.order, ∀ edge ∈ (loopInLoop.node source).successors,
        edge.isLoopBack = true → source = .node 2 ∧ edge.target = .node 1 ∨
          source = .node 3 ∧ edge.target = .node 0 := by decide
    exact twoLoops source (loopInLoop_built.source_mem member) edge member isLoop
  · rintro (⟨rfl, rfl⟩ | ⟨rfl, rfl⟩) <;> rw [TaskGraph.LoopEdge] <;> decide

theorem loopInLoop_mem {node : NodeId} :
    node ∈ loopInLoop.order ↔ node.index < 5 ∧ node = .node node.index := by
  have listed : loopInLoop.order = (List.range 5).map NodeId.node := by decide
  rw [listed, List.mem_map]
  constructor
  · rintro ⟨index, member, rfl⟩
    exact ⟨List.mem_range.mp member, rfl⟩
  · rintro ⟨less, same⟩
    exact ⟨node.index, List.mem_range.mpr less, same.symm⟩

/-- Along the chain everything later is reached, and nothing else. -/
theorem loopInLoop_path {first last : NodeId} (listed : first ∈ loopInLoop.order) :
    Relation.ReflTransGen loopInLoop.Forward first last ↔
      last ∈ loopInLoop.order ∧ first.index ≤ last.index := by
  constructor
  · intro path
    induction path with
    | refl => exact ⟨listed, le_rfl⟩
    | tail _ related ih =>
        have isNext := (loopInLoop_forward.mp related).2
        obtain ⟨edge, member, -, rfl⟩ := related
        refine ⟨loopInLoop_built.target_mem member, ih.2.trans ?_⟩
        rw [isNext]
        exact Nat.le_succ _
  · rintro ⟨reached, later⟩
    obtain ⟨less, same⟩ := loopInLoop_mem.mp reached
    rw [same]
    generalize last.index = index at less later
    induction index, later using Nat.le_induction with
    | base => rw [← (loopInLoop_mem.mp listed).2]
    | succ index _ ih =>
        refine .tail (ih (by omega)) (loopInLoop_forward.mpr ⟨?_, rfl⟩)
        exact (by decide : ∀ index < 4, NodeId.node index ∈ loopInLoop.order.dropLast) index
          (by omega)

theorem loopInLoop_body {source target node : NodeId} (isEdge : loopInLoop.LoopEdge source target) :
    loopInLoop.Body source target node ↔
      node ∈ loopInLoop.order ∧ target.index ≤ node.index ∧ node.index ≤ source.index := by
  obtain ⟨edge, member, -, rfl⟩ := isEdge
  have sourceListed := loopInLoop_built.source_mem member
  rw [TaskGraph.Body, loopInLoop_path (loopInLoop_built.target_mem member)]
  constructor
  · rintro ⟨⟨listed, after⟩, before⟩
    exact ⟨listed, after, ((loopInLoop_path listed).mp before).2⟩
  · rintro ⟨listed, after, before⟩
    exact ⟨⟨listed, after⟩, (loopInLoop_path listed).mpr ⟨sourceListed, before⟩⟩

theorem loopInLoop_nested : loopInLoop.NestedLoops where
  built := loopInLoop_built
  plain := loopInLoop_built.not_subflow (by decide)
  acyclic := Cycleless.of_increasing fun source target related => by
    rw [(loopInLoop_forward.mp related).2]
    exact Nat.lt_succ_self source.index
  conditions := fun source target isEdge => by
    rcases loopInLoop_loopEdge.mp isEdge with ⟨rfl, -⟩ | ⟨rfl, -⟩ <;> rfl
  few := by decide
  path := fun source target isEdge => by
    rcases loopInLoop_loopEdge.mp isEdge with ⟨rfl, rfl⟩ | ⟨rfl, rfl⟩ <;>
      exact (loopInLoop_path (by decide)).mpr (by decide)
  small := fun source target isEdge =>
    ⟨loopInLoop.order, by decide, fun node body => ((loopInLoop_body isEdge).mp body).1⟩
  entered := fun source target isEdge node body inside previous related => by
    obtain ⟨listed, after, before⟩ := (loopInLoop_body isEdge).mp body
    obtain ⟨member, isNext⟩ := loopInLoop_forward.mp related
    have sameIndex : node.index = previous.index + 1 := congrArg NodeId.index isNext
    have other : node.index ≠ target.index := fun same => by
      rw [(loopInLoop_mem.mp listed).2, same] at inside
      rcases loopInLoop_loopEdge.mp isEdge with ⟨-, rfl⟩ | ⟨-, rfl⟩ <;> exact inside rfl
    exact (loopInLoop_body isEdge).mpr ⟨List.dropLast_subset _ member, by omega, by omega⟩
  left := fun source target isEdge node body inside next related => by
    obtain ⟨listed, after, before⟩ := (loopInLoop_body isEdge).mp body
    obtain ⟨-, isNext⟩ := loopInLoop_forward.mp related
    have sameIndex : next.index = node.index + 1 := congrArg NodeId.index isNext
    have other : node.index ≠ source.index := fun same => by
      rw [(loopInLoop_mem.mp listed).2, same] at inside
      rcases loopInLoop_loopEdge.mp isEdge with ⟨rfl, -⟩ | ⟨rfl, -⟩ <;> exact inside rfl
    obtain ⟨edge, member, -, isTarget⟩ := related
    exact (loopInLoop_body isEdge).mpr
      ⟨isTarget ▸ loopInLoop_built.target_mem member, by omega, by omega⟩

/-- `condition` goes back once, and every other answer leaves the loop. -/
def backOnce (condition : NodeId) : Callables where
  result := fun node call => if node = condition ∧ call = 0 then 0 else 1
  subflow := fun _ => {}

/-- The inner condition goes back once. -/
def innerBackRun : List (RunAction 1) :=
  List.flatten
    [[.prepareRun, .dispatchRoot, .dispatchRoot], RunAction.work 0 (.node 0) 7,
      RunAction.work 0 (.node 1) 7, RunAction.work 0 (.node 2) 11, RunAction.work 0 (.node 1) 7,
      RunAction.work 0 (.node 2) 8, RunAction.work 0 (.node 3) 8, RunAction.work 0 (.node 4) 5]

/-- Collecting the inner loop, the search also finds the condition of the outer loop, which
is then counted twice: both conditions have left their loops, everything has finished, and
the run does not end. -/
theorem not_nested_loops : loopInLoop.NestedLoops ∧
    (∀ node, TaskGraph.incoming loopInLoop.node loopInLoop.order node ≤ 65535) ∧
    ∃ state : RunState 1, (loopInLoop.machine (backOnce (.node 2)) 1).Reachable state ∧
      state.runs = 1 ∧ state.shared.m_pendingTasks = 1 ∧
      state.result (backOnce (.node 2)) (.node 2) = 1 ∧
      state.result (backOnce (.node 2)) (.node 3) = 1 ∧
      (∀ node ∈ loopInLoop.order,
        state.shared.log.count (.finished node) = state.shared.log.count (.executed node)) ∧
      ∀ action : RunAction 1, action.carriesOn = true →
        state.step loopInLoop (backOnce (.node 2)) action = none := by
  refine ⟨loopInLoop_nested, fun node => (TaskGraph.incoming_le _ _ _).trans (by decide), ?_⟩
  obtain ⟨state, reachable, once, pending, inner, outer, finished, prepared, queued, idle⟩ :
      ∃ state, (loopInLoop.machine (backOnce (.node 2)) 1).Reachable state ∧ state.runs = 1 ∧
        state.shared.m_pendingTasks = 1 ∧ state.result (backOnce (.node 2)) (.node 2) = 1 ∧
        state.result (backOnce (.node 2)) (.node 3) = 1 ∧
        (∀ node ∈ loopInLoop.order,
          state.shared.log.count (.finished node) = state.shared.log.count (.executed node)) ∧
        state.preparing = none ∧ state.queued = [] ∧
        ∀ index, (state.thread index).stack = [] ∧
          (state.thread index).t_nextInlineTask = none :=
    Machine.ReachableBy.exists_of_run (.start rfl) innerBackRun (by decide +kernel)
  exact ⟨state, reachable, once, pending, inner, outer, finished,
    fun action carriesOn => stuck_of_idle prepared queued idle carriesOn⟩

/-- The outer condition goes back once, the inner one leaves its loop at once. -/
def outerBackRun : List (RunAction 1) :=
  let lap (last : Nat) : List (RunAction 1) :=
    List.flatten
      [RunAction.work 0 (.node 0) 7, RunAction.work 0 (.node 1) 7, RunAction.work 0 (.node 2) 8,
        RunAction.work 0 (.node 3) last]
  [.prepareRun, .dispatchRoot, .dispatchRoot] ++ lap 13 ++ lap 8

theorem loopInLoop_outermost {source target : NodeId}
    (isOuter : source = .node 3 ∧ target = .node 0) : loopInLoop.Outermost source target := by
  obtain ⟨rfl, rfl⟩ := isOuter
  refine .inr fun next related path => ?_
  rw [(loopInLoop_forward.mp related).2] at path
  rcases Relation.ReflTransGen.cases_head path with same | ⟨other, ⟨edge, member, -⟩, -⟩
  · exact absurd same (by decide)
  · have none : (loopInLoop.node (.node 4)).successors = [] := by decide
    exact List.not_mem_nil (none ▸ member)

theorem nested_loops_outer : ∃ state : RunState 1,
    (loopInLoop.machine (backOnce (.node 3)) 1).ReachableBy
      (RunState.Guarded loopInLoop.Outermost) state ∧ 0 < state.runs ∧
      state.shared.m_pendingTasks = 1 ∧
      state.outstanding loopInLoop (backOnce (.node 3)) = 1 := by
  obtain ⟨state, reachable, running, pending⟩ : ∃ state : RunState 1,
      (loopInLoop.machine (backOnce (.node 3)) 1).ReachableBy
        (RunState.Guarded fun source target => source = .node 3 ∧ target = .node 0) state ∧
        0 < state.runs ∧ state.shared.m_pendingTasks = 1 :=
    Machine.ReachableBy.exists_of_run (.start rfl) outerBackRun (by decide +kernel)
  have guarded := reachable.mono fun state action guarded =>
    guarded.mono fun _ _ => loopInLoop_outermost
  obtain ⟨-, counts, -⟩ := nested_loops loopInLoop_nested
    (fun node => (TaskGraph.incoming_le _ _ _).trans (by decide)) guarded running
  exact ⟨state, guarded, running, pending, (counts (by decide)).symm.trans pending⟩

end LightFlow
