import LightFlow.Task.Collect
import LightFlow.Task.LoopEnd

/-!
# A structured loop

A graph with one loop-back edge, whose loop is entered at its target and left from its
condition: every step is guarded, whatever the threads and the condition do, and the body
is resolved once more for every time the condition goes back.
-/

namespace LightFlow

namespace TaskGraph

theorem Built.edgeless_of_notMem {graph : TaskGraph} (built : graph.Built) {node : NodeId}
    (stray : node ∉ graph.order) : (graph.node node).successors = [] := by
  obtain ⟨wired, ordered⟩ := built.wired
  rw [wired.outside node fun created => stray (ordered.mem_iff.mpr created)]

theorem Built.source_mem {graph : TaskGraph} (built : graph.Built) {node : NodeId}
    {edge : SuccessorEdge} (member : edge ∈ (graph.node node).successors) : node ∈ graph.order := by
  by_contra stray
  rw [built.edgeless_of_notMem stray] at member
  simp at member

theorem Built.target_mem {graph : TaskGraph} (built : graph.Built) {node : NodeId}
    {edge : SuccessorEdge} (member : edge ∈ (graph.node node).successors) :
    edge.target ∈ graph.order := by
  obtain ⟨wired, ordered⟩ := built.wired
  exact ordered.mem_iff.mpr (wired.targets node edge member)

/-- Built graphs whose cycles are closed by conditions. -/
theorem Built.looped {graph : TaskGraph} (built : graph.Built)
    (plain : ∀ node, (graph.node node).type ≠ .subflow) (acyclic : Cycleless graph.Forward)
    (conditions : ∀ node, ∀ edge ∈ (graph.node node).successors, edge.isLoopBack = true →
      (graph.node node).type = .condition)
    (narrow : ∀ node, incoming graph.node graph.order node ≤ 65535) : graph.Looped := by
  obtain ⟨wired, ordered⟩ := built.wired
  have counted (node : NodeId) : graph.forwardIncoming node =
      (graph.order.map fun source => forwardInto node (graph.node source).successors).sum :=
    (ordered.symm.map _).sum_eq
  have atMost (node : NodeId) : graph.forwardIncoming node ≤ 65535 := by
    refine (counted node).trans_le (le_trans ?_ (narrow node))
    refine List.sum_le_sum fun source _ => List.countP_mono_left fun edge _ isForward => ?_
    simp only [decide_eq_true_eq] at isForward ⊢
    exact isForward.1
  have degree (node : NodeId) : (graph.node node).initialInDegree = graph.forwardIncoming node := by
    have few := atMost node
    rw [wired.degree, u32_of_lt (by omega)]
  exact
    { acyclic
      plain
      distinct := ordered.nodup_iff.mpr graph.ids_nodup
      count := by simp [ordered.length_eq, ids]
      bound := wired.bound
      strays := fun node => built.edgeless_of_notMem
      targets := fun node edge => built.target_mem
      conditions
      degree := fun node => (degree node).trans (counted node)
      narrow := fun node => (degree node).trans_le (atMost node) }

/-- A loop from `condition` on `branch` back to `target`, and no other loop. -/
structure OneLoop (graph : TaskGraph) (condition target : NodeId) (branch : Int) : Prop where
  built : graph.Built
  plain : ∀ node, (graph.node node).type ≠ .subflow
  acyclic : Cycleless graph.Forward
  narrow : ∀ node, incoming graph.node graph.order node ≤ 65535
  isCondition : (graph.node condition).type = .condition
  nonnegative : 0 ≤ branch
  single : ∀ node, (graph.node node).successors.filter (·.isLoopBack) =
    if node = condition then [{ target, branch, isLoopBack := true }] else []
  small : ∃ body : List NodeId, body.length ≤ 64 ∧
    ∀ node, graph.Body condition target node → node ∈ body
  entered : graph.EnteredAtTarget condition target
  left : ∀ node, graph.Body condition target node → ∀ edge ∈ (graph.node node).successors,
    ¬ graph.Body condition target edge.target → node = condition ∧ edge.branch ≠ branch

namespace OneLoop

variable {graph : TaskGraph} {condition target : NodeId} {branch : Int}

theorem mem_loopBack (loop : graph.OneLoop condition target branch) {node : NodeId}
    {edge : SuccessorEdge} (member : edge ∈ (graph.node node).successors)
    (isLoop : edge.isLoopBack = true) :
    node = condition ∧ edge = { target, branch, isLoopBack := true } := by
  have filtered := List.mem_filter.mpr ⟨member, isLoop⟩
  rw [loop.single] at filtered
  split at filtered
  next same => exact ⟨same, List.mem_singleton.mp filtered⟩
  next => simp at filtered

theorem looped (loop : graph.OneLoop condition target branch) : graph.Looped :=
  loop.built.looped loop.plain loop.acyclic
    (fun _ _ member isLoop => (loop.mem_loopBack member isLoop).1 ▸ loop.isCondition) loop.narrow

/-- Whatever reaches the condition does so before going back. -/
theorem forward_of_precedes (loop : graph.OneLoop condition target branch) {node : NodeId}
    (path : Relation.ReflTransGen (Precedes graph.node) node condition) :
    Relation.ReflTransGen graph.Forward node condition := by
  induction path using Relation.ReflTransGen.head_induction_on with
  | refl => exact .refl
  | @head first next related _ ih =>
      obtain ⟨edge, member, rfl⟩ := related
      by_cases same : first = condition
      · exact same ▸ .refl
      · have forward : edge.isLoopBack = false := by
          by_contra isLoop
          exact same (loop.mem_loopBack member (by simpa using isLoop)).1
        exact .head ⟨edge, member, forward, rfl⟩ ih

theorem mem_successors (loop : graph.OneLoop condition target branch) :
    { target, branch, isLoopBack := true } ∈ (graph.node condition).successors := by
  have edges := loop.single condition
  rw [if_pos rfl] at edges
  exact (List.mem_filter.mp (edges ▸ List.mem_singleton_self _)).1

theorem path (loop : graph.OneLoop condition target branch) :
    Relation.ReflTransGen graph.Forward target condition :=
  loop.forward_of_precedes (loop.built.wired.1.loops condition _ loop.mem_successors rfl)

theorem contained (loop : graph.OneLoop condition target branch) :
    graph.Contained condition target := by
  classical
  have leaves : graph.LeftAtSource condition target := by
    rintro node inBody inside next ⟨edge, member, -, rfl⟩
    by_contra outside
    exact inside (loop.left node inBody edge member outside).1
  obtain ⟨body, small, listed⟩ := loop.small
  refine ⟨loop.path, loop.small, ⟨body.filter (graph.Body condition target ·), ?_, ?_, ?_⟩, leaves,
    fun next related back => ?_⟩
  · exact (List.length_filter_le _ _).trans (small.trans (by decide))
  · exact fun node inBody => List.mem_filter.mpr ⟨listed node inBody, by simpa using inBody⟩
  · intro node member inside edge isEdge
    have inBody : graph.Body condition target node := by
      simpa using (List.mem_filter.mp member).2
    have stays : graph.Body condition target edge.target := by
      by_contra outside
      exact inside (loop.left node inBody edge isEdge outside).1
    exact .inr (List.mem_filter.mpr ⟨listed _ stays, by simpa using stays⟩)
  · exact loop.acyclic condition (.head' related (loop.forward_of_precedes back))

/-- The condition goes back when it returns the branch of the loop, and no other one does. -/
theorem goesBack_iff (loop : graph.OneLoop condition target branch) {source node : NodeId}
    {result : Int} : graph.GoesBack source result node ↔
      source = condition ∧ result = branch ∧ graph.Body condition target node := by
  constructor
  · rintro ⟨back, loops, inBody⟩
    obtain ⟨-, edge, member, isLoop, taken, rfl⟩ := exists_loopBack loops
    obtain ⟨rfl, rfl⟩ := loop.mem_loopBack member isLoop
    have chosen : branch = result := taken.resolve_left fun unlabelled => by
      have nonnegative := loop.nonnegative
      rw [show branch = -1 from unlabelled] at nonnegative
      omega
    exact ⟨rfl, chosen.symm, inBody⟩
  · rintro ⟨rfl, rfl, inBody⟩
    refine ⟨target, ?_, inBody⟩
    simp only [loopBack, loop.isCondition, ↓reduceIte]
    have found : ((graph.node source).successors.find? fun edge =>
        (edge.branch = -1 ∨ edge.branch = result) && edge.isLoopBack).isSome :=
      List.find?_isSome.mpr ⟨_, loop.mem_successors, by simp⟩
    obtain ⟨edge, isFirst⟩ := Option.isSome_iff_exists.mp found
    have taken := List.find?_some isFirst
    simp only [Bool.and_eq_true] at taken
    rw [isFirst, (loop.mem_loopBack (List.mem_of_find?_eq_some isFirst) taken.2).2]
    rfl

end OneLoop

end TaskGraph

/-! ## A skipped condition -/

/-- Loop-back edges along which the frame is about to skip. -/
def Frame.straying : Frame → Nat
  | .cascading _ todo => todo.countP (·.isLoopBack)
  | _ => 0

/-- The frame skips along a loop-back edge next. -/
def Frame.strays : Frame → Nat
  | .cascading _ (edge :: _) => if edge.isLoopBack then 1 else 0
  | _ => 0

/-- Only a skip begins a cascade. -/
theorem Frame.fire_straying {graph : TaskGraph} {callables : Callables} {inlineFree : Bool}
    {shared : Shared} {frame : Frame} {effect : Effect} (walks : frame.Walks graph)
    (plain : ∀ node, (shared.node node).type ≠ .subflow)
    (notSkipped : ∀ node, frame ≠ .skipped node)
    (fired : frame.fire callables inlineFree shared = some effect) :
    (effect.frames.map Frame.straying).sum + frame.strays ≤ frame.straying := by
  cases frame with
  | calling node =>
      have called : effect = { shared := (executeFn callables shared node).1
                               frames := (executeFn callables shared node).2 } := by
        cases fired
        rfl
      subst called
      simp [(executeFn_of_callsNoSplice fun isSubflow => absurd isSubflow (plain node)).1,
        Frame.straying, Frame.strays]
  | dispatching node roots => exact absurd walks id
  | joining node => exact absurd walks id
  | completing node =>
      cases fired
      simp only [unblockSuccessors]
      split <;> [split; skip] <;> simp [Frame.straying, Frame.strays]
  | unblocking node branch todo unblockedCount =>
      cases todo with
      | nil => cases fired; simp [Frame.straying, Frame.strays]
      | cons edge todo =>
          simp only [Frame.fire] at fired
          split at fired <;> [skip; split at fired] <;> cases fired
          · simp only [unblockActive]
            split <;> simp [Frame.straying, Frame.strays]
          · simp [Frame.straying, Frame.strays]
          · simp only [unblockSkipped]
            split <;> simp [Frame.straying, Frame.strays]
  | handingOver node branch succ todo unblockedCount =>
      cases fired
      simp only [handOver]
      split <;> [skip; split <;> [split; skip]] <;> simp [Frame.straying, Frame.strays]
  | skipped node => exact absurd rfl (notSkipped node)
  | cascading node todo =>
      cases todo with
      | nil => exact absurd rfl walks.1
      | cons edge todo =>
          cases fired
          have left : ((cascade node todo).map Frame.straying).sum ≤
              todo.countP (·.isLoopBack) := by
            cases todo <;> simp [cascade, Frame.straying]
          simp only [Frame.straying, Frame.strays, List.countP_cons]
          refine Nat.add_le_add_right (le_trans ?_ left) _
          simp only [unblockSkipped]
          split <;> simp [Frame.straying]
  | resetting node target todo cycleCount =>
      cases todo with
      | nil => cases fired; simp [Frame.straying, Frame.strays]
      | cons curr todo =>
          simp only [Frame.fire] at fired
          split at fired <;> cases fired <;> simp [Frame.straying, Frame.strays]
  | _ => cases fired; simp [Frame.straying, Frame.strays]

/-- The counter of the target is known, and at most one cascade is to come to it from a
condition that was skipped; or it came to it. -/
def StrayOnce (condition target : NodeId) (tally : Tally) (frames : Multiset Frame) : Prop :=
  tally.kept target ∧ (frames.map Frame.straying).sum ≤ tally.closed condition ∨
    (frames.map Frame.straying).sum = 0 ∧ 1 ≤ tally.closed condition

namespace TaskGraph.OneLoop

variable {graph : TaskGraph} {condition target : NodeId} {branch : Int} {callables : Callables}
  {threads : Nat}

/-- The loop-back edges of the graph. -/
def allowed (condition target : NodeId) (source goal : NodeId) : Prop :=
  source = condition ∧ goal = target

theorem count_loopBack (loop : graph.OneLoop condition target branch) (node : NodeId) :
    (graph.node node).successors.countP (·.isLoopBack) = if node = condition then 1 else 0 := by
  rw [List.countP_eq_length_filter, loop.single]
  split <;> rfl

theorem strayOnce (loop : graph.OneLoop condition target branch) :
    Tally.Rule graph callables (allowed condition target) (StrayOnce condition target) where
  opening := .inl ⟨loop.looped.targets condition _ loop.mem_successors, Nat.zero_le _⟩
  start := fun kept => by simpa [StrayOnce, Frame.straying] using kept
  fire := by
    intro tally next shared ready frame rest inlineFree effect looping kept laps fired
    have account := looping.account
    have distinct := loop.looped.distinct
    have plain (node : NodeId) : (shared.node node).type ≠ .subflow :=
      (account.shape node).1 ▸ loop.plain node
    have walks := account.walks frame (Multiset.mem_cons_self _ _)
    simp only [StrayOnce, Multiset.map_cons, Multiset.sum_cons, Multiset.map_add, Multiset.sum_add,
      Multiset.map_coe, Multiset.sum_coe] at kept ⊢
    by_cases isSkipped : ∃ node, frame = .skipped node
    · obtain ⟨node, rfl⟩ := isSkipped
      have isOpen := (account.of_carried (show 0 < List.count node _ by simp) distinct).2.1
      cases laps with
      | follows keeps =>
          cases fired
          have begun : ((cascade node (shared.node node).successors).map Frame.straying).sum =
              if node = condition then 1 else 0 := by
            rw [(account.shape node).2.2, ← loop.count_loopBack]
            cases (graph.node node).successors <;> simp [cascade, Frame.straying]
          have closed := keeps.closed condition
          have known (isKept : tally.kept target) : next.kept target :=
            (keeps.kept target isKept).resolve_right id
          rw [begun]
          simp only [Frame.straying, Nat.zero_add] at kept
          split
          next same =>
            have skipped := keeps.skipped condition (same ▸ rfl)
            rw [same] at isOpen
            rcases kept with ⟨isKept, few⟩ | ⟨-, some⟩
            · exact .inl ⟨known isKept, by omega⟩
            · omega
          next =>
            rcases kept with ⟨isKept, few⟩ | ⟨none, some⟩
            · exact .inl ⟨known isKept, by omega⟩
            · exact .inr ⟨by omega, by omega⟩
    · push Not at isSkipped
      have left := Frame.fire_straying walks plain isSkipped fired
      cases laps with
      | rearms permitted =>
          have isOpen := (account.of_carried (show 0 < List.count condition _ by simp [permitted.1])
            distinct).2.1
          simp only [Frame.straying] at left kept
          rcases kept with ⟨isKept, few⟩ | ⟨-, some⟩
          · exact .inl ⟨isKept, by omega⟩
          · omega
      | follows keeps =>
          have closed := keeps.closed condition
          rcases kept with ⟨isKept, few⟩ | ⟨none, some⟩
          · rcases keeps.kept target isKept with stillKept | touches
            · exact .inl ⟨stillKept, by omega⟩
            · have single := account.closed_le_one distinct condition
              cases frame with
              | cascading node todo =>
                  cases todo with
                  | nil => exact absurd touches id
                  | cons edge todo =>
                      simp only [Frame.strays, touches.1, ↓reduceIte] at left
                      exact .inr ⟨by omega, by omega⟩
              | resetting source goal todo cycleCount =>
                  cases todo with
                  | nil => exact absurd touches id
                  | cons curr todo =>
                      have isTarget :=
                        (looping.rearms _ (Multiset.mem_cons_self _ _)).1.2
                      exact absurd isTarget.symm touches.2
              | _ => exact absurd touches id
          · exact .inr ⟨by omega, by omega⟩

/-- What every step keeps. -/
def Keeps (condition target : NodeId) (tally : Tally) (frames : Multiset Frame) : Prop :=
  (∀ node, tally.extra node = 0) ∧ StrayOnce condition target tally frames

theorem rule (loop : graph.OneLoop condition target branch) :
    Tally.Rule graph callables (allowed condition target) (Keeps condition target) :=
  .and (.noExtra fun _ _ ⟨isCondition, isTarget⟩ =>
    isCondition ▸ isTarget ▸ loop.entered) loop.strayOnce

theorem rearmed (loop : graph.OneLoop condition target branch) :
    graph.Rearmed (allowed condition target) := by
  rintro source goal ⟨rfl, rfl⟩
  exact ⟨loop.contained.collects loop.acyclic, loop.contained.left⟩

/-- Every call takes the loop-back edge only, and skips along it only when its target is at
rest. -/
theorem guarded (loop : graph.OneLoop condition target branch) {tally : Tally} {shared : Shared}
    {ready : Multiset NodeId} {frame : Frame} {rest : Multiset Frame}
    (looping : Looping graph callables (allowed condition target) tally
      ⟨shared, ready, frame ::ₘ rest⟩)
    (kept : Keeps condition target tally (frame ::ₘ rest)) :
    frame.Guarded (allowed condition target) shared := by
  have account := looping.account
  cases frame with
  | completing node =>
      intro goal loops
      obtain ⟨-, edge, member, isLoop, -, rfl⟩ := exists_loopBack loops
      rw [(account.shape node).2.2] at member
      obtain ⟨isCondition, isEdge⟩ := loop.mem_loopBack member isLoop
      exact ⟨isCondition, isEdge ▸ rfl⟩
  | cascading node todo =>
      cases todo with
      | nil => trivial
      | cons edge todo =>
          intro isLoop
          have walks := account.walks _ (Multiset.mem_cons_self _ _)
          obtain ⟨-, isEdge⟩ := loop.mem_loopBack (walks.2 edge (List.mem_cons_self ..)) isLoop
          have stray := kept.2
          simp only [StrayOnce, Multiset.map_cons, Multiset.sum_cons, Frame.straying,
            List.countP_cons, isLoop, ↓reduceIte] at stray
          have closed : tally.closed condition = 1 := by
            have single := account.closed_le_one loop.looped.distinct condition
            omega
          have free : tally.need condition = 0 := by
            have passage := account.passage condition
            have single := List.nodup_iff_count_le_one.mp loop.looped.distinct condition
            exact waiting_eq_zero.mp (by omega)
          have targetFree : tally.need target = 0 := by
            obtain same | onward := Relation.reflTransGen_iff_eq_or_transGen.mp loop.path
            · exact same ▸ free
            · exact (account.closed_before loop.looped looping.own free onward).2
          have known : tally.kept target := by
            rcases stray with ⟨isKept, -⟩ | ⟨none, -⟩
            · exact isKept
            · omega
          have packed := account.packed target (.inr known)
          rw [targetFree] at packed
          have isTarget : edge.target = target := isEdge ▸ rfl
          refine .inl ?_
          rw [isTarget]
          simp only [Packed, u32] at packed
          omega
  | _ => trivial

/-- No step of a graph with a structured loop needs to be guarded. -/
theorem guarded_of_reachable (loop : graph.OneLoop condition target branch)
    {state : RunState threads}
    (reachable : (graph.machine callables threads).ReachableBy RunState.Prepared state) :
    (graph.machine callables threads).ReachableBy
      (RunState.Guarded (allowed condition target)) state := by
  refine reachable.strengthen fun state action next before prepared _ => ?_
  cases action with
  | prepareRun => exact prepared rfl
  | fire index =>
      intro frame onTop
      rcases looping_of_reachable loop.looped loop.rearmed loop.rule before with
        ⟨-, -, -, noFrames⟩ | ⟨-, tally, looping, kept⟩
      · have member : frame ∈ state.load.frames :=
          RunState.mem_frames.mpr ⟨index, List.mem_of_mem_take onTop⟩
        exact absurd (noFrames ▸ member) (Multiset.notMem_zero frame)
      · have member : frame ∈ state.load.frames :=
          RunState.mem_frames.mpr ⟨index, List.mem_of_mem_take onTop⟩
        obtain ⟨rest, split⟩ := Multiset.exists_cons_of_mem member
        have here : Looping graph callables (allowed condition target) tally
            ⟨state.shared, state.load.ready, frame ::ₘ rest⟩ := split ▸ looping
        exact loop.guarded here (split ▸ kept)
  | _ => trivial

end TaskGraph.OneLoop

end LightFlow
