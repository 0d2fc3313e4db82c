import LightFlow.Task.Calls

/-!
# Walks over successor lists

Who decrements whom.  A released node decrements the target of every edge in its
successor list once, and nobody else does so on its behalf; skipping stays among the
nodes of the graph itself when subflows contain no conditions.
-/

namespace LightFlow

/-- How often `target` was decremented on behalf of `source`. -/
def decrements (source target : NodeId) (log : List Event) : Nat :=
  log.count (.decremented source target true) + log.count (.decremented source target false)

namespace Frame

/-- The node over whose successors the frame walks. -/
@[simp] def walker : Frame → Option NodeId
  | .unblocking node _ _ _ | .handingOver node _ _ _ _ | .cascading node _ => some node
  | _ => none

/-- Decrements of `target` the frame has yet to make on behalf of `source`. -/
def walks (source target : NodeId) (frame : Frame) : Nat :=
  if frame.walker = some source then edgesInto target frame.todo else 0

/-- A frame that skips, or may decide to, belongs to a node of the graph, and so do the
targets it may skip. -/
def Outer (order : List NodeId) : Frame → Prop
  | .skipping node | .skipped node => node ∈ order
  | .cascading node todo => node ∈ order ∧ ∀ edge ∈ todo, edge.target ∈ order
  | .unblocking node branch todo _ | .handingOver node branch _ todo _ =>
      branch = none ∨ node ∈ order ∧ ∀ edge ∈ todo, edge.target ∈ order
  | _ => True

end Frame

section Walks

variable (graph : TaskGraph) (callables : Callables)

/-- Subflows are spliced, and consist of static tasks and further subflows. -/
def Nested : Prop :=
  ∀ parent, (callables.subflow parent).Sound ∧ (callables.subflow parent).mode = .spliced ∧
    ∀ child ∈ (callables.subflow parent).nodes, child.type = .static ∨ child.type = .subflow

/-- What the log says about decrements and skipping. -/
structure Walks (load : Workload) : Prop where
  walked : ∀ source target, decrements source target load.shared.log +
      (load.frames.map (Frame.walks source target)).sum =
    passed .released source load.shared.log *
      edgesInto target (load.shared.node source).successors
  outer : ∀ frame ∈ load.frames, frame.Outer graph.order
  skips : ∀ node, .skipped node ∈ load.shared.log → node ∈ graph.order
  inactive : ∀ source target, .decremented source target false ∈ load.shared.log →
    source ∈ graph.order

/-- What a step does to the walks, read off its effect. -/
structure Walk (shared : Shared) (frame : Frame) (effect : Effect) (events : List Event) :
    Prop where
  log : effect.shared.log = events ++ shared.log
  successors : ∀ query, (effect.shared.node query).successors = (shared.node query).successors
  walked : ∀ source target, decrements source target events +
      (effect.frames.map (Frame.walks source target)).sum =
    frame.walks source target +
      passed .released source events * edgesInto target (shared.node source).successors
  outer : ∀ after ∈ effect.frames, after.Outer graph.order
  skips : ∀ node, .skipped node ∈ events → node ∈ graph.order
  inactive : ∀ source target, .decremented source target false ∈ events → source ∈ graph.order

variable {graph callables}

@[simp] theorem decrements_append (source target : NodeId) (newer older : List Event) :
    decrements source target (newer ++ older) =
      decrements source target newer + decrements source target older := by
  simp only [decrements, List.count_append]
  omega

theorem Walks.of_walk {shared : Shared} {ready : Multiset NodeId} {frame : Frame}
    {rest : Multiset Frame} {effect : Effect} {events : List Event}
    (walks : Walks graph ⟨shared, ready, frame ::ₘ rest⟩)
    (walk : Walk graph shared frame effect events) :
    Walks graph (effect.load ready rest) where
  walked := fun source target => by
    have before := walks.walked source target
    have change := walk.walked source target
    simp only [Multiset.map_cons, Multiset.sum_cons] at before
    simp only [Multiset.map_add, Multiset.sum_add, Multiset.map_coe, Multiset.sum_coe,
      walk.log, walk.successors, decrements_append, passed_append, Nat.add_mul]
    omega
  outer := fun after member => by
    rcases Multiset.mem_add.mp member with isNew | isOld
    · exact walk.outer after (Multiset.mem_coe.mp isNew)
    · exact walks.outer after (Multiset.mem_cons_of_mem isOld)
  skips := fun node skipped => by
    rcases List.mem_append.mp (walk.log ▸ skipped) with isNew | isOld
    · exact walk.skips node isNew
    · exact walks.skips node isOld
  inactive := fun source target decremented => by
    rcases List.mem_append.mp (walk.log ▸ decremented) with isNew | isOld
    · exact walk.inactive source target isNew
    · exact walks.inactive source target isOld

/-! ## One lemma for each kind of step -/

variable {need got : NodeId → Nat} {shared : Shared} {ready : Multiset NodeId}
  {rest : Multiset Frame} {node : NodeId}

/-- A step that notes at most what the scheduler was told, and neither walks nor skips. -/
theorem Walk.silent {frame : Frame} {effect : Effect} {events : List Event}
    (log : effect.shared.log = events ++ shared.log)
    (quiet : ∀ event ∈ events, event.isNote ∨ (∃ node, event = .finished node) ∨
      ∃ node ∈ graph.order, event = .skipped node)
    (successors : ∀ query, (effect.shared.node query).successors =
      (shared.node query).successors)
    (walked : ∀ source target, (effect.frames.map (Frame.walks source target)).sum =
      frame.walks source target)
    (outer : ∀ after ∈ effect.frames, after.Outer graph.order) :
    Walk graph shared frame effect events := by
  have absent {event : Event} (loud : event.isNote = false)
      (notFinished : ∀ node, event ≠ .finished node) (notSkipped : ∀ node, event ≠ .skipped node) :
      event ∉ events := fun member => by
    rcases quiet event member with isNote | ⟨node, equal⟩ | ⟨node, -, equal⟩
    · simp [loud] at isNote
    · exact notFinished node equal
    · exact notSkipped node equal
  have noDecrement (source target : NodeId) (active : Bool) :
      .decremented source target active ∉ events :=
    absent rfl (fun _ => nofun) fun _ => nofun
  have noRelease (source : NodeId) : passed .released source events = 0 := by
    rw [passed, List.countP_eq_zero]
    intro event member
    rcases quiet event member with isNote | ⟨node, rfl⟩ | ⟨node, -, rfl⟩
    · cases event <;> simp_all [Event.isNote, Event.passes]
    · simp [Event.passes]
    · simp [Event.passes]
  exact
    { log, successors, outer
      walked := fun source target => by
        rw [decrements, List.count_eq_zero_of_not_mem (noDecrement source target true),
          List.count_eq_zero_of_not_mem (noDecrement source target false), noRelease,
          walked source target]
        omega
      skips := fun node skipped => by
        rcases quiet _ skipped with isNote | ⟨other, equal⟩ | ⟨other, member, equal⟩
        · simp [Event.isNote] at isNote
        · cases equal
        · cases equal
          exact member
      inactive := fun source target member => absurd member (noDecrement source target false) }

/-- The frame that goes on after a decrement, and what the decrement decided. -/
theorem Walk.decrement {frame : Frame} {edge : SuccessorEdge} {todo : List SuccessorEdge}
    {active : Bool} {after : Shared} {frames : List Frame}
    (log : after.log = .decremented node edge.target active :: shared.log)
    (successors : ∀ query, (after.node query).successors = (shared.node query).successors)
    (walker : frame.walker = some node) (first : frame.todo = edge :: todo)
    (goesOn : ∀ source target, (frames.map (Frame.walks source target)).sum =
      if source = node then edgesInto target todo else 0)
    (outer : ∀ after ∈ frames, after.Outer graph.order)
    (inactive : active = false → node ∈ graph.order) :
    Walk graph shared frame { shared := after, frames }
      [.decremented node edge.target active] where
  log := log
  successors := successors
  walked := fun source target => by
    rw [goesOn, Frame.walks, walker, first, edgesInto_cons]
    by_cases isSource : source = node
    · subst isSource
      cases active <;> simp [decrements, Event.passes, List.count_cons, Nat.add_comm]
    · cases active <;> simp [decrements, Event.passes, isSource, Ne.symm isSource]
  outer := outer
  skips := by simp
  inactive := fun source target member => by
    simp only [List.mem_singleton, Event.decremented.injEq] at member
    exact member.1 ▸ inactive member.2.2.symm

theorem mem_order_of_live {log : List Event} {id : Nat}
    (inRun : .node id ∈ live graph callables log) : .node id ∈ graph.order := by
  induction log with
  | nil => exact inRun
  | cons event log ih =>
      cases event with
      | spliced parent =>
          rcases List.mem_append.mp inRun with isMember | isOld
          · rcases ChildGraph.mem_members.mp isMember with ⟨index, -, equal⟩ | ⟨-, equal⟩ <;>
              cases equal
          · exact ih isOld
      | _ => exact ih inRun

/-- Conditions are nodes of the graph itself. -/
theorem Nested.not_condition (nested : Nested callables) {node : NodeId}
    (isCondition : (declared graph callables node).type = .condition) :
    ∃ id, node = .node id := by
  cases node with
  | node id => exact ⟨id, rfl⟩
  | child parent index =>
      have childType : (((callables.subflow parent).nodes.getD index {}).type) = .condition :=
        isCondition
      by_cases inBounds : index < (callables.subflow parent).nodes.length
      · rw [List.getD_eq_getElem _ _ inBounds] at childType
        rcases (nested parent).2.2 _ (List.getElem_mem inBounds) with isStatic | isSubflow
        · simp [isStatic] at childType
        · simp [isSubflow] at childType
      · rw [List.getD_eq_default _ _ (Nat.le_of_not_lt inBounds)] at childType
        cases childType
  | exit parent => cases isCondition

theorem Walk.completing (sound : graph.Sound) (nested : Nested callables)
    (ledger : Ledger graph callables need got ⟨shared, ready, .completing node ::ₘ rest⟩) :
    Walk graph shared (.completing node)
      { shared :=
          ((shared.setState node .completed).record (.completed node)).record (.released node)
        frames := [unblockSuccessors shared.node node] }
      [.released node, .completed node] := by
  have inRun : node ∈ live graph callables shared.log :=
    ledger.mem_live_of_owes (show 0 < List.count node (Frame.owes .settled _) by simp)
  have forward := ledger.successors_forward sound inRun
  rw [unblockSuccessors_of_forward forward]
  refine
    { log := rfl
      successors := fun query => by simp [Shared.setState_node]
      walked := fun source target => ?walked
      outer := fun after member => ?outer
      skips := by simp
      inactive := by simp }
  case walked =>
    by_cases isSource : source = node
    · subst isSource
      simp [decrements, Event.passes, Frame.walks]
    · simp [decrements, Event.passes, Frame.walks, Ne.symm isSource]
  case outer =>
    rw [List.mem_singleton] at member
    subst member
    by_cases isCondition : (shared.node node).type = .condition
    · obtain ⟨sameType, -, successors⟩ := ledger.shape node inRun
      obtain ⟨id, rfl⟩ := nested.not_condition (sameType ▸ isCondition)
      have inOrder := mem_order_of_live inRun
      refine .inr ⟨inOrder, fun edge inEdges => ?_⟩
      dsimp only at successors
      rw [successors] at inEdges
      split at inEdges
      · simp at inEdges
      · exact sound.targets _ inOrder edge inEdges
    · exact .inl (if_neg isCondition)

theorem cascade_walks (source target : NodeId) (todo : List SuccessorEdge) :
    ((cascade node todo).map (Frame.walks source target)).sum =
      if source = node then edgesInto target todo else 0 := by
  cases todo with
  | nil => simp [cascade]
  | cons edge todo => simp [cascade, Frame.walks, eq_comm]

theorem cascade_outer {todo : List SuccessorEdge} {order : List NodeId} (member : node ∈ order)
    (targets : ∀ edge ∈ todo, edge.target ∈ order) :
    ∀ after ∈ cascade node todo, after.Outer order := by
  cases todo with
  | nil => simp [cascade]
  | cons edge todo => simpa [cascade, Frame.Outer] using ⟨member, by simpa using targets⟩

theorem Walk.skipped (sound : graph.Sound) (inOrder : node ∈ graph.order)
    (ledger : Ledger graph callables need got ⟨shared, ready, .skipped node ::ₘ rest⟩) :
    Walk graph shared (.skipped node)
      { shared := (shared.onTaskCompleted node).record (.released node)
        frames := cascade node (shared.node node).successors }
      [.released node, .finished node] := by
  have inRun : node ∈ live graph callables shared.log :=
    ledger.mem_live_of_owes (show 0 < List.count node (Frame.owes .released _) by simp)
  refine
    { log := rfl
      successors := by simp
      walked := fun source target => ?_
      outer := cascade_outer inOrder fun edge inEdges => ?_
      skips := by simp
      inactive := by simp }
  · rw [cascade_walks]
    by_cases isSource : source = node
    · subst isSource
      simp [decrements, Event.passes, Frame.walks]
    · simp [decrements, Event.passes, Frame.walks, isSource, Ne.symm isSource]
  · have successors := (ledger.shape node inRun).2.2
    dsimp only at successors
    rw [successors] at inEdges
    split at inEdges
    · simp at inEdges
    · rw [declared_of_mem_order sound inOrder] at inEdges
      exact sound.targets node inOrder edge inEdges

/-- An inactive decrement, by a frame that goes on with `goingOn`. -/
theorem Walk.skippedEdge {frame : Frame} {edge : SuccessorEdge} {todo : List SuccessorEdge}
    {goingOn : List Frame} (walker : frame.walker = some node) (first : frame.todo = edge :: todo)
    (goesOn : ∀ source target, (goingOn.map (Frame.walks source target)).sum =
      if source = node then edgesInto target todo else 0)
    (outer : ∀ after ∈ goingOn, after.Outer graph.order)
    (inOrder : node ∈ graph.order) (target : edge.target ∈ graph.order) :
    Walk graph shared frame (unblockSkipped shared node edge.target goingOn)
      [.decremented node edge.target false] := by
  refine Walk.decrement rfl (fun query => ?_) walker first (fun source target => ?_)
    (fun after member => ?_) fun _ => inOrder
  · simp [Shared.setInDegree_node]
  · rw [← goesOn]
    split <;> simp [Frame.walks]
  · split at member
    · exact outer after member
    · rcases List.mem_cons.mp member with rfl | old
      · trivial
      · exact outer after old
    · rcases List.mem_cons.mp member with rfl | old
      · exact target
      · exact outer after old

theorem Walk.active {branch : Option Int} {edge : SuccessorEdge} {todo : List SuccessorEdge}
    {unblockedCount : Nat}
    (outer : (Frame.unblocking node branch (edge :: todo) unblockedCount).Outer graph.order) :
    Walk graph shared (.unblocking node branch (edge :: todo) unblockedCount)
      (unblockActive shared node branch edge.target todo unblockedCount)
      [.decremented node edge.target true] := by
  have unfolded : branch = none ∨ node ∈ graph.order ∧
      ∀ other ∈ edge :: todo, other.target ∈ graph.order := outer
  have later := unfolded.imp_right fun part =>
    And.intro part.1 fun other inTodo => part.2 other (List.mem_cons_of_mem edge inTodo)
  refine Walk.decrement rfl (fun query => ?_) rfl (show Frame.todo _ = edge :: todo from rfl)
    (fun source target => ?_) (fun after member => ?_) nofun
  · simp [Shared.setInDegree_node]
  · split <;> simp [Frame.walks, eq_comm]
  · rw [List.mem_singleton] at member
    subst member
    split <;> exact later

theorem Walk.handingOver {branch : Option Int} {succ : NodeId} {todo : List SuccessorEdge}
    {unblockedCount : Nat} (inlineFree : Bool)
    (outer : (Frame.handingOver node branch succ todo unblockedCount).Outer graph.order) :
    ∃ events, Walk graph shared (.handingOver node branch succ todo unblockedCount)
      (handOver shared inlineFree node branch succ todo unblockedCount) events := by
  have same (source target : NodeId) (count : Nat) :
      ([Frame.unblocking node branch todo count].map (Frame.walks source target)).sum =
        Frame.walks source target (.handingOver node branch succ todo unblockedCount) := by
    simp [Frame.walks]
  have goesOn (count : Nat) :
      ∀ after ∈ [Frame.unblocking node branch todo count], after.Outer graph.order := by
    simpa [Frame.Outer] using outer
  simp only [handOver]
  split
  · exact ⟨[], .silent rfl (by simp) (fun _ => rfl) (fun _ _ => same ..) (goesOn _)⟩
  · split
    · split
      · exact ⟨[.notified _, .scheduled _ _], .silent rfl (by simp [Event.isNote]) (fun _ => rfl)
          (fun _ _ => same ..) (goesOn _)⟩
      · exact ⟨[.scheduled _ _], .silent rfl (by simp [Event.isNote]) (fun _ => rfl)
          (fun _ _ => same ..) (goesOn _)⟩
    · exact ⟨[.scheduled _ _], .silent rfl (by simp [Event.isNote]) (fun _ => rfl)
        (fun _ _ => same ..) (goesOn _)⟩

theorem Walk.calling (noSplice : CallsNoSplice callables shared node) :
    let result := executeFn callables shared node
    Walk graph shared (.calling node) { shared := result.1, frames := result.2 }
      [.executed node] := by
  obtain ⟨frames, log, -, nodes⟩ := executeFn_of_callsNoSplice noSplice
  refine
    { log
      successors := fun query => ?_
      walked := fun source target => ?_
      outer := ?_
      skips := by simp
      inactive := by simp }
  · obtain ⟨userData, stored, -⟩ := nodes query
    rw [stored]
  · simp [frames, decrements, Frame.walks, Event.passes]
  · simp [frames, Frame.Outer]

/-- Every step that splices nothing keeps the walks. -/
theorem Walks.fire {inlineFree : Bool} {frame : Frame} {effect : Effect} (sound : graph.Sound)
    (nested : Nested callables)
    (ledger : Ledger graph callables need got ⟨shared, ready, frame ::ₘ rest⟩)
    (walks : Walks graph ⟨shared, ready, frame ::ₘ rest⟩)
    (noSplice : ∀ node, frame = .calling node → CallsNoSplice callables shared node)
    (fired : frame.fire callables inlineFree shared = some effect) :
    Walks graph (effect.load ready rest) := by
  have frameForward := ledger.forward _ (Multiset.mem_cons_self _ _)
  have outer := walks.outer _ (Multiset.mem_cons_self _ _)
  suffices walk : ∃ events, Walk graph shared frame effect events by
    obtain ⟨events, walk⟩ := walk
    exact walks.of_walk walk
  cases frame with
  | executing node =>
      cases fired
      exact ⟨[], .silent rfl (by simp) (by simp [Shared.setState_node])
        (by simp [Frame.walks]) (by simp [Frame.Outer])⟩
  | calling node =>
      cases fired
      exact ⟨_, .calling (noSplice node rfl)⟩
  | dispatching node roots =>
      cases roots with
      | nil =>
          cases fired
          refine ⟨[], .silent rfl (by simp) (fun _ => rfl) (fun source target => ?_) ?_⟩
          · split <;> simp [Frame.walks]
          · split <;> simp [Frame.Outer]
      | cons root roots =>
          cases fired
          exact ⟨[.scheduled root true], .silent rfl (by simp [Event.isNote]) (fun _ => rfl)
            (by simp [Frame.walks]) (by simp [Frame.Outer])⟩
  | joining node =>
      simp only [Frame.fire] at fired
      split at fired
      · cases fired
        exact ⟨[], .silent rfl (by simp) (fun _ => rfl) (by simp [Frame.walks])
          (by simp [Frame.Outer])⟩
      · simp at fired
  | completing node =>
      cases fired
      exact ⟨_, .completing sound nested ledger⟩
  | unblocking node branch todo unblockedCount =>
      cases todo with
      | nil =>
          cases fired
          by_cases some : 0 < unblockedCount
          · simp only [some, ↓reduceIte]
            exact ⟨[.notified unblockedCount], .silent rfl (by simp [Event.isNote])
              (fun _ => rfl) (by simp [Frame.walks]) (by simp [Frame.Outer])⟩
          · simp only [some, ↓reduceIte]
            exact ⟨[], .silent rfl (by simp) (fun _ => rfl) (by simp [Frame.walks])
              (by simp [Frame.Outer])⟩
      | cons edge todo =>
          simp only [Frame.Forward, Frame.todo, List.forall_mem_cons] at frameForward
          simp only [Frame.fire, frameForward.1] at fired
          split at fired
          next taken =>
            cases fired
            exact ⟨_, .active outer⟩
          next notTaken =>
            cases fired
            rcases outer with noBranch | ⟨inOrder, targets⟩
            · subst noBranch
              exact absurd rfl notTaken
            · rw [List.forall_mem_cons] at targets
              refine ⟨_, .skippedEdge rfl rfl (fun source target => ?_) (fun after member => ?_)
                inOrder targets.1⟩
              · simp [Frame.walks, eq_comm]
              · rw [List.mem_singleton] at member
                subst member
                exact .inr ⟨inOrder, targets.2⟩
  | handingOver node branch succ todo unblockedCount =>
      cases fired
      exact Walk.handingOver inlineFree outer
  | finishing node =>
      cases fired
      exact ⟨[.finished node], .silent rfl (by simp) (fun _ => rfl) (by simp [Frame.walks])
        (by simp)⟩
  | skipping node =>
      cases fired
      refine ⟨[.skipped node], .silent rfl (fun event member => ?_) (by simp [Shared.setState_node])
        (by simp [Frame.walks]) ?_⟩
      · exact .inr (.inr ⟨node, outer, List.mem_singleton.mp member⟩)
      · simpa [Frame.Outer] using outer
  | skipped node =>
      cases fired
      exact ⟨_, .skipped sound outer ledger⟩
  | cascading node todo =>
      cases todo with
      | nil => exact absurd rfl frameForward.1
      | cons edge todo =>
          cases fired
          obtain ⟨inOrder, targets⟩ := outer
          rw [List.forall_mem_cons] at targets
          exact ⟨_, .skippedEdge rfl rfl (fun source target => cascade_walks ..)
            (cascade_outer inOrder targets.2) inOrder targets.1⟩
  | scheduling node =>
      cases fired
      exact ⟨[.scheduled node true], .silent rfl (by simp [Event.isNote]) (fun _ => rfl)
        (by simp [Frame.walks]) (by simp)⟩
  | resetting node target todo cycleCount => exact absurd frameForward id
  | resettingState node target curr todo cycleCount => exact absurd frameForward id
  | rescheduling node target => exact absurd frameForward id

/-- A splice moves successors nobody has walked over yet. -/
theorem Walks.splice (sound : graph.Sound)
    (ledger : Ledger graph callables need got ⟨shared, ready, .calling node ::ₘ rest⟩)
    (walks : Walks graph ⟨shared, ready, .calling node ::ₘ rest⟩)
    (isSubflow : (shared.node node).type = .subflow)
    (nonempty : (callables.subflow node).nodes ≠ [])
    (room : shared.m_pendingTasks + (callables.subflow node).nodes.length + 1 < 2 ^ 32) :
    Walks graph
      (Effect.load
        { shared := (executeFn callables shared node).1
          frames := (executeFn callables shared node).2 } ready rest) := by
  obtain ⟨frames, log, store, -⟩ := executeFn_of_splices isSubflow nonempty room
  generalize (executeFn callables shared node).1 = after at *
  generalize (executeFn callables shared node).2 = afterFrames at *
  subst frames
  have unreleased : passed .released node shared.log = 0 := by
    by_contra past
    simpa using ledger.count_owes_eq_zero_of_passed (Nat.pos_of_ne_zero past)
  refine
    { walked := fun source target => ?walked
      outer := fun frame member => ?outer
      skips := fun query skipped => walks.skips query (by simpa [log] using skipped)
      inactive := fun source target member =>
        walks.inactive source target (by simpa [log] using member) }
  case walked =>
    have before := walks.walked source target
    have sameStore : passed .released source shared.log *
          edgesInto target (after.node source).successors =
        passed .released source shared.log *
          edgesInto target (shared.node source).successors := by
      by_cases past : passed .released source shared.log = 0
      · rw [past, Nat.zero_mul, Nat.zero_mul]
      · have inRun : source ∈ live graph callables shared.log := by
          by_contra outside
          exact past ((ledger.outside outside).2.2 .released).2
        rw [store, ledger.store_of_live sound inRun fun same => past (same ▸ unreleased)]
    simpa [log, decrements, Event.passes, Frame.walks, sameStore] using before
  case outer =>
    rcases Multiset.mem_add.mp member with isNew | isOld
    · rw [Multiset.mem_coe, List.mem_singleton] at isNew
      subst isNew
      trivial
    · exact walks.outer frame (Multiset.mem_cons_of_mem isOld)

/-- Every step of the workload keeps the walks. -/
theorem Walks.step (sound : graph.Sound) (nested : Nested callables) {load next : Workload}
    (ledger : Ledger graph callables need got load) (walks : Walks graph load)
    (stepped : Workload.Step callables (Admits callables) load next) :
    Walks graph next := by
  cases stepped with
  | start =>
      exact
        { walks with
          walked := by simpa [Frame.walks] using walks.walked
          outer := fun frame member => by
            rcases Multiset.mem_cons.mp member with rfl | isOld
            · trivial
            · exact walks.outer frame isOld }
  | @note shared ready frames event isNote =>
      have absent (other : Event) (real : other.isNote = false) : other ≠ event := by
        rintro rfl
        simp [isNote] at real
      have samePassed (source : NodeId) : passed .released source (event :: shared.log) =
          passed .released source shared.log := by
        cases event <;> simp_all [Event.isNote, Event.passes]
      exact
        { outer := walks.outer
          walked := by
            simpa only [Shared.record_log, Shared.record_node, decrements, samePassed,
              List.count_cons_of_ne (absent (.decremented _ _ _) rfl).symm] using walks.walked
          skips := by simpa [absent (.skipped _) rfl] using walks.skips
          inactive := by simpa [absent (.decremented _ _ _) rfl] using walks.inactive }
  | @fire shared ready frame rest inlineFree effect admitted fired =>
      by_cases splices : ∃ node, frame = .calling node ∧ ¬ CallsNoSplice callables shared node
      · obtain ⟨node, rfl, splices⟩ := splices
        simp only [CallsNoSplice, Classical.not_imp] at splices
        obtain ⟨-, room⟩ := admitted.splices node rfl splices.1
        have nonempty : (callables.subflow node).nodes ≠ [] := by
          intro empty
          simp [empty, u32] at splices
        cases fired
        exact walks.splice sound ledger splices.1 nonempty room
      · push Not at splices
        exact walks.fire sound nested ledger splices fired

end Walks

end LightFlow
