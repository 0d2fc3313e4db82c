import LightFlow.Task.HandedOver
import LightFlow.Task.Barrier
import LightFlow.Task.Loop

/-!
# Nodes in flight

A node is in flight from the decrement that decides it, or from `prepareRun` for a root, until
`onTaskCompleted` was called for it.  `m_pendingTasks` counts the nodes that were not finished, so
it stays above the nodes in flight as long as no decrement decides a node too many; then a run that
has ended has left nothing to execute.
-/

namespace LightFlow

namespace Frame

/-- The nodes that a frame keeps in flight: its own until it is finished, and those that it is about
to hand over. -/
def inFlight : Frame → List NodeId
  | .executing node | .calling node | .joining node | .completing node | .unblocking node _ _ _
  | .finishing node | .skipping node | .skipped node | .scheduling node | .resetting node _ _ _
  | .resettingState node _ _ _ _ => [node]
  | .dispatching node roots => node :: roots
  | .handingOver node _ succ _ _ => [node, succ]
  | .rescheduling node target => [node, target]
  | .cascading _ _ => []

/-- The frame makes a decrement that decides its target: it is scheduled or skipped. -/
def decides (shared : Shared) (frame : Frame) : Bool :=
  frame.decrements.any fun decrement =>
    (decrement.2.apply (shared.node decrement.1).inDegree).2 ≠ .pending

/-- What a loop-back adds to `m_pendingTasks` fits. -/
def LoopFits (shared : Shared) : Frame → Prop
  | .resetting _ _ [] cycleCount => shared.m_pendingTasks + cycleCount < 2 ^ 32
  | _ => True

instance (shared : Shared) : (frame : Frame) → Decidable (frame.LoopFits shared)
  | .resetting _ _ [] _ => inferInstanceAs (Decidable (_ < _))
  | .resetting _ _ (_ :: _) _ | .calling _ | .executing _ | .dispatching _ _ | .joining _
  | .completing _ | .unblocking _ _ _ _ | .handingOver _ _ _ _ _ | .finishing _ | .skipping _
  | .skipped _ | .cascading _ _ | .scheduling _ | .resettingState _ _ _ _ _
  | .rescheduling _ _ => inferInstanceAs (Decidable True)

/-- A loop-back resets at least the target. -/
def ResetsSome : Frame → Prop
  | .resetting _ _ _ cycleCount | .resettingState _ _ _ _ cycleCount => 0 < cycleCount
  | _ => True

end Frame

/-- How many nodes are in flight: queued, staged, left to `prepareRun` or in a call. -/
def Workload.inFlight (load : Workload) : Nat :=
  Multiset.card load.ready + (load.frames.map fun frame => frame.inFlight.length).sum

section Fire

variable {callables : Callables} {inlineFree : Bool} {shared : Shared} {frame : Frame}
  {effect : Effect}

/-- The call of a node keeps it in flight, and a splice counts the roots that it adds. -/
theorem executeFn_inFlight (node : NodeId) (fits : (Frame.calling node).Fits callables shared) :
    ((executeFn callables shared node).2.map (·.inFlight.length)).sum + shared.m_pendingTasks ≤
      1 + (executeFn callables shared node).1.m_pendingTasks := by
  by_cases splices : CallsNoSplice callables shared node
  · obtain ⟨frames, -, pending, -⟩ := executeFn_of_callsNoSplice splices
    rw [frames, pending]
    exact Nat.le_refl _
  · simp only [CallsNoSplice, Classical.not_imp] at splices
    have nonempty : (callables.subflow node).nodes ≠ [] := by
      intro empty
      simp [empty, u32] at splices
    obtain ⟨frames, -, -, pending⟩ := executeFn_of_splices splices.1 nonempty (fits splices.1)
    have roots := length_spliceRoots_le
      (Subflow.spliceStore shared.node node (callables.subflow node)) node (callables.subflow node)
    rw [frames, pending, List.map_singleton, List.sum_singleton]
    simp only [Frame.inFlight, List.length_cons]
    omega

/-- `decrementSkipped` puts its target in flight when it decides it. -/
theorem unblockSkipped_inFlight (shared : Shared) (node target : NodeId) (onward : List Frame) :
    ((unblockSkipped shared node target onward).frames.map (·.inFlight.length)).sum =
      (onward.map (·.inFlight.length)).sum +
        if (Decrement.skipped.apply (shared.node target).inDegree).2 ≠ .pending then 1 else 0 := by
  have decision : (Decrement.skipped.apply (shared.node target).inDegree).2 =
      (decrementSkipped (shared.node target).inDegree).2 := rfl
  rw [decision]
  cases resolution : (decrementSkipped (shared.node target).inDegree).2 <;>
    simp [unblockSkipped, resolution, Frame.inFlight, Nat.add_comm]

theorem cascade_inFlight (node : NodeId) (todo : List SuccessorEdge) :
    ((cascade node todo).map (·.inFlight.length)).sum = 0 := by
  cases todo <;> rfl

/-- Handing over keeps the node and its successor in flight. -/
theorem handOver_inFlight (shared : Shared) (inlineFree : Bool) (node succ : NodeId)
    (branch : Option Int) (todo : List SuccessorEdge) (count : Nat) :
    (handOver shared inlineFree node branch succ todo count).staged.toList.length +
        (handOver shared inlineFree node branch succ todo count).queued.length +
        ((handOver shared inlineFree node branch succ todo count).frames.map
          (·.inFlight.length)).sum = 2 ∧
      (handOver shared inlineFree node branch succ todo count).shared.m_pendingTasks =
        shared.m_pendingTasks := by
  simp only [handOver]
  split
  · exact ⟨rfl, rfl⟩
  · split
    · split <;> exact ⟨rfl, rfl⟩
    · exact ⟨rfl, rfl⟩

/-- The first access of `unblockSuccessors` keeps the node in flight. -/
theorem unblockSuccessors_inFlight (store : NodeStore) (node : NodeId) :
    (unblockSuccessors store node).inFlight = [node] := by
  simp only [unblockSuccessors]
  split
  next => split <;> rfl
  next => rfl

/-- A frame puts no more nodes in flight than it adds to `m_pendingTasks`, apart from the target of
a decrement that decides it. -/
theorem Frame.inFlight_fire
    (fires : frame.fire callables inlineFree shared = some effect)
    (fits : frame.Fits callables shared) (loopFits : frame.LoopFits shared)
    (resetsSome : frame.ResetsSome) :
    effect.staged.toList.length + effect.queued.length +
        (effect.frames.map (·.inFlight.length)).sum + shared.m_pendingTasks ≤
      frame.inFlight.length + effect.shared.m_pendingTasks +
        if frame.decides shared then 1 else 0 := by
  have finished : shared.m_pendingTasks ≤ 1 + u32Sub shared.m_pendingTasks 1 := by
    rw [u32Sub]
    split <;> omega
  cases frame with
  | executing node =>
      cases fires
      simp [Frame.inFlight]
  | calling node =>
      simp only [Frame.fire, Option.some.injEq] at fires
      subst fires
      refine le_trans ?_ (Nat.le_add_right _ _)
      exact (congrArg (· + _) (Nat.zero_add _)).trans_le (executeFn_inFlight node fits)
  | dispatching node roots =>
      cases roots with
      | nil =>
          cases fires
          simp only [List.map_singleton, List.sum_singleton]
          split <;> simp [Frame.inFlight]
      | cons root roots =>
          cases fires
          simp [Frame.inFlight]
          omega
  | joining node =>
      simp only [Frame.fire] at fires
      split at fires <;> cases fires
      simp [Frame.inFlight]
  | completing node =>
      cases fires
      rw [List.map_singleton, List.sum_singleton, unblockSuccessors_inFlight]
      exact (congrArg (· + _) (Nat.zero_add _)).trans_le (Nat.le_add_right _ _)
  | unblocking node branch todo count =>
      cases todo with
      | nil =>
          cases fires
          simp only [List.map_singleton, List.sum_singleton]
          split <;> simp [Frame.inFlight]
      | cons edge todo =>
          by_cases taken : takes branch edge = true
          · simp only [Frame.fire, if_pos taken, Option.some.injEq] at fires
            subst fires
            cases unblocked : (decrementActive (shared.node edge.target).inDegree).2 <;>
              simp [unblockActive, Frame.decides, Frame.decrements, edgeDecrement, taken,
                Decrement.apply, unblocked, Frame.inFlight]
            omega
          · by_cases isLoopBack : edge.isLoopBack = true
            · simp only [Frame.fire, if_neg taken, if_pos isLoopBack, Option.some.injEq] at fires
              subst fires
              simp [Frame.inFlight]
            · simp only [Frame.fire, if_neg taken, if_neg isLoopBack, Option.some.injEq] at fires
              subst fires
              have decides : (Frame.unblocking node branch (edge :: todo) count).decides shared =
                  ((Decrement.skipped.apply (shared.node edge.target).inDegree).2 ≠ .pending) := by
                simp [Frame.decides, Frame.decrements, edgeDecrement, taken, isLoopBack]
              have skipped := unblockSkipped_inFlight shared node edge.target
                [.unblocking node branch todo count]
              simp only [decides]
              refine Eq.le ?_
              rw [skipped]
              simp [unblockSkipped, Frame.inFlight]
              omega
  | handingOver node branch succ todo count =>
      cases fires
      obtain ⟨two, pending⟩ := handOver_inFlight shared inlineFree node succ branch todo
        count
      rw [two, pending]
      exact Nat.le_add_right _ _
  | finishing node =>
      cases fires
      simp [Frame.inFlight]
      omega
  | skipping node =>
      cases fires
      simp [Frame.inFlight]
  | skipped node =>
      cases fires
      rw [cascade_inFlight]
      refine le_trans ?_ (Nat.le_add_right _ _)
      exact (Nat.zero_add _).trans_le finished
  | cascading node todo =>
      cases todo with
      | nil =>
          cases fires
          simp [Frame.inFlight]
      | cons edge todo =>
          simp only [Frame.fire, Option.some.injEq] at fires
          subst fires
          have decides : (Frame.cascading node (edge :: todo)).decides shared =
              ((Decrement.skipped.apply (shared.node edge.target).inDegree).2 ≠ .pending) := by
            simp [Frame.decides, Frame.decrements]
          have skipped := unblockSkipped_inFlight shared node edge.target (cascade node todo)
          rw [cascade_inFlight, Nat.zero_add] at skipped
          simp only [decides]
          refine Eq.le ?_
          rw [skipped]
          simp [unblockSkipped, Frame.inFlight]
          omega
  | scheduling node =>
      cases fires
      simp [Frame.inFlight]
  | resetting node target todo cycleCount =>
      cases todo with
      | nil =>
          cases fires
          have room : shared.m_pendingTasks + cycleCount < 2 ^ 32 := loopFits
          have some : 0 < cycleCount := resetsSome
          have added : (shared.addPendingTasks (u32 cycleCount)).m_pendingTasks =
              shared.m_pendingTasks + cycleCount := by
            rw [Shared.addPendingTasks, u32_of_lt (by omega : cycleCount < 2 ^ 32), u32_of_lt room]
          rw [added]
          simp [Frame.inFlight]
          omega
      | cons curr todo =>
          simp only [Frame.fire] at fires
          split at fires <;> cases fires <;> simp [Frame.inFlight]
  | resettingState node target curr todo cycleCount =>
      cases fires
      simp [Frame.inFlight]
  | rescheduling node target =>
      cases fires
      simp [Frame.inFlight]

theorem cascade_resetsSome (node : NodeId) (todo : List SuccessorEdge) :
    ∀ other ∈ cascade node todo, other.ResetsSome := by
  cases todo with
  | nil => exact List.forall_mem_nil _
  | cons edge todo => exact List.forall_mem_singleton.mpr trivial

theorem unblockSkipped_resetsSome (node target : NodeId) {onward : List Frame}
    (resetsSome : ∀ other ∈ onward, other.ResetsSome) :
    ∀ other ∈ (unblockSkipped shared node target onward).frames, other.ResetsSome := by
  simp only [unblockSkipped]
  split
  next => exact resetsSome
  next => exact List.forall_mem_cons.mpr ⟨trivial, resetsSome⟩
  next => exact List.forall_mem_cons.mpr ⟨trivial, resetsSome⟩

/-- A loop-back resets the target among others. -/
theorem unblockSuccessors_resetsSome (store : NodeStore) (node : NodeId) :
    (unblockSuccessors store node).ResetsSome := by
  simp only [unblockSuccessors]
  split
  next =>
    split
    next => exact List.length_pos_of_mem (mem_cycleNodes _ _ _)
    next => trivial
  next => trivial

theorem Frame.resetsSome_fire
    (fires : frame.fire callables inlineFree shared = some effect)
    (resetsSome : frame.ResetsSome) : ∀ other ∈ effect.frames, other.ResetsSome := by
  cases frame with
  | calling node =>
      simp only [Frame.fire, Option.some.injEq] at fires
      subst fires
      rcases executeFn_frames callables shared node with frames | ⟨roots, frames⟩
      · exact frames ▸ List.forall_mem_singleton.mpr trivial
      · exact frames ▸ List.forall_mem_singleton.mpr trivial
  | dispatching node roots =>
      cases roots with
      | nil =>
          cases fires
          refine List.forall_mem_singleton.mpr ?_
          split <;> trivial
      | cons root roots =>
          cases fires
          exact List.forall_mem_singleton.mpr trivial
  | joining node =>
      simp only [Frame.fire] at fires
      split at fires <;> cases fires
      exact List.forall_mem_singleton.mpr trivial
  | completing node =>
      cases fires
      exact List.forall_mem_singleton.mpr (unblockSuccessors_resetsSome ..)
  | unblocking node branch todo count =>
      cases todo with
      | nil =>
          cases fires
          exact List.forall_mem_singleton.mpr trivial
      | cons edge todo =>
          simp only [Frame.fire] at fires
          split at fires
          · cases fires
            refine List.forall_mem_singleton.mpr ?_
            split <;> trivial
          · split at fires <;> cases fires
            · exact List.forall_mem_singleton.mpr trivial
            · exact unblockSkipped_resetsSome _ _ (List.forall_mem_singleton.mpr trivial)
  | handingOver node branch succ todo count =>
      cases fires
      obtain ⟨count', frames⟩ := handOver_frames shared inlineFree node succ branch todo count
      exact frames ▸ List.forall_mem_singleton.mpr trivial
  | skipped node =>
      cases fires
      exact cascade_resetsSome node _
  | cascading node todo =>
      cases todo with
      | nil =>
          cases fires
          exact List.forall_mem_nil _
      | cons edge todo =>
          cases fires
          exact unblockSkipped_resetsSome node edge.target (cascade_resetsSome node todo)
  | resetting node target todo cycleCount =>
      cases todo with
      | nil =>
          cases fires
          exact List.forall_mem_singleton.mpr trivial
      | cons curr todo =>
          simp only [Frame.fire] at fires
          split at fires <;> cases fires
          · exact List.forall_mem_singleton.mpr resetsSome
          · exact List.forall_mem_singleton.mpr resetsSome
  | resettingState node target curr todo cycleCount =>
      cases fires
      exact List.forall_mem_singleton.mpr resetsSome
  | executing node | skipping node =>
      cases fires
      exact List.forall_mem_singleton.mpr trivial
  | finishing node | scheduling node =>
      cases fires
      exact List.forall_mem_nil _
  | rescheduling node target =>
      cases fires
      exact List.forall_mem_singleton.mpr trivial

end Fire

/-! ## A run that decides no node too many -/

/-- `m_pendingTasks` covers the nodes in flight. -/
structure Workload.Covered (load : Workload) : Prop where
  inFlight : load.inFlight ≤ load.shared.m_pendingTasks
  resetsSome : ∀ frame ∈ load.frames, frame.ResetsSome

/-- A decrement decides its target only while `m_pendingTasks` counts a node that is not in flight,
and what is added to `m_pendingTasks` fits. -/
def Workload.Allows (callables : Callables) (load : Workload) (frame : Frame) : Prop :=
  (frame.decides load.shared = true → load.inFlight < load.shared.m_pendingTasks) ∧
    frame.Fits callables load.shared ∧ frame.LoopFits load.shared

instance (callables : Callables) (load : Workload) (frame : Frame) :
    Decidable (load.Allows callables frame) :=
  inferInstanceAs (Decidable (_ ∧ _ ∧ _))

namespace Workload.Covered

variable {callables : Callables} {shared : Shared} {ready : Multiset NodeId}

theorem fire {frame : Frame} {rest : Multiset Frame} {inlineFree : Bool} {effect : Effect}
    (covered : Workload.Covered ⟨shared, ready, frame ::ₘ rest⟩)
    (allows : Workload.Allows callables ⟨shared, ready, frame ::ₘ rest⟩ frame)
    (fires : frame.fire callables inlineFree shared = some effect) :
    Workload.Covered ⟨effect.shared, ↑effect.staged.toList + (↑effect.queued + ready),
      ↑effect.frames + rest⟩ where
  inFlight := by
    obtain ⟨decides, fits, loopFits⟩ := allows
    have resetsSome := covered.resetsSome frame (Multiset.mem_cons_self ..)
    have paid := Frame.inFlight_fire fires fits loopFits resetsSome
    have before := covered.inFlight
    simp only [Workload.inFlight, Multiset.map_cons, Multiset.sum_cons] at before decides
    simp only [Workload.inFlight, Multiset.card_add, Multiset.coe_card, Multiset.map_add,
      Multiset.sum_add, Multiset.map_coe, Multiset.sum_coe]
    cases decision : frame.decides shared with
    | true =>
        have room := decides decision
        rw [if_pos decision] at paid
        omega
    | false =>
        rw [if_neg (by simp [decision])] at paid
        omega
  resetsSome := fun other member => by
    rcases Multiset.mem_add.mp member with new | old
    · exact Frame.resetsSome_fire fires (covered.resetsSome frame (Multiset.mem_cons_self ..)) other
        (Multiset.mem_coe.mp new)
    · exact covered.resetsSome other (Multiset.mem_cons_of_mem old)

/-- Steps that fire no frame change nothing about what is in flight. -/
theorem steps (callables : Callables) {load next : Workload} (covered : load.Covered)
    (steps : Relation.ReflTransGen (Workload.Step callables fun _ _ => False) load next) :
    next.Covered := by
  induction steps with
  | refl => exact covered
  | tail _ last ih =>
      cases last with
      | fire allowed => exact allowed.elim
      | start =>
          refine ⟨?_, fun frame member => ?_⟩
          · have before := ih.inFlight
            simp only [Workload.inFlight, Multiset.card_cons, Multiset.map_cons,
              Multiset.sum_cons] at before ⊢
            rw [show (Frame.executing _).inFlight.length = 1 from rfl]
            omega
          · rcases Multiset.mem_cons.mp member with rfl | old
            · trivial
            · exact ih.resetsSome frame old
      | note => exact ⟨ih.inFlight, ih.resetsSome⟩

end Workload.Covered

namespace RunState

variable {graph : TaskGraph} {callables : Callables} {threads : Nat} {state next : RunState threads}

/-- Steps of a run that decide no node too many. -/
def Accounted (callables : Callables) (state : RunState threads) : RunAction threads → Prop
  | .fire index => ∀ frame ∈ (state.thread index).stack.take 1, state.load.Allows callables frame
  | _ => True

instance (callables : Callables) (state : RunState threads) :
    (action : RunAction threads) → Decidable (state.Accounted callables action)
  | .fire _ => inferInstanceAs (Decidable (∀ _ ∈ _, _))
  | .prepareRun | .dispatchRoot | .setCanInline _ _ | .take _ _ | .takeInline _ =>
      inferInstanceAs (Decidable True)

/-- No node is queued, staged or in a call. -/
def Idle (state : RunState threads) : Prop :=
  state.queued = [] ∧ state.preparing = none ∧ ∀ index,
    (state.thread index).t_nextInlineTask = none ∧
      ∀ frame ∈ (state.thread index).stack, frame.inFlight = []

theorem inFlight_of_ended (covered : state.load.Covered) (ended : state.Ended) :
    state.load.inFlight = 0 :=
  Nat.le_zero.mp (covered.inFlight.trans ended.2.le)

/-- When `m_pendingTasks` covers what is in flight, a run that has ended has left nothing to
execute. -/
theorem idle_of_ended (covered : state.load.Covered) (ended : state.Ended) : state.Idle := by
  obtain ⟨noReady, noFrames⟩ := Nat.add_eq_zero_iff.mp (inFlight_of_ended covered ended)
  rw [Multiset.card_eq_zero] at noReady
  simp only [load, add_eq_zero, Multiset.coe_eq_zero] at noReady
  refine ⟨noReady.1.1, ended.1, fun index => ⟨?_, fun frame member => ?_⟩⟩
  · have noSlot := Finset.sum_eq_zero_iff.mp noReady.2 index (Finset.mem_univ index)
    simpa using noSlot
  · have inCalls : frame ∈ state.load.frames :=
      Multiset.mem_sum.mpr ⟨index, Finset.mem_univ index, Multiset.mem_coe.mpr member⟩
    exact List.length_eq_zero_iff.mp (Multiset.sum_eq_zero_iff.mp noFrames _
      (Multiset.mem_map_of_mem _ inCalls))

/-- `prepareRun` counts the roots that it schedules. -/
theorem covered_prepareRun (counted : graph.order.length = graph.m_nodeCount)
    (covered : state.load.Covered) (ended : state.Ended) :
    (state.prepareRun graph).load.Covered := by
  obtain ⟨noReady, noFrames⟩ := Nat.add_eq_zero_iff.mp (inFlight_of_ended covered ended)
  rw [Multiset.card_eq_zero] at noReady
  simp only [load, add_eq_zero] at noReady
  refine ⟨?_, covered.resetsSome⟩
  have roots : (state.prepareRun graph).unscheduled.length ≤ graph.m_nodeCount := by
    simp only [prepareRun, unscheduled]
    split_ifs
    · exact Nat.zero_le _
    · exact counted ▸ List.length_filter_le _ _
  have frames : (state.prepareRun graph).load.frames = state.load.frames := rfl
  have queued : (state.prepareRun graph).queued = state.queued := rfl
  have slots : RunState.slots (state.prepareRun graph).thread = RunState.slots state.thread := rfl
  rw [Workload.inFlight, frames, noFrames, load, queued, slots, noReady.1.1, noReady.2, zero_add,
    add_zero, add_zero, Multiset.coe_card]
  exact roots

/-- What the steps of a run do. -/
theorem covered_step (counted : graph.order.length = graph.m_nodeCount)
    {action : RunAction threads} (covered : state.load.Covered)
    (accounted : state.Accounted callables action)
    (stepped : state.step graph callables action = some next) : next.load.Covered := by
  cases action with
  | prepareRun =>
      simp only [step, Option.ite_none_right_eq_some, Option.some.injEq] at stepped
      obtain ⟨ended, rfl⟩ := stepped
      exact covered_prepareRun counted covered ended
  | dispatchRoot => exact covered.steps callables (load_dispatchRoot stepped)
  | setCanInline index canInline =>
      cases stepped
      rwa [load_setCanInline]
  | take index node =>
      obtain ⟨-, sameShared, taken, called⟩ := load_take stepped
      exact covered.steps callables (.single (load_start node sameShared taken called))
  | takeInline index =>
      obtain ⟨node, -, sameShared, taken, called⟩ := load_takeInline stepped
      exact covered.steps callables (.single (load_start node sameShared taken called))
  | fire index =>
      obtain ⟨frame, stack, rest, effect, onTop, fired, split, -, after⟩ := load_fire stepped
      have allows := accounted frame (by simp [onTop])
      have load : state.load = ⟨state.shared, state.load.ready, frame ::ₘ rest⟩ := by
        rw [← split]
        rfl
      rw [after]
      rw [load] at covered allows
      exact covered.fire allows fired

end RunState

/-! ## Graphs without cycles -/

section Acyclic

variable {graph : TaskGraph} {callables : Callables} {need got : NodeId → Nat} {load : Workload}

/-- On a way without loop-backs a frame keeps in flight what it owes the end to. -/
theorem Frame.Forward.count_inFlight {frame : Frame} (forward : frame.Forward) (node : NodeId) :
    frame.inFlight.count node = (frame.owes .finished).count node := by
  cases frame with
  | resetting | resettingState | rescheduling => exact forward.elim
  | dispatching other roots =>
      simp [Frame.inFlight, List.count_cons]
  | handingOver other branch succ todo count =>
      simp [Frame.inFlight, List.count_cons]
  | _ => simp [Frame.inFlight, List.count_cons]

/-- The nodes in flight. -/
def Workload.flying (load : Workload) : Multiset NodeId :=
  load.ready + load.frames.bind fun frame => ↑frame.inFlight

theorem Workload.card_flying (load : Workload) : Multiset.card load.flying = load.inFlight := by
  rw [flying, Multiset.card_add, Multiset.card_bind, inFlight]
  rfl

theorem Ledger.count_flying (ledger : Ledger graph callables need got load) (node : NodeId) :
    load.flying.count node = load.awaiting .finished node := by
  rw [Workload.flying, Multiset.count_add, Multiset.count_bind, Workload.awaiting]
  congr 2
  refine Multiset.map_congr rfl fun frame member => ?_
  rw [Multiset.coe_count, (ledger.forward frame member).count_inFlight]

/-- A node with dependencies left is counted in `m_pendingTasks` and is not in flight. -/
theorem Ledger.inFlight_lt (ledger : Ledger graph callables need got load) {target : NodeId}
    (waits : 0 < need target) : load.inFlight < load.shared.m_pendingTasks := by
  have inRun (node : NodeId) (some : 0 < load.flying.count node ∨ 0 < need node) :
      node ∈ (live graph callables load.shared.log).toFinset := by
    rw [List.mem_toFinset]
    by_contra outside
    obtain ⟨none, -, nobody⟩ := ledger.outside outside
    have idle := (nobody .finished).1
    rw [ledger.count_flying] at some
    omega
  have law (node : NodeId) : waiting (need node) + load.flying.count node +
      passed .finished node load.shared.log ≤ 1 := by
    rw [ledger.count_flying]
    exact (ledger.passage .finished node).le.trans (ledger.count_live_le node)
  have pending : load.shared.m_pendingTasks =
      ∑ node ∈ (live graph callables load.shared.log).toFinset,
        if passed .finished node load.shared.log = 0 then 1 else 0 := by
    rw [ledger.pending, remaining, List.sum_toFinset _ ledger.distinct]
  rw [pending, ← load.card_flying, ← Multiset.sum_count_eq_card
    fun node member => inRun node (.inl (Multiset.count_pos.mpr member))]
  refine Finset.sum_lt_sum (fun node _ => ?_) ⟨target, inRun target (.inr waits), ?_⟩
  · have law := law node
    split <;> omega
  · have law := law target
    rw [waiting_of_pos waits] at law
    rw [if_pos (by omega)]
    omega

/-- A decrement is of a node behind an edge that the frame walks. -/
theorem Frame.edgesInto_of_decides {shared : Shared} {frame : Frame}
    (decides : frame.decides shared = true) : ∃ target, 0 < edgesInto target frame.todo := by
  simp only [Frame.decides, Option.any_eq_true] at decides
  obtain ⟨decrement, isDecrement, -⟩ := decides
  cases frame with
  | unblocking node branch todo count =>
      cases todo with
      | nil => cases isDecrement
      | cons edge todo => exact ⟨edge.target, edgesInto_pos.mpr ⟨edge, List.mem_cons_self .., rfl⟩⟩
  | cascading node todo =>
      cases todo with
      | nil => cases isDecrement
      | cons edge todo => exact ⟨edge.target, edgesInto_pos.mpr ⟨edge, List.mem_cons_self .., rfl⟩⟩
  | _ => cases isDecrement

/-- With a ledger every frame that is admitted decides a node that is counted. -/
theorem Ledger.allows (ledger : Ledger graph callables need got load) {frame : Frame}
    (member : frame ∈ load.frames) (admits : Admits callables load.shared frame) :
    load.Allows callables frame := by
  refine ⟨fun decides => ?_, ?_, ?_⟩
  · obtain ⟨target, edges⟩ := Frame.edgesInto_of_decides decides
    obtain ⟨rest, split⟩ := Multiset.exists_cons_of_mem member
    obtain ⟨shared, ready, frames⟩ := load
    dsimp only at split
    subst split
    exact ledger.inFlight_lt (ledger.target_waits edges).1
  · cases frame with
    | calling node => exact fun isSubflow => (admits.splices node rfl isSubflow).2
    | _ => trivial
  · have forward := ledger.forward frame member
    cases frame with
    | resetting => exact forward.elim
    | _ => trivial

/-- In the runs of a graph without cycles, whose counters hold its edges, no decrement decides a
node too many. -/
theorem accounted_of_proper (sound : graph.Sound) {threads : Nat} {state : RunState threads}
    (reachable : (graph.machine callables threads).ReachableBy
      (RunState.Proper graph callables) state)
    {action : RunAction threads} (proper : state.Proper graph callables action) :
    state.Accounted callables action := by
  cases action with
  | fire index =>
      intro frame onTop
      obtain ⟨stack, isStack⟩ : ∃ stack, (state.thread index).stack = frame :: stack := by
        cases isStack : (state.thread index).stack with
        | nil => simp [isStack] at onTop
        | cons other stack =>
            obtain rfl : frame = other := by simpa [isStack] using onTop
            exact ⟨stack, rfl⟩
      have member : frame ∈ state.load.frames :=
        Multiset.mem_sum.mpr ⟨index, Finset.mem_univ index, by simp [isStack]⟩
      rcases balanced_of_reachable sound reachable with
        ⟨-, -, -, -, noFrames⟩ | ⟨-, need, got, ledger⟩
      · rw [noFrames] at member
        exact absurd member (Multiset.notMem_zero frame)
      · exact ledger.allows member (proper frame stack isStack)
  | _ => trivial

end Acyclic

end LightFlow
