import LightFlow.Task.Announcements
import Mathlib.Algebra.BigOperators.Group.Finset.Basic

/-!
# Handing over once

A successor is handed over when a decrement of the call releases it: an active one, or the last one
of a node that is not skipped.  The lower half of a counter wraps, so a call can bring one counter
to zero several times; how often is a matter of the edges that it walks, of those behind the nodes
that it skips, and of what the other threads decrement in the meantime.
-/

namespace LightFlow

/-- How many dependencies a counter has left. -/
def lowerHalf (inDegree : Nat) : Nat :=
  inDegree % 2 ^ 16

/-- The decrement of the walk for an edge: none for a loop-back edge that is not taken. -/
def edgeDecrement (branch : Option Int) (edge : SuccessorEdge) : Option (NodeId × Decrement) :=
  if takes branch edge then some (edge.target, .active)
  else if edge.isLoopBack then none
  else some (edge.target, .skipped)

/-- The decrements of a cascade over a successor list. -/
def skippedDecrements (edges : List SuccessorEdge) : List (NodeId × Decrement) :=
  edges.map fun edge => (edge.target, .skipped)

namespace Frame

/-- The decrement that a frame makes. -/
def decrements : Frame → Option (NodeId × Decrement)
  | .unblocking _ branch (edge :: _) _ => edgeDecrement branch edge
  | .cascading _ (edge :: _) => some (edge.target, .skipped)
  | _ => none

/-- The decrements that a frame and its calls make, less those of the cascades that it starts. -/
def ahead (store : NodeStore) : Frame → List (NodeId × Decrement)
  | .unblocking _ branch todo _ | .handingOver _ branch _ todo _ =>
      todo.filterMap (edgeDecrement branch)
  | .cascading _ todo => skippedDecrements todo
  | .skipping node | .skipped node => skippedDecrements (store node).successors
  | _ => []

/-- The nodes that a frame is about to hand over. -/
def handing : Frame → List NodeId
  | .handingOver _ _ succ _ _ => [succ]
  | .scheduling node => [node]
  | _ => []

/-- A frame of a walk over a successor list, or of its cascades. -/
def InCall : Frame → Prop
  | .unblocking .. | .handingOver .. | .finishing _ => True
  | frame => frame.Cascades

end Frame

namespace CallStep

/-- How often the step handed over the node: to the inline slot, or to `scheduleNode`. -/
def handsOver (succ : NodeId) (step : CallStep) : Nat :=
  step.effect.staged.toList.count succ +
    (step.events.count (.scheduled succ false) + step.events.count (.scheduled succ true))

/-- The step brings the counter of the node to zero. -/
def zeroes (succ : NodeId) (step : CallStep) : Bool :=
  step.frame.decrements.any fun decrement =>
    decrement.1 = succ ∧ lowerHalf (step.shared.node succ).inDegree = 1

/-- The step brings the counter of the node to zero by an active edge of the walk. -/
def unblocks (succ : NodeId) (step : CallStep) : Bool :=
  step.frame.decrements = some (succ, .active) ∧ lowerHalf (step.shared.node succ).inDegree = 1

/-- The decrement of the step decides that the node runs. -/
def releases (succ : NodeId) (step : CallStep) : Bool :=
  step.frame.decrements.any fun decrement =>
    decrement.1 = succ ∧ (decrement.2.apply (step.shared.node succ).inDegree).2 = .run

end CallStep

/-- Every successor whose counter the call brings to zero by an active edge is handed over exactly
once. -/
def HandsOverOnce (steps : List CallStep) : Prop :=
  ∀ succ, (∃ step ∈ steps, step.unblocks succ = true) → (steps.map (·.handsOver succ)).sum = 1

/-! ## What the edges and the counters allow -/

/-- How many decrements bring the lower half of the counter to zero. -/
def untilZero (inDegree : Nat) : Nat :=
  if lowerHalf inDegree = 0 then 2 ^ 16 else lowerHalf inDegree

/-- How many decrements of a kind are in the list and in the cascades from the nodes of the set. -/
def countAhead (store : NodeStore) (kind : NodeId × Decrement → Bool)
    (decrements : List (NodeId × Decrement)) (skipped : Finset NodeId) : Nat :=
  decrements.countP kind +
    ∑ node ∈ skipped, (skippedDecrements (store node).successors).countP kind

section Decrements

variable (store : NodeStore) (branch : Option Int) (edges : List SuccessorEdge)
  (skipped : Finset NodeId)

/-- How often a call decrements the node that skips the nodes of the set. -/
def callDecrements (succ : NodeId) : Nat :=
  countAhead store (fun decrement => decrement.1 = succ) (edges.filterMap (edgeDecrement branch))
    skipped

/-- How often it does so by `decrementSkipped`. -/
def callSkips (succ : NodeId) : Nat :=
  countAhead store (fun decrement => decrement = (succ, .skipped))
    (edges.filterMap (edgeDecrement branch)) skipped

/-- Every node that the call can skip is in the set: it decrements the node by `decrementSkipped`,
and its decrements and those of the others bring the counter to zero. -/
def SkipsWithin (others : NodeId → Nat) : Prop :=
  ∀ succ, 0 < callSkips store branch edges skipped succ →
    untilZero (store succ).inDegree ≤
      callDecrements store branch edges skipped succ + others succ → succ ∈ skipped

/-- The decrements of the call and of the others are too few to bring a counter to zero twice. -/
def FewDecrements (others : NodeId → Nat) : Prop :=
  ∀ succ, 0 < callDecrements store branch edges skipped succ →
    callDecrements store branch edges skipped succ + others succ <
      2 ^ 16 + untilZero (store succ).inDegree

end Decrements

/-- Between the steps of the call the other threads decrement counters, each at most so often, and
leave the edges as they are. -/
def OthersDecrement : (NodeId → Nat) → Shared → List CallStep → Prop
  | _, _, [] => True
  | others, shared, step :: steps =>
      ∃ calls : NodeId → List Decrement,
        (∀ node, (calls node).length ≤ others node ∧
          (step.shared.node node).successors = (shared.node node).successors ∧
          (step.shared.node node).inDegree =
            Decrement.counter (shared.node node).inDegree (calls node)) ∧
        OthersDecrement (fun node => others node - (calls node).length) step.effect.shared steps

/-- Between the steps of the call nothing changes. -/
def Undisturbed : Shared → List CallStep → Prop
  | _, [] => True
  | shared, step :: steps => step.shared = shared ∧ Undisturbed step.effect.shared steps

/-- Where nothing changes, nobody decrements. -/
theorem Undisturbed.othersDecrement {shared : Shared} {steps : List CallStep}
    (undisturbed : Undisturbed shared steps) : OthersDecrement (fun _ => 0) shared steps := by
  induction steps generalizing shared with
  | nil => trivial
  | cons step steps ih =>
      obtain ⟨rfl, undisturbed⟩ := undisturbed
      exact ⟨fun _ => [], fun _ => ⟨Nat.le_refl 0, rfl, rfl⟩, ih undisturbed⟩

/-! ## Zeros of a counter -/

theorem lowerHalf_apply (inDegree : Nat) (call : Decrement) :
    lowerHalf (call.apply inDegree).1 = (lowerHalf inDegree + 65535) % 2 ^ 16 := by
  have lower := Decrement.apply_lower inDegree call
  simp only [lowerHalf]
  omega

/-- So often a counter comes to zero that is decremented `count` times. -/
def zeroings (inDegree count : Nat) : Nat :=
  (count + 2 ^ 16 - untilZero inDegree) / 2 ^ 16

theorem zeroings_succ (inDegree count : Nat) (call : Decrement) :
    zeroings inDegree (count + 1) =
      zeroings (call.apply inDegree).1 count + if lowerHalf inDegree = 1 then 1 else 0 := by
  have bound : lowerHalf inDegree < 2 ^ 16 := Nat.mod_lt _ (by decide)
  simp only [zeroings, untilZero, lowerHalf_apply]
  split <;> split <;> split <;> omega

theorem zeroings_mono (inDegree : Nat) {few many : Nat} (le : few ≤ many) :
    zeroings inDegree few ≤ zeroings inDegree many := by
  simp only [zeroings]
  omega

/-- The decrements of others are no zeros of the call. -/
theorem zeroings_counter (inDegree count : Nat) (calls : List Decrement) :
    zeroings (Decrement.counter inDegree calls) count ≤
      zeroings inDegree (calls.length + count) := by
  induction calls generalizing inDegree with
  | nil => rw [Decrement.counter, List.length_nil, Nat.zero_add]
  | cons call calls ih =>
      rw [List.length_cons, Nat.add_right_comm, zeroings_succ inDegree _ call]
      exact Nat.le_add_right_of_le (ih _)

theorem zeroings_zero (inDegree : Nat) : zeroings inDegree 0 = 0 := by
  simp only [zeroings, untilZero]
  split <;> omega

theorem zeroings_pos {inDegree count : Nat} :
    0 < zeroings inDegree count ↔ untilZero inDegree ≤ count := by
  have bound : lowerHalf inDegree < 2 ^ 16 := Nat.mod_lt _ (by decide)
  simp only [zeroings, untilZero]
  split <;> omega

theorem zeroings_le_one {inDegree count : Nat} :
    zeroings inDegree count ≤ 1 ↔ count < 2 ^ 16 + untilZero inDegree := by
  have bound : lowerHalf inDegree < 2 ^ 16 := Nat.mod_lt _ (by decide)
  simp only [zeroings, untilZero]
  split <;> omega

/-! ## A step of the call -/

namespace CallStep

/-- The step decrements nothing, and hands over what its frame was about to. -/
structure Plain (step : CallStep) : Prop where
  inCall : ∀ frame ∈ step.effect.frames, frame.InCall
  successors : ∀ node,
    (step.effect.shared.node node).successors = (step.shared.node node).successors
  inDegree : ∀ node, (step.effect.shared.node node).inDegree = (step.shared.node node).inDegree
  ahead : step.effect.frames.flatMap (·.ahead step.shared.node) =
    step.frame.ahead step.shared.node
  handsOver : ∀ succ, step.handsOver succ = step.frame.handing.count succ
  handing : step.effect.frames.flatMap Frame.handing = []

/-- What the decrement of the step decided. -/
def decision (step : CallStep) (target : NodeId) (call : Decrement) : Resolution :=
  (call.apply (step.shared.node target).inDegree).2

/-- The step makes a decrement, and goes on with what it decides. -/
structure Decrements (step : CallStep) (target : NodeId) (call : Decrement) : Prop where
  inCall : ∀ frame ∈ step.effect.frames, frame.InCall
  successors : ∀ node,
    (step.effect.shared.node node).successors = (step.shared.node node).successors
  inDegree : ∀ node, (step.effect.shared.node node).inDegree =
    if node = target then (call.apply (step.shared.node node).inDegree).1
    else (step.shared.node node).inDegree
  ahead : ∃ rest, step.frame.ahead step.shared.node = (target, call) :: rest ∧
    step.effect.frames.flatMap (·.ahead step.shared.node) =
      (if step.decision target call = .skip then
        skippedDecrements (step.shared.node target).successors
      else []) ++ rest
  handsOver : ∀ succ, step.handsOver succ = 0
  idle : step.frame.handing = []
  handing : step.effect.frames.flatMap Frame.handing =
    if step.decision target call = .run then [target] else []

end CallStep

section Steps

variable {callables : Callables} {frame : Frame} {canInline : Bool} {slot : Option NodeId}
  {shared : Shared} {effect : Effect}

theorem cascade_inCall (node : NodeId) (todo : List SuccessorEdge) :
    ∀ frame ∈ cascade node todo, frame.InCall := by
  cases todo with
  | nil => exact List.forall_mem_nil _
  | cons edge todo => exact List.forall_mem_singleton.mpr trivial

theorem cascade_ahead (store : NodeStore) (node : NodeId) (todo : List SuccessorEdge) :
    (cascade node todo).flatMap (·.ahead store) = skippedDecrements todo := by
  cases todo with
  | nil => rfl
  | cons edge todo => exact List.append_nil _

theorem cascade_handing (node : NodeId) (todo : List SuccessorEdge) :
    (cascade node todo).flatMap Frame.handing = [] := by
  cases todo <;> rfl

/-- `decrementSkipped`, from a loop that goes on with the frames `onward`. -/
theorem decrements_unblockSkipped {node target : NodeId} {onward : List Frame}
    {rest : List (NodeId × Decrement)} (inCall : ∀ frame ∈ onward, frame.InCall)
    (ahead : frame.ahead shared.node = (target, .skipped) :: rest)
    (onwardAhead : onward.flatMap (·.ahead shared.node) = rest) (idle : frame.handing = [])
    (onwardHanding : onward.flatMap Frame.handing = []) :
    CallStep.Decrements ⟨frame, canInline, slot, shared, unblockSkipped shared node target onward⟩
      target .skipped := by
  have events := CallStep.events_eq
    ⟨frame, canInline, slot, shared, unblockSkipped shared node target onward⟩
    [.decremented node target false] rfl
  have handsOver (succ : NodeId) : CallStep.handsOver succ
      ⟨frame, canInline, slot, shared, unblockSkipped shared node target onward⟩ = 0 := by
    rw [CallStep.handsOver, events]
    rfl
  have store (query : NodeId) :
      (unblockSkipped shared node target onward).shared.node query =
        { shared.node query with
          inDegree :=
            if query = target then (decrementSkipped (shared.node target).inDegree).1
            else (shared.node query).inDegree } :=
    Shared.setInDegree_node ..
  have inDegree (query : NodeId) :
      ((unblockSkipped shared node target onward).shared.node query).inDegree =
        if query = target then (Decrement.skipped.apply (shared.node query).inDegree).1
        else (shared.node query).inDegree := by
    rw [store]
    by_cases same : query = target
    · subst same
      rfl
    · simp only [same, if_false]
  cases resolution : (decrementSkipped (shared.node target).inDegree).2 with
  | pending =>
      have decision : CallStep.decision
          ⟨frame, canInline, slot, shared, unblockSkipped shared node target onward⟩ target
            .skipped = .pending := resolution
      have frames : (unblockSkipped shared node target onward).frames = onward := by
        simp only [unblockSkipped, resolution]
      refine ⟨?_, fun query => by rw [store], inDegree, ⟨rest, ahead, ?_⟩, handsOver, idle, ?_⟩
      · simpa only [frames] using inCall
      · simpa [frames, decision] using onwardAhead
      · simpa [frames, decision] using onwardHanding
  | run =>
      have decision : CallStep.decision
          ⟨frame, canInline, slot, shared, unblockSkipped shared node target onward⟩ target
            .skipped = .run := resolution
      have frames : (unblockSkipped shared node target onward).frames =
          .scheduling target :: onward := by
        simp only [unblockSkipped, resolution]
      refine ⟨?_, fun query => by rw [store], inDegree, ⟨rest, ahead, ?_⟩, handsOver, idle, ?_⟩
      · simpa only [frames] using List.forall_mem_cons.mpr ⟨trivial, inCall⟩
      · simpa [frames, decision, Frame.ahead] using onwardAhead
      · simpa [frames, decision, Frame.handing] using onwardHanding
  | skip =>
      have decision : CallStep.decision
          ⟨frame, canInline, slot, shared, unblockSkipped shared node target onward⟩ target
            .skipped = .skip := resolution
      have frames : (unblockSkipped shared node target onward).frames =
          .skipping target :: onward := by
        simp only [unblockSkipped, resolution]
      refine ⟨?_, fun query => by rw [store], inDegree, ⟨rest, ahead, ?_⟩, handsOver, idle, ?_⟩
      · simpa only [frames] using List.forall_mem_cons.mpr ⟨trivial, inCall⟩
      · simpa [frames, decision, Frame.ahead] using onwardAhead
      · simpa [frames, decision, Frame.handing] using onwardHanding

/-- `decrementActive`, in the walk over the successors. -/
theorem decrements_unblockActive {node target : NodeId} {branch : Option Int}
    {edge : SuccessorEdge} {todo : List SuccessorEdge} {count : Nat}
    (isTarget : edge.target = target) (taken : takes branch edge = true) :
    CallStep.Decrements
      ⟨.unblocking node branch (edge :: todo) count, canInline, slot, shared,
        unblockActive shared node branch target todo count⟩ target .active := by
  have events := CallStep.events_eq
    ⟨.unblocking node branch (edge :: todo) count, canInline, slot, shared,
      unblockActive shared node branch target todo count⟩ [.decremented node target true] rfl
  have store (query : NodeId) :
      (unblockActive shared node branch target todo count).shared.node query =
        { shared.node query with
          inDegree :=
            if query = target then (decrementActive (shared.node target).inDegree).1
            else (shared.node query).inDegree } :=
    Shared.setInDegree_node ..
  have ahead : (Frame.unblocking node branch (edge :: todo) count).ahead shared.node =
      (target, .active) :: todo.filterMap (edgeDecrement branch) :=
    List.filterMap_cons_some (by rw [edgeDecrement, if_pos taken, isTarget])
  have decision : CallStep.decision
      ⟨.unblocking node branch (edge :: todo) count, canInline, slot, shared,
        unblockActive shared node branch target todo count⟩ target .active =
      if (decrementActive (shared.node target).inDegree).2 then .run else .pending := rfl
  refine ⟨fun other member => ?_, fun query => by rw [store], fun query => ?_,
    ⟨todo.filterMap (edgeDecrement branch), ahead, ?_⟩, fun succ => ?_, rfl, ?_⟩
  · simp only [unblockActive, List.mem_singleton] at member
    subst member
    split <;> trivial
  · rw [store]
    by_cases same : query = target
    · subst same
      rfl
    · simp only [same, if_false]
  · rw [decision]
    cases unblocked : (decrementActive (shared.node target).inDegree).2 <;>
      simp [unblockActive, unblocked, Frame.ahead]
  · rw [CallStep.handsOver, events]
    rfl
  · rw [decision]
    cases unblocked : (decrementActive (shared.node target).inDegree).2 <;>
      simp [unblockActive, unblocked, Frame.handing]

/-- The successor goes to the inline slot or to the scheduler. -/
theorem plain_handOver (node succ : NodeId) (branch : Option Int) (todo : List SuccessorEdge)
    (count : Nat) :
    CallStep.Plain
      ⟨.handingOver node branch succ todo count, canInline, slot, shared,
        handOver shared (canInline && slot.isNone) node branch succ todo count⟩ := by
  have passed {effect : Effect} (events : List Event) (count' : Nat)
      (frames : effect.frames = [.unblocking node branch todo count'])
      (store : effect.shared.node = shared.node) (added : effect.shared.log = events ++ shared.log)
      (once : ∀ other, effect.staged.toList.count other +
        (events.count (.scheduled other false) + events.count (.scheduled other true)) =
          [succ].count other) :
      CallStep.Plain
        ⟨.handingOver node branch succ todo count, canInline, slot, shared, effect⟩ := by
    refine ⟨?_, fun query => by rw [store], fun query => by rw [store], ?_, fun other => ?_, ?_⟩
    · rw [frames]
      exact List.forall_mem_singleton.mpr trivial
    · rw [frames]
      exact List.append_nil _
    · rw [CallStep.handsOver, CallStep.events_eq _ events added, once]
      rfl
    · rw [frames]
      rfl
  simp only [handOver]
  split
  · exact passed [] _ rfl rfl rfl fun other => by simp
  · split
    · split
      · exact passed [.notified (count + 1), .scheduled succ false] _ rfl rfl rfl
          fun other => by simp [List.count_cons, beq_eq_decide]
      · exact passed [.scheduled succ false] _ rfl rfl rfl
          fun other => by simp [List.count_cons, beq_eq_decide]
    · exact passed [.scheduled succ false] _ rfl rfl rfl
        fun other => by simp [List.count_cons, beq_eq_decide]

/-- A step that decrements nothing. -/
theorem Frame.InCall.plain (inCall : frame.InCall)
    (fires : frame.fire callables (canInline && slot.isNone) shared = some effect)
    (none : frame.decrements = none) :
    CallStep.Plain ⟨frame, canInline, slot, shared, effect⟩ := by
  have quiet {frame : Frame} {effect : Effect} (events : List Event)
      (added : effect.shared.log = events ++ shared.log)
      (silent : ∀ succ notify, .scheduled succ notify ∉ events)
      (staged : effect.staged = Option.none) (idle : frame.handing = []) (succ : NodeId) :
      CallStep.handsOver succ ⟨frame, canInline, slot, shared, effect⟩ =
        frame.handing.count succ := by
    rw [CallStep.handsOver, CallStep.events_eq _ events added, staged, idle,
      List.count_eq_zero_of_not_mem (silent succ false),
      List.count_eq_zero_of_not_mem (silent succ true)]
    rfl
  have setState (query node : NodeId) (state : TaskState) :
      ((shared.setState node state).node query).successors = (shared.node query).successors ∧
        ((shared.setState node state).node query).inDegree = (shared.node query).inDegree := by
    rw [Shared.setState_node]
    exact ⟨rfl, rfl⟩
  cases frame with
  | unblocking node branch todo count =>
      cases todo with
      | nil =>
          cases fires
          refine ⟨List.forall_mem_singleton.mpr trivial, fun query => ?_, fun query => ?_, rfl,
            fun succ => ?_, rfl⟩
          · dsimp only
            split <;> rfl
          · dsimp only
            split <;> rfl
          · by_cases some : 0 < count
            · exact quiet [.notified count]
                (by simp only [some, if_true]; rfl) (by simp) rfl rfl succ
            · exact quiet [] (by simp only [some, if_false]; rfl) (by simp) rfl rfl succ
      | cons edge todo =>
          have passed : ¬ takes branch edge = true ∧ edge.isLoopBack = true := by
            simp only [Frame.decrements, edgeDecrement] at none
            split at none
            · cases none
            next notTaken =>
              split at none
              next isLoopBack => exact ⟨notTaken, isLoopBack⟩
              next => cases none
          simp only [Frame.fire, if_neg passed.1, if_pos passed.2] at fires
          cases fires
          refine ⟨List.forall_mem_singleton.mpr trivial, fun _ => rfl, fun _ => rfl, ?_,
            quiet [] rfl (by simp) rfl rfl, rfl⟩
          simp only [List.flatMap_cons, List.flatMap_nil, List.append_nil, Frame.ahead]
          exact (List.filterMap_cons_none
            (show edgeDecrement branch edge = Option.none from none)).symm
  | handingOver node branch succ todo count =>
      cases fires
      exact plain_handOver node succ branch todo count
  | finishing node =>
      cases fires
      exact ⟨List.forall_mem_nil _, fun _ => rfl, fun _ => rfl, rfl,
        quiet [.finished node] rfl (by simp) rfl rfl, rfl⟩
  | skipping node =>
      cases fires
      refine ⟨List.forall_mem_singleton.mpr trivial, fun query => (setState query ..).1,
        fun query => (setState query ..).2, List.append_nil _,
        quiet [.skipped node] rfl (by simp) rfl rfl, rfl⟩
  | skipped node =>
      cases fires
      exact ⟨cascade_inCall node _, fun _ => rfl, fun _ => rfl, cascade_ahead ..,
        quiet [.released node, .finished node] rfl (by simp) rfl rfl, cascade_handing ..⟩
  | cascading node todo =>
      cases todo with
      | nil =>
          cases fires
          exact ⟨List.forall_mem_nil _, fun _ => rfl, fun _ => rfl, rfl,
            quiet [] rfl (by simp) rfl rfl, rfl⟩
      | cons edge todo => cases none
  | scheduling node =>
      cases fires
      refine ⟨List.forall_mem_nil _, fun _ => rfl, fun _ => rfl, rfl, fun succ => ?_, rfl⟩
      rw [CallStep.handsOver, CallStep.events_eq _ [.scheduled node true] rfl]
      simp [Frame.handing, List.count_cons, beq_eq_decide]
  | _ => exact inCall.elim

/-- A step that makes a decrement. -/
theorem Frame.InCall.decrements (inCall : frame.InCall) {target : NodeId} {call : Decrement}
    (fires : frame.fire callables (canInline && slot.isNone) shared = some effect)
    (some : frame.decrements = some (target, call)) :
    CallStep.Decrements ⟨frame, canInline, slot, shared, effect⟩ target call := by
  cases frame with
  | unblocking node branch todo count =>
      cases todo with
      | nil => cases some
      | cons edge todo =>
          by_cases taken : takes branch edge = true
          · simp only [Frame.decrements, edgeDecrement, if_pos taken, Option.some.injEq,
              Prod.mk.injEq] at some
            obtain ⟨isTarget, rfl⟩ := some
            simp only [Frame.fire, if_pos taken, isTarget] at fires
            cases fires
            exact decrements_unblockActive isTarget taken
          · by_cases isLoopBack : edge.isLoopBack = true
            · simp only [Frame.decrements, edgeDecrement, if_neg taken, if_pos isLoopBack] at some
              cases some
            · have isNext := some
              simp only [Frame.decrements, edgeDecrement, if_neg taken, if_neg isLoopBack,
                Option.some.injEq, Prod.mk.injEq] at some
              obtain ⟨isTarget, rfl⟩ := some
              simp only [Frame.fire, if_neg taken, if_neg isLoopBack, isTarget] at fires
              cases fires
              exact decrements_unblockSkipped (List.forall_mem_singleton.mpr trivial)
                (List.filterMap_cons_some isNext) (List.append_nil _) rfl rfl
  | cascading node todo =>
      cases todo with
      | nil => cases some
      | cons edge todo =>
          cases some
          cases fires
          exact decrements_unblockSkipped (cascade_inCall node todo) rfl (cascade_ahead ..) rfl
            (cascade_handing ..)
  | _ => cases some

end Steps

/-! ## What is released is handed over -/

namespace CallStep

variable {step : CallStep} {target : NodeId} {call : Decrement}

/-- Only the last dependency decides. -/
theorem lowerHalf_of_decision {inDegree : Nat} {call : Decrement}
    (decided : (call.apply inDegree).2 ≠ .pending) : lowerHalf inDegree = 1 := by
  rw [lowerHalf, ← lower_eq_mod]
  cases call with
  | active =>
      by_contra notLast
      refine decided ?_
      simp only [Decrement.apply, decrementActive]
      exact if_neg (mt beq_iff_eq.mp notLast)
  | skipped =>
      simp only [Decrement.apply, decrementSkipped] at decided
      split at decided
      next isLast => exact isLast
      next => exact absurd rfl decided

theorem Plain.handsOver_add (plain : step.Plain) (none : step.frame.decrements = none)
    (succ : NodeId) :
    step.handsOver succ + (step.effect.frames.flatMap Frame.handing).count succ =
      (if step.releases succ then 1 else 0) + step.frame.handing.count succ := by
  rw [plain.handsOver, plain.handing, releases, none]
  simp

theorem Decrements.handsOver_add (decrements : step.Decrements target call)
    (some : step.frame.decrements = some (target, call)) (succ : NodeId) :
    step.handsOver succ + (step.effect.frames.flatMap Frame.handing).count succ =
      (if step.releases succ then 1 else 0) + step.frame.handing.count succ := by
  rw [decrements.handsOver, decrements.handing, decrements.idle, releases, some, decision]
  by_cases same : target = succ
  · subst same
    cases decided : (call.apply (step.shared.node target).inDegree).2 <;> simp [decided]
  · split <;> simp [same]

/-- A decrement that releases a node is its last one. -/
theorem zeroes_of_releases {succ : NodeId} (releases : step.releases succ = true) :
    step.zeroes succ = true := by
  simp only [CallStep.releases, Option.any_eq_true, decide_eq_true_eq] at releases
  obtain ⟨decrement, isDecrement, same, runs⟩ := releases
  simp only [zeroes, Option.any_eq_true, decide_eq_true_eq]
  exact ⟨decrement, isDecrement, same, lowerHalf_of_decision (by rw [runs]; decide)⟩

/-- The last decrement releases the node when it is an active one. -/
theorem releases_of_unblocks {succ : NodeId} (unblocks : step.unblocks succ = true) :
    step.releases succ = true := by
  simp only [CallStep.unblocks, decide_eq_true_eq] at unblocks
  simp only [releases, unblocks.1, Option.any_some, decide_eq_true_eq, true_and]
  rw [Decrement.apply, decrementActive, lower_eq_mod, show _ % 2 ^ 16 = 1 from unblocks.2]
  rfl

end CallStep

section Calls

variable {callables : Callables} {stack final : List Frame} {slot last : Option NodeId}
  {steps : List CallStep} {skipped pool : Finset NodeId} {others : NodeId → Nat} {shared : Shared}

/-- A step of the call makes no decrement, or one. -/
theorem Frame.InCall.step {frame : Frame} {canInline : Bool} {effect : Effect}
    (inCall : frame.InCall)
    (fires : frame.fire callables (canInline && slot.isNone) shared = some effect) :
    (frame.decrements = none ∧ CallStep.Plain ⟨frame, canInline, slot, shared, effect⟩) ∨
      ∃ target call, frame.decrements = some (target, call) ∧
        CallStep.Decrements ⟨frame, canInline, slot, shared, effect⟩ target call := by
  cases decrements : frame.decrements with
  | none => exact .inl ⟨rfl, inCall.plain fires decrements⟩
  | some decrement =>
      obtain ⟨target, call⟩ := decrement
      exact .inr ⟨target, call, rfl, inCall.decrements fires decrements⟩

/-- The call hands over what it releases, and what its frames are about to hand over. -/
theorem Performs.handsOver_add (performs : Performs callables stack slot steps final last)
    (inCall : ∀ frame ∈ stack, frame.InCall) (succ : NodeId) :
    (steps.map (·.handsOver succ)).sum + (final.flatMap Frame.handing).count succ =
      steps.countP (·.releases succ) + (stack.flatMap Frame.handing).count succ := by
  induction performs with
  | stop stack slot => rfl
  | @step frame below stack slot last steps effect canInline shared fires onward ih =>
      obtain ⟨top, rest⟩ := List.forall_mem_cons.mp inCall
      have balance : CallStep.handsOver succ ⟨frame, canInline, slot, shared, effect⟩ +
          (effect.frames.flatMap Frame.handing).count succ =
            (if CallStep.releases succ ⟨frame, canInline, slot, shared, effect⟩ then 1 else 0) +
              frame.handing.count succ := by
        obtain ⟨none, plain⟩ | ⟨target, call, some, decrements⟩ := top.step fires
        · exact plain.handsOver_add none succ
        · exact decrements.handsOver_add some succ
      have inCall : ∀ frame ∈ effect.frames ++ below, frame.InCall := by
        refine List.forall_mem_append.mpr ⟨?_, rest⟩
        obtain ⟨-, plain⟩ | ⟨target, call, -, decrements⟩ := top.step fires
        · exact plain.inCall
        · exact decrements.inCall
      have law := ih inCall
      rw [List.flatMap_append, List.count_append] at law
      rw [List.map_cons, List.sum_cons, List.countP_cons, List.flatMap_cons, List.count_append]
      omega

/-! ## How often a counter comes to zero -/

/-- How many decrements of a kind the frames have still to make, with the cascades from the nodes
of the pool, which may still be skipped. -/
def countLeft (store : NodeStore) (stack : List Frame) (pool : Finset NodeId)
    (kind : NodeId × Decrement → Bool) : Nat :=
  countAhead store kind (stack.flatMap (·.ahead store)) pool

/-- How many decrements of the node are left. -/
def decrementsLeft (store : NodeStore) (stack : List Frame) (pool : Finset NodeId)
    (node : NodeId) : Nat :=
  countLeft store stack pool fun decrement => decrement.1 = node

/-- The counters and what is left to decrement allow every zero once. -/
structure Room (store : NodeStore) (others : NodeId → Nat) (stack : List Frame)
    (skipped pool : Finset NodeId) : Prop where
  among : pool ⊆ skipped
  within : ∀ node, 0 < countLeft store stack pool (fun decrement => decrement = (node, .skipped)) →
    0 < zeroings (store node).inDegree (decrementsLeft store stack pool node + others node) →
    node ∈ skipped
  few : ∀ node, 0 < decrementsLeft store stack pool node →
    zeroings (store node).inDegree (decrementsLeft store stack pool node + others node) ≤ 1
  done : ∀ node ∈ skipped, node ∉ pool →
    zeroings (store node).inDegree (decrementsLeft store stack pool node + others node) = 0

theorem Frame.ahead_congr {store next : NodeStore}
    (successors : ∀ node, (next node).successors = (store node).successors) (frame : Frame) :
    frame.ahead next = frame.ahead store := by
  cases frame with
  | skipping node | skipped node => rw [Frame.ahead, Frame.ahead, successors]
  | _ => rfl

/-- What is left is a matter of the edges. -/
theorem countLeft_congr {store next : NodeStore}
    (successors : ∀ node, (next node).successors = (store node).successors) (stack : List Frame)
    (pool : Finset NodeId) : countLeft next stack pool = countLeft store stack pool := by
  funext kind
  simp only [countLeft, countAhead, Frame.ahead_congr successors, successors]

theorem decrementsLeft_congr {store next : NodeStore}
    (successors : ∀ node, (next node).successors = (store node).successors) (stack : List Frame)
    (pool : Finset NodeId) : decrementsLeft next stack pool = decrementsLeft store stack pool := by
  funext node
  rw [decrementsLeft, countLeft_congr successors, decrementsLeft]

namespace Room

/-- Where less is left and the counters come to zero less often, room remains. -/
theorem mono {store next : NodeStore} {fewer : NodeId → Nat} {onward : List Frame}
    {left : Finset NodeId} (room : Room store others stack skipped pool) (among : left ⊆ pool)
    (less : ∀ kind, countLeft next onward left kind ≤ countLeft store stack pool kind)
    (zeros : ∀ node,
      zeroings (next node).inDegree (decrementsLeft next onward left node + fewer node) ≤
        zeroings (store node).inDegree (decrementsLeft store stack pool node + others node))
    (done : ∀ node ∈ pool, node ∉ left →
      zeroings (next node).inDegree (decrementsLeft next onward left node + fewer node) = 0) :
    Room next fewer onward skipped left where
  among := among.trans room.among
  within := fun node skips zeroed => room.within node (skips.trans_le (less _))
    (zeroed.trans_le (zeros node))
  few := fun node some => (zeros node).trans (room.few node (some.trans_le (less _)))
  done := fun node member gone => by
    by_cases inPool : node ∈ pool
    · exact done node inPool gone
    · exact Nat.le_zero.mp ((zeros node).trans (room.done node member inPool).le)

/-- What the others decrement between two steps leaves room. -/
theorem others_decrement {store next : NodeStore} (room : Room store others stack skipped pool)
    {calls : NodeId → List Decrement}
    (decremented : ∀ node, (calls node).length ≤ others node ∧
      (next node).successors = (store node).successors ∧
      (next node).inDegree = Decrement.counter (store node).inDegree (calls node)) :
    Room next (fun node => others node - (calls node).length) stack skipped pool ∧
      ∀ node,
        zeroings (next node).inDegree
            (decrementsLeft next stack pool node + (others node - (calls node).length)) ≤
          zeroings (store node).inDegree (decrementsLeft store stack pool node + others node) := by
  have successors (node : NodeId) : (next node).successors = (store node).successors :=
    (decremented node).2.1
  have zeros (node : NodeId) :
      zeroings (next node).inDegree
          (decrementsLeft next stack pool node + (others node - (calls node).length)) ≤
        zeroings (store node).inDegree (decrementsLeft store stack pool node + others node) := by
    obtain ⟨most, -, inDegree⟩ := decremented node
    rw [decrementsLeft_congr successors, inDegree]
    refine (zeroings_counter _ _ _).trans (zeroings_mono _ ?_)
    omega
  exact ⟨room.mono (Finset.Subset.refl pool) (fun kind => (congrFun (countLeft_congr successors ..)
    kind).le) zeros fun node member gone => absurd member gone, zeros⟩

section Step

variable {step : CallStep} {target : NodeId} {call : Decrement} {below : List Frame}

/-- What is left after a step that decrements nothing. -/
theorem countLeft_plain (plain : step.Plain) (below : List Frame) (pool : Finset NodeId) :
    countLeft step.effect.shared.node (step.effect.frames ++ below) pool =
      countLeft step.shared.node (step.frame :: below) pool := by
  rw [countLeft_congr plain.successors]
  funext kind
  rw [countLeft, List.flatMap_append, plain.ahead, countLeft, List.flatMap_cons]

/-- The decrement of the step is one of those that are left before it. -/
theorem countLeft_pos (decrements : step.Decrements target call) (below : List Frame)
    (pool : Finset NodeId) {kind : NodeId × Decrement → Bool}
    (isKind : kind (target, call) = true) :
    0 < countLeft step.shared.node (step.frame :: below) pool kind := by
  obtain ⟨rest, ahead, -⟩ := decrements.ahead
  rw [countLeft, countAhead, List.flatMap_cons, ahead, List.cons_append,
    List.countP_cons_of_pos isKind]
  omega

/-- A decrement at the last dependency leads to a zero. -/
theorem zeroings_pos_of_last (decrements : step.Decrements target call) (below : List Frame)
    (pool : Finset NodeId) (isLast : lowerHalf (step.shared.node target).inDegree = 1)
    (others : Nat) :
    0 < zeroings (step.shared.node target).inDegree
      (decrementsLeft step.shared.node (step.frame :: below) pool target + others) := by
  have some : 0 < decrementsLeft step.shared.node (step.frame :: below) pool target :=
    countLeft_pos decrements below pool (decide_eq_true rfl)
  rw [zeroings_pos, untilZero, isLast, if_neg Nat.one_ne_zero]
  omega

/-- Only a skipped decrement at the last dependency skips its node. -/
theorem skipped_of_skips (skips : step.decision target call = .skip) :
    call = .skipped ∧ lowerHalf (step.shared.node target).inDegree = 1 := by
  refine ⟨?_, CallStep.lowerHalf_of_decision (skips.trans_ne (by decide))⟩
  cases call with
  | skipped => rfl
  | active =>
      simp only [CallStep.decision, Decrement.apply] at skips
      split at skips <;> cases skips

/-- What is left after a decrement that skips nothing. -/
theorem countLeft_decrements (decrements : step.Decrements target call)
    (goesOn : step.decision target call ≠ .skip) (below : List Frame) (pool : Finset NodeId)
    (kind : NodeId × Decrement → Bool) :
    countLeft step.effect.shared.node (step.effect.frames ++ below) pool kind +
        (if kind (target, call) then 1 else 0) =
      countLeft step.shared.node (step.frame :: below) pool kind := by
  obtain ⟨rest, ahead, onward⟩ := decrements.ahead
  rw [countLeft_congr decrements.successors]
  simp only [countLeft, List.flatMap_append, List.flatMap_cons, ahead, onward, if_neg goesOn,
    countAhead, List.nil_append, List.cons_append, List.countP_cons]
  omega

/-- A decrement is left until the step makes it, and its cascade is taken from the pool. -/
theorem exists_left
    (room : Room step.shared.node others (step.frame :: below) skipped pool)
    (decrements : step.Decrements target call) :
    ∃ left ⊆ pool,
      (∀ kind, countLeft step.effect.shared.node (step.effect.frames ++ below) left kind +
          (if kind (target, call) then 1 else 0) =
        countLeft step.shared.node (step.frame :: below) pool kind) ∧
      ∀ node ∈ pool, node ∉ left → target = node ∧
        lowerHalf (step.shared.node node).inDegree = 1 := by
  by_cases skips : step.decision target call = .skip
  · obtain ⟨rfl, isLast⟩ := skipped_of_skips skips
    have zeroed := zeroings_pos_of_last decrements below pool isLast (others target)
    have inPool : target ∈ pool := by
      by_contra gone
      have member := room.within target
        (countLeft_pos decrements below pool (decide_eq_true rfl)) zeroed
      exact absurd (room.done target member gone) zeroed.ne'
    refine ⟨pool.erase target, Finset.erase_subset target pool, fun kind => ?_,
      fun node member gone => ?_⟩
    · obtain ⟨rest, ahead, onward⟩ := decrements.ahead
      rw [countLeft_congr decrements.successors]
      simp only [countLeft, List.flatMap_append, List.flatMap_cons, ahead, onward, if_pos skips,
        countAhead, List.append_assoc, List.cons_append, List.countP_append, List.countP_cons]
      rw [← Finset.sum_erase_add pool _ inPool]
      omega
    · obtain rfl : node = target := by
        by_contra other
        exact gone (Finset.mem_erase.mpr ⟨other, member⟩)
      exact ⟨rfl, isLast⟩
  · exact ⟨pool, Finset.Subset.refl pool, countLeft_decrements decrements skips below pool,
      fun node member gone => absurd member gone⟩

/-- A decrement of a node is one of those that lead to the zeros of its counter. -/
theorem zeroings_decrements (decrements : step.Decrements target call) {node : NodeId}
    {fewer more : Nat} (balance : fewer + (if target = node then 1 else 0) = more) :
    zeroings (step.effect.shared.node node).inDegree fewer +
        (if target = node ∧ lowerHalf (step.shared.node node).inDegree = 1 then 1 else 0) =
      zeroings (step.shared.node node).inDegree more := by
  rw [decrements.inDegree]
  by_cases same : target = node
  · subst same
    rw [if_pos rfl] at balance
    simp only [if_true, true_and]
    rw [← balance, zeroings_succ _ _ call]
  · rw [if_neg same, Nat.add_zero] at balance
    rw [if_neg fun isTarget => same isTarget.symm, if_neg fun isTarget => same isTarget.1, balance,
      Nat.add_zero]

/-- A decrement leaves room, with one zero less if it is the last one. -/
theorem decrement
    (room : Room step.shared.node others (step.frame :: below) skipped pool)
    (decrements : step.Decrements target call) :
    ∃ left,
      Room step.effect.shared.node others (step.effect.frames ++ below) skipped left ∧
      ∀ node,
        decrementsLeft step.effect.shared.node (step.effect.frames ++ below) left node +
            (if target = node then 1 else 0) =
          decrementsLeft step.shared.node (step.frame :: below) pool node ∧
        zeroings (step.effect.shared.node node).inDegree
            (decrementsLeft step.effect.shared.node (step.effect.frames ++ below) left node +
              others node) +
            (if target = node ∧ lowerHalf (step.shared.node node).inDegree = 1 then 1 else 0) =
          zeroings (step.shared.node node).inDegree
            (decrementsLeft step.shared.node (step.frame :: below) pool node + others node) := by
  obtain ⟨left, among, balance, taken⟩ := room.exists_left decrements
  have fewer (node : NodeId) :
      decrementsLeft step.effect.shared.node (step.effect.frames ++ below) left node +
          (if target = node then 1 else 0) =
        decrementsLeft step.shared.node (step.frame :: below) pool node := by
    simpa only [decrementsLeft, decide_eq_true_eq] using balance fun decrement => decrement.1 = node
  have zeros (node : NodeId) :
      zeroings (step.effect.shared.node node).inDegree
          (decrementsLeft step.effect.shared.node (step.effect.frames ++ below) left node +
            others node) +
          (if target = node ∧ lowerHalf (step.shared.node node).inDegree = 1 then 1 else 0) =
        zeroings (step.shared.node node).inDegree
          (decrementsLeft step.shared.node (step.frame :: below) pool node + others node) :=
    zeroings_decrements decrements (by rw [Nat.add_right_comm, fewer node])
  refine ⟨left, room.mono among (fun kind => ?_) (fun node => ?_) (fun node member gone => ?_),
    fun node => ⟨fewer node, zeros node⟩⟩
  · rw [← balance kind]
    exact Nat.le_add_right _ _
  · rw [← zeros node]
    exact Nat.le_add_right _ _
  · have isLast := taken node member gone
    have zeros := zeros node
    have once := room.few node (by rw [← fewer node, if_pos isLast.1]; omega)
    rw [if_pos isLast] at zeros
    omega

end Step

end Room

theorem CallStep.zeroes_of_decrements {step : CallStep} {target : NodeId} {call : Decrement}
    (some : step.frame.decrements = some (target, call)) (node : NodeId) :
    step.zeroes node =
      decide (target = node ∧ lowerHalf (step.shared.node node).inDegree = 1) := by
  rw [CallStep.zeroes, some]
  rfl

/-- The call brings a counter to zero at most as often as its decrements and those of the others
can. -/
theorem Performs.countP_zeroes_le (performs : Performs callables stack slot steps final last) :
    ∀ {others : NodeId → Nat} {shared : Shared} {pool : Finset NodeId},
      (∀ frame ∈ stack, frame.InCall) → OthersDecrement others shared steps →
      Room shared.node others stack skipped pool → ∀ node,
      steps.countP (·.zeroes node) ≤ zeroings (shared.node node).inDegree
          (decrementsLeft shared.node stack pool node + others node) ∧
        (0 < steps.countP (·.zeroes node) → 0 < decrementsLeft shared.node stack pool node) := by
  induction performs with
  | stop stack slot => exact fun _ _ _ node => ⟨Nat.zero_le _, fun none => absurd none (by simp)⟩
  | @step frame below stack slot last steps effect canInline shared fires onward ih =>
      intro others before pool inCall disturbed room node
      obtain ⟨top, rest⟩ := List.forall_mem_cons.mp inCall
      obtain ⟨calls, decremented, disturbed⟩ := disturbed
      have successors (node : NodeId) :
          (shared.node node).successors = (before.node node).successors := (decremented node).2.1
      obtain ⟨room, zeros⟩ := room.others_decrement decremented
      have zeros := zeros node
      rw [← decrementsLeft_congr successors] at zeros ⊢
      rw [List.countP_cons]
      obtain ⟨none, plain⟩ | ⟨target, call, some, decrements⟩ := top.step fires
      · have left := Room.countLeft_plain plain below pool
        have inDegree (node : NodeId) :
            (effect.shared.node node).inDegree = (shared.node node).inDegree := plain.inDegree node
        have same (node : NodeId) : decrementsLeft effect.shared.node (effect.frames ++ below) pool
            node = decrementsLeft shared.node (frame :: below) pool node := congrFun left _
        have onward : Room effect.shared.node (fun node => others node - (calls node).length)
            (effect.frames ++ below) skipped pool := by
          refine room.mono (Finset.Subset.refl pool) (fun kind => (congrFun left kind).le)
            (fun node => ?_) fun node member gone => absurd member gone
          rw [inDegree, same]
        obtain ⟨atMost, some⟩ :=
          ih (List.forall_mem_append.mpr ⟨plain.inCall, rest⟩) disturbed onward node
        rw [inDegree, same] at atMost
        rw [same] at some
        rw [CallStep.zeroes, none]
        exact ⟨atMost.trans zeros, some⟩
      · obtain ⟨left, onward, balance⟩ := room.decrement decrements
        obtain ⟨fewer, zero⟩ := balance node
        obtain ⟨atMost, isLeft⟩ :=
          ih (List.forall_mem_append.mpr ⟨decrements.inCall, rest⟩) disturbed onward node
        have isZero : CallStep.zeroes node ⟨frame, canInline, slot, shared, effect⟩ =
            decide (target = node ∧ lowerHalf (shared.node node).inDegree = 1) :=
          CallStep.zeroes_of_decrements some node
        dsimp only at atMost isLeft fewer zero zeros
        simp only [isZero, decide_eq_true_eq]
        constructor
        · omega
        · split
          next isLast =>
            rw [if_pos isLast.1] at fewer
            omega
          next => omega

/-- A call that nobody disturbs and that skips nothing brings a counter to zero by active edges as
often as its decrements do. -/
theorem Performs.countP_unblocks (performs : Performs callables stack slot steps final last) :
    ∀ {shared : Shared} {node : NodeId}, (∀ frame ∈ stack, frame.InCall) →
      final = [.finishing node] → Undisturbed shared steps →
      (∀ node, 0 < countLeft shared.node stack ∅ (fun decrement => decrement = (node, .skipped)) →
        zeroings (shared.node node).inDegree (decrementsLeft shared.node stack ∅ node) = 0) →
      ∀ node, steps.countP (·.unblocks node) =
        zeroings (shared.node node).inDegree (decrementsLeft shared.node stack ∅ node) := by
  induction performs with
  | stop stack slot =>
      rintro shared node inCall rfl - - query
      exact (zeroings_zero _).symm
  | @step frame below stack slot last steps effect canInline shared fires onward ih =>
      rintro shared node inCall finished ⟨rfl, undisturbed⟩ skips query
      obtain ⟨top, rest⟩ := List.forall_mem_cons.mp inCall
      rw [List.countP_cons]
      obtain ⟨none, plain⟩ | ⟨target, call, some, decrements⟩ := top.step fires
      · have left := Room.countLeft_plain plain below ∅
        have inDegree (node : NodeId) :
            (effect.shared.node node).inDegree = (shared.node node).inDegree := plain.inDegree node
        have same (node : NodeId) : decrementsLeft effect.shared.node (effect.frames ++ below) ∅
            node = decrementsLeft shared.node (frame :: below) ∅ node := congrFun left _
        have law := ih (List.forall_mem_append.mpr ⟨plain.inCall, rest⟩) finished undisturbed
          (fun node counted => by
            rw [inDegree, same]
            exact skips node (counted.trans_le (congrFun left _).le)) query
        rw [inDegree, same] at law
        rw [law, CallStep.unblocks, none]
        rfl
      · have passed (isSkipped : call = .skipped) :
            lowerHalf (shared.node target).inDegree ≠ 1 := fun isLast =>
          (Room.zeroings_pos_of_last decrements below ∅ isLast 0).ne'
            (skips target (Room.countLeft_pos decrements below ∅
              (by rw [isSkipped]; exact decide_eq_true rfl)))
        have goesOn : CallStep.decision ⟨frame, canInline, slot, shared, effect⟩ target call ≠
            .skip := fun isSkip =>
          passed (Room.skipped_of_skips isSkip).1 (Room.skipped_of_skips isSkip).2
        have balance := Room.countLeft_decrements decrements goesOn below ∅
        have fewer (node : NodeId) :
            decrementsLeft effect.shared.node (effect.frames ++ below) ∅ node +
                (if target = node then 1 else 0) =
              decrementsLeft shared.node (frame :: below) ∅ node := by
          simpa only [decrementsLeft, decide_eq_true_eq] using
            balance fun decrement => decrement.1 = node
        have zeros (node : NodeId) :
            zeroings (effect.shared.node node).inDegree
                (decrementsLeft effect.shared.node (effect.frames ++ below) ∅ node) +
                (if target = node ∧ lowerHalf (shared.node node).inDegree = 1 then 1 else 0) =
              zeroings (shared.node node).inDegree
                (decrementsLeft shared.node (frame :: below) ∅ node) :=
          Room.zeroings_decrements decrements (fewer node)
        have isZero : CallStep.unblocks query ⟨frame, canInline, slot, shared, effect⟩ =
            decide (target = query ∧ lowerHalf (shared.node query).inDegree = 1) := by
          rw [CallStep.unblocks, some]
          cases call with
          | active => simp
          | skipped =>
              have passed := passed rfl
              symm
              rw [decide_eq_decide]
              constructor
              · rintro ⟨rfl, isLast⟩
                exact absurd isLast passed
              · rintro ⟨isActive, -⟩
                cases isActive
        rw [ih (List.forall_mem_append.mpr ⟨decrements.inCall, rest⟩) finished undisturbed
          (fun node counted => ?_) query, ← zeros query]
        · simp only [isZero, decide_eq_true_eq]
        · have more : 0 < countLeft shared.node (frame :: below) ∅
              (fun decrement => decrement = (node, .skipped)) :=
            counted.trans_le (balance _ ▸ Nat.le_add_right _ _)
          have none : zeroings (shared.node node).inDegree
              (decrementsLeft shared.node (frame :: below) ∅ node) = 0 := skips node more
          have zeros := zeros node
          dsimp only
          omega

/-! ## Handed over once and announced -/

section Walk

variable {node : NodeId} {branch : Option Int} {edges : List SuccessorEdge}

theorem decrementsLeft_unblocking (store : NodeStore) (count : Nat) (succ : NodeId) :
    decrementsLeft store [.unblocking node branch edges count] skipped succ =
      callDecrements store branch edges skipped succ := by
  rw [decrementsLeft, countLeft, List.flatMap_singleton]
  rfl

theorem countLeft_unblocking (store : NodeStore) (count : Nat) (succ : NodeId) :
    countLeft store [.unblocking node branch edges count] skipped
        (fun decrement => decrement = (succ, .skipped)) =
      callSkips store branch edges skipped succ := by
  rw [countLeft, List.flatMap_singleton]
  rfl

/-- The counters and the edges leave room for the call. -/
theorem Room.of_few (store : NodeStore) (count : Nat)
    (within : SkipsWithin store branch edges skipped others)
    (few : FewDecrements store branch edges skipped others) :
    Room store others [.unblocking node branch edges count] skipped skipped where
  among := Finset.Subset.refl skipped
  within := fun succ skips zeroed => by
    rw [countLeft_unblocking] at skips
    rw [decrementsLeft_unblocking, zeroings_pos] at zeroed
    exact within succ skips zeroed
  few := fun succ some => by
    rw [decrementsLeft_unblocking] at some ⊢
    exact zeroings_le_one.mpr (few succ some)
  done := fun succ member gone => absurd member gone

/-- The call hands over a node as often as it releases it. -/
theorem Performs.handsOver_eq
    (performs : Performs callables [.unblocking node branch edges 0] slot steps [.finishing node]
      last) (succ : NodeId) :
    (steps.map (·.handsOver succ)).sum = steps.countP (·.releases succ) := by
  simpa [Frame.handing] using
    performs.handsOver_add (List.forall_mem_singleton.mpr trivial) succ

/-- Few decrements hand over once. -/
theorem handsOverOnce_of_few
    (performs : Performs callables [.unblocking node branch edges 0] slot steps [.finishing node]
      last)
    (disturbed : OthersDecrement others shared steps)
    (within : SkipsWithin shared.node branch edges skipped others)
    (few : FewDecrements shared.node branch edges skipped others) : HandsOverOnce steps := by
  rintro succ ⟨step, member, unblocks⟩
  obtain ⟨atMost, counted⟩ := performs.countP_zeroes_le (List.forall_mem_singleton.mpr trivial)
    disturbed (.of_few shared.node 0 within few) succ
  have released : 0 < steps.countP (·.releases succ) :=
    List.countP_pos_iff.mpr ⟨step, member, CallStep.releases_of_unblocks unblocks⟩
  have zeroed : steps.countP (·.releases succ) ≤ steps.countP (·.zeroes succ) :=
    List.countP_mono_left fun _ _ => CallStep.zeroes_of_releases
  have some := counted (by omega)
  rw [decrementsLeft_unblocking] at atMost some
  have once := zeroings_le_one.mpr (few succ some)
  rw [performs.handsOver_eq]
  omega

/-- Where the call skips nothing and nobody disturbs it, few decrements are also necessary. -/
theorem handsOverOnce_iff_few
    (performs : Performs callables [.unblocking node branch edges 0] slot steps [.finishing node]
      last)
    (undisturbed : Undisturbed shared steps)
    (within : SkipsWithin shared.node branch edges ∅ fun _ => 0) :
    HandsOverOnce steps ↔ FewDecrements shared.node branch edges ∅ fun _ => 0 := by
  constructor
  · intro once succ some
    have unblocked := performs.countP_unblocks (List.forall_mem_singleton.mpr trivial) rfl
      undisturbed (fun query skips => by
        rw [countLeft_unblocking] at skips
        rw [decrementsLeft_unblocking]
        by_contra zeroed
        exact absurd (within query skips (zeroings_pos.mp (Nat.pos_of_ne_zero zeroed)))
          (Finset.notMem_empty query)) succ
    rw [decrementsLeft_unblocking] at unblocked
    refine zeroings_le_one.mp ?_
    rw [Nat.add_zero, ← unblocked]
    rcases Nat.eq_zero_or_pos (steps.countP (·.unblocks succ)) with none | unblocks
    · omega
    · have handed := once succ (List.countP_pos_iff.mp unblocks)
      rw [performs.handsOver_eq] at handed
      exact handed ▸ List.countP_mono_left fun _ _ => CallStep.releases_of_unblocks
  · exact handsOverOnce_of_few performs undisturbed.othersDecrement within

end Walk

end Calls

/-- A walk over successors without a loop-back announces what it passes on, whatever the other
threads do.  It hands over what it unblocks exactly once if the decrements of the call and of the
others are too few to bring a counter to zero twice; where it skips nothing and nobody disturbs it,
only then.  The Worker roots of a run are announced in any case. -/
theorem handed_over_once (callables : Callables) :
    (∀ node branch edges slot steps last,
      Performs callables [.unblocking node branch edges 0] slot steps [.finishing node] last →
        Announces slot steps last ∧
        (∀ others shared skipped, OthersDecrement others shared steps →
          SkipsWithin shared.node branch edges skipped others →
          FewDecrements shared.node branch edges skipped others → HandsOverOnce steps) ∧
        ∀ shared, Undisturbed shared steps →
          SkipsWithin shared.node branch edges ∅ (fun _ => 0) →
          (HandsOverOnce steps ↔ FewDecrements shared.node branch edges ∅ fun _ => 0)) ∧
    ∀ threads roots (steps : List (RunState threads × RunState threads)),
      Dispatches roots 0 steps → RootsAnnounced roots 0 steps :=
  ⟨fun _ _ _ _ _ _ performs => ⟨performs.announces,
    fun _ _ _ => handsOverOnce_of_few performs, fun _ => handsOverOnce_iff_few performs⟩,
    fun _ _ _ => Dispatches.announced⟩

/-- Callables that no walk calls. -/
def noCallables : Callables where
  result := fun _ _ => 0
  subflow := fun _ => {}

/-- A step goes before the rest of the call. -/
theorem Performs.exists_cons {callables : Callables} {slot : Option NodeId} {frame : Frame}
    {below onward final : List Frame} {shared : Shared} {effect : Effect}
    {motive : List CallStep → Prop} (canInline : Bool)
    (fires : frame.fire callables (canInline && slot.isNone) shared = some effect)
    (frames : effect.frames ++ below = onward)
    (rest : ∃ steps last, Performs callables onward (effect.staged <|> slot) steps final last ∧
      Undisturbed effect.shared steps ∧
        motive (⟨frame, canInline, slot, shared, effect⟩ :: steps)) :
    ∃ steps last, Performs callables (frame :: below) slot steps final last ∧
      Undisturbed shared steps ∧ motive steps := by
  obtain ⟨steps, last, performs, undisturbed, holds⟩ := rest
  refine ⟨_, last, .step canInline shared fires ?_, ⟨rfl, undisturbed⟩, holds⟩
  rwa [frames]

/-- The edges of a condition that takes branch 0: one to a node that it skips, and one to a node
behind both. -/
def skippingEdges : List SuccessorEdge :=
  [{ target := .node 2, branch := 1 }, { target := .node 1, branch := 0 }]

/-- Node 2 waits for the condition, and node 1 for the condition and node 2. -/
def skippingShared : Shared where
  node
    | .node 1 => { inDegree := 2, initialInDegree := 2 }
    | .node 2 => { inDegree := 1, initialInDegree := 1, successors := [{ target := .node 1 }] }
    | _ => {}

/-- The edges into node 2 and node 1, and no others, are decremented. -/
theorem callDecrements_skipping (succ : NodeId) :
    callDecrements skippingShared.node (some 0) skippingEdges {.node 1, .node 2} succ =
      if succ = .node 2 then 1 else if succ = .node 1 then 2 else 0 := by
  have ahead : skippingEdges.filterMap (edgeDecrement (some 0)) =
      [(.node 2, .skipped), (.node 1, .active)] := rfl
  rw [callDecrements, countAhead, ahead, Finset.sum_pair (by decide)]
  by_cases second : succ = .node 2
  · subst second
    rfl
  · by_cases first : succ = .node 1
    · subst first
      rfl
    · simp [skippedDecrements, skippingShared, Ne.symm first, Ne.symm second, first, second]

/-- The skipped node decrements node 1 before the condition hands it over. -/
theorem handed_over_once_skipping : ∃ steps last,
    Performs noCallables [.unblocking (.node 0) (some 0) skippingEdges 0] none steps
      [.finishing (.node 0)] last ∧
      (∃ step ∈ steps, step.unblocks (.node 1) = true) ∧ HandsOverOnce steps := by
  obtain ⟨steps, last, performs, undisturbed, unblocks⟩ : ∃ steps last,
      Performs noCallables [.unblocking (.node 0) (some 0) skippingEdges 0] none steps
        [.finishing (.node 0)] last ∧ Undisturbed skippingShared steps ∧
          ∃ step ∈ steps, step.unblocks (.node 1) = true := by
    -- node 2 is skipped, cascades over its edge and node 1 is unblocked
    refine Performs.exists_cons true rfl rfl (Performs.exists_cons true rfl rfl
      (Performs.exists_cons true rfl rfl (Performs.exists_cons true rfl rfl
        (Performs.exists_cons true rfl rfl (Performs.exists_cons true rfl rfl
          (Performs.exists_cons true rfl rfl ⟨[], _, .stop _ _, trivial, ?_⟩))))))
    exact ⟨_, .tail _ (.tail _ (.tail _ (.tail _ (.head _)))), rfl⟩
  refine ⟨steps, last, performs, unblocks,
    ((handed_over_once noCallables).1 _ _ _ _ _ _ performs).2.1 (fun _ => 0) skippingShared
      {.node 1, .node 2} undisturbed.othersDecrement (fun succ _ zeroed => ?_) fun succ some => ?_⟩
  · rw [callDecrements_skipping] at zeroed
    by_cases second : succ = .node 2
    · simp [second]
    · by_cases first : succ = .node 1
      · simp [first]
      · simp only [if_neg second, if_neg first, skippingShared] at zeroed
        exact absurd zeroed (by decide)
  · dsimp only
    rw [callDecrements_skipping]
    split
    · omega
    · split <;> omega

/-! ## 65537 edges to one node -/

/-- 65537 edges to one node count up to a counter with a single dependency left. -/
def manyEdges : Shared where
  node := fun _ => { inDegree := 65537, initialInDegree := 65537 }

/-- A plain walk that nobody disturbs comes to its end. -/
theorem exists_undisturbed (callables : Callables) (canInline : Bool) (node : NodeId)
    (edges : List SuccessorEdge) (count : Nat) (slot : Option NodeId) (shared : Shared) :
    ∃ steps last,
      Performs callables [.unblocking node none edges count] slot steps [.finishing node] last ∧
        Undisturbed shared steps := by
  induction edges generalizing count slot shared with
  | nil => exact ⟨_, slot, .step canInline shared rfl (.stop _ _), rfl, trivial⟩
  | cons edge edges ih =>
      cases unblocked : (decrementActive (shared.node edge.target).inDegree).2 with
      | false =>
          obtain ⟨steps, last, performs, undisturbed⟩ :=
            ih count slot (unblockActive shared node none edge.target edges count).shared
          refine ⟨_, last, .step canInline shared rfl ?_, rfl, undisturbed⟩
          simpa [unblockActive, unblocked] using performs
      | true =>
          let decremented := (unblockActive shared node none edge.target edges count).shared
          let handing := handOver decremented (canInline && slot.isNone) node none edge.target edges
            count
          obtain ⟨count', frames⟩ := handOver_frames decremented (canInline && slot.isNone) node
            edge.target none edges count
          obtain ⟨steps, last, performs, undisturbed⟩ :=
            ih count' (handing.staged <|> slot) handing.shared
          have handOver : Performs callables [.handingOver node none edge.target edges count] slot
              (⟨.handingOver node none edge.target edges count, canInline, slot, decremented,
                handing⟩ :: steps) [.finishing node] last := by
            refine .step canInline decremented rfl ?_
            rwa [frames]
          refine ⟨_ ::
              ⟨.handingOver node none edge.target edges count, canInline, slot, decremented,
                handing⟩ :: steps, last, .step canInline shared rfl ?_, rfl, rfl, undisturbed⟩
          simpa [unblockActive, unblocked] using handOver

/-- The first and the last of 65537 edges bring the counter of their target to zero, and the target
is handed over twice. -/
theorem handed_over_twice : ∃ steps last,
    Performs noCallables
        [.unblocking (.node 0) none (List.replicate 65537 { target := .node 1 }) 0] none steps
        [.finishing (.node 0)] last ∧
      2 ≤ (steps.map (·.handsOver (.node 1))).sum ∧ ¬ HandsOverOnce steps := by
  obtain ⟨steps, last, performs, undisturbed⟩ := exists_undisturbed noCallables true (.node 0)
    (List.replicate 65537 { target := .node 1 }) 0 none manyEdges
  have ahead : (List.replicate 65537 ({ target := .node 1 } : SuccessorEdge)).filterMap
      (edgeDecrement none) = List.replicate 65537 (.node 1, .active) :=
    List.filterMap_replicate_of_some rfl
  have twice : 2 ≤ steps.countP (·.unblocks (.node 1)) := by
    rw [performs.countP_unblocks (List.forall_mem_singleton.mpr trivial) rfl undisturbed
      (fun node skips => by
        rw [countLeft_unblocking, callSkips, countAhead, ahead, List.countP_replicate] at skips
        exact absurd skips (by simp)) (.node 1),
      decrementsLeft_unblocking, callDecrements, countAhead, ahead, List.countP_replicate]
    exact Nat.le_refl 2
  have handed : 2 ≤ (steps.map (·.handsOver (.node 1))).sum := by
    rw [performs.handsOver_eq]
    exact twice.trans (List.countP_mono_left fun _ _ => CallStep.releases_of_unblocks)
  refine ⟨steps, last, performs, handed, fun once => ?_⟩
  have only := once (.node 1) (List.countP_pos_iff.mp (Nat.lt_of_lt_of_le Nat.zero_lt_two twice))
  omega

end LightFlow
