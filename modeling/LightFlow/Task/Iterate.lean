import LightFlow.Task.Laps

/-!
# Runs with loops

`prepareRun` opens the account, guarded steps keep it, and the answers of the conditions
say how often every node was made pending again.
-/

namespace LightFlow

/-! ## The start of a run -/

/-- Where the nodes stand when a run starts. -/
def Tally.opening (graph : TaskGraph) (extra : NodeId → Nat) : Tally where
  need := fun node => (graph.node node).initialInDegree
  got := fun _ => 0
  closed := fun _ => 0
  extra := extra
  kept := fun node => node ∈ graph.order

/-- A run in which the roots wait to be executed opens the account. -/
theorem Account.opening {graph : TaskGraph} {extra : NodeId → Nat} {load : Workload}
    (distinct : graph.order.Nodup) (bound : graph.order.length < 2 ^ 32)
    (degree : ∀ node, (graph.node node).initialInDegree =
      (graph.order.map fun source =>
        TaskGraph.forwardInto node (graph.node source).successors).sum +
        extra node)
    (narrow : ∀ node, (graph.node node).initialInDegree < 2 ^ 32)
    (listed : ∀ node, 0 < (graph.node node).initialInDegree → node ∈ graph.order)
    (shape : ∀ node, (load.shared.node node).type = (graph.node node).type ∧
      (load.shared.node node).initialInDegree = (graph.node node).initialInDegree ∧
      (load.shared.node node).successors = (graph.node node).successors)
    (counters : ∀ node ∈ graph.order,
      (load.shared.node node).inDegree = (graph.node node).initialInDegree)
    (log : load.shared.log = []) (frames : load.frames = 0)
    (ready : load.ready =
      ↑(graph.order.filter fun node => (graph.node node).initialInDegree = 0))
    (pending : load.shared.m_pendingTasks = graph.order.length) :
    Account graph (.opening graph extra) load := by
  -- A node waits, or is among the roots.
  have passage (node : NodeId) : waiting (graph.node node).initialInDegree +
      load.ready.count node = graph.order.count node := by
    rw [ready, Multiset.coe_count]
    by_cases isFree : (graph.node node).initialInDegree = 0
    · rw [isFree, waiting_zero, Nat.zero_add, List.count_filter (by simpa using isFree)]
    · have positive := Nat.pos_of_ne_zero isFree
      rw [waiting_of_pos positive, List.count_eq_one_of_mem distinct (listed node positive),
        List.count_eq_zero_of_not_mem (by simp [isFree])]
  have counted (node : NodeId) :
      (load.ready.map fun other => if other = node then 1 else 0).sum = load.ready.count node := by
    induction load.ready using Multiset.induction_on with
    | empty => rfl
    | cons other others ih =>
        rw [Multiset.map_cons, Multiset.sum_cons, ih, Multiset.count_cons, Nat.add_comm]
        simp [eq_comm]
  refine
    { passage := fun node => ?_
      called := fun node => ?_
      finished := by simp [Workload.amount, frames, log, Tally.opening]
      settled := by simp [Tally.opening]
      edges := fun target => ?_
      active := by simp [Workload.amount, frames, Tally.opening]
      packed := fun node isKnown => ?_
      stuck := by simp [Tally.opening]
      bounded := by simp [Tally.opening]
      willRun := fun node _ some => ?_
      willSkip := by simp [Workload.amount, frames, log]
      told := by simp [frames]
      chosen := by simp [Tally.opening]
      choice := by simp [Tally.opening]
      sent := by simp [Workload.amount, frames, log, decrements, Tally.opening]
      once := by simp [Tally.opening]
      shape
      walks := by simp [frames]
      pending := ?_ }
  · simpa [Workload.amount, frames, Tally.opening, counted] using passage node
  · simpa [Workload.amount, frames, log, Tally.opening, counted] using passage node
  · simpa [Workload.amount, frames, Tally.opening, Tally.isOpen] using degree target
  · have isListed : node ∈ graph.order := isKnown.elim (listed node) id
    rw [counters node isListed]
    exact .of_initial (narrow node)
  · simp only [Workload.amount, frames, log, Quantity.ofReady, counted, Multiset.map_zero,
      Multiset.sum_zero, List.count_nil, Nat.add_zero] at some
    have isRoot := Multiset.count_pos.mp some
    rw [ready, Multiset.mem_coe, List.mem_filter] at isRoot
    exact .inl (by simpa using isRoot.2)
  · have oneEach : (Tally.opening graph extra).isOpen = fun _ => 1 := rfl
    simp [oneEach, pending, Workload.amount, frames, u32_of_lt bound]

/-! ## Answers that go back to a loop -/

/-- The condition goes back to a loop that `node` is in when its callable returns `result`. -/
def TaskGraph.GoesBack (graph : TaskGraph) (source : NodeId) (result : Int) (node : NodeId) :
    Prop :=
  ∃ target, loopBack { graph.node source with userData := result } = some target ∧
    graph.Body source target node

open Classical in
/-- How many answers of the condition in this run go back to a loop that `node` is in. -/
noncomputable def TaskGraph.returns (graph : TaskGraph) (callables : Callables) (shared : Shared)
    (source node : NodeId) : Nat :=
  (List.range (shared.log.count (.executed source))).countP fun back =>
    graph.GoesBack source (callables.result source (shared.calls source - (back + 1))) node

open Classical in
/-- The frame is about to make the node pending again. -/
noncomputable def Frame.revives (graph : TaskGraph) (store : NodeStore) (node : NodeId) :
    Frame → Nat
  | .completing source => if graph.GoesBack source (store source).userData node then 1 else 0
  | .resetting source target _ _ | .resettingState source target _ _ _ =>
      if graph.Body source target node then 1 else 0
  | _ => 0

section Revives

variable {graph : TaskGraph} {callables : Callables} {tally next : Tally} {shared : Shared}
  {ready : Multiset NodeId} {frame : Frame} {rest : Multiset Frame} {effect : Effect}
  {allowed : NodeId → NodeId → Prop}

/-- Only a call answers. -/
theorem returns_of_fire {inlineFree : Bool} (notCalling : ∀ node, frame ≠ .calling node)
    (fired : frame.fire callables inlineFree shared = some effect) (source node : NodeId) :
    graph.returns callables effect.shared source node =
      graph.returns callables shared source node := by
  obtain ⟨calls, -, ⟨events, log, quiet⟩, -⟩ := Frame.fire_keeps notCalling fired
  have none : events.count (.executed source) = 0 := by
    refine List.count_eq_zero_of_not_mem fun member => ?_
    simpa [Event.isCall] using (quiet _ member).1
  rw [TaskGraph.returns, TaskGraph.returns, log, List.count_append, none, Nat.zero_add]
  exact List.countP_congr fun back _ => by simp only [decide_eq_true_eq, calls]

open Classical in
/-- A call answers once. -/
theorem returns_of_call {node : NodeId} (noSplice : CallsNoSplice callables shared node)
    (source query : NodeId) :
    graph.returns callables (executeFn callables shared node).1 source query =
      graph.returns callables shared source query +
        if source = node ∧
          graph.GoesBack node (callables.result node (shared.calls node)) query then 1 else 0 := by
  obtain ⟨-, log, -⟩ := executeFn_of_callsNoSplice noSplice
  rw [TaskGraph.returns, TaskGraph.returns, log, executeFn_calls, List.count_cons]
  by_cases same : source = node
  · subst same
    simp only [beq_self_eq_true, ↓reduceIte, List.range_succ_eq_map, List.countP_cons,
      List.countP_map, Function.update_self, Nat.zero_add, Nat.add_sub_cancel, true_and,
      decide_eq_true_eq]
    congr 1
    refine List.countP_congr fun back _ => ?_
    simp only [Function.comp_apply, decide_eq_true_eq, Nat.succ_eq_add_one,
      Nat.add_sub_add_right]
  · have other : (Event.executed node == Event.executed source) = false := by
      simpa using Ne.symm same
    simp [same, other, Function.update_of_ne]

/-- How many answers in this run go back to a loop that the node is in. -/
noncomputable def TaskGraph.revivals (graph : TaskGraph) (callables : Callables) (shared : Shared)
    (node : NodeId) : Nat :=
  (graph.order.map fun source => graph.returns callables shared source node).sum

open Classical in
theorem revivals_of_call {node : NodeId} (noSplice : CallsNoSplice callables shared node)
    (distinct : graph.order.Nodup) (member : node ∈ graph.order) (query : NodeId) :
    graph.revivals callables (executeFn callables shared node).1 query =
      graph.revivals callables shared query +
        if graph.GoesBack node (callables.result node (shared.calls node)) query then 1 else 0 := by
  simp only [TaskGraph.revivals, returns_of_call noSplice, List.sum_map_add]
  congr 1
  rw [← Counting.sum_map_single distinct member fun source =>
    if graph.GoesBack node (callables.result node (shared.calls node)) query then 1 else 0]
  exact Counting.sum_map_congr fun source _ => by simp [ite_and, eq_comm]

theorem loopBack_congr {store : NodeStore} {source : NodeId}
    (sameType : (store source).type = (graph.node source).type)
    (sameEdges : (store source).successors = (graph.node source).successors) :
    loopBack { graph.node source with userData := (store source).userData } =
      loopBack (store source) := by
  simp [loopBack, sameType, sameEdges]

/-- A step that neither calls, completes nor resets revives nothing. -/
theorem Frame.fire_revives {inlineFree : Bool} (walks : frame.Walks graph)
    (notCalling : ∀ node, frame ≠ .calling node) (notCompleting : ∀ node, frame ≠ .completing node)
    (notResetting : ∀ source target todo cycleCount,
      frame ≠ .resetting source target todo cycleCount)
    (notState : ∀ source target curr todo cycleCount,
      frame ≠ .resettingState source target curr todo cycleCount)
    (fired : frame.fire callables inlineFree shared = some effect) {after : Frame}
    (member : after ∈ effect.frames) (store : NodeStore) (node : NodeId) :
    after.revives graph store node = 0 := by
  cases frame with
  | calling => exact absurd rfl (notCalling _)
  | completing => exact absurd rfl (notCompleting _)
  | resetting => exact absurd rfl (notResetting _ _ _ _)
  | resettingState => exact absurd rfl (notState _ _ _ _ _)
  | dispatching => exact absurd walks id
  | joining => exact absurd walks id
  | executing | finishing | skipping | scheduling | rescheduling =>
      cases fired
      simp_all [Frame.revives]
  | unblocking node branch todo unblockedCount =>
      cases todo with
      | nil =>
          cases fired
          simp_all [Frame.revives]
      | cons edge todo =>
          simp only [Frame.fire] at fired
          split at fired <;> [skip; split at fired] <;> cases fired
          · simp only [unblockActive, List.mem_singleton] at member
            split at member <;> simp [member, Frame.revives]
          · simp_all [Frame.revives]
          · simp only [unblockSkipped] at member
            split at member <;> simp at member <;> [skip; rcases member with member | member;
              rcases member with member | member] <;> simp [member, Frame.revives]
  | handingOver node branch succ todo unblockedCount =>
      cases fired
      simp only [handOver] at member
      split at member <;> [skip; split at member <;> [split at member; skip]] <;>
        simp at member <;> simp [member, Frame.revives]
  | skipped node =>
      cases fired
      cases successors : (shared.node node).successors <;> simp_all [cascade, Frame.revives]
  | cascading node todo =>
      cases todo with
      | nil => exact absurd rfl walks.1
      | cons edge todo =>
          cases fired
          simp only [unblockSkipped] at member
          split at member <;> cases todo <;> simp [cascade] at member <;> grind [Frame.revives]

/-- The frames of other calls revive what they revived before. -/
theorem Account.revives_rest {inlineFree : Bool}
    (account : Account graph tally ⟨shared, ready, frame ::ₘ rest⟩) (looped : graph.Looped)
    (fired : frame.fire callables inlineFree shared = some effect) {other : Frame}
    (member : other ∈ rest) (node : NodeId) :
    other.revives graph effect.shared.node node = other.revives graph shared.node node := by
  cases other with
  | completing source =>
      have same : (effect.shared.node source).userData = (shared.node source).userData := by
        by_cases isCall : ∃ called, frame = .calling called
        · obtain ⟨called, rfl⟩ := isCall
          have different : source ≠ called := by
            rintro rfl
            have none := account.carries_eq_zero (show 0 < List.count source _ by simp)
              looped.distinct member
            simp at none
          have noSplice : CallsNoSplice callables shared called := fun isSubflow =>
            absurd ((account.shape called).1 ▸ isSubflow) (looped.plain called)
          obtain ⟨userData, result, kept⟩ := (executeFn_of_callsNoSplice noSplice).2.2.2 source
          cases fired
          exact (congrArg TaskNode.userData result).trans (kept different)
        · push Not at isCall
          exact ((Frame.fire_keeps isCall fired).2.2.2.1 source).2
      rw [Frame.revives, Frame.revives, same]
  | _ => rfl

open Classical in
/-- What answers promise, the calls on their way and the rounds make up. -/
theorem Account.revives {inlineFree : Bool}
    (account : Account graph tally ⟨shared, ready, frame ::ₘ rest⟩) (looped : graph.Looped)
    (laps : tally.Lap graph allowed frame next)
    (fired : frame.fire callables inlineFree shared = some effect) {node : NodeId}
    (law : graph.revivals callables shared node = tally.rounds node +
      ((frame ::ₘ rest).map fun frame => frame.revives graph shared.node node).sum) :
    graph.revivals callables effect.shared node = next.rounds node +
      ((effect.load ready rest).frames.map fun frame =>
        frame.revives graph effect.shared.node node).sum := by
  have others : (rest.map fun frame => frame.revives graph effect.shared.node node).sum =
      (rest.map fun frame => frame.revives graph shared.node node).sum :=
    congrArg _ (Multiset.map_congr rfl fun other member =>
      account.revives_rest looped fired member node)
  suffices moves : graph.revivals callables effect.shared node + tally.rounds node +
      frame.revives graph shared.node node = graph.revivals callables shared node +
        next.rounds node + (effect.frames.map fun frame =>
          frame.revives graph effect.shared.node node).sum by
    simp only [Multiset.map_cons, Multiset.sum_cons, Multiset.map_add, Multiset.sum_add,
      Multiset.map_coe, Multiset.sum_coe] at law ⊢
    omega
  have answers (notCalling : ∀ node, frame ≠ .calling node) :
      graph.revivals callables effect.shared node = graph.revivals callables shared node :=
    Counting.sum_map_congr fun source _ => returns_of_fire notCalling fired source node
  have sameRounds (notResetting : ∀ source target cycleCount,
      frame ≠ .resetting source target [] cycleCount) : next.rounds node = tally.rounds node := by
    cases laps with
    | follows keeps => rw [keeps.rounds]
    | rearms => exact absurd rfl (notResetting _ _ _)
  cases frame with
  | calling source =>
      have noSplice : CallsNoSplice callables shared source := fun isSubflow =>
        absurd ((account.shape source).1 ▸ isSubflow) (looped.plain source)
      have inOrder := (account.of_carried (show 0 < List.count source _ by simp) looped.distinct).1
      have called : effect = { shared := (executeFn callables shared source).1
                               frames := (executeFn callables shared source).2 } := by
        cases fired
        rfl
      subst called
      rw [revivals_of_call noSplice looped.distinct inOrder, sameRounds (by simp),
        (executeFn_of_callsNoSplice noSplice).1]
      -- Only the answer of a condition counts.
      have answer : graph.GoesBack source
            ((executeFn callables shared source).1.node source).userData node ↔
          graph.GoesBack source (callables.result source (shared.calls source)) node := by
        by_cases isCondition : (graph.node source).type = .condition
        · rw [executeFn_userData ((account.shape source).1.trans isCondition)]
        · simp [TaskGraph.GoesBack, loopBack, isCondition]
      simp only [Frame.revives, List.map_singleton, List.sum_singleton]
      rw [if_congr answer rfl rfl]
      omega
  | completing source =>
      cases fired
      rw [answers (by simp), sameRounds (by simp)]
      have back := loopBack_congr (account.shape source).1 (account.shape source).2.2
      have goesBack : graph.GoesBack source (shared.node source).userData node ↔
          ∃ target, loopBack (shared.node source) = some target ∧
            graph.Body source target node := by
        rw [TaskGraph.GoesBack, back]
      cases loops : loopBack (shared.node source) with
      | none =>
          have straight : ¬ LoopsBack shared.node source := by
            refine not_loopsBack (fun edge member isLoop => ?_) loops
            rw [(account.shape source).2.2] at member
            rw [(account.shape source).1]
            exact looped.conditions source edge member isLoop
          rw [unblockSuccessors_of_not_loopsBack straight]
          simp [Frame.revives, goesBack, loops]
      | some target =>
          rw [unblockSuccessors_of_loopBack loops]
          have inLoop : graph.GoesBack source (shared.node source).userData node ↔
              graph.Body source target node := by
            simpa [loops] using goesBack
          simp only [Frame.revives, List.map_singleton, List.sum_singleton]
          rw [if_congr inLoop rfl rfl]
  | resetting source target todo cycleCount =>
      rw [answers (by simp)]
      cases todo with
      | nil =>
          cases fired
          cases laps with
          | follows _ notResetting => exact absurd rfl (notResetting _ _ _)
          | rearms _ inBody =>
              simp only [Tally.rearm, Frame.revives, List.map_singleton, List.sum_singleton]
              rw [if_congr (inBody node) rfl rfl]
              omega
      | cons curr todo =>
          simp only [Frame.fire] at fired
          rw [sameRounds (by simp)]
          split at fired <;> cases fired <;> simp [Frame.revives]
  | resettingState source target curr todo cycleCount =>
      rw [answers (by simp), sameRounds (by simp)]
      cases fired
      simp [Frame.revives]
  | _ =>
      rw [answers (by simp), sameRounds (by simp)]
      have nothing : (effect.frames.map fun frame =>
          frame.revives graph effect.shared.node node).sum = 0 :=
        Counting.sum_map_eq_zero fun after member =>
          Frame.fire_revives (account.walks _ (Multiset.mem_cons_self _ _)) (by simp) (by simp)
            (by simp) (by simp) fired member _ _
      rw [nothing]
      simp [Frame.revives]

end Revives

end LightFlow
