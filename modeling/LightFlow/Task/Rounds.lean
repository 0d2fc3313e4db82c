import LightFlow.Task.Turns

/-!
# Frames keep the account

Every access of a call that takes no loop-back edge, one lemma for each kind of frame.
-/

namespace LightFlow

/-- The walk over the successors of the node would take a loop-back edge. -/
def LoopsBack (store : NodeStore) (node : NodeId) : Prop :=
  ∃ edge ∈ (store node).successors, edge.isLoopBack = true ∧
    takes (chosenBranch (store node)) edge = true

/-- Without a loop-back edge to take the walk starts at the head of the successor list. -/
theorem unblockSuccessors_of_not_loopsBack {store : NodeStore} {node : NodeId}
    (straight : ¬ LoopsBack store node) :
    unblockSuccessors store node =
      .unblocking node (chosenBranch (store node)) (store node).successors 0 := by
  simp only [unblockSuccessors, chosenBranch]
  split
  next isCondition =>
    have noLoop : (store node).successors.find? (fun edge =>
        (edge.branch = -1 ∨ edge.branch = (store node).userData) && edge.isLoopBack) = none := by
      rw [List.find?_eq_none]
      intro edge member found
      refine straight ⟨edge, member, ?_⟩
      simpa [takes, chosenBranch, isCondition, and_comm] using found
    simp only [noLoop, isCondition, ↓reduceIte]
  next other => rw [if_neg other]

namespace Account

variable {graph : TaskGraph} {callables : Callables} {tally : Tally} {shared : Shared}
  {ready : Multiset NodeId} {rest : Multiset Frame} {node : NodeId}

/-! ## Frames that leave counters alone -/

theorem executing (account : Account graph tally ⟨shared, ready, .executing node ::ₘ rest⟩)
    (distinct : graph.order.Nodup) :
    Account graph tally
      (Effect.load { shared := shared.setState node .executing, frames := [.calling node] }
        ready rest) := by
  refine account.quiet (show _ = [] ++ _ from rfl) (by simp [decrements]) ?_ (by simp) ?_
    (by simp [Frame.Told]) (by simp [Frame.Walks]) ?_ distinct
  · intro quantity
    cases quantity <;> simp [Effect.amount, Frame.runs]
  · simp [Shared.setState_node]
  · simp [Effect.amount]

/-- The call of a node that starts no subflow. -/
theorem calling (account : Account graph tally ⟨shared, ready, .calling node ::ₘ rest⟩)
    (noSplice : CallsNoSplice callables shared node) (distinct : graph.order.Nodup) :
    Account graph tally
      (Effect.load
        { shared := (executeFn callables shared node).1
          frames := (executeFn callables shared node).2 } ready rest) := by
  obtain ⟨frames, log, pending, nodes⟩ := executeFn_of_callsNoSplice noSplice
  refine account.quiet (show _ = [_] ++ _ from log) (by simp [decrements]) ?_ ?_ ?_ ?_ ?_ ?_
    distinct
  · intro quantity
    cases quantity <;>
      simp [Effect.amount, frames, Frame.runs, Event.passes, List.count_singleton]
  · simp [Frame.runs]
  · intro query
    obtain ⟨userData, result, others⟩ := nodes query
    simp only [result, true_and]
    refine ⟨fun _ => trivial, fun notCarried => others fun same => ?_⟩
    simp [same] at notCarried
  · simp [frames, log, Frame.Told, Ran, Event.passes]
  · simp [frames, Frame.Walks]
  · simp [frames, pending, Effect.amount]

/-- The loop of `unblockSuccessors` has come to its end. -/
theorem unblocked {branch : Option Int} {unblockedCount : Nat}
    (account : Account graph tally
      ⟨shared, ready, .unblocking node branch [] unblockedCount ::ₘ rest⟩)
    (distinct : graph.order.Nodup) :
    Account graph tally
      (Effect.load
        { shared := if 0 < unblockedCount then shared.record (.notified unblockedCount) else shared
          frames := [.finishing node] } ready rest) := by
  split
  · refine account.quiet (show _ = [_] ++ _ from rfl) (by simp [decrements]) ?_ (by simp) (by simp)
      (by simp [Frame.Told]) (by simp [Frame.Walks]) (by simp [Effect.amount]) distinct
    intro quantity
    cases quantity <;> simp [Effect.amount, Frame.runs, Frame.taken, Event.passes]
  · refine account.quiet (show _ = [] ++ _ from rfl) (by simp [decrements]) ?_ (by simp) (by simp)
      (by simp [Frame.Told]) (by simp [Frame.Walks]) (by simp [Effect.amount]) distinct
    intro quantity
    cases quantity <;> simp [Effect.amount, Frame.runs, Frame.taken]

/-- A loop-back edge that is not taken is passed over. -/
theorem passedOver {branch : Option Int} {edge : SuccessorEdge} {todo : List SuccessorEdge}
    {unblockedCount : Nat}
    (account : Account graph tally
      ⟨shared, ready, .unblocking node branch (edge :: todo) unblockedCount ::ₘ rest⟩)
    (notTaken : takes branch edge = false) (isLoop : edge.isLoopBack = true)
    (distinct : graph.order.Nodup) :
    Account graph tally
      (Effect.load { shared, frames := [.unblocking node branch todo unblockedCount] }
        ready rest) := by
  have walks := account.walks _ (Multiset.mem_cons_self _ _)
  simp only [Frame.Walks, List.forall_mem_cons] at walks
  refine account.quiet (show _ = [] ++ _ from rfl) (by simp [decrements]) ?_ (by simp) (by simp)
    (by simp [Frame.Told]) (by simpa [Frame.Walks] using walks.2) (by simp [Effect.amount]) distinct
  intro quantity
  cases quantity <;> simp [Effect.amount, Frame.runs, Frame.taken, notTaken, isLoop]

/-- Staging, queueing and notifying differ in what they record only. -/
theorem handingOver {branch : Option Int} {succ : NodeId} {todo : List SuccessorEdge}
    {unblockedCount : Nat} (inlineFree : Bool)
    (account : Account graph tally
      ⟨shared, ready, .handingOver node branch succ todo unblockedCount ::ₘ rest⟩)
    (distinct : graph.order.Nodup) :
    Account graph tally
      ((handOver shared inlineFree node branch succ todo unblockedCount).load ready rest) := by
  have walks := account.walks _ (Multiset.mem_cons_self _ _)
  have silent {effect : Effect} {events : List Event} (count : Nat)
      (log : effect.shared.log = events ++ shared.log)
      (notes : ∀ event ∈ events, event.isNote)
      (handed : effect.staged.toList ++ effect.queued = [succ])
      (frames : effect.frames = [.unblocking node branch todo count])
      (nodes : effect.shared.node = shared.node)
      (pending : effect.shared.m_pendingTasks = shared.m_pendingTasks) :
      Account graph tally (effect.load ready rest) := by
    have noted {event : Event} (real : event.isNote = false) : event ∉ events := fun member => by
      simp [notes event member] at real
    have passesNone (milestone : Milestone) (query : NodeId) :
        passed milestone query events = 0 := by
      rw [passed, List.countP_eq_zero]
      intro event member
      have := notes event member
      cases event <;> simp_all [Event.isNote, Event.passes]
    have finishesNone : events.countP Event.finishes = 0 := by
      rw [List.countP_eq_zero]
      intro event member
      have := notes event member
      cases event <;> simp_all [Event.isNote]
    have decrementsNone (source target : NodeId) : decrements source target events = 0 := by
      rw [decrements, List.count_eq_zero_of_not_mem (noted rfl),
        List.count_eq_zero_of_not_mem (noted rfl)]
    refine account.quiet log (fun source target _ => decrementsNone source target) ?_ ?_ ?_ ?_ ?_ ?_
      distinct
    · intro quantity
      cases quantity <;> simp [Effect.amount, handed, frames, passesNone, finishesNone, Frame.runs,
        List.count_singleton]
    · exact fun query => ⟨fun member => absurd member (noted rfl),
        fun member => absurd member (noted rfl)⟩
    · simp [nodes]
    · simp [frames, Frame.Told]
    · simpa [frames, Frame.Walks] using walks
    · simp [Effect.amount, handed, frames, pending]
  simp only [handOver]
  split
  · exact silent unblockedCount (show _ = [] ++ _ from rfl) (by simp) rfl rfl rfl rfl
  · split
    · split
      · exact silent 0
          (show _ = [.notified (unblockedCount + 1), .scheduled succ false] ++ _ from rfl)
          (by simp [Event.isNote]) rfl rfl rfl rfl
      · exact silent (unblockedCount + 1) (show _ = [.scheduled succ false] ++ _ from rfl)
          (by simp [Event.isNote]) rfl rfl rfl rfl
    · exact silent unblockedCount (show _ = [.scheduled succ false] ++ _ from rfl)
        (by simp [Event.isNote]) rfl rfl rfl rfl

/-- Subtracting one from a counter that counts at least one. -/
theorem u32Sub_u32_succ (count : Nat) : u32Sub (u32 (count + 1)) 1 = u32 count := by
  rw [u32Sub]
  split <;> simp only [u32] at * <;> omega

theorem finishing (account : Account graph tally ⟨shared, ready, .finishing node ::ₘ rest⟩)
    (distinct : graph.order.Nodup) :
    Account graph tally (Effect.load { shared := shared.onTaskCompleted node } ready rest) := by
  refine account.quiet (show _ = [_] ++ _ from rfl) (by simp [decrements]) ?_ (by simp) (by simp)
    (by simp) (by simp) ?_ distinct
  · intro quantity
    cases quantity <;> simp [Effect.amount, Frame.runs, Event.passes, List.count_singleton]
  · intro others pending
    rw [Shared.onTaskCompleted_pending, pending]
    exact u32Sub_u32_succ others

theorem skipping (account : Account graph tally ⟨shared, ready, .skipping node ::ₘ rest⟩)
    (distinct : graph.order.Nodup) :
    Account graph tally
      (Effect.load
        { shared := (shared.setState node .skipped).record (.skipped node)
          frames := [.skipped node] } ready rest) := by
  refine account.quiet (show _ = [_] ++ _ from rfl) (by simp [decrements]) ?_ (by simp) ?_ ?_
    (by simp [Frame.Walks]) (by simp [Effect.amount]) distinct
  · intro quantity
    cases quantity <;>
      simp [Effect.amount, Frame.runs, Event.passes, List.count_singleton]
  · simp [Shared.setState_node]
  · simp [Frame.Told, Ran, Event.passes]

theorem scheduling (account : Account graph tally ⟨shared, ready, .scheduling node ::ₘ rest⟩)
    (distinct : graph.order.Nodup) :
    Account graph tally
      (Effect.load { shared := shared.record (.scheduled node true), queued := [node] }
        ready rest) := by
  refine account.quiet (show _ = [_] ++ _ from rfl) (by simp [decrements]) ?_ (by simp) (by simp)
    (by simp) (by simp) (by simp [Effect.amount]) distinct
  intro quantity
  cases quantity <;> simp [Effect.amount, Frame.runs, Event.passes, List.count_singleton]

theorem cascade_walks {todo : List SuccessorEdge}
    (members : ∀ edge ∈ todo, edge ∈ (graph.node node).successors) :
    ∀ after ∈ cascade node todo, after.Walks graph := by
  cases todo with
  | nil => simp [cascade]
  | cons edge todo => simpa [cascade, Frame.Walks] using members

/-- A skipped node decrements a loop target that does not wait: nothing but the counter of
the target changes. -/
theorem stray {edge : SuccessorEdge} {todo : List SuccessorEdge}
    (account : Account graph tally ⟨shared, ready, .cascading node (edge :: todo) ::ₘ rest⟩)
    (isLoop : edge.isLoopBack = true)
    (idle : tally.need edge.target = 0 ∧ ¬ tally.kept edge.target)
    (pending : (decrementSkipped (shared.node edge.target).inDegree).2 = .pending)
    (distinct : graph.order.Nodup) :
    Account graph tally
      ((unblockSkipped shared node edge.target (cascade node todo)).load ready rest) := by
  have walks := account.walks _ (Multiset.mem_cons_self _ _)
  simp only [Frame.Walks, ne_eq, reduceCtorEq, not_false_eq_true, true_and,
    List.forall_mem_cons] at walks
  have frames : (unblockSkipped shared node edge.target (cascade node todo)).frames =
      cascade node todo := by
    simp [unblockSkipped, pending]
  refine account.quiet (show _ = [.decremented node edge.target false] ++ _ from rfl) ?_ ?_
    (by simp) ?_ ?_ ?_ ?_ distinct
  · intro source target forward
    have other : ¬ (node = source ∧ edge.target = target) := by
      rintro ⟨rfl, isTarget⟩
      rw [forward edge walks.1 isTarget] at isLoop
      simp at isLoop
    simp [decrements, other]
  · intro quantity
    rw [Effect.amount_eq rfl rfl frames]
    cases todo <;> cases quantity <;> simp [cascade, Frame.runs, isLoop, Event.passes]
  · intro query
    simp only [unblockSkipped, Shared.record_node, Shared.setInDegree_node, true_and]
    refine ⟨fun waits => if_neg fun same => ?_, fun _ => trivial⟩
    rw [same, idle.1] at waits
    exact waits.elim (Nat.lt_irrefl 0) idle.2
  · rw [frames]
    cases todo <;> simp [cascade, Frame.Told]
  · rw [frames]
    exact cascade_walks walks.2
  · intro others sum
    rw [Effect.amount_eq rfl rfl frames]
    cases todo <;> simpa [unblockSkipped, cascade] using sum

/-! ## Frames that release a node -/

theorem taken_le_forwardInto {store : NodeStore} (straight : ¬ LoopsBack store node)
    (target : NodeId) : Frame.taken (chosenBranch (store node)) target (store node).successors ≤
      TaskGraph.forwardInto target (store node).successors := by
  refine List.countP_mono_left fun edge member taken => ?_
  simp only [Bool.and_eq_true, decide_eq_true_eq] at taken ⊢
  refine ⟨taken.1, ?_⟩
  by_contra isLoop
  exact straight ⟨edge, member, by simpa using isLoop, taken.2⟩

theorem completing (account : Account graph tally ⟨shared, ready, .completing node ::ₘ rest⟩)
    (straight : ¬ LoopsBack shared.node node) (distinct : graph.order.Nodup) :
    Account graph (tally.release node (choices graph shared node))
      (Effect.load
        { shared :=
            ((shared.setState node .completed).record (.completed node)).record (.released node)
          frames := [unblockSuccessors shared.node node] } ready rest) := by
  have sameSuccessors : (shared.node node).successors = (graph.node node).successors :=
    (account.shape node).2.2
  have ran : Ran node shared.log := account.told _ (Multiset.mem_cons_self _ _)
  rw [unblockSuccessors_of_not_loopsBack straight]
  refine account.release (show _ = [_, _] ++ _ from rfl) rfl ?_ (by simp) ?_ (by simp)
    (by simp [decrements]) (by simp [Event.passes]) ?_ (by simp [Frame.Told]) ?_
    (by simp [Effect.amount]) distinct
  · intro quantity
    cases quantity <;>
      simp [Effect.amount, Frame.runs, choices, ran, sameSuccessors, Event.passes,
        List.count_singleton]
  · intro target
    rw [choices, if_pos ran, ← sameSuccessors]
    exact taken_le_forwardInto straight target
  · simp [Shared.setState_node]
  · simp only [List.mem_singleton, forall_eq, Frame.Walks]
    intro edge member
    refine ⟨sameSuccessors ▸ member, fun isLoop => ?_⟩
    by_contra taken
    exact straight ⟨edge, member, isLoop, by simpa using taken⟩

theorem skipped (account : Account graph tally ⟨shared, ready, .skipped node ::ₘ rest⟩)
    (distinct : graph.order.Nodup) :
    Account graph (tally.release node (choices graph shared node))
      (Effect.load
        { shared := (shared.onTaskCompleted node).record (.released node)
          frames := cascade node (shared.node node).successors } ready rest) := by
  have sameSuccessors : (shared.node node).successors = (graph.node node).successors :=
    (account.shape node).2.2
  obtain ⟨notRan, wasSkipped⟩ : ¬ Ran node shared.log ∧ Event.skipped node ∈ shared.log :=
    account.told _ (Multiset.mem_cons_self _ _)
  rw [sameSuccessors]
  refine account.release (show _ = [_, _] ++ _ from rfl) rfl ?_ (by simp) ?_
    (by simpa using .inr wasSkipped) (by simp [decrements]) (by simp [Event.passes]) (by simp)
    ?_ ?_ ?_ distinct
  · intro quantity
    rw [Effect.amount_eq rfl rfl rfl]
    cases successors : (graph.node node).successors <;> cases quantity <;>
      simp [cascade, Frame.runs, choices, notRan, successors, Event.passes, List.count_singleton]
  · intro target
    rw [choices, if_neg notRan]
    exact Nat.zero_le _
  · cases (graph.node node).successors <;> simp [cascade, Frame.Told]
  · exact cascade_walks fun _ member => member
  · intro others pending
    rw [Effect.amount_eq rfl rfl rfl, Shared.record_pending, Shared.onTaskCompleted_pending,
      pending, u32Sub_u32_succ]
    cases (graph.node node).successors <;> simp [cascade]

/-! ## Frames that decrement a successor -/

theorem activeEdge {branch : Option Int} {edge : SuccessorEdge} {todo : List SuccessorEdge}
    {unblockedCount : Nat}
    (account : Account graph tally
      ⟨shared, ready, .unblocking node branch (edge :: todo) unblockedCount ::ₘ rest⟩)
    (taken : takes branch edge = true)
    (narrow : ∀ node, (graph.node node).initialInDegree ≤ 2 ^ 16) (distinct : graph.order.Nodup) :
    Account graph (tally.decrement edge.target .active tally.extra tally.bonus)
      ((unblockActive shared node branch edge.target todo unblockedCount).load ready rest) := by
  have walks := account.walks _ (Multiset.mem_cons_self _ _)
  simp only [Frame.Walks, List.forall_mem_cons] at walks
  have forward : edge.isLoopBack = false := by
    by_contra isLoop
    simp [walks.1.2 (by simpa using isLoop)] at taken
  have waits : 0 < tally.need edge.target :=
    account.target_waits (by simp [forward])
  have decides := account.decides .active waits (narrow _)
  have frames : (unblockActive shared node branch edge.target todo unblockedCount).frames =
      [if tally.need edge.target = 1 then
          .handingOver node branch edge.target todo unblockedCount
        else .unblocking node branch todo unblockedCount] := by
    simp only [Decrement.apply, decision, or_true, ↓reduceIte] at decides
    simp only [unblockActive]
    congr 1
    by_cases last : tally.need edge.target = 1
    · rw [if_pos last] at decides ⊢
      split at decides
      next unblocked => exact if_pos unblocked
      next => simp at decides
    · rw [if_neg last] at decides ⊢
      split at decides
      next => simp at decides
      next blocked => exact if_neg blocked
  refine account.edge .active rfl waits (narrow _) ?_ rfl ?_ ?_ rfl distinct
  · intro quantity
    rw [Effect.amount_eq rfl rfl frames]
    by_cases last : tally.need edge.target = 1
    · rw [if_pos last]
      cases quantity with
      | sending => simp [Nat.mul_add, forward]
      | _ =>
          simp [last, decision, Frame.runs, Frame.taken, List.countP_cons, taken, forward,
            List.count_singleton]
    · rw [if_neg last]
      cases quantity <;>
        simp [last, decision, Frame.runs, Frame.taken, List.countP_cons, Nat.mul_add, taken,
          forward]
  · rw [frames]
    split <;> simp [Frame.Told]
  · rw [frames]
    split <;> simpa [Frame.Walks] using walks.2

/-- `decrementSkipped` in either loop; `frames` is how the loop continues. -/
theorem skippedEdge {frame : Frame} {edge : SuccessorEdge} {frames : List Frame}
    (account : Account graph tally ⟨shared, ready, frame ::ₘ rest⟩)
    (waits : 0 < tally.need edge.target)
    (continues : ∀ quantity : Quantity, (frames.map fun after => quantity.ofFrame after).sum +
      quantity.ofEdge node edge .skipped = quantity.ofFrame frame)
    (told : ∀ after ∈ frames, ∀ log, after.Told log) (walks : ∀ after ∈ frames, after.Walks graph)
    (narrow : ∀ node, (graph.node node).initialInDegree ≤ 2 ^ 16) (distinct : graph.order.Nodup) :
    Account graph (tally.decrement edge.target .skipped tally.extra tally.bonus)
      ((unblockSkipped shared node edge.target frames).load ready rest) := by
  have decides := account.decides .skipped waits (narrow _)
  -- The three decisions: dependencies are left, the target runs, or it is skipped.
  obtain ⟨decided, left, count, quiet⟩ : ∃ decided : List Frame,
      (unblockSkipped shared node edge.target frames).frames = decided ++ frames ∧
      (∀ quantity : Quantity, (decided.map fun after => quantity.ofFrame after).sum =
        quantity.ofDecision edge.target (decision tally edge.target .skipped)) ∧
      ∀ after ∈ decided, (∀ log, after.Told log) ∧ after.Walks graph := by
    simp only [Decrement.apply] at decides
    simp only [unblockSkipped, decides]
    cases decision tally edge.target .skipped with
    | pending =>
        refine ⟨[], rfl, fun quantity => ?_, by simp⟩
        cases quantity <;> simp
    | run =>
        refine ⟨[.scheduling edge.target], rfl, fun quantity => ?_,
          by simp [Frame.Told, Frame.Walks]⟩
        cases quantity <;> simp [Frame.runs, List.count_singleton]
    | skip =>
        refine ⟨[.skipping edge.target], rfl, fun quantity => ?_,
          by simp [Frame.Told, Frame.Walks]⟩
        cases quantity <;> simp [Frame.runs, List.count_singleton]
  refine account.edge .skipped rfl waits (narrow _) ?_ rfl ?_ ?_ rfl distinct
  · intro quantity
    rw [Effect.amount_eq rfl rfl left, List.map_append, List.sum_append, count, ← continues]
    omega
  · rw [left]
    intro after member
    exact (List.mem_append.mp member).elim (fun isNew => (quiet after isNew).1 _)
      fun isOld => told after isOld _
  · rw [left]
    intro after member
    exact (List.mem_append.mp member).elim (fun isNew => (quiet after isNew).2) (walks after)

theorem unblockedSkipped {branch : Option Int} {edge : SuccessorEdge} {todo : List SuccessorEdge}
    {unblockedCount : Nat}
    (account : Account graph tally
      ⟨shared, ready, .unblocking node branch (edge :: todo) unblockedCount ::ₘ rest⟩)
    (notTaken : takes branch edge = false) (forward : edge.isLoopBack = false)
    (narrow : ∀ node, (graph.node node).initialInDegree ≤ 2 ^ 16) (distinct : graph.order.Nodup) :
    Account graph (tally.decrement edge.target .skipped tally.extra tally.bonus)
      ((unblockSkipped shared node edge.target
        [.unblocking node branch todo unblockedCount]).load ready rest) := by
  have walks := account.walks _ (Multiset.mem_cons_self _ _)
  simp only [Frame.Walks, List.forall_mem_cons] at walks
  refine account.skippedEdge (account.target_waits (by simp [forward])) ?_ (by simp [Frame.Told])
    (by simpa [Frame.Walks] using walks.2) narrow distinct
  intro quantity
  cases quantity <;> simp [Frame.runs, Frame.taken, Nat.mul_add, notTaken, forward]

theorem cascading {edge : SuccessorEdge} {todo : List SuccessorEdge}
    (account : Account graph tally ⟨shared, ready, .cascading node (edge :: todo) ::ₘ rest⟩)
    (forward : edge.isLoopBack = false)
    (narrow : ∀ node, (graph.node node).initialInDegree ≤ 2 ^ 16) (distinct : graph.order.Nodup) :
    Account graph (tally.decrement edge.target .skipped tally.extra tally.bonus)
      ((unblockSkipped shared node edge.target (cascade node todo)).load ready rest) := by
  have walks := account.walks _ (Multiset.mem_cons_self _ _)
  simp only [Frame.Walks, ne_eq, reduceCtorEq, not_false_eq_true, true_and,
    List.forall_mem_cons] at walks
  refine account.skippedEdge (account.target_waits (by simp [forward])) ?_ ?_
    (cascade_walks walks.2) narrow distinct
  · intro quantity
    cases todo <;> cases quantity <;> simp [cascade, Frame.runs, Nat.mul_add, forward]
  · cases todo <;> simp [cascade, Frame.Told]

end Account

end LightFlow
