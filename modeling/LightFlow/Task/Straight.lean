import LightFlow.Task.Rounds

/-!
# Straight steps

A step that takes no loop-back edge keeps the account, and leaves less work: every node
that waits, every ready node and every call stands for a number of accesses to come.
-/

namespace LightFlow

section Work

variable (graph : TaskGraph)

/-- Accesses that a node which still waits can bring about. -/
def TaskGraph.cost (node : NodeId) : Nat :=
  (graph.node node).successors.length + 10

/-- Accesses that a call can bring about. -/
@[simp] def Frame.work : Frame → Nat
  | .executing node => (graph.node node).successors.length + 7
  | .calling node => (graph.node node).successors.length + 6
  | .completing node | .skipped node => (graph.node node).successors.length + 5
  | .unblocking _ _ todo _ => todo.length + 4
  | .handingOver _ _ succ todo _ => todo.length + (graph.node succ).successors.length + 13
  | .finishing _ => 1
  | .skipping node | .scheduling node => (graph.node node).successors.length + 9
  | .cascading _ todo => todo.length + 1
  | .resetting _ target todo _ => (graph.order.map graph.cost).sum +
      (graph.node target).successors.length + 11 + 2 * todo.length
  | .resettingState _ target _ todo _ => (graph.order.map graph.cost).sum +
      (graph.node target).successors.length + 12 + 2 * todo.length
  | .rescheduling _ target => (graph.node target).successors.length + 10
  | .dispatching _ _ | .joining _ => 0

/-- Accesses that a node in a queue or an inline slot can bring about. -/
def TaskGraph.readyWork (node : NodeId) : Nat :=
  (graph.node node).successors.length + 8

/-- Accesses that waiting nodes can bring about. -/
def Tally.work (tally : Tally) : Nat :=
  (graph.order.map fun node => waiting (tally.need node) * graph.cost node).sum

/-- What a workload has left to do. -/
def Workload.work (tally : Tally) (load : Workload) : Nat :=
  tally.work graph + (load.ready.map graph.readyWork).sum +
    (load.frames.map fun frame => frame.work graph).sum

/-- What a fired frame leaves to do. -/
def Effect.work (effect : Effect) : Nat :=
  ((effect.staged.toList ++ effect.queued).map graph.readyWork).sum +
    (effect.frames.map fun frame => frame.work graph).sum

variable {graph} {tally next : Tally} {shared : Shared} {ready : Multiset NodeId} {frame : Frame}
  {rest : Multiset Frame} {effect : Effect}

/-- A step leaves less to do when its effect and what now waits do. -/
theorem work_lt (less : effect.work graph + next.work graph < frame.work graph + tally.work graph) :
    (effect.load ready rest).work graph next <
      Workload.work graph tally ⟨shared, ready, frame ::ₘ rest⟩ := by
  simp only [Effect.work, List.map_append, List.sum_append] at less
  simp only [Workload.work, Multiset.map_cons, Multiset.sum_cons, Multiset.map_add,
    Multiset.sum_add, Multiset.map_coe, Multiset.sum_coe]
  omega

/-- A decided node has its own way to go. -/
theorem work_decrement {target : NodeId} (call : Decrement) (extra bonus : NodeId → Nat)
    (waits : 0 < tally.need target) (distinct : graph.order.Nodup)
    (member : target ∈ graph.order) :
    (tally.decrement target call extra bonus).work graph +
        (if Account.decision tally target call ≠ .pending then graph.cost target else 0) =
      tally.work graph := by
  have replaced := Counting.sum_map_replace graph.order target
    (fun other _ different => by rw [tally.decrement_need_of_ne call extra bonus different] :
      ∀ other ∈ graph.order, other ≠ target →
        waiting ((tally.decrement target call extra bonus).need other) * graph.cost other =
          waiting (tally.need other) * graph.cost other)
  have turn := Account.waiting_decrement call extra bonus waits target
  rw [List.count_eq_one_of_mem distinct member, waiting_of_pos waits] at replaced
  rw [waiting_of_pos waits] at turn
  simp only [true_and] at turn
  rw [Tally.work, Tally.work]
  by_cases pending : Account.decision tally target call = .pending
  · simp only [pending, ne_eq, not_true, ↓reduceIte, Nat.add_zero] at turn ⊢
    rw [turn] at replaced
    omega
  · simp only [pending, ne_eq, not_false_eq_true, ↓reduceIte] at turn ⊢
    rw [show waiting _ = 0 by omega] at replaced
    omega

end Work

/-! ## Straight steps -/

/-- The frame takes no loop-back edge, skips along none, and splices nothing. -/
def Frame.Straight (callables : Callables) (shared : Shared) : Frame → Prop
  | .calling node => CallsNoSplice callables shared node
  | .completing node => ¬ LoopsBack shared.node node
  | .cascading _ (edge :: _) => edge.isLoopBack = false
  | .resetting _ _ _ _ | .resettingState _ _ _ _ _ | .rescheduling _ _ => False
  | _ => True

/-- What a straight step leaves alone; what is released stays released. -/
structure Tally.Follows (frame : Frame) (tally next : Tally) : Prop where
  rounds : next.rounds = tally.rounds
  dropped : next.dropped = tally.dropped
  extra : next.extra = tally.extra
  bonus : next.bonus = tally.bonus
  kept : next.kept = tally.kept
  closed : ∀ node, tally.closed node ≤ next.closed node
  skipped : ∀ node, frame = .skipped node → next.closed node = 1

namespace Account

variable {graph : TaskGraph} {callables : Callables} {tally : Tally} {shared : Shared}
  {ready : Multiset NodeId} {frame : Frame} {rest : Multiset Frame} {effect : Effect}

theorem mem_order {load : Workload} (account : Account graph tally load) {node : NodeId}
    (waits : 0 < tally.need node) : node ∈ graph.order := by
  have law := account.passage node
  rw [waiting_of_pos waits] at law
  exact List.count_pos_iff.mp (by omega)

/-- The decision takes the place of the wait. -/
theorem decrement_works {load : Workload} (account : Account graph tally load) {target : NodeId}
    (call : Decrement) (waits : 0 < tally.need target) (distinct : graph.order.Nodup) :
    (tally.decrement target call tally.extra tally.bonus).work graph +
        (if decision tally target call ≠ .pending then graph.cost target else 0) =
      tally.work graph :=
  work_decrement call _ _ waits distinct (account.mem_order waits)

theorem work_cascade (graph : TaskGraph) (node : NodeId) (todo : List SuccessorEdge) :
    ((cascade node todo).map fun frame => frame.work graph).sum ≤ todo.length + 1 := by
  cases todo <;> simp [cascade]

/-- A decrement in either loop leaves less than a wait for it and its edge. -/
theorem work_unblockSkipped {load : Workload} (account : Account graph tally load)
    (node : NodeId) {target : NodeId} (frames : List Frame) (waits : 0 < tally.need target)
    (narrow : ∀ node, (graph.node node).initialInDegree ≤ 2 ^ 16) (distinct : graph.order.Nodup) :
    (unblockSkipped load.shared node target frames).work graph +
        (tally.decrement target .skipped tally.extra tally.bonus).work graph ≤
      (frames.map fun frame => frame.work graph).sum + tally.work graph := by
  have decides := account.decides .skipped waits (narrow _)
  have works := account.decrement_works .skipped waits distinct
  simp only [Decrement.apply] at decides
  simp only [unblockSkipped, Effect.work, decides]
  cases decided : decision tally target .skipped <;>
    simp [decided, TaskGraph.cost] at works ⊢ <;> omega

theorem work_unblockActive {load : Workload} (account : Account graph tally load)
    (node : NodeId) (branch : Option Int) {target : NodeId} (todo : List SuccessorEdge)
    (unblockedCount : Nat) (waits : 0 < tally.need target)
    (narrow : ∀ node, (graph.node node).initialInDegree ≤ 2 ^ 16) (distinct : graph.order.Nodup) :
    (unblockActive load.shared node branch target todo unblockedCount).work graph +
        (tally.decrement target .active tally.extra tally.bonus).work graph ≤
      todo.length + 4 + tally.work graph := by
  have decides := account.decides .active waits (narrow _)
  have works := account.decrement_works .active waits distinct
  simp only [Decrement.apply] at decides
  simp only [unblockActive, Effect.work]
  split at decides
  next unblocked =>
    simp [← decides, TaskGraph.cost, unblocked] at works ⊢
    omega
  next blocked =>
    simp [← decides, blocked] at works ⊢
    omega

theorem work_handOver (inlineFree : Bool) (node : NodeId) (branch : Option Int) (succ : NodeId)
    (todo : List SuccessorEdge) (unblockedCount : Nat) :
    (handOver shared inlineFree node branch succ todo unblockedCount).work graph =
      todo.length + (graph.node succ).successors.length + 12 := by
  simp only [handOver]
  split <;> [skip; split <;> [split; skip]] <;>
    simp [Effect.work, TaskGraph.readyWork] <;> omega

/-- Every straight step keeps the account of the calls, and uses up work. -/
theorem fire {inlineFree : Bool}
    (account : Account graph tally ⟨shared, ready, frame ::ₘ rest⟩)
    (straight : frame.Straight callables shared)
    (narrow : ∀ node, (graph.node node).initialInDegree ≤ 2 ^ 16) (distinct : graph.order.Nodup)
    (fired : frame.fire callables inlineFree shared = some effect) :
    ∃ next, tally.Follows frame next ∧ Account graph next (effect.load ready rest) ∧
      (effect.load ready rest).work graph next <
        Workload.work graph tally ⟨shared, ready, frame ::ₘ rest⟩ := by
  have walks := account.walks _ (Multiset.mem_cons_self _ _)
  have fanOut (node : NodeId) :
      (shared.node node).successors.length = (graph.node node).successors.length :=
    congrArg List.length (account.shape node).2.2
  have same {frame : Frame} (other : ∀ node, frame ≠ .skipped node) : tally.Follows frame tally :=
    ⟨rfl, rfl, rfl, rfl, rfl, fun _ => le_rfl, fun node isSkipped => absurd isSkipped (other node)⟩
  have released {frame : Frame} (node : NodeId) (chosen : NodeId → Nat)
      (own : ∀ other, frame = .skipped other → other = node) :
      tally.Follows frame (tally.release node chosen) := by
    refine ⟨rfl, rfl, rfl, rfl, rfl, fun other => ?_, fun other isSkipped => ?_⟩
    · by_cases same : other = node
      · rw [same, tally.release_closed_self]
        exact account.closed_le_one distinct node
      · exact (tally.release_closed_of_ne chosen same).ge
    · rw [own other isSkipped, tally.release_closed_self]
  have decremented {frame : Frame} (target : NodeId) (call : Decrement)
      (other : ∀ node, frame ≠ .skipped node) :
      tally.Follows frame (tally.decrement target call tally.extra tally.bonus) :=
    ⟨rfl, rfl, rfl, rfl, rfl, fun _ => le_rfl, fun node isSkipped => absurd isSkipped (other node)⟩
  cases frame with
  | executing node =>
      cases fired
      exact ⟨_, same (by simp), account.executing distinct, work_lt (by simp [Effect.work])⟩
  | calling node =>
      have called : effect = { shared := (executeFn callables shared node).1
                               frames := (executeFn callables shared node).2 } := by
        cases fired
        rfl
      subst called
      refine ⟨_, same (by simp), account.calling straight distinct, work_lt ?_⟩
      simp [Effect.work, (executeFn_of_callsNoSplice straight).1]
  | dispatching node roots => exact absurd walks id
  | joining node => exact absurd walks id
  | completing node =>
      cases fired
      refine ⟨_, released _ _ (by simp), account.completing straight distinct, work_lt ?_⟩
      rw [unblockSuccessors_of_not_loopsBack straight]
      simp [Effect.work, fanOut, Tally.work]
  | unblocking node branch todo unblockedCount =>
      cases todo with
      | nil =>
          cases fired
          exact ⟨_, same (by simp), account.unblocked distinct, work_lt (by simp [Effect.work])⟩
      | cons edge todo =>
          simp only [Frame.fire] at fired
          split at fired
          next taken =>
            cases fired
            have forward : edge.isLoopBack = false := by
              by_contra isLoop
              simp [(walks edge (List.mem_cons_self ..)).2 (by simpa using isLoop)] at taken
            have waits : 0 < tally.need edge.target := account.target_waits (by simp [forward])
            refine ⟨_, decremented _ _ (by simp), account.activeEdge taken narrow distinct,
              work_lt ?_⟩
            have works :=
              account.work_unblockActive node branch todo unblockedCount waits narrow distinct
            simp only [Frame.work, List.length_cons]
            dsimp only at works
            omega
          next notTaken =>
            rw [Bool.not_eq_true] at notTaken
            split at fired
            next isLoop =>
              cases fired
              exact ⟨_, same (by simp), account.passedOver notTaken isLoop distinct,
                work_lt (by simp [Effect.work])⟩
            next forward =>
              cases fired
              rw [Bool.not_eq_true] at forward
              have waits : 0 < tally.need edge.target := account.target_waits (by simp [forward])
              refine ⟨_, decremented _ _ (by simp),
                account.unblockedSkipped notTaken forward narrow distinct, work_lt ?_⟩
              have works := account.work_unblockSkipped node
                [.unblocking node branch todo unblockedCount] waits narrow distinct
              simp at works ⊢
              omega
  | handingOver node branch succ todo unblockedCount =>
      cases fired
      refine ⟨_, same (by simp), account.handingOver inlineFree distinct, work_lt ?_⟩
      rw [work_handOver]
      simp
  | finishing node =>
      cases fired
      exact ⟨_, same (by simp), account.finishing distinct, work_lt (by simp [Effect.work])⟩
  | skipping node =>
      cases fired
      exact ⟨_, same (by simp), account.skipping distinct, work_lt (by simp [Effect.work])⟩
  | skipped node =>
      cases fired
      refine ⟨_, released _ _ (by simp), account.skipped distinct, work_lt ?_⟩
      have works := work_cascade graph node (shared.node node).successors
      simp [Effect.work, fanOut, Tally.work] at works ⊢
      omega
  | cascading node todo =>
      cases todo with
      | nil => exact absurd rfl walks.1
      | cons edge todo =>
          cases fired
          have waits : 0 < tally.need edge.target :=
            account.target_waits (by simp [show edge.isLoopBack = false from straight])
          refine ⟨_, decremented _ _ (by simp), account.cascading straight narrow distinct,
            work_lt ?_⟩
          have works := account.work_unblockSkipped node (cascade node todo) waits narrow distinct
          have left := work_cascade graph node todo
          simp at works left ⊢
          omega
  | scheduling node =>
      cases fired
      exact ⟨_, same (by simp), account.scheduling distinct,
        work_lt (by simp [Effect.work, TaskGraph.readyWork])⟩
  | resetting node target todo cycleCount => exact absurd straight id
  | resettingState node target curr todo cycleCount => exact absurd straight id
  | rescheduling node target => exact absurd straight id

/-! ## Steps outside of the calls -/

theorem passed_of_notes {events : List Event} (notes : ∀ event ∈ events, event.isNote = true)
    (milestone : Milestone) (node : NodeId) : passed milestone node events = 0 := by
  rw [passed, List.countP_eq_zero]
  intro event member
  have isNote := notes event member
  cases event <;> simp_all [Event.isNote, Event.passes]

/-- Taking a node out of a queue, and noting what the scheduler was told. -/
theorem congr {load next : Workload} {events : List Event} (account : Account graph tally load)
    (amounts : ∀ quantity, next.amount quantity = load.amount quantity)
    (log : next.shared.log = events ++ load.shared.log)
    (notes : ∀ event ∈ events, event.isNote = true)
    (nodes : next.shared.node = load.shared.node)
    (pending : next.shared.m_pendingTasks = load.shared.m_pendingTasks)
    (frames : ∀ after ∈ next.frames, after ∈ load.frames ∨
      (∀ log, after.Told log) ∧ after.Walks graph) : Account graph tally next := by
  have noted {event : Event} (real : event.isNote = false) : event ∉ events := fun member => by
    simp [notes event member] at real
  have ran (node : NodeId) : Ran node next.shared.log ↔ Ran node load.shared.log :=
    log ▸ ran_append _ (passed_of_notes notes _ _)
  have counted {event : Event} (real : event.isNote = false) :
      next.shared.log.count event = load.shared.log.count event := by
    rw [log, List.count_append, List.count_eq_zero_of_not_mem (noted real), Nat.zero_add]
  exact
    { passage := by simpa only [amounts] using account.passage
      called := by
        simpa only [amounts, log, passed_append, passed_of_notes notes, Nat.zero_add] using
          account.called
      finished := by
        simpa only [amounts, log, passed_append, passed_of_notes notes, Nat.zero_add] using
          account.finished
      settled := fun node closed => log ▸ (account.settled node closed).imp
        (List.mem_append_right _) (List.mem_append_right _)
      edges := by simpa only [amounts] using account.edges
      active := by simpa only [amounts] using account.active
      packed := by simpa only [nodes] using account.packed
      stuck := account.stuck
      bounded := account.bounded
      willRun := fun node first some =>
        account.willRun node first (by rwa [amounts, counted rfl] at some)
      willSkip := fun node first some =>
        account.willSkip node first (by rwa [amounts, counted rfl] at some)
      told := fun after member => by
        rcases frames after member with isOld | isNew
        · exact log ▸ (account.told after isOld).append fun _ _ => passed_of_notes notes _ _
        · exact isNew.1 _
      chosen := account.chosen
      choice := fun source target closed first => by
        simpa only [ran, nodes] using account.choice source target closed first
      sent := fun source target forward => by
        have before := account.sent source target forward
        rw [decrements] at before ⊢
        rwa [amounts, counted rfl, counted rfl]
      once := account.once
      shape := by simpa only [nodes] using account.shape
      walks := fun after member => (frames after member).elim (account.walks after) And.right
      pending := by rw [pending, amounts, account.pending] }

theorem start {node : NodeId} {frames : Multiset Frame}
    (account : Account graph tally ⟨shared, node ::ₘ ready, frames⟩) :
    Account graph tally ⟨shared, ready, .executing node ::ₘ frames⟩ := by
  refine account.congr ?_ (show _ = [] ++ _ from rfl) (by simp) rfl rfl ?_
  · intro quantity
    simp only [Workload.amount, Multiset.map_cons, Multiset.sum_cons]
    cases quantity <;> simp [Frame.runs, List.count_singleton] <;> omega
  · intro after member
    rcases Multiset.mem_cons.mp member with rfl | isOld
    · exact .inr ⟨by simp [Frame.Told], by simp [Frame.Walks]⟩
    · exact .inl isOld

theorem note {load : Workload} {event : Event} (account : Account graph tally load)
    (isNote : event.isNote = true) :
    Account graph tally { load with shared := load.shared.record event } :=
  account.congr (fun _ => rfl) (show _ = [event] ++ _ from rfl) (by simpa using isNote) rfl rfl
    fun _ => .inl

end Account

end LightFlow
