import LightFlow.Task.Ledger

/-!
# Steps keep the ledger

What a firing frame does to counters, tokens and in-flight edges is said once, by a
`Move`; every law of the ledger follows from it.  Splicing a subflow, which makes the
run larger, is treated on its own.
-/

namespace LightFlow

section Moves

variable (graph : TaskGraph) (callables : Callables)

/-- Everything a step that splices nothing does, as far as the ledger is concerned. -/
structure Move (need got need' got' : NodeId → Nat) (shared : Shared) (frame : Frame)
    (effect : Effect) (events : List Event) : Prop where
  log : effect.shared.log = events ++ shared.log
  notSpliced : ∀ node, .spliced node ∉ events
  tokens : ∀ milestone node, waiting (need node) + (frame.owes milestone).count node =
    waiting (need' node) + (effect.staged.toList.count node + effect.queued.count node) +
      (effect.frames.map fun frame => (frame.owes milestone).count node).sum +
      passed milestone node events
  edges : ∀ target, need' target + edgesInto target frame.todo +
      ((live graph callables shared.log).map fun node => passed .released node events *
        edgesInto target (shared.node node).successors).sum =
    need target + (effect.frames.map fun frame => edgesInto target frame.todo).sum
  active : ∀ target, got' target + (effect.frames.map (Frame.activeInto target)).sum =
    got target + frame.activeInto target +
      ((live graph callables shared.log).map fun node => events.count (.completed node) *
        Frame.taken (chosenBranch (shared.node node)) target
          (shared.node node).successors).sum
  nodes : ∀ node, (effect.shared.node node).type = (shared.node node).type ∧
    (effect.shared.node node).initialInDegree = (shared.node node).initialInDegree ∧
    (effect.shared.node node).successors = (shared.node node).successors
  branch : ∀ node, .completed node ∈ effect.shared.log →
    chosenBranch (effect.shared.node node) = chosenBranch (shared.node node)
  packed : ∀ node ∈ live graph callables shared.log,
    Packed (effect.shared.node node).inDegree (need' node) (got' node)
  fits : ∀ node, need' node + got' node ≤ need node + got node
  lessens : ∀ node, need' node ≤ need node
  grows : ∀ node, got node ≤ got' node
  decided : ∀ node, need node = 0 → got' node = got node
  runs : ∀ node, 0 < effect.staged.toList.count node + effect.queued.count node +
      (effect.frames.map fun frame => frame.toRun.count node).sum +
      events.count (.executed node) →
    0 < frame.toRun.count node ∨ Runnable graph callables got' node
  skips : ∀ node, 0 < (effect.frames.map fun frame => frame.toSkip.count node).sum +
      events.count (.skipped node) →
    0 < frame.toSkip.count node ∨ ¬ Runnable graph callables got' node
  status : ∀ node,
    (.completed node ∈ events → (effect.shared.node node).state = .completed) ∧
      (.skipped node ∈ events → (effect.shared.node node).state = .skipped) ∧
      ((frame.owes .settled).count node = 0 →
        (effect.shared.node node).state = (shared.node node).state)
  forward : ∀ frame ∈ effect.frames, frame.Forward
  within : ∀ after ∈ effect.frames, ∀ node, after.splicing = some node →
    frame.splicing = some node
  pending : effect.shared.m_pendingTasks +
      ((live graph callables shared.log).map fun node => passed .finished node events).sum =
    shared.m_pendingTasks

variable {graph callables}

theorem live_append {events : List Event} (notSpliced : ∀ node, .spliced node ∉ events)
    (log : List Event) : live graph callables (events ++ log) = live graph callables log := by
  induction events with
  | nil => rfl
  | cons event events ih =>
      have rest := ih fun node member => notSpliced node (List.mem_cons_of_mem _ member)
      cases event with
      | spliced node => exact absurd (List.mem_cons_self ..) (notSpliced node)
      | _ => exact rest

theorem moved_append {events : List Event} (notSpliced : ∀ node, .spliced node ∉ events)
    (log : List Event) (node : NodeId) :
    Moved callables (events ++ log) node ↔ Moved callables log node := by
  simp [Moved, notSpliced]

/-- Coming past a milestone once takes a node out of the remaining ones. -/
theorem remaining_append (graph : TaskGraph) (callables : Callables) {milestone : Milestone}
    {events log : List Event} (notSpliced : ∀ node, .spliced node ∉ events)
    (once : ∀ node, passed milestone node (events ++ log) ≤ 1) (weight : NodeId → Nat) :
    remaining graph callables milestone (events ++ log) weight +
        ((live graph callables log).map fun node =>
          passed milestone node events * weight node).sum =
      remaining graph callables milestone log weight := by
  simp only [remaining, live_append notSpliced]
  induction live graph callables log with
  | nil => rfl
  | cons node nodes ih =>
      have atMost := once node
      rw [passed_append] at atMost
      simp only [List.map_cons, List.sum_cons, passed_append] at ih ⊢
      have here : (if passed milestone node events + passed milestone node log = 0 then
            weight node else 0) + passed milestone node events * weight node =
          if passed milestone node log = 0 then weight node else 0 := by
        rcases Nat.eq_zero_or_pos (passed milestone node events) with none | some
        · simp [none]
        · have one : passed milestone node events = 1 := by omega
          have zero : passed milestone node log = 0 := by omega
          simp [one, zero]
      omega

variable {need got need' got' : NodeId → Nat} {shared : Shared} {ready : Multiset NodeId}
  {frame : Frame} {rest : Multiset Frame} {effect : Effect} {events : List Event}

/-- The workload after a frame has fired. -/
abbrev Effect.load (effect : Effect) (ready : Multiset NodeId) (rest : Multiset Frame) :
    Workload :=
  ⟨effect.shared, ↑effect.staged.toList + (↑effect.queued + ready), ↑effect.frames + rest⟩

theorem Ledger.count_live_le {load : Workload} (ledger : Ledger graph callables need got load)
    (node : NodeId) : (live graph callables load.shared.log).count node ≤ 1 :=
  List.nodup_iff_count_le_one.mp ledger.distinct node

theorem awaiting_cons (shared : Shared) (ready : Multiset NodeId) (frame : Frame)
    (rest : Multiset Frame) (milestone : Milestone) (node : NodeId) :
    Workload.awaiting ⟨shared, ready, frame ::ₘ rest⟩ milestone node =
      Workload.awaiting ⟨shared, ready, rest⟩ milestone node +
        (frame.owes milestone).count node := by
  simp only [Workload.awaiting, Multiset.map_cons, Multiset.sum_cons]
  omega

theorem awaiting_load (effect : Effect) (ready : Multiset NodeId) (rest : Multiset Frame)
    (shared : Shared) (milestone : Milestone) (node : NodeId) :
    (effect.load ready rest).awaiting milestone node =
      Workload.awaiting ⟨shared, ready, rest⟩ milestone node +
        (effect.staged.toList.count node + effect.queued.count node) +
        (effect.frames.map fun frame => (frame.owes milestone).count node).sum := by
  simp only [Workload.awaiting, Multiset.count_add, Multiset.coe_count, Multiset.map_add,
    Multiset.sum_add, Multiset.map_coe, Multiset.sum_coe]
  omega

theorem Ledger.passage_of_move
    (ledger : Ledger graph callables need got ⟨shared, ready, frame ::ₘ rest⟩)
    (move : Move graph callables need got need' got' shared frame effect events)
    (milestone : Milestone) (node : NodeId) :
    waiting (need' node) + (effect.load ready rest).awaiting milestone node +
        passed milestone node effect.shared.log =
      (live graph callables effect.shared.log).count node := by
  have before := ledger.passage milestone node
  have tokens := move.tokens milestone node
  rw [awaiting_cons] at before
  rw [awaiting_load effect ready rest shared, move.log, passed_append,
    live_append move.notSpliced]
  dsimp only at before
  omega

theorem passed_settled_of_completed {node : NodeId} {log : List Event}
    (completed : .completed node ∈ log) : 0 < passed .settled node log :=
  List.countP_pos_iff.mpr ⟨_, completed, by simp [Event.passes]⟩

theorem passed_settled_of_skipped {node : NodeId} {log : List Event}
    (skipped : .skipped node ∈ log) : 0 < passed .settled node log :=
  List.countP_pos_iff.mpr ⟨_, skipped, by simp [Event.passes]⟩

theorem passed_called (node : NodeId) (log : List Event) :
    passed .called node log = log.count (.executed node) + log.count (.skipped node) := by
  induction log with
  | nil => rfl
  | cons event log ih =>
      cases event <;> simp [ih, Event.passes, List.count_cons] <;> grind

/-- No node is executed twice in a run. -/
theorem Ledger.count_executed_le {load : Workload} (ledger : Ledger graph callables need got load)
    (node : NodeId) : load.shared.log.count (.executed node) ≤ 1 := by
  have law := ledger.passage .called node
  have single := ledger.count_live_le node
  rw [passed_called] at law
  omega

theorem Ledger.count_owes_eq_zero_of_passed
    (ledger : Ledger graph callables need got ⟨shared, ready, frame ::ₘ rest⟩)
    {milestone : Milestone} {node : NodeId} (past : 0 < passed milestone node shared.log) :
    (frame.owes milestone).count node = 0 := by
  have law := ledger.passage milestone node
  have single := ledger.count_live_le node
  rw [awaiting_cons] at law
  dsimp only at law single
  omega

theorem waiting_eq_zero {need : Nat} : waiting need = 0 ↔ need = 0 := by
  simp [waiting]

/-- A node whose skipping was decided has no dependencies left. -/
theorem Ledger.need_eq_zero_of_skipped
    (ledger : Ledger graph callables need got ⟨shared, ready, frame ::ₘ rest⟩) {node : NodeId}
    (decided : 0 < frame.toSkip.count node +
      (rest.map fun frame => frame.toSkip.count node).sum +
        shared.log.count (.skipped node)) : need node = 0 := by
  have law := ledger.passage .called node
  have single := ledger.count_live_le node
  have owed : (rest.map fun frame => frame.toSkip.count node).sum ≤
      (rest.map fun frame => (frame.owes .called).count node).sum :=
    Multiset.sum_map_le_sum_map _ _ fun frame _ => by
      rw [Frame.count_owes]
      omega
  rw [awaiting_cons, Frame.count_owes, passed_called] at law
  simp only [Workload.awaiting] at law
  dsimp only at single
  exact waiting_eq_zero.mp (by omega)

/-- A step that splices nothing keeps the ledger. -/
theorem Ledger.of_move
    (ledger : Ledger graph callables need got ⟨shared, ready, frame ::ₘ rest⟩)
    (move : Move graph callables need got need' got' shared frame effect events) :
    Ledger graph callables need' got' (effect.load ready rest) := by
  have sameLive : live graph callables effect.shared.log = live graph callables shared.log := by
    rw [move.log, live_append move.notSpliced]
  have passage := ledger.passage_of_move move
  have once (milestone : Milestone) (node : NodeId) :
      passed milestone node (events ++ shared.log) ≤ 1 := by
    have after := passage milestone node
    have single := ledger.count_live_le node
    rw [sameLive, move.log] at after
    dsimp only at single
    omega
  refine
    { distinct := sameLive ▸ ledger.distinct
      passage := passage
      edges := fun target => ?edges
      active := fun target => ?active
      packed := fun node member => move.packed node (sameLive ▸ member)
      fits := fun node => (move.fits node).trans (ledger.fits node)
      free := fun node member isFree => Nat.le_zero.mp
        (ledger.free node (sameLive ▸ member) isFree ▸ move.lessens node)
      willRun := fun node some => ?willRun
      willSkip := fun node some => ?willSkip
      status := fun node => ?status
      shape := fun node member => ?shape
      targets := fun node member edge inEdges => ?targets
      forward := fun frame member => ?forward
      within := fun after member node within => ?within
      pending := ?pending
      splices := fun node spliced => ?splices }
  case edges =>
    have before := ledger.edges target
    have change := move.edges target
    have remains := remaining_append graph callables move.notSpliced
      (once .released) fun source => edgesInto target (shared.node source).successors
    have sameSuccessors : (fun source => edgesInto target (effect.shared.node source).successors) =
        fun source => edgesInto target (shared.node source).successors := by
      funext source
      rw [(move.nodes source).2.2]
    simp only [Multiset.map_cons, Multiset.sum_cons] at before
    simp only [Multiset.map_add, Multiset.sum_add, Multiset.map_coe, Multiset.sum_coe,
      move.log, sameSuccessors]
    omega
  case active =>
    have before := ledger.active target
    have change := move.active target
    have split : completedActive graph callables effect.shared target =
        ((live graph callables shared.log).map fun node => events.count (.completed node) *
          Frame.taken (chosenBranch (shared.node node)) target
            (shared.node node).successors).sum +
          completedActive graph callables shared target := by
      simp only [completedActive, sameLive, ← List.sum_map_add]
      refine Counting.sum_map_congr fun node _ => ?_
      rw [(move.nodes node).2.2, ← Nat.add_mul, ← List.count_append, ← move.log]
      by_cases member : .completed node ∈ effect.shared.log
      · rw [move.branch node member]
      · rw [List.count_eq_zero_of_not_mem member, Nat.zero_mul, Nat.zero_mul]
    simp only [Multiset.map_cons, Multiset.sum_cons] at before
    simp only [Multiset.map_add, Multiset.sum_add, Multiset.map_coe, Multiset.sum_coe, split]
    omega
  case willRun =>
    have before := ledger.willRun node
    have new := move.runs node
    simp only [Multiset.map_cons, Multiset.sum_cons] at before
    simp only [Multiset.count_add, Multiset.coe_count, Multiset.map_add, Multiset.sum_add,
      Multiset.map_coe, Multiset.sum_coe, move.log, List.count_append] at some
    have grown (runnable : Runnable graph callables got node) :
        Runnable graph callables got' node :=
      runnable.imp_right fun positive => positive.trans_le (move.grows node)
    by_cases isOld : 0 < Multiset.count node ready + (frame.toRun.count node +
        (rest.map fun frame => frame.toRun.count node).sum) + shared.log.count (.executed node)
    · exact grown (before isOld)
    · rcases new (by omega) with fromFrame | runnable
      · omega
      · exact runnable
  case willSkip =>
    have before := ledger.willSkip node
    have new := move.skips node
    simp only [Multiset.map_cons, Multiset.sum_cons] at before
    simp only [Multiset.map_add, Multiset.sum_add, Multiset.map_coe, Multiset.sum_coe, move.log,
      List.count_append] at some
    by_cases isOld : 0 < frame.toSkip.count node +
        (rest.map fun frame => frame.toSkip.count node).sum + shared.log.count (.skipped node)
    · have stable : got' node = got node :=
        move.decided node (ledger.need_eq_zero_of_skipped isOld)
      rw [Runnable, stable]
      exact before isOld
    · rcases new (by omega) with fromFrame | notRunnable
      · omega
      · exact notRunnable
  case status =>
    have before := ledger.status node
    have new := move.status node
    simp only [move.log, List.mem_append]
    constructor
    · rintro (isNew | isOld)
      · exact new.1 isNew
      · rw [new.2.2 (ledger.count_owes_eq_zero_of_passed (passed_settled_of_completed isOld))]
        exact before.1 isOld
    · rintro (isNew | isOld)
      · exact new.2.1 isNew
      · rw [new.2.2 (ledger.count_owes_eq_zero_of_passed (passed_settled_of_skipped isOld))]
        exact before.2 isOld
  case shape =>
    obtain ⟨sameType, sameDegree, sameSuccessors⟩ := move.nodes node
    simp only [sameType, sameDegree, sameSuccessors, move.log,
      moved_append move.notSpliced shared.log node]
    exact ledger.shape node (sameLive ▸ member)
  case targets =>
    dsimp only at member ⊢
    rw [sameLive] at member ⊢
    exact ledger.targets node member edge inEdges
  case forward =>
    rcases Multiset.mem_add.mp member with isNew | isOld
    · exact move.forward frame isNew
    · exact ledger.forward frame (Multiset.mem_cons_of_mem isOld)
  case within =>
    have earlier : .spliced node ∈ shared.log := by
      rcases Multiset.mem_add.mp member with isNew | isOld
      · exact ledger.within frame (Multiset.mem_cons_self _ _) node
          (move.within after isNew node within)
      · exact ledger.within after (Multiset.mem_cons_of_mem isOld) node within
    rw [move.log]
    exact List.mem_append_right _ earlier
  case pending =>
    have before := ledger.pending
    have change := move.pending
    have remains := remaining_append graph callables move.notSpliced
      (once .finished) fun _ => 1
    simp only [Nat.mul_one] at remains
    dsimp only at before ⊢
    rw [move.log]
    omega
  case splices =>
    dsimp only at spliced ⊢
    rw [move.log, List.mem_append] at spliced ⊢
    obtain ⟨executed, isSubflow⟩ :=
      ledger.splices node (spliced.resolve_left (move.notSpliced node))
    exact ⟨.inr executed, isSubflow⟩

/-! ## Frames that leave counters alone -/

theorem passed_released_eq_zero {log : List Event} (never : ∀ node, .released node ∉ log)
    (node : NodeId) : passed .released node log = 0 := by
  rw [passed, List.countP_eq_zero]
  intro event member
  cases event with
  | released other => exact absurd member (never other)
  | _ => simp [Event.passes]

/-- A step that decrements nothing and releases nothing. -/
theorem Ledger.move_silent
    (ledger : Ledger graph callables need got ⟨shared, ready, frame ::ₘ rest⟩)
    (log : effect.shared.log = events ++ shared.log)
    (quiet : ∀ node, .spliced node ∉ events ∧ .released node ∉ events ∧
      .completed node ∉ events)
    (tokens : ∀ milestone node, (frame.owes milestone).count node =
      effect.staged.toList.count node + effect.queued.count node +
        (effect.frames.map fun frame => (frame.owes milestone).count node).sum +
        passed milestone node events)
    (todo : ∀ target, edgesInto target frame.todo =
      (effect.frames.map fun frame => edgesInto target frame.todo).sum)
    (active : ∀ target, (effect.frames.map (Frame.activeInto target)).sum =
      frame.activeInto target)
    (nodes : ∀ node, (effect.shared.node node).type = (shared.node node).type ∧
      (effect.shared.node node).initialInDegree = (shared.node node).initialInDegree ∧
      (effect.shared.node node).successors = (shared.node node).successors ∧
      (effect.shared.node node).inDegree = (shared.node node).inDegree ∧
      ((frame.owes .settled).count node = 0 →
        (effect.shared.node node).state = (shared.node node).state ∧
          (effect.shared.node node).userData = (shared.node node).userData))
    (runs : ∀ node, 0 < effect.staged.toList.count node + effect.queued.count node +
        (effect.frames.map fun frame => frame.toRun.count node).sum +
        events.count (.executed node) → 0 < frame.toRun.count node)
    (skips : ∀ node, 0 < (effect.frames.map fun frame => frame.toSkip.count node).sum +
      events.count (.skipped node) → 0 < frame.toSkip.count node)
    (skipped : ∀ node, .skipped node ∈ events → (effect.shared.node node).state = .skipped)
    (frames : ∀ after ∈ effect.frames, after.Forward ∧
      ∀ node, after.splicing = some node → frame.splicing = some node)
    (pending : effect.shared.m_pendingTasks +
        ((live graph callables shared.log).map fun node => passed .finished node events).sum =
      shared.m_pendingTasks) :
    Move graph callables need got need got shared frame effect events where
  log := log
  notSpliced := fun node => (quiet node).1
  tokens := fun milestone node => by rw [tokens milestone node]; omega
  edges := fun target => by
    have none : ((live graph callables shared.log).map fun node =>
        passed .released node events * edgesInto target (shared.node node).successors).sum = 0 :=
      Counting.sum_map_eq_zero fun node _ => by
        rw [passed_released_eq_zero fun other => (quiet other).2.1, Nat.zero_mul]
    rw [todo target, none, Nat.add_zero]
  active := fun target => by
    have none : ((live graph callables shared.log).map fun node =>
        events.count (.completed node) * Frame.taken (chosenBranch (shared.node node)) target
          (shared.node node).successors).sum = 0 :=
      Counting.sum_map_eq_zero fun node _ => by
        rw [List.count_eq_zero_of_not_mem (quiet node).2.2, Nat.zero_mul]
    rw [active target, none, Nat.add_zero]
  nodes := fun node => ⟨(nodes node).1, (nodes node).2.1, (nodes node).2.2.1⟩
  branch := fun node completed => by
    rw [log, List.mem_append] at completed
    have past := completed.resolve_left (quiet node).2.2
    have same := (nodes node).2.2.2.2
      (ledger.count_owes_eq_zero_of_passed (passed_settled_of_completed past))
    rw [chosenBranch, chosenBranch, (nodes node).1, same.2]
  packed := fun node member => by
    rw [(nodes node).2.2.2.1]
    exact ledger.packed node member
  fits := fun _ => le_rfl
  lessens := fun _ => le_rfl
  grows := fun _ => le_rfl
  decided := fun _ _ => rfl
  runs := fun node some => .inl (runs node some)
  skips := fun node some => .inl (skips node some)
  status := fun node => ⟨fun completed => absurd completed (quiet node).2.2, skipped node,
    fun owed => ((nodes node).2.2.2.2 owed).1⟩
  forward := fun after member => (frames after member).1
  within := fun after member => (frames after member).2
  pending := pending

theorem Ledger.move_executing {node : NodeId}
    (ledger : Ledger graph callables need got ⟨shared, ready, .executing node ::ₘ rest⟩) :
    Move graph callables need got need got shared (.executing node)
      { shared := shared.setState node .executing, frames := [.calling node] } [] := by
  refine ledger.move_silent rfl (by simp) (by simp) (by simp) (by simp) ?_ (by simp) (by simp)
    (by simp) (by simp [Frame.Forward]) (by simp)
  intro query
  simp only [Shared.setState_node, true_and]
  simp
  grind

/-- The call of a node that starts no subflow. -/
theorem Ledger.move_calling {node : NodeId}
    (ledger : Ledger graph callables need got ⟨shared, ready, .calling node ::ₘ rest⟩)
    (noSplice : CallsNoSplice callables shared node) :
    Move graph callables need got need got shared (.calling node)
      { shared := (executeFn callables shared node).1
        frames := (executeFn callables shared node).2 } [.executed node] := by
  obtain ⟨frames, log, pending, nodes⟩ := executeFn_of_callsNoSplice noSplice
  refine ledger.move_silent log (by simp) ?_ ?_ ?_ ?_ ?_ ?_ (by simp) ?_ ?_
  · intro milestone query
    rw [frames]
    cases milestone <;> simp [Event.passes, List.count_singleton]
  · simp [frames]
  · simp [frames]
  · intro query
    obtain ⟨userData, result, others⟩ := nodes query
    simp only [result, true_and]
    intro notOwed
    refine others fun same => ?_
    simp [same] at notOwed
  · simp [frames]
  · simp [frames]
  · simp [frames, Frame.Forward]
  · simp [pending, Event.passes]

theorem Ledger.move_dispatched {node : NodeId}
    (ledger : Ledger graph callables need got ⟨shared, ready, .dispatching node [] ::ₘ rest⟩) :
    Move graph callables need got need got shared (.dispatching node [])
      { shared
        frames := [if (callables.subflow node).mode = .joined then .joining node
          else .completing node] } [] := by
  split <;> exact ledger.move_silent rfl (by simp) (by simp) (by simp) (by simp) (by simp)
    (by simp) (by simp) (by simp) (by simp [Frame.Forward]) (by simp)

theorem Ledger.move_dispatching {node root : NodeId} {roots : List NodeId}
    (ledger : Ledger graph callables need got
      ⟨shared, ready, .dispatching node (root :: roots) ::ₘ rest⟩) :
    Move graph callables need got need got shared (.dispatching node (root :: roots))
      { shared := shared.record (.scheduled root true)
        frames := [.dispatching node roots]
        queued := [root] } [.scheduled root true] := by
  refine ledger.move_silent rfl (by simp) ?_ (by simp) (by simp) (by simp) ?_ (by simp)
    (by simp) (by simp [Frame.Forward]) (by simp [Event.passes])
  · intro milestone query
    simp [Event.passes, List.count_cons]
    omega
  · intro query
    simp [List.count_cons]
    grind

theorem Ledger.move_joining {node : NodeId}
    (ledger : Ledger graph callables need got ⟨shared, ready, .joining node ::ₘ rest⟩) :
    Move graph callables need got need got shared (.joining node)
      { shared, frames := [.completing node] } [] :=
  ledger.move_silent rfl (by simp) (by simp) (by simp) (by simp) (by simp) (by simp) (by simp)
    (by simp) (by simp [Frame.Forward]) (by simp)

/-- The loop of `unblockSuccessors` has come to its end. -/
theorem Ledger.move_unblocked {node : NodeId} {branch : Option Int} {unblockedCount : Nat}
    (ledger : Ledger graph callables need got
      ⟨shared, ready, .unblocking node branch [] unblockedCount ::ₘ rest⟩) :
    ∃ events, Move graph callables need got need got shared
      (.unblocking node branch [] unblockedCount)
      { shared := if 0 < unblockedCount then shared.record (.notified unblockedCount) else shared
        frames := [.finishing node] } events := by
  split
  · exact ⟨[.notified unblockedCount], ledger.move_silent rfl (by simp) (by simp [Event.passes])
      (by simp) (by simp [Frame.taken]) (by simp) (by simp) (by simp) (by simp)
      (by simp [Frame.Forward]) (by simp [Event.passes])⟩
  · exact ⟨[], ledger.move_silent rfl (by simp) (by simp) (by simp) (by simp [Frame.taken])
      (by simp) (by simp) (by simp) (by simp) (by simp [Frame.Forward]) (by simp)⟩

/-- Staging, queueing and notifying differ in what they record only. -/
theorem Ledger.move_handingOver {node succ : NodeId} {branch : Option Int}
    {todo : List SuccessorEdge} {unblockedCount : Nat} (inlineFree : Bool)
    (ledger : Ledger graph callables need got
      ⟨shared, ready, .handingOver node branch succ todo unblockedCount ::ₘ rest⟩) :
    ∃ events, Move graph callables need got need got shared
      (.handingOver node branch succ todo unblockedCount)
      (handOver shared inlineFree node branch succ todo unblockedCount) events := by
  have forward := ledger.forward _ (Multiset.mem_cons_self _ _)
  simp only [Frame.Forward, Frame.todo] at forward
  have silent {effect : Effect} {events : List Event} (count : Nat)
      (log : effect.shared.log = events ++ shared.log)
      (notes : ∀ event ∈ events, event.isNote)
      (ready : ∀ query, effect.staged.toList.count query + effect.queued.count query =
        [succ].count query)
      (frames : effect.frames = [.unblocking node branch todo count])
      (nodes : effect.shared.node = shared.node)
      (pending : effect.shared.m_pendingTasks = shared.m_pendingTasks) :
      Move graph callables need got need got shared
        (.handingOver node branch succ todo unblockedCount) effect events := by
    have noted {event : Event} (real : event.isNote = false) : event ∉ events := fun member => by
      simp [notes event member] at real
    have passesNone (milestone : Milestone) (query : NodeId) :
        passed milestone query events = 0 := by
      rw [passed, List.countP_eq_zero]
      intro event member
      have := notes event member
      cases event <;> simp_all [Event.isNote, Event.passes]
    refine ledger.move_silent log (fun query => ⟨noted rfl, noted rfl, noted rfl⟩) ?_ ?_ ?_ ?_ ?_
      ?_ ?_ ?_ ?_
    · intro milestone query
      have handed := ready query
      simp only [passesNone, frames]
      simp at handed ⊢
      omega
    · simp [frames]
    · simp [frames]
    · simp [nodes]
    · intro query
      have handed := ready query
      rw [List.count_eq_zero_of_not_mem (noted rfl), handed]
      simp [frames]
    · intro query
      rw [List.count_eq_zero_of_not_mem (noted rfl)]
      simp [frames]
    · intro query member
      exact absurd member (noted rfl)
    · simpa [frames, Frame.Forward] using forward
    · simp [passesNone, pending]
  simp only [handOver]
  split
  · exact ⟨[], silent unblockedCount rfl (by simp) (by simp) rfl rfl rfl⟩
  · split
    · split
      · exact ⟨[.notified (unblockedCount + 1), .scheduled succ false],
          silent 0 rfl (by simp [Event.isNote]) (by simp) rfl rfl rfl⟩
      · exact ⟨[.scheduled succ false],
          silent (unblockedCount + 1) rfl (by simp [Event.isNote]) (by simp) rfl rfl rfl⟩
    · exact ⟨[.scheduled succ false],
        silent unblockedCount rfl (by simp [Event.isNote]) (by simp) rfl rfl rfl⟩

theorem Ledger.move_skipping {node : NodeId}
    (ledger : Ledger graph callables need got ⟨shared, ready, .skipping node ::ₘ rest⟩) :
    Move graph callables need got need got shared (.skipping node)
      { shared := (shared.setState node .skipped).record (.skipped node)
        frames := [.skipped node] } [.skipped node] := by
  refine ledger.move_silent rfl (by simp) ?_ (by simp) (by simp) ?_ (by simp) ?_ ?_
    (by simp [Frame.Forward]) (by simp [Event.passes])
  · intro milestone query
    cases milestone <;> simp [Event.passes, List.count_singleton]
  · intro query
    simp only [Shared.record_node, Shared.setState_node, true_and]
    simp
    grind
  · simp [List.count_singleton]
  · simp [Shared.setState_node]

theorem Ledger.move_scheduling {node : NodeId}
    (ledger : Ledger graph callables need got ⟨shared, ready, .scheduling node ::ₘ rest⟩) :
    Move graph callables need got need got shared (.scheduling node)
      { shared := shared.record (.scheduled node true), queued := [node] }
      [.scheduled node true] :=
  ledger.move_silent rfl (by simp) (by simp [Event.passes]) (by simp) (by simp) (by simp)
    (by simp) (by simp) (by simp) (by simp) (by simp [Event.passes])

/-! ## Frames that release or finish a node -/

theorem Ledger.mem_live_of_owes
    (ledger : Ledger graph callables need got ⟨shared, ready, frame ::ₘ rest⟩)
    {milestone : Milestone} {node : NodeId} (owed : 0 < (frame.owes milestone).count node) :
    node ∈ live graph callables shared.log := by
  have law := ledger.passage milestone node
  rw [awaiting_cons] at law
  dsimp only at law
  exact List.count_pos_iff.mp (by omega)

/-- `onTaskCompleted` subtracts from a positive number, and takes its node out of the
unfinished ones. -/
theorem Ledger.pending_finished
    (ledger : Ledger graph callables need got ⟨shared, ready, frame ::ₘ rest⟩)
    {node : NodeId} (owed : 0 < (frame.owes .finished).count node) :
    u32Sub shared.m_pendingTasks 1 +
        ((live graph callables shared.log).map fun other =>
          if node = other then 1 else 0).sum = shared.m_pendingTasks := by
  have member := ledger.mem_live_of_owes owed
  have single := Counting.sum_map_single ledger.distinct member fun _ => 1
  have positive : 0 < shared.m_pendingTasks := by
    have law := ledger.pending
    dsimp only at law
    rw [law, remaining, Counting.sum_map_pos]
    refine ⟨node, member, ?_⟩
    have unfinished : passed .finished node shared.log = 0 := by
      by_contra past
      have := ledger.count_owes_eq_zero_of_passed (Nat.pos_of_ne_zero past)
      omega
    simp [unfinished]
  rw [single, u32Sub_of_le positive]
  omega

theorem Ledger.move_finishing {node : NodeId}
    (ledger : Ledger graph callables need got ⟨shared, ready, .finishing node ::ₘ rest⟩) :
    Move graph callables need got need got shared (.finishing node)
      { shared := shared.onTaskCompleted node } [.finished node] := by
  refine ledger.move_silent rfl (by simp) ?_ (by simp) (by simp) (by simp) (by simp) (by simp)
    (by simp) (by simp) ?_
  · intro milestone query
    cases milestone <;> simp [Event.passes, List.count_singleton]
  · have finished := ledger.pending_finished (show 0 < List.count node _ by simp)
    simpa [Event.passes] using finished

/-- Without loop-back edges the walk starts at the head of the successor list. -/
theorem unblockSuccessors_of_forward {store : NodeStore} {node : NodeId}
    (forward : ∀ edge ∈ (store node).successors, edge.isLoopBack = false) :
    unblockSuccessors store node =
      .unblocking node (chosenBranch (store node)) (store node).successors 0 := by
  have noLoop : (store node).successors.find? (fun edge =>
      (edge.branch = -1 ∨ edge.branch = (store node).userData) && edge.isLoopBack) = none := by
    rw [List.find?_eq_none]
    intro edge member
    simp [forward edge member]
  simp only [unblockSuccessors, chosenBranch]
  split
  next isCondition => simp only [noLoop, isCondition, ↓reduceIte]
  next other => rw [if_neg other]

theorem Ledger.move_completing {node : NodeId}
    (ledger : Ledger graph callables need got ⟨shared, ready, .completing node ::ₘ rest⟩)
    (forward : ∀ edge ∈ (shared.node node).successors, edge.isLoopBack = false) :
    Move graph callables need got need got shared (.completing node)
      { shared :=
          ((shared.setState node .completed).record (.completed node)).record (.released node)
        frames := [unblockSuccessors shared.node node] }
      [.released node, .completed node] := by
  have member : node ∈ live graph callables shared.log :=
    ledger.mem_live_of_owes (show 0 < List.count node (Frame.owes .settled _) by simp)
  rw [unblockSuccessors_of_forward forward]
  refine
    { log := rfl
      notSpliced := by simp
      tokens := fun milestone query => ?tokens
      edges := fun target => ?edges
      active := fun target => ?active
      nodes := fun query => by simp [Shared.setState_node]
      branch := fun query _ => by simp [Shared.setState_node, chosenBranch]
      packed := fun query inRun => by simpa [Shared.setState_node] using ledger.packed query inRun
      fits := fun _ => le_rfl
      lessens := fun _ => le_rfl
      grows := fun _ => le_rfl
      decided := fun _ _ => rfl
      runs := by simp
      skips := by simp
      status := fun query => ?status
      forward := by simpa [Frame.Forward] using forward
      within := by simp
      pending := by simp [Event.passes] }
  case tokens => cases milestone <;> simp [Event.passes, List.count_singleton]
  case edges =>
    have single := Counting.sum_map_single ledger.distinct member fun source =>
      edgesInto target (shared.node source).successors
    simpa [Event.passes] using single
  case active =>
    have single := Counting.sum_map_single ledger.distinct member fun source =>
      Frame.taken (chosenBranch (shared.node source)) target (shared.node source).successors
    simpa [List.count_cons] using single.symm
  case status =>
    simp [Shared.setState_node]
    grind

theorem Ledger.move_skipped {node : NodeId}
    (ledger : Ledger graph callables need got ⟨shared, ready, .skipped node ::ₘ rest⟩)
    (forward : ∀ edge ∈ (shared.node node).successors, edge.isLoopBack = false) :
    Move graph callables need got need got shared (.skipped node)
      { shared := (shared.onTaskCompleted node).record (.released node)
        frames := cascade node (shared.node node).successors }
      [.released node, .finished node] := by
  have member : node ∈ live graph callables shared.log :=
    ledger.mem_live_of_owes (show 0 < List.count node (Frame.owes .released _) by simp)
  have finished := ledger.pending_finished (show 0 < List.count node _ by simp)
  refine
    { log := rfl
      notSpliced := by simp
      tokens := fun milestone query => ?tokens
      edges := fun target => ?edges
      active := fun target => ?active
      nodes := by simp
      branch := fun query _ => rfl
      packed := fun query inRun => by simpa using ledger.packed query inRun
      fits := fun _ => le_rfl
      lessens := fun _ => le_rfl
      grows := fun _ => le_rfl
      decided := fun _ _ => rfl
      runs := ?runs
      skips := ?skips
      status := by simp
      forward := ?forward
      within := ?within
      pending := by simpa [Event.passes] using finished }
  case tokens =>
    cases successors : (shared.node node).successors <;> cases milestone <;>
      simp [cascade, Event.passes, List.count_singleton]
  case edges =>
    have single := Counting.sum_map_single ledger.distinct member fun source =>
      edgesInto target (shared.node source).successors
    cases successors : (shared.node node).successors <;>
      simpa [cascade, Event.passes, successors] using single
  case active =>
    cases successors : (shared.node node).successors <;> simp [cascade]
  case runs =>
    cases successors : (shared.node node).successors <;> simp [cascade]
  case skips =>
    cases successors : (shared.node node).successors <;> simp [cascade]
  case forward =>
    cases successors : (shared.node node).successors <;>
      simp_all [cascade, Frame.Forward]
  case within =>
    cases successors : (shared.node node).successors <;> simp [cascade]

/-! ## Decrements -/

/-- A target that is still to be decremented waits for that decrement. -/
theorem Ledger.target_waits
    (ledger : Ledger graph callables need got ⟨shared, ready, frame ::ₘ rest⟩)
    {target : NodeId} (inFlight : 0 < edgesInto target frame.todo) :
    0 < need target ∧ target ∈ live graph callables shared.log ∧
      Packed (shared.node target).inDegree (need target) (got target) := by
  have positive : 0 < need target := by
    have law := ledger.edges target
    rw [Multiset.map_cons, Multiset.sum_cons] at law
    omega
  have member : target ∈ live graph callables shared.log := by
    have law := ledger.passage .called target
    simp only [waiting, Nat.ne_of_gt positive, ↓reduceIte] at law
    exact List.count_pos_iff.mp (by omega)
  exact ⟨positive, member, ledger.packed target member⟩

theorem waiting_of_pos {need : Nat} (positive : 0 < need) : waiting need = 1 :=
  if_neg (Nat.ne_of_gt positive)

theorem Ledger.move_active {node : NodeId} {branch : Option Int} {edge : SuccessorEdge}
    {todo : List SuccessorEdge} {unblockedCount : Nat}
    (ledger : Ledger graph callables need got
      ⟨shared, ready, .unblocking node branch (edge :: todo) unblockedCount ::ₘ rest⟩)
    (taken : takes branch edge = true) :
    Move graph callables need got
      (Function.update need edge.target (need edge.target - 1))
      (Function.update got edge.target (got edge.target + 1)) shared
      (.unblocking node branch (edge :: todo) unblockedCount)
      (unblockActive shared node branch edge.target todo unblockedCount)
      [.decremented node edge.target true] := by
  obtain ⟨positive, member, packed⟩ :=
    ledger.target_waits (show 0 < edgesInto edge.target (edge :: todo) by simp)
  have forward := ledger.forward _ (Multiset.mem_cons_self _ _)
  simp only [Frame.Forward, Frame.todo, List.forall_mem_cons] at forward
  have fits := ledger.fits edge.target
  obtain ⟨left, needEq⟩ : ∃ left, need edge.target = left + 1 := ⟨_, (Nat.succ_pred_eq_of_pos
    positive).symm⟩
  rw [needEq] at packed fits
  obtain ⟨nextPacked, unblocked⟩ := packed.decrementActive (by omega)
  rw [needEq, Nat.add_sub_cancel]
  refine
    { log := rfl
      notSpliced := by simp
      tokens := fun milestone query => ?tokens
      edges := fun target => ?edges
      active := fun target => ?active
      nodes := fun query => by simp [unblockActive, Shared.setInDegree_node]
      branch := fun query _ => by simp [unblockActive, Shared.setInDegree_node, chosenBranch]
      packed := fun query inRun => ?packed
      fits := fun query => ?fits
      lessens := fun query => ?lessens
      grows := fun query => ?grows
      decided := fun query none => ?decided
      runs := fun query some => ?runs
      skips := fun query some => ?skips
      status := fun query => by simp [unblockActive, Shared.setInDegree_node]
      forward := ?forward
      within := by
        by_cases last : left = 0 <;> simp [unblockActive, unblocked, last]
      pending := by simp [unblockActive, Event.passes] }
  case tokens =>
    by_cases same : query = edge.target
    · subst same
      rw [Function.update_self, needEq, waiting_of_pos (Nat.succ_pos left)]
      by_cases last : left = 0
      · simp [unblockActive, unblocked.mpr last, last, Event.passes]
      · simp [unblockActive, mt unblocked.mp last, Event.passes,
          waiting_of_pos (Nat.pos_of_ne_zero last)]
    · rw [Function.update_of_ne same]
      by_cases last : left = 0
      · simp [unblockActive, unblocked.mpr last, Event.passes, Ne.symm same]
      · simp [unblockActive, mt unblocked.mp last, Event.passes]
  case edges =>
    by_cases same : target = edge.target
    · subst same
      by_cases last : left = 0 <;>
        simp [unblockActive, unblocked, last, needEq, Event.passes] <;> omega
    · by_cases last : left = 0 <;>
        simp [unblockActive, unblocked, last, Function.update_of_ne same, Ne.symm same,
          Event.passes]
  case active =>
    by_cases same : target = edge.target
    · subst same
      by_cases last : left = 0 <;>
        simp [unblockActive, unblocked, last, Frame.taken, taken] <;> omega
    · by_cases last : left = 0 <;>
        simp [unblockActive, unblocked, last, Function.update_of_ne same, Frame.taken,
          Ne.symm same]
  case packed =>
    by_cases same : query = edge.target
    · subst same
      simpa [unblockActive, Shared.setInDegree_node] using nextPacked
    · simpa [unblockActive, Shared.setInDegree_node, same, Function.update_of_ne same] using
        ledger.packed query inRun
  case fits =>
    by_cases same : query = edge.target
    · subst same
      simp [needEq]
      omega
    · simp [Function.update_of_ne same]
  case lessens =>
    by_cases same : query = edge.target
    · subst same
      simp [needEq]
    · simp [Function.update_of_ne same]
  case grows =>
    by_cases same : query = edge.target
    · subst same
      simp
    · simp [Function.update_of_ne same]
  case decided =>
    have different : query ≠ edge.target := by
      rintro rfl
      omega
    rw [Function.update_of_ne different]
  case runs =>
    refine .inr (.inr ?_)
    by_cases same : query = edge.target
    · subst same
      simp
    · by_cases last : left = 0 <;>
        simp [unblockActive, unblocked, last, Ne.symm same] at some
  case skips =>
    by_cases last : left = 0 <;> simp [unblockActive, unblocked, last] at some
  case forward =>
    by_cases last : left = 0 <;>
      simpa [unblockActive, unblocked, last, Frame.Forward] using forward.2

/-- `decrementSkipped` in either loop; `frames` is how the loop continues. -/
theorem Ledger.move_skippedEdge {node : NodeId} {edge : SuccessorEdge}
    {todo : List SuccessorEdge} {frames : List Frame}
    (ledger : Ledger graph callables need got ⟨shared, ready, frame ::ₘ rest⟩)
    (inLoop : frame.todo = edge :: todo) (noRun : frame.toRun = []) (noSkip : frame.toSkip = [])
    (notTaken : ∀ target, (frames.map (Frame.activeInto target)).sum = frame.activeInto target)
    (continues : ∀ target, (frames.map fun frame => edgesInto target frame.todo).sum =
      edgesInto target todo)
    (owes : ∀ milestone query, (frames.map fun frame => (frame.owes milestone).count query).sum =
      (frame.busy milestone).count query)
    (quiet : ∀ frame ∈ frames, frame.toRun = [] ∧ frame.toSkip = [] ∧ frame.Forward ∧
      frame.splicing = none) :
    Move graph callables need got
      (Function.update need edge.target (need edge.target - 1)) got shared frame
      (unblockSkipped shared node edge.target frames)
      [.decremented node edge.target false] := by
  obtain ⟨positive, member, packed⟩ :=
    ledger.target_waits (show 0 < edgesInto edge.target frame.todo by
      rw [inLoop]
      simp)
  have fits := ledger.fits edge.target
  obtain ⟨left, needEq⟩ : ∃ left, need edge.target = left + 1 := ⟨_, (Nat.succ_pred_eq_of_pos
    positive).symm⟩
  rw [needEq] at packed fits
  obtain ⟨nextPacked, decision⟩ := packed.decrementSkipped (by omega)
  rw [needEq, Nat.add_sub_cancel]
  have quietRun (query : NodeId) :
      (frames.map fun frame => frame.toRun.count query).sum = 0 :=
    Counting.sum_map_eq_zero fun frame inFrames => by rw [(quiet frame inFrames).1, List.count_nil]
  have quietSkip (query : NodeId) :
      (frames.map fun frame => frame.toSkip.count query).sum = 0 :=
    Counting.sum_map_eq_zero fun frame inFrames => by
      rw [(quiet frame inFrames).2.1, List.count_nil]
  have quietForward : ∀ frame ∈ frames, frame.Forward :=
    fun frame inFrames => (quiet frame inFrames).2.2.1
  -- The three decisions: dependencies are left, the target runs, or it is skipped.
  obtain ⟨decided, framesEq, decidedOwes, decidedTodo, decidedActive, decidedForward,
      decidedWithin, decidedRun, decidedSkip⟩ :
      ∃ decided : List Frame,
        (unblockSkipped shared node edge.target frames).frames = decided ++ frames ∧
        (∀ milestone query, (decided.map fun frame => (frame.owes milestone).count query).sum =
          if left = 0 then [edge.target].count query else 0) ∧
        (∀ target, (decided.map fun frame => edgesInto target frame.todo).sum = 0) ∧
        (∀ target, (decided.map (Frame.activeInto target)).sum = 0) ∧
        (∀ frame ∈ decided, frame.Forward) ∧
        (∀ frame ∈ decided, frame.splicing = none) ∧
        (∀ query, 0 < (decided.map fun frame => frame.toRun.count query).sum →
          query = edge.target ∧ 0 < got edge.target) ∧
        ∀ query, 0 < (decided.map fun frame => frame.toSkip.count query).sum →
          query = edge.target ∧ got edge.target = 0 := by
    by_cases last : left = 0
    · by_cases some : 0 < got edge.target
      · refine ⟨[.scheduling edge.target], by simp [unblockSkipped, decision, last, some],
          by simp [last], by simp, by simp, by simp [Frame.Forward], by simp,
          fun query run => ?_, by simp⟩
        exact ⟨by simpa using run, some⟩
      · have none := Nat.eq_zero_of_not_pos some
        refine ⟨[.skipping edge.target], by simp [unblockSkipped, decision, last, none],
          by simp [last], by simp, by simp, by simp [Frame.Forward], by simp, by simp,
          fun query skip => ?_⟩
        exact ⟨by simpa using skip, none⟩
    · exact ⟨[], by simp [unblockSkipped, decision, last], by simp [last], by simp, by simp,
        by simp, by simp, by simp, by simp⟩
  have notFree : (declared graph callables edge.target).initialInDegree ≠ 0 := fun isFree => by
    have := ledger.free edge.target member isFree
    omega
  refine
    { log := rfl
      notSpliced := by simp
      tokens := fun milestone query => ?tokens
      edges := fun target => ?edges
      active := fun target => ?active
      nodes := fun query => by simp [unblockSkipped, Shared.setInDegree_node]
      branch := fun query _ => by simp [unblockSkipped, Shared.setInDegree_node, chosenBranch]
      packed := fun query inRun => ?packed
      fits := fun query => ?fits
      lessens := fun query => ?lessens
      grows := fun _ => le_rfl
      decided := fun _ _ => rfl
      runs := fun query some => ?runs
      skips := fun query some => ?skips
      status := fun query => by simp [unblockSkipped, Shared.setInDegree_node]
      forward := ?forward
      within := ?within
      pending := by simp [unblockSkipped, Event.passes] }
  case tokens =>
    have owed : (frame.owes milestone).count query = (frame.busy milestone).count query := by
      rw [Frame.count_owes, noRun, noSkip, List.count_nil, Nat.zero_add, Nat.zero_add]
    rw [framesEq, List.map_append, List.sum_append, decidedOwes, owes, owed]
    by_cases same : query = edge.target
    · subst same
      rw [Function.update_self, needEq, waiting_of_pos (Nat.succ_pos left)]
      by_cases last : left = 0 <;> simp [unblockSkipped, Event.passes, last, waiting]
    · rw [Function.update_of_ne same]
      by_cases last : left = 0 <;> simp [unblockSkipped, Event.passes, last, Ne.symm same]
  case edges =>
    rw [framesEq, List.map_append, List.sum_append, decidedTodo, continues, inLoop]
    by_cases same : target = edge.target
    · subst same
      simp [needEq, Event.passes]
      omega
    · simp [Function.update_of_ne same, Ne.symm same, Event.passes]
  case active =>
    rw [framesEq, List.map_append, List.sum_append, decidedActive, notTaken]
    simp
  case packed =>
    by_cases same : query = edge.target
    · subst same
      simpa [unblockSkipped, Shared.setInDegree_node] using nextPacked
    · simpa [unblockSkipped, Shared.setInDegree_node, same, Function.update_of_ne same] using
        ledger.packed query inRun
  case fits =>
    by_cases same : query = edge.target
    · subst same
      simp [needEq]
    · simp [Function.update_of_ne same]
  case lessens =>
    by_cases same : query = edge.target
    · subst same
      simp [needEq]
    · simp [Function.update_of_ne same]
  case runs =>
    rw [framesEq, List.map_append, List.sum_append, quietRun] at some
    obtain ⟨same, positive⟩ := decidedRun query (by simpa [unblockSkipped] using some)
    exact .inr (.inr (same ▸ positive))
  case skips =>
    rw [framesEq, List.map_append, List.sum_append, quietSkip] at some
    obtain ⟨same, none⟩ := decidedSkip query (by simpa using some)
    exact .inr fun runnable => runnable.elim (same ▸ notFree) (by rw [same, none]; simp)
  case forward =>
    rw [framesEq]
    intro frame inFrames
    exact (List.mem_append.mp inFrames).elim (decidedForward frame) (quietForward frame)
  case within =>
    rw [framesEq]
    intro after inFrames other within
    have none : after.splicing = none := (List.mem_append.mp inFrames).elim
      (decidedWithin after) fun member => (quiet after member).2.2.2
    rw [none] at within
    cases within

/-! ## Any frame that splices nothing -/

theorem declared_forward (sound : graph.Sound) (node : NodeId) :
    ∀ edge ∈ (declared graph callables node).successors, edge.isLoopBack = false := by
  induction node with
  | node id => exact sound.forward (.node id)
  | child parent index ih =>
      intro edge member
      simp only [declared, ChildGraph.childSuccessors] at member
      split at member
      · rw [List.mem_singleton.mp member]
      · obtain ⟨childEdge, -, rfl⟩ := List.mem_map.mp member
        rfl
  | exit parent ih =>
      intro edge member
      simp only [declared] at member
      split at member
      · simp at member
      · exact ih edge member

theorem Ledger.successors_forward {load : Workload}
    (ledger : Ledger graph callables need got load) (sound : graph.Sound) {node : NodeId}
    (member : node ∈ live graph callables load.shared.log) :
    ∀ edge ∈ (load.shared.node node).successors, edge.isLoopBack = false := by
  rw [(ledger.shape node member).2.2]
  split
  · simp
  · exact declared_forward sound node

theorem Ledger.fire {inlineFree : Bool}
    (ledger : Ledger graph callables need got ⟨shared, ready, frame ::ₘ rest⟩)
    (sound : graph.Sound)
    (noSplice : ∀ node, frame = .calling node → CallsNoSplice callables shared node)
    (fired : frame.fire callables inlineFree shared = some effect) :
    ∃ need' got', Ledger graph callables need' got' (effect.load ready rest) := by
  have frameForward := ledger.forward _ (Multiset.mem_cons_self _ _)
  cases frame with
  | executing node =>
      cases fired
      exact ⟨_, _, ledger.of_move ledger.move_executing⟩
  | calling node =>
      cases fired
      exact ⟨_, _, ledger.of_move (ledger.move_calling (noSplice node rfl))⟩
  | dispatching node roots =>
      cases roots with
      | nil =>
          cases fired
          exact ⟨_, _, ledger.of_move ledger.move_dispatched⟩
      | cons root roots =>
          cases fired
          exact ⟨_, _, ledger.of_move ledger.move_dispatching⟩
  | joining node =>
      simp only [Frame.fire] at fired
      split at fired
      · cases fired
        exact ⟨_, _, ledger.of_move ledger.move_joining⟩
      · simp at fired
  | completing node =>
      cases fired
      exact ⟨_, _, ledger.of_move (ledger.move_completing (ledger.successors_forward sound
        (ledger.mem_live_of_owes (show 0 < List.count node (Frame.owes .settled _) by simp))))⟩
  | unblocking node branch todo unblockedCount =>
      cases todo with
      | nil =>
          cases fired
          obtain ⟨events, move⟩ := ledger.move_unblocked
          exact ⟨_, _, ledger.of_move move⟩
      | cons edge todo =>
          simp only [Frame.Forward, Frame.todo, List.forall_mem_cons] at frameForward
          simp only [Frame.fire, frameForward.1] at fired
          split at fired
          next taken =>
            cases fired
            exact ⟨_, _, ledger.of_move (ledger.move_active taken)⟩
          next notTaken =>
            cases fired
            refine ⟨_, _, ledger.of_move (ledger.move_skippedEdge rfl rfl rfl ?_ ?_ ?_ ?_)⟩
            · simp [Frame.taken, notTaken]
            · simp
            · simp
            · simpa [Frame.Forward] using frameForward.2
  | handingOver node branch succ todo unblockedCount =>
      cases fired
      obtain ⟨events, move⟩ := ledger.move_handingOver inlineFree
      exact ⟨_, _, ledger.of_move move⟩
  | finishing node =>
      cases fired
      exact ⟨_, _, ledger.of_move ledger.move_finishing⟩
  | skipping node =>
      cases fired
      exact ⟨_, _, ledger.of_move ledger.move_skipping⟩
  | skipped node =>
      cases fired
      exact ⟨_, _, ledger.of_move (ledger.move_skipped (ledger.successors_forward sound
        (ledger.mem_live_of_owes (show 0 < List.count node (Frame.owes .released _) by simp))))⟩
  | cascading node todo =>
      cases todo with
      | nil => exact absurd rfl frameForward.1
      | cons edge todo =>
          cases fired
          simp only [Frame.Forward, List.forall_mem_cons] at frameForward
          refine ⟨_, _, ledger.of_move (ledger.move_skippedEdge rfl rfl rfl ?_ ?_ ?_ ?_)⟩
          all_goals cases todo <;> simp_all [cascade, Frame.Forward]
  | scheduling node =>
      cases fired
      exact ⟨_, _, ledger.of_move ledger.move_scheduling⟩
  | resetting node target todo cycleCount => exact absurd frameForward id
  | resettingState node target curr todo cycleCount => exact absurd frameForward id
  | rescheduling node target => exact absurd frameForward id

end Moves

end LightFlow
