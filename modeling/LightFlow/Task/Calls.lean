import LightFlow.Task.Balance

/-!
# What calls leave behind

Calling a node is the only step that executes or splices: the order of the calls in the
log, which calls spliced, and what `m_isDone` says about a joined subflow.
-/

namespace LightFlow

/-- The event records a call. -/
def Event.isCall : Event → Bool
  | .executed _ | .spliced _ => true
  | _ => false

section Calls

variable (graph : TaskGraph) (callables : Callables)

/-- A subflow node whose callable adds nodes. -/
def Grows (node : NodeId) : Prop :=
  (declared graph callables node).type = .subflow ∧ (callables.subflow node).nodes ≠ []

instance (node : NodeId) : Decidable (Grows graph callables node) :=
  inferInstanceAs (Decidable (_ ∧ _))

/-- Nodes are called while they are in the run, and spliced after they were called. -/
def Chronological : List Event → Prop
  | [] => True
  | .executed node :: older => node ∈ live graph callables older ∧ Chronological older
  | .spliced node :: older => .executed node ∈ older ∧ Chronological older
  | _ :: older => Chronological older

/-- What the log and `m_isDone` say about calls. -/
structure Calls (load : Workload) : Prop where
  spliced : ∀ node, .executed node ∈ load.shared.log → Grows graph callables node →
    .spliced node ∈ load.shared.log
  nonempty : ∀ node, .spliced node ∈ load.shared.log → (callables.subflow node).nodes ≠ []
  joining : ∀ node, .joining node ∈ load.frames → (callables.subflow node).mode = .joined
  isDone : ∀ node, .spliced node ∈ load.shared.log → (callables.subflow node).mode = .joined →
    (load.shared.isDone node = true ↔ .executed (.exit node) ∈ load.shared.log)
  exits : ∀ node, (callables.subflow node).mode = .joined →
    .skipped (.exit node) ∉ load.shared.log
  chronological : Chronological graph callables load.shared.log

variable {graph callables} {need got : NodeId → Nat} {shared : Shared} {ready : Multiset NodeId}
  {rest : Multiset Frame} {node : NodeId}

theorem chronological_append {events log : List Event}
    (noCalls : ∀ event ∈ events, event.isCall = false) :
    Chronological graph callables (events ++ log) ↔ Chronological graph callables log := by
  induction events with
  | nil => exact Iff.rfl
  | cons event events ih =>
      rw [List.forall_mem_cons] at noCalls
      cases event with
      | executed node => simp [Event.isCall] at noCalls
      | spliced node => simp [Event.isCall] at noCalls
      | _ => exact ih noCalls.2

/-- A call executes its node, and splices the subflow if it has nodes. -/
theorem Admits.call (admitted : Admits callables shared (.calling node)) :
    let result := executeFn callables shared node
    (result.2 = [.completing node] ∧ result.1.log = .executed node :: shared.log) ∨
      ((∃ store, result.2 =
        [.dispatching node (spliceRoots store node (callables.subflow node))]) ∧
        result.1.log = .spliced node :: .executed node :: shared.log) := by
  by_cases noSplice : CallsNoSplice callables shared node
  · obtain ⟨frames, log, -⟩ := executeFn_of_callsNoSplice noSplice
    exact .inl ⟨frames, log⟩
  · simp only [CallsNoSplice, Classical.not_imp] at noSplice
    have nonempty : (callables.subflow node).nodes ≠ [] := by
      intro empty
      simp [empty, u32] at noSplice
    obtain ⟨frames, log, -⟩ := executeFn_of_splices noSplice.1 nonempty
      (admitted.splices node rfl noSplice.1).2
    exact .inr ⟨⟨_, frames⟩, log⟩

/-! ## Steps without a call -/

/-- Only a call executes, splices, or changes what a node holds besides state and counter. -/
theorem Frame.fire_keeps {inlineFree : Bool} {frame : Frame} {effect : Effect}
    (notCalling : ∀ node, frame ≠ .calling node)
    (fired : frame.fire callables inlineFree shared = some effect) :
    effect.shared.calls = shared.calls ∧ effect.shared.isDone = shared.isDone ∧
      (∃ events, effect.shared.log = events ++ shared.log ∧
        ∀ event ∈ events, event.isCall = false ∧ ∀ node, event = .skipped node →
          frame = .skipping node) ∧
      (∀ node, (effect.shared.node node).type = (shared.node node).type ∧
        (effect.shared.node node).userData = (shared.node node).userData) ∧
      ∀ node, .joining node ∈ effect.frames → (callables.subflow node).mode = .joined := by
  cases frame with
  | calling node => exact absurd rfl (notCalling node)
  | executing node =>
      cases fired
      exact ⟨rfl, rfl, ⟨[], rfl, by simp⟩, by simp [Shared.setState_node], by simp⟩
  | dispatching node roots =>
      cases roots with
      | nil =>
          cases fired
          refine ⟨rfl, rfl, ⟨[], rfl, by simp⟩, fun _ => ⟨rfl, rfl⟩, fun other member => ?_⟩
          split at member
          next joined =>
            rw [List.mem_singleton, Frame.joining.injEq] at member
            exact member ▸ joined
          next => simp at member
      | cons root roots =>
          cases fired
          exact ⟨rfl, rfl, ⟨[_], rfl, by simp [Event.isCall]⟩, fun _ => ⟨rfl, rfl⟩, by simp⟩
  | joining node =>
      simp only [Frame.fire] at fired
      split at fired <;> cases fired
      exact ⟨rfl, rfl, ⟨[], rfl, by simp⟩, fun _ => ⟨rfl, rfl⟩, by simp⟩
  | completing node =>
      cases fired
      refine ⟨rfl, rfl, ⟨[_, _], rfl, by simp [Event.isCall]⟩, by simp [Shared.setState_node],
        fun other member => ?_⟩
      rw [List.mem_singleton] at member
      simp only [unblockSuccessors] at member
      split at member <;> [split at member; skip] <;> cases member
  | unblocking node branch todo unblockedCount =>
      cases todo with
      | nil =>
          cases fired
          refine ⟨?_, ?_, ?_, ?_, by simp⟩
          · split <;> rfl
          · split <;> rfl
          · split
            · exact ⟨[_], rfl, by simp [Event.isCall]⟩
            · exact ⟨[], rfl, by simp⟩
          · intro query
            split <;> exact ⟨rfl, rfl⟩
      | cons edge todo =>
          simp only [Frame.fire] at fired
          split at fired
          · cases fired
            refine ⟨rfl, rfl, ⟨[_], rfl, by simp [Event.isCall]⟩, ?_, fun other member => ?_⟩
            · simp [unblockActive, Shared.setInDegree_node]
            · simp only [unblockActive, List.mem_singleton] at member
              split at member <;> cases member
          · split at fired <;> cases fired
            · exact ⟨rfl, rfl, ⟨[], rfl, by simp⟩, fun _ => ⟨rfl, rfl⟩, by simp⟩
            · refine ⟨rfl, rfl, ⟨[_], rfl, by simp [Event.isCall]⟩, ?_, fun other member => ?_⟩
              · simp [unblockSkipped, Shared.setInDegree_node]
              · simp only [unblockSkipped] at member
                split at member <;> simp at member
  | handingOver node branch succ todo unblockedCount =>
      cases fired
      simp only [handOver]
      split
      · exact ⟨rfl, rfl, ⟨[], rfl, by simp⟩, fun _ => ⟨rfl, rfl⟩, by simp⟩
      · split
        · split
          · exact ⟨rfl, rfl, ⟨[_, _], rfl, by simp [Event.isCall]⟩, fun _ => ⟨rfl, rfl⟩, by simp⟩
          · exact ⟨rfl, rfl, ⟨[_], rfl, by simp [Event.isCall]⟩, fun _ => ⟨rfl, rfl⟩, by simp⟩
        · exact ⟨rfl, rfl, ⟨[_], rfl, by simp [Event.isCall]⟩, fun _ => ⟨rfl, rfl⟩, by simp⟩
  | finishing node =>
      cases fired
      exact ⟨rfl, rfl, ⟨[_], rfl, by simp [Event.isCall]⟩, fun _ => ⟨rfl, rfl⟩, by simp⟩
  | skipping node =>
      cases fired
      exact ⟨rfl, rfl, ⟨[_], rfl, by simp [Event.isCall]⟩, by simp [Shared.setState_node], by simp⟩
  | skipped node =>
      cases fired
      refine ⟨rfl, rfl, ⟨[_, _], rfl, by simp [Event.isCall]⟩, fun _ => ⟨rfl, rfl⟩,
        fun other member => ?_⟩
      cases successors : (shared.node node).successors <;> simp [cascade, successors] at member
  | cascading node todo =>
      cases todo with
      | nil =>
          cases fired
          exact ⟨rfl, rfl, ⟨[], rfl, by simp⟩, fun _ => ⟨rfl, rfl⟩, by simp⟩
      | cons edge todo =>
          cases fired
          refine ⟨rfl, rfl, ⟨[_], rfl, by simp [Event.isCall]⟩, ?_, fun other member => ?_⟩
          · simp [unblockSkipped, Shared.setInDegree_node]
          · simp only [unblockSkipped] at member
            split at member <;> cases todo <;> simp [cascade] at member
  | scheduling node =>
      cases fired
      exact ⟨rfl, rfl, ⟨[_], rfl, by simp [Event.isCall]⟩, fun _ => ⟨rfl, rfl⟩, by simp⟩
  | resetting node target todo cycleCount =>
      cases todo with
      | nil =>
          cases fired
          exact ⟨rfl, rfl, ⟨[], rfl, by simp⟩, fun _ => ⟨rfl, rfl⟩, by simp⟩
      | cons curr todo =>
          simp only [Frame.fire] at fired
          split at fired <;> cases fired
          · exact ⟨rfl, rfl, ⟨[], rfl, by simp⟩, by simp [Shared.setState_node], by simp⟩
          · exact ⟨rfl, rfl, ⟨[], rfl, by simp⟩, by simp [Shared.setInDegree_node], by simp⟩
  | resettingState node target curr todo cycleCount =>
      cases fired
      exact ⟨rfl, rfl, ⟨[], rfl, by simp⟩, by simp [Shared.setState_node], by simp⟩
  | rescheduling node target =>
      cases fired
      exact ⟨rfl, rfl, ⟨[_], rfl, by simp [Event.isCall]⟩, fun _ => ⟨rfl, rfl⟩, by simp⟩

theorem mem_append_of_call {events log : List Event} {event : Event}
    (noCalls : ∀ event ∈ events, event.isCall = false) (isCall : event.isCall = true) :
    event ∈ events ++ log ↔ event ∈ log := by
  rw [List.mem_append, or_iff_right fun member => ?_]
  simp [noCalls event member] at isCall

/-- A step that neither executes nor splices keeps what calls left behind. -/
theorem Calls.of_quiet {frame : Frame} {effect : Effect} {events : List Event}
    (calls : Calls graph callables ⟨shared, ready, frame ::ₘ rest⟩)
    (log : effect.shared.log = events ++ shared.log)
    (noCalls : ∀ event ∈ events, event.isCall = false)
    (exits : ∀ node, (callables.subflow node).mode = .joined → .skipped (.exit node) ∉ events)
    (isDone : effect.shared.isDone = shared.isDone)
    (joining : ∀ node, .joining node ∈ effect.frames → (callables.subflow node).mode = .joined) :
    Calls graph callables (effect.load ready rest) := by
  have executed (node : NodeId) :
      .executed node ∈ effect.shared.log ↔ .executed node ∈ shared.log :=
    log ▸ mem_append_of_call noCalls rfl
  have spliced (node : NodeId) : .spliced node ∈ effect.shared.log ↔ .spliced node ∈ shared.log :=
    log ▸ mem_append_of_call noCalls rfl
  exact
    { spliced := by simpa only [executed, spliced] using calls.spliced
      nonempty := by simpa only [spliced] using calls.nonempty
      joining := fun node member => by
        rcases Multiset.mem_add.mp member with isNew | isOld
        · exact joining node (Multiset.mem_coe.mp isNew)
        · exact calls.joining node (Multiset.mem_cons_of_mem isOld)
      isDone := by simpa only [executed, spliced, isDone] using calls.isDone
      exits := fun node joined skipped => by
        rcases List.mem_append.mp (log ▸ skipped) with isNew | isOld
        · exact exits node joined isNew
        · exact calls.exits node joined isOld
      chronological := log ▸ (chronological_append noCalls).mpr calls.chronological }

/-! ## Calls -/

/-- A call sets `m_isDone` of its own subflow, or of the joined one it is the exit of. -/
theorem executeFn_isDone (callables : Callables) (shared : Shared) (node other : NodeId) :
    (executeFn callables shared node).1.isDone other =
      if (shared.node node).type = .subflow then
        if other = node then
          decide (u32 (callables.subflow node).nodes.length = 0 ∨
            (callables.subflow node).mode = .detached)
        else shared.isDone other
      else if (shared.node node).type ≠ .condition ∧ node = .exit other ∧
          (callables.subflow other).mode = .joined then true
      else shared.isDone other := by
  simp only [executeFn]
  split
  next isCondition => simp [isCondition, Shared.record]
  next isSubflow =>
    simp only [isSubflow, ↓reduceIte, callSubflow]
    by_cases same : other = node
    · subst same
      split <;> simp_all [Shared.record, Shared.addPendingTasks, beq_eq_decide]
    · split <;> simp [same, Shared.record, Shared.addPendingTasks]
  all_goals
    next isPlain =>
      simp only [isPlain, reduceCtorEq, ↓reduceIte, ne_eq, not_false_eq_true, true_and]
      split
      next parent =>
        by_cases same : parent = other
        · subst same
          split <;> simp_all [Shared.record]
        · split <;> simp [Shared.record, same, Ne.symm same]
      next notExit =>
        rw [if_neg fun isExit => notExit other isExit.1]
        rfl

theorem Calls.call (sound : graph.Sound)
    (ledger : Ledger graph callables need got ⟨shared, ready, .calling node ::ₘ rest⟩)
    (calls : Calls graph callables ⟨shared, ready, .calling node ::ₘ rest⟩)
    (admitted : Admits callables shared (.calling node)) :
    Calls graph callables
      (Effect.load
        { shared := (executeFn callables shared node).1
          frames := (executeFn callables shared node).2 } ready rest) := by
  have inRun : node ∈ live graph callables shared.log :=
    ledger.mem_live_of_owes (show 0 < List.count node (Frame.owes .called _) by simp)
  have sameType := (ledger.shape node inRun).1
  have isDone := executeFn_isDone callables shared node
  obtain ⟨notExecuted, notSpliced⟩ := ledger.not_called
  have exitNotSubflow {other : NodeId} (isExit : node = .exit other) :
      (shared.node node).type = .static := by
    rw [show (shared.node node).type = _ from sameType, isExit]
    rfl
  by_cases noSplice : CallsNoSplice callables shared node
  · obtain ⟨frames, log, -, -⟩ := executeFn_of_callsNoSplice noSplice
    refine
      { spliced := fun other executed grows => ?_
        nonempty := fun other spliced => calls.nonempty other (by simpa [log] using spliced)
        joining := fun other member => ?_
        isDone := fun other spliced joined => ?_
        exits := fun other joined skipped => calls.exits other joined (by simpa [log] using skipped)
        chronological := log ▸ ⟨inRun, calls.chronological⟩ }
    · simp only [log, List.mem_cons, Event.executed.injEq, reduceCtorEq, false_or] at executed ⊢
      rcases executed with rfl | earlier
      · have isSubflow := sameType.trans grows.1
        have none := noSplice isSubflow
        rw [u32_of_lt (by have := (admitted.splices other rfl isSubflow).2; omega)] at none
        exact absurd (List.length_eq_zero_iff.mp none) grows.2
      · exact calls.spliced other earlier grows
    · refine calls.joining other (Multiset.mem_cons_of_mem ?_)
      simpa [frames] using member
    · have splicedBefore : .spliced other ∈ shared.log := by simpa [log] using spliced
      have different : other ≠ node := fun same => notSpliced (same ▸ splicedBefore)
      have before := calls.isDone other splicedBefore joined
      simp only [log, isDone, different, ↓reduceIte, List.mem_cons, Event.executed.injEq]
      by_cases isExit : .exit other = node
      · have isStatic := exitNotSubflow isExit.symm
        simp [isStatic, isExit, joined]
      · have notExit : node ≠ .exit other := Ne.symm isExit
        simpa [isExit, notExit] using before
  · simp only [CallsNoSplice, Classical.not_imp] at noSplice
    obtain ⟨isSubflow, someNodes⟩ := noSplice
    have nonempty : (callables.subflow node).nodes ≠ [] := by
      intro empty
      simp [empty, u32] at someNodes
    obtain ⟨frames, log, -, -⟩ :=
      executeFn_of_splices isSubflow nonempty (admitted.splices node rfl isSubflow).2
    refine
      { spliced := fun other executed grows => ?_
        nonempty := fun other spliced => ?_
        joining := fun other member => ?_
        isDone := fun other spliced joined => ?_
        exits := fun other joined skipped => calls.exits other joined (by simpa [log] using skipped)
        chronological := log ▸ ⟨List.mem_cons_self .., inRun, calls.chronological⟩ }
    · simp only [log, List.mem_cons, Event.executed.injEq, reduceCtorEq, false_or,
        Event.spliced.injEq] at executed ⊢
      exact executed.imp_right fun earlier => calls.spliced other earlier grows
    · simp only [log, List.mem_cons, Event.spliced.injEq, reduceCtorEq, false_or] at spliced
      rcases spliced with rfl | earlier
      · exact nonempty
      · exact calls.nonempty other earlier
    · refine calls.joining other (Multiset.mem_cons_of_mem ?_)
      simpa [frames] using member
    · simp only [log, isDone, isSubflow, ↓reduceIte, List.mem_cons, reduceCtorEq, false_or,
        Event.executed.injEq, Event.spliced.injEq] at spliced ⊢
      have notExit : .exit other ≠ node := fun isExit => by
        have isStatic := exitNotSubflow isExit.symm
        simp [isStatic] at isSubflow
      rcases spliced with rfl | earlier
      · have notLive : .exit other ∉ live graph callables shared.log :=
          fun exitInRun => notSpliced (spliced_of_mem_live sound exitInRun (.inr rfl)).1
        have notYet : .executed (.exit other) ∉ shared.log := fun executed =>
          notLive (ledger.mem_live_of_executed executed)
        simp [someNodes, joined, notExit, notYet]
      · have different : other ≠ node := fun same => notSpliced (same ▸ earlier)
        simpa [different, notExit] using calls.isDone other earlier joined

/-- Every step of the workload keeps what calls left behind. -/
theorem Calls.step (sound : graph.Sound) {load next : Workload}
    (ledger : Ledger graph callables need got load) (calls : Calls graph callables load)
    (stepped : Workload.Step callables (Admits callables) load next) :
    Calls graph callables next := by
  cases stepped with
  | start => exact { calls with joining := by simpa using calls.joining }
  | @note shared ready frames event isNote =>
      have noCalls : ∀ other ∈ [event], other.isCall = false := by
        cases event <;> simp_all [Event.isNote, Event.isCall]
      have executed (node : NodeId) :
          .executed node ∈ event :: shared.log ↔ .executed node ∈ shared.log :=
        mem_append_of_call noCalls rfl
      have spliced (node : NodeId) :
          .spliced node ∈ event :: shared.log ↔ .spliced node ∈ shared.log :=
        mem_append_of_call noCalls rfl
      exact
        { spliced := by simpa only [Shared.record_log, executed, spliced] using calls.spliced
          nonempty := by simpa only [Shared.record_log, spliced] using calls.nonempty
          joining := calls.joining
          isDone := by
            simpa only [Shared.record_log, Shared.record_isDone, executed, spliced] using
              calls.isDone
          exits := fun node joined skipped => by
            rcases List.mem_cons.mp skipped with rfl | isOld
            · simp [Event.isNote] at isNote
            · exact calls.exits node joined isOld
          chronological := (chronological_append noCalls).mpr calls.chronological }
  | @fire shared ready frame rest inlineFree effect admitted fired =>
      by_cases isCall : ∃ node, frame = .calling node
      · obtain ⟨node, rfl⟩ := isCall
        cases fired
        exact calls.call sound ledger admitted
      · push Not at isCall
        obtain ⟨-, isDone, ⟨events, log, quiet⟩, -, joining⟩ := Frame.fire_keeps isCall fired
        refine calls.of_quiet log (fun event member => (quiet event member).1)
          (fun node joined skipped => ?_) isDone joining
        exact admitted.skips node ((quiet _ skipped).2 _ rfl) joined

variable {threads : Nat}

theorem calls_of_reachable (sound : graph.Sound) {state : RunState threads}
    (reachable : (graph.machine callables threads).ReachableBy
      (RunState.Proper graph callables) state) (running : 0 < state.runs) :
    Calls graph callables state.load := by
  refine ledger_invariant sound (motive := Calls graph callables)
    (fun load noEvents noFrames => ?_)
    (fun need got load next ledger calls stepped => calls.step sound ledger stepped)
    reachable running
  exact
    { spliced := by simp [noEvents]
      nonempty := by simp [noEvents]
      joining := by simp [noFrames]
      isDone := by simp [noEvents]
      exits := by simp [noEvents]
      chronological := noEvents ▸ trivial }

end Calls

end LightFlow
