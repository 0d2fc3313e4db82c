import LightFlow.Task.Branches

/-!
# Staging and announcing

A walk over a successor list passes each successor that it unblocks to the inline slot or to the
scheduler, and announces the Worker tasks that went to the scheduler.  The other threads may change
everything but the inline slot between two steps of the walk.
-/

namespace LightFlow

/-- A step of a call: the frame, the inline flag and slot of the thread and the shared state that it
fires in, and its effect. -/
structure CallStep where
  frame : Frame
  t_canInlineTask : Bool
  t_nextInlineTask : Option NodeId
  shared : Shared
  effect : Effect

/-- What a step added to the log, newest first. -/
def Shared.added (before after : Shared) : List Event :=
  after.log.take (after.log.length - before.log.length)

theorem Shared.added_eq {before after : Shared} {events : List Event}
    (added : after.log = events ++ before.log) : before.added after = events := by
  rw [Shared.added, added, List.length_append, Nat.add_sub_cancel, List.take_left]

/-- The Worker tasks that were passed to `scheduleNode` with `notify = false`. -/
def unannouncedTasks (store : NodeStore) (events : List Event) : Nat :=
  events.countP fun
    | .scheduled node false => (store node).domain = .worker
    | _ => false

/-- The counts that were passed to `notifyWorker`, together. -/
def announcedTasks (events : List Event) : Nat :=
  (events.filterMap fun
    | .notified count => some count
    | _ => none).sum

namespace CallStep

/-- What the step did, newest first. -/
def events (step : CallStep) : List Event :=
  step.shared.added step.effect.shared

theorem events_eq (step : CallStep) (events : List Event)
    (added : step.effect.shared.log = events ++ step.shared.log) : step.events = events :=
  Shared.added_eq added

/-- The Worker tasks that the step passed on without a notification. -/
def unannounced (step : CallStep) : Nat :=
  unannouncedTasks step.shared.node step.events

/-- The counts that the step passed to `notifyWorker`. -/
def announced (step : CallStep) : Nat :=
  announcedTasks step.events

end CallStep

/-- Steps of one thread inside its calls, with its inline slot: each in the state that the other
threads have left by then. -/
inductive Performs (callables : Callables) :
    List Frame → Option NodeId → List CallStep → List Frame → Option NodeId → Prop where
  | stop (stack : List Frame) (slot : Option NodeId) : Performs callables stack slot [] stack slot
  | step {frame : Frame} {below stack : List Frame} {slot last : Option NodeId}
      {steps : List CallStep} {effect : Effect} (canInline : Bool) (shared : Shared) :
      frame.fire callables (canInline && slot.isNone) shared = some effect →
      Performs callables (effect.frames ++ below) (effect.staged <|> slot) steps stack last →
      Performs callables (frame :: below) slot (⟨frame, canInline, slot, shared, effect⟩ :: steps)
        stack last

/-- The steps of a thread in a run are of this kind. -/
theorem Performs.of_fire {threads : Nat} {callables : Callables} {state next : RunState threads}
    {index : Fin threads} (fired : state.fire callables index = some next) :
    ∃ step, Performs callables (state.thread index).stack (state.thread index).t_nextInlineTask
      [step] (next.thread index).stack (next.thread index).t_nextInlineTask := by
  simp only [RunState.fire] at fired
  split at fired
  next => cases fired
  next frame below isStack =>
    obtain ⟨effect, fires, rfl⟩ := Option.map_eq_some_iff.mp fired
    rw [isStack]
    refine ⟨_, .step _ _ fires ?_⟩
    simp only [RunState.setThread, Function.update_self]
    exact .stop _ _

section Walk

variable {callables : Callables} {node : NodeId} {branch : Option Int}

/-- What the steps of a walk do to the inline slot and the announcements; `count` tasks have still
to be announced. -/
structure WalkLaw (count : Nat) (slot : Option NodeId) (steps : List CallStep)
    (last : Option NodeId) : Prop where
  /-- Nothing is staged over a staged task. -/
  staged : steps.filterMap (·.effect.staged) = if slot.isNone then last.toList else []
  kept : slot ≠ none → last = slot
  /-- Staged tasks are Worker tasks, of a thread that may inline them. -/
  inlined : ∀ step ∈ steps, ∀ succ ∈ step.effect.staged,
    step.t_canInlineTask = true ∧ step.t_nextInlineTask = none ∧
      (step.shared.node succ).domain = .worker
  announced : (steps.map (·.announced)).sum = count + (steps.map (·.unannounced)).sum

/-- The step stages nothing and announces nothing. -/
structure CallStep.Quiet (step : CallStep) : Prop where
  staged : step.effect.staged = none
  announced : step.announced = 0
  unannounced : step.unannounced = 0

/-- Other events are no matter of the announcements. -/
def Event.isQuiet : Event → Bool
  | .scheduled _ false | .notified _ => false
  | _ => true

theorem CallStep.Quiet.of_events {step : CallStep} (events : List Event)
    (added : step.effect.shared.log = events ++ step.shared.log)
    (quiet : ∀ event ∈ events, event.isQuiet = true) (staged : step.effect.staged = none) :
    step.Quiet := by
  have isEvents := CallStep.events_eq step events added
  refine ⟨staged, ?_, ?_⟩
  · rw [CallStep.announced, announcedTasks, isEvents,
      List.filterMap_eq_nil_iff.mpr fun event member => ?_]
    · rfl
    · cases event <;> first | rfl | cases quiet _ member
  · rw [CallStep.unannounced, unannouncedTasks, isEvents, List.countP_eq_zero]
    intro event member isPassed
    split at isPassed
    next => cases quiet _ member
    next => cases isPassed

/-- Cascades schedule nothing without a notification. -/
theorem Frame.Cascades.quiet {frame : Frame} {canInline : Bool} {slot : Option NodeId}
    {shared : Shared} {effect : Effect} (cascades : frame.Cascades)
    (fires : frame.fire callables (canInline && slot.isNone) shared = some effect) :
    CallStep.Quiet ⟨frame, canInline, slot, shared, effect⟩ := by
  cases frame with
  | skipping source =>
      cases fires
      exact .of_events [_] rfl (by simp [Event.isQuiet]) rfl
  | skipped source =>
      cases fires
      exact .of_events [_, _] rfl (by simp [Event.isQuiet]) rfl
  | cascading source todo =>
      cases todo with
      | nil =>
          cases fires
          exact .of_events [] rfl (by simp) rfl
      | cons edge todo =>
          cases fires
          exact .of_events [_] rfl (by simp [Event.isQuiet]) rfl
  | scheduling source =>
      cases fires
      exact .of_events [_] rfl (by simp [Event.isQuiet]) rfl
  | _ => exact cascades.elim

namespace WalkLaw

variable {count : Nat} {slot last : Option NodeId} {steps : List CallStep} {step : CallStep}

theorem stop (slot : Option NodeId) : WalkLaw 0 slot [] slot where
  staged := by cases slot <;> rfl
  kept := fun _ => rfl
  inlined := by simp
  announced := rfl

/-- A step that stages nothing, and announces what it does not leave to be announced. -/
theorem cons {onward : Nat} (law : WalkLaw onward slot steps last)
    (staged : step.effect.staged = none)
    (balance : step.announced + onward = count + step.unannounced) :
    WalkLaw count slot (step :: steps) last where
  staged := by rw [List.filterMap_cons, staged, law.staged]
  kept := law.kept
  inlined := by
    rw [List.forall_mem_cons]
    exact ⟨by simp [staged], law.inlined⟩
  announced := by
    have announced := law.announced
    rw [List.map_cons, List.sum_cons, List.map_cons, List.sum_cons]
    omega

theorem quiet (law : WalkLaw count slot steps last) (quiet : step.Quiet) :
    WalkLaw count slot (step :: steps) last :=
  law.cons quiet.staged (by rw [quiet.announced, quiet.unannounced, Nat.zero_add, Nat.add_zero])

end WalkLaw

/-- The bottom frame of the call, with the tasks that it has to announce. -/
inductive Walking (node : NodeId) (branch : Option Int) : Nat → Frame → Prop where
  | unblocking (todo : List SuccessorEdge) (unblockedCount : Nat) :
      Walking node branch unblockedCount (.unblocking node branch todo unblockedCount)
  | handingOver (succ : NodeId) (todo : List SuccessorEdge) (unblockedCount : Nat) :
      Walking node branch unblockedCount (.handingOver node branch succ todo unblockedCount)
  | finishing : Walking node branch 0 (.finishing node)

namespace Walking

variable {count : Nat} {slot : Option NodeId} {canInline : Bool} {shared : Shared}
  {effect : Effect}

/-- The walk goes on from the frames that a step leaves behind, and what the rest of the walk does
decides what all of it does. -/
def Goes (node : NodeId) (branch : Option Int) (count : Nat) (step : CallStep) : Prop :=
  ∃ above bottom onward, step.effect.frames = above ++ [bottom] ∧
    (∀ other ∈ above, other.Cascades) ∧ Walking node branch onward bottom ∧
    ∀ steps last,
      WalkLaw onward (step.effect.staged <|> step.t_nextInlineTask) steps last →
      WalkLaw count step.t_nextInlineTask (step :: steps) last

/-- A quiet step goes on with the same tasks to announce. -/
theorem Goes.of_quiet {step : CallStep} (above : List Frame) (bottom : Frame)
    (frames : step.effect.frames = above ++ [bottom]) (cascades : ∀ other ∈ above, other.Cascades)
    (walking : Walking node branch count bottom) (quiet : step.Quiet) :
    Goes node branch count step := by
  refine ⟨above, bottom, count, frames, cascades, walking, fun steps last law => ?_⟩
  rw [quiet.staged] at law
  exact law.quiet quiet

/-- The notification after the walk. -/
theorem goes_notify
    (fires : (Frame.unblocking node branch [] count).fire callables (canInline && slot.isNone)
      shared = some effect) :
    Goes node branch count ⟨.unblocking node branch [] count, canInline, slot, shared, effect⟩ := by
  cases fires
  refine ⟨[], _, 0, rfl, List.forall_mem_nil _, .finishing, fun steps last law => law.cons rfl ?_⟩
  by_cases some : 0 < count
  · rw [if_pos some, CallStep.announced, CallStep.unannounced,
      CallStep.events_eq _ [.notified count] rfl]
    simp [announcedTasks, unannouncedTasks]
  · obtain rfl : count = 0 := by omega
    rw [if_neg some, CallStep.announced, CallStep.unannounced, CallStep.events_eq _ [] rfl]
    simp [announcedTasks, unannouncedTasks]

/-- An edge of the list. -/
theorem goes_edge {edge : SuccessorEdge} {todo : List SuccessorEdge}
    (fires : (Frame.unblocking node branch (edge :: todo) count).fire callables
      (canInline && slot.isNone) shared = some effect) :
    Goes node branch count
      ⟨.unblocking node branch (edge :: todo) count, canInline, slot, shared, effect⟩ := by
  by_cases taken : takes branch edge = true
  · simp only [Frame.fire, taken, ↓reduceIte, Option.some.injEq] at fires
    have quiet : CallStep.Quiet
        ⟨.unblocking node branch (edge :: todo) count, canInline, slot, shared, effect⟩ := by
      subst fires
      exact .of_events [_] rfl (by simp [Event.isQuiet]) rfl
    subst fires
    cases unblocked : (decrementActive (shared.node edge.target).inDegree).2 with
    | true =>
        exact .of_quiet [] _ (by simp [unblockActive, unblocked]) (List.forall_mem_nil _)
          (.handingOver edge.target todo count) quiet
    | false =>
        exact .of_quiet [] _ (by simp [unblockActive, unblocked]) (List.forall_mem_nil _)
          (.unblocking todo count) quiet
  · simp only [Frame.fire, if_neg taken] at fires
    by_cases isLoopBack : edge.isLoopBack = true
    · rw [if_pos isLoopBack] at fires
      cases fires
      exact .of_quiet [] _ rfl (List.forall_mem_nil _) (.unblocking todo count)
        (.of_events [] rfl (by simp) rfl)
    · rw [if_neg isLoopBack] at fires
      cases fires
      have quiet : CallStep.Quiet
          ⟨.unblocking node branch (edge :: todo) count, canInline, slot, shared,
            unblockSkipped shared node edge.target [.unblocking node branch todo count]⟩ :=
        .of_events [.decremented node edge.target false] rfl (by simp [Event.isQuiet]) rfl
      cases resolution : (decrementSkipped (shared.node edge.target).inDegree).2 with
      | pending =>
          exact .of_quiet [] _ (by simp [unblockSkipped, resolution]) (List.forall_mem_nil _)
            (.unblocking todo count) quiet
      | run =>
          exact .of_quiet [.scheduling edge.target] _ (by simp [unblockSkipped, resolution])
            (by simp [Frame.Cascades]) (.unblocking todo count) quiet
      | skip =>
          exact .of_quiet [.skipping edge.target] _ (by simp [unblockSkipped, resolution])
            (by simp [Frame.Cascades]) (.unblocking todo count) quiet

/-- A successor that was unblocked is handed over. -/
theorem goes_handOver {succ : NodeId} {todo : List SuccessorEdge}
    (fires : (Frame.handingOver node branch succ todo count).fire callables
      (canInline && slot.isNone) shared = some effect) :
    Goes node branch count
      ⟨.handingOver node branch succ todo count, canInline, slot, shared, effect⟩ := by
  obtain rfl : handOver shared (canInline && slot.isNone) node branch succ todo count = effect := by
    cases fires
    rfl
  by_cases inlines : ((canInline && slot.isNone) && (shared.node succ).domain = .worker) = true
  · -- the successor is staged in the empty slot
    have effect : handOver shared (canInline && slot.isNone) node branch succ todo count =
        { shared, frames := [.unblocking node branch todo count], staged := some succ } := by
      rw [handOver, if_pos inlines]
    rw [effect]
    simp only [Bool.and_eq_true, Option.isNone_iff_eq_none, decide_eq_true_eq] at inlines
    obtain ⟨⟨may, rfl⟩, isWorker⟩ := inlines
    refine ⟨[], _, count, rfl, List.forall_mem_nil _, .unblocking todo count,
      fun steps last law => ?_⟩
    change WalkLaw count (some succ) steps last at law
    have events := CallStep.events_eq
      ⟨.handingOver node branch succ todo count, canInline, none, shared,
        { shared, frames := [.unblocking node branch todo count], staged := some succ }⟩ [] rfl
    refine ⟨?_, fun taken => absurd rfl taken, ?_, ?_⟩
    · rw [List.filterMap_cons, law.staged, law.kept (by simp)]
      simp
    · rw [List.forall_mem_cons]
      refine ⟨fun other isStaged => ?_, law.inlined⟩
      obtain rfl : succ = other := by simpa using isStaged
      exact ⟨may, rfl, isWorker⟩
    · rw [List.map_cons, List.sum_cons, law.announced, List.map_cons, List.sum_cons,
        CallStep.announced, CallStep.unannounced, events]
      simp [announcedTasks, unannouncedTasks]
  · by_cases isWorker : (shared.node succ).domain = .worker
    · by_cases full : 64 ≤ count + 1
      · -- 64 tasks are announced together
        have effect : handOver shared (canInline && slot.isNone) node branch succ todo count =
            { shared := (shared.record (.scheduled succ false)).record (.notified (count + 1))
              frames := [.unblocking node branch todo 0]
              queued := [succ] } := by
          rw [handOver, if_neg inlines, if_pos isWorker, if_pos full]
        rw [effect]
        refine ⟨[], _, 0, rfl, List.forall_mem_nil _, .unblocking todo 0,
          fun steps last law => law.cons rfl ?_⟩
        rw [CallStep.announced, CallStep.unannounced,
          CallStep.events_eq _ [.notified (count + 1), .scheduled succ false] rfl]
        simp [announcedTasks, unannouncedTasks, isWorker]
      · have effect : handOver shared (canInline && slot.isNone) node branch succ todo count =
            { shared := shared.record (.scheduled succ false)
              frames := [.unblocking node branch todo (count + 1)]
              queued := [succ] } := by
          rw [handOver, if_neg inlines, if_pos isWorker, if_neg full]
        rw [effect]
        refine ⟨[], _, count + 1, rfl, List.forall_mem_nil _, .unblocking todo (count + 1),
          fun steps last law => law.cons rfl ?_⟩
        rw [CallStep.announced, CallStep.unannounced,
          CallStep.events_eq _ [.scheduled succ false] rfl]
        simp [announcedTasks, unannouncedTasks, isWorker]
    · -- tasks of other domains are not announced
      have effect : handOver shared (canInline && slot.isNone) node branch succ todo count =
          { shared := shared.record (.scheduled succ false)
            frames := [.unblocking node branch todo count]
            queued := [succ] } := by
        rw [handOver, if_neg inlines, if_neg isWorker]
      rw [effect]
      refine ⟨[], _, count, rfl, List.forall_mem_nil _, .unblocking todo count,
        fun steps last law => law.cons rfl ?_⟩
      rw [CallStep.announced, CallStep.unannounced,
        CallStep.events_eq _ [.scheduled succ false] rfl]
      simp [announcedTasks, unannouncedTasks, isWorker]

/-- A step of the call. -/
theorem goes {frame : Frame} (walking : Walking node branch count frame)
    (fires : frame.fire callables (canInline && slot.isNone) shared = some effect)
    (unfinished : frame ≠ .finishing node) :
    Goes node branch count ⟨frame, canInline, slot, shared, effect⟩ := by
  cases walking with
  | unblocking todo =>
      cases todo with
      | nil => exact goes_notify fires
      | cons edge todo => exact goes_edge fires
  | handingOver => exact goes_handOver fires
  | finishing => exact absurd rfl unfinished

end Walking

theorem WalkLaw.of_performs {stack final : List Frame} {slot last : Option NodeId}
    {steps : List CallStep} (performs : Performs callables stack slot steps final last) :
    ∀ {count : Nat} {above : List Frame} {bottom : Frame},
      stack = above ++ [bottom] → final = [.finishing node] →
      (∀ other ∈ above, other.Cascades) → Walking node branch count bottom →
      WalkLaw count slot steps last := by
  induction performs with
  | stop stack slot =>
      rintro count above bottom rfl finished cascades walking
      obtain ⟨rfl, rfl⟩ : above = [] ∧ bottom = .finishing node := by
        cases above with
        | nil => exact ⟨rfl, List.head_eq_of_cons_eq finished⟩
        | cons frame above => simp at finished
      cases walking
      exact .stop slot
  | @step frame below stack slot last steps effect canInline shared fires onward ih =>
      rintro count above bottom equal finished cascades walking
      cases above with
      | nil =>
          obtain ⟨rfl, rfl⟩ := List.cons.inj equal
          have unfinished : frame ≠ .finishing node := by
            rintro rfl
            cases fires
            subst finished
            cases onward
          obtain ⟨above, bottom, left, frames, cascades, onward, law⟩ :=
            walking.goes fires unfinished
          exact law steps last (ih (by rw [List.append_nil]; exact frames) finished cascades onward)
      | cons other above =>
          obtain ⟨rfl, rfl⟩ := List.cons.inj equal
          have isCascade := cascades frame List.mem_cons_self
          have quiet : CallStep.Quiet _ := isCascade.quiet fires
          have law := @ih count (effect.frames ++ above) bottom
            (List.append_assoc _ _ _).symm finished (fun next member => by
              rcases List.mem_append.mp member with new | old
              · exact isCascade.fire fires next new
              · exact cascades next (List.mem_cons_of_mem _ old)) walking
          rw [show effect.staged = none from quiet.staged] at law
          exact law.quiet quiet

end Walk

/-! ## A whole call -/

/-- At most one task is staged, a Worker task of a thread that may inline it and whose slot is
empty; and the Worker tasks that were passed on without a notification are announced. -/
structure Announces (slot : Option NodeId) (steps : List CallStep) (last : Option NodeId) :
    Prop where
  stagedOnce : (steps.filterMap (·.effect.staged)).length ≤ 1
  inlined : ∀ step ∈ steps, ∀ succ ∈ step.effect.staged,
    step.t_canInlineTask = true ∧ step.t_nextInlineTask = none ∧
      (step.shared.node succ).domain = .worker
  kept : slot ≠ none → last = slot
  announced : (steps.map (·.announced)).sum = (steps.map (·.unannounced)).sum

theorem WalkLaw.announces {slot last : Option NodeId} {steps : List CallStep}
    (law : WalkLaw 0 slot steps last) : Announces slot steps last where
  stagedOnce := by
    rw [law.staged]
    split
    · cases last <;> simp
    · exact Nat.zero_le 1
  inlined := law.inlined
  kept := law.kept
  announced := by rw [law.announced, Nat.zero_add]

/-- Every walk over a successor list announces what it passes on, whatever the other threads do. -/
theorem Performs.announces {callables : Callables} {node : NodeId} {branch : Option Int}
    {edges : List SuccessorEdge} {slot last : Option NodeId} {steps : List CallStep}
    (performs : Performs callables [.unblocking node branch edges 0] slot steps [.finishing node]
      last) : Announces slot steps last :=
  (WalkLaw.of_performs performs (List.nil_append _).symm rfl (List.forall_mem_nil _)
    (.unblocking edges 0)).announces

/-! ## The roots of a run -/

section Roots

variable {threads : Nat}

/-- The loop of `prepareRun` that schedules the roots, with the notification after it: each pass in
the state that the threads have left by then, and the state after it. -/
inductive Dispatches :
    List NodeId → Nat → List (RunState threads × RunState threads) → Prop where
  | last {state next : RunState threads} {rootWorkerCount : Nat} :
      state.preparing = some ([], rootWorkerCount) → state.dispatchRoot = some next →
      Dispatches [] rootWorkerCount [(state, next)]
  | pass {state next : RunState threads} {root : NodeId} {roots left : List NodeId}
      {rootWorkerCount leftCount : Nat} {steps : List (RunState threads × RunState threads)} :
      state.preparing = some (root :: roots, rootWorkerCount) → state.dispatchRoot = some next →
      next.preparing = some (left, leftCount) → Dispatches left leftCount steps →
      Dispatches (root :: roots) rootWorkerCount ((state, next) :: steps)

/-- What a pass of the loop did, newest first. -/
def passEvents (pass : RunState threads × RunState threads) : List Event :=
  pass.1.shared.added pass.2.shared

/-- The Worker roots that a pass scheduled without a notification. -/
def passUnannounced (pass : RunState threads × RunState threads) : Nat :=
  unannouncedTasks pass.1.shared.node (passEvents pass)

/-- The roots are scheduled in their order, and the Worker roots among them are announced. -/
structure RootsAnnounced (roots : List NodeId) (rootWorkerCount : Nat)
    (steps : List (RunState threads × RunState threads)) : Prop where
  scheduled : (steps.flatMap passEvents).filterMap (fun
    | .scheduled node false => some node
    | _ => none) = roots
  announced : (steps.map fun pass => announcedTasks (passEvents pass)).sum =
    rootWorkerCount + (steps.map passUnannounced).sum

theorem RootsAnnounced.cons {roots : List NodeId} {root : NodeId} {rootWorkerCount leftCount : Nat}
    {pass : RunState threads × RunState threads}
    {steps : List (RunState threads × RunState threads)} (events : List Event)
    (law : RootsAnnounced roots leftCount steps)
    (added : pass.2.shared.log = events ++ pass.1.shared.log)
    (scheduled : events.filterMap (fun
      | .scheduled node false => some node
      | _ => none) = [root])
    (balance : announcedTasks events + leftCount =
      rootWorkerCount + unannouncedTasks pass.1.shared.node events) :
    RootsAnnounced (root :: roots) rootWorkerCount (pass :: steps) := by
  have isEvents : passEvents pass = events := Shared.added_eq added
  have announced := law.announced
  refine ⟨?_, ?_⟩
  · rw [List.flatMap_cons, List.filterMap_append, isEvents, scheduled, law.scheduled]
    rfl
  · rw [List.map_cons, List.sum_cons, List.map_cons, List.sum_cons, passUnannounced, isEvents]
    omega

theorem Dispatches.announced {roots : List NodeId} {rootWorkerCount : Nat}
    {steps : List (RunState threads × RunState threads)}
    (dispatches : Dispatches roots rootWorkerCount steps) :
    RootsAnnounced roots rootWorkerCount steps := by
  induction dispatches with
  | @last state next rootWorkerCount preparing dispatched =>
      simp only [RunState.dispatchRoot, preparing, Option.some.injEq] at dispatched
      by_cases some : 0 < rootWorkerCount
      · have events : passEvents (state, next) = [.notified rootWorkerCount] :=
          Shared.added_eq (by rw [← dispatched, if_pos some]; rfl)
        exact ⟨by simp [events],
          by simp [passUnannounced, events, announcedTasks, unannouncedTasks]⟩
      · have events : passEvents (state, next) = [] :=
          Shared.added_eq (by rw [← dispatched, if_neg some]; rfl)
        obtain rfl : rootWorkerCount = 0 := by omega
        exact ⟨by simp [events],
          by simp [passUnannounced, events, announcedTasks, unannouncedTasks]⟩
  | @pass state next root roots left rootWorkerCount leftCount steps preparing dispatched onward _
    ih =>
      simp only [RunState.dispatchRoot, preparing, Option.some.injEq] at dispatched
      subst dispatched
      simp only [Option.some.injEq, Prod.mk.injEq] at onward
      obtain ⟨rfl, rfl⟩ := onward
      by_cases isWorker : (state.shared.node root).domain = .worker
      · by_cases full : 64 ≤ rootWorkerCount + 1
        · refine ih.cons [.notified (rootWorkerCount + 1), .scheduled root false] ?_ rfl ?_
          · simp [isWorker, full]
          · simp [isWorker, full, announcedTasks, unannouncedTasks]
        · refine ih.cons [.scheduled root false] ?_ rfl ?_
          · simp [isWorker, full]
          · simp [isWorker, full, announcedTasks, unannouncedTasks]
      · refine ih.cons [.scheduled root false] ?_ rfl ?_
        · simp [isWorker]
        · simp [isWorker, announcedTasks, unannouncedTasks]

end Roots

end LightFlow
