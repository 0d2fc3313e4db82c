import LightFlow.Gpu.Claims
import LightFlow.Lib.Segment

/-!
# Which signals reach a wait point

A call of `notifyTimelineAdvanced` looks at the wait nodes that are linked when it loads
`m_head`, and nothing remembers it for a node that is linked later.
-/

namespace LightFlow

/-- The call notifies, rather than polls or looks for timeouts. -/
def Sweep.isNotification : Sweep → Bool
  | .notifyTimelineAdvanced _ _ => true
  | _ => false

/-- `next` pointers of the wait nodes. -/
abbrev TimelineReactor.next (reactor : TimelineReactor) (node : WaitId) : Option WaitId :=
  (reactor.wait node).nextInReactor

namespace ReactorCall

/-- The sweep a call performs. -/
def sweep : ReactorCall → Option Sweep
  | .testing sweep | .entering sweep _ | .visiting sweep _ _ _ | .claiming sweep _ _ _
  | .releasing sweep _ _ _ | .calling sweep _ _ _ => some sweep
  | .flagging _ _ => some .checkTimeouts
  | _ => none

/-- Where a sweep is in its loop. -/
def position : ReactorCall → Option (Sweep × Option WaitId)
  | .visiting sweep _ curr _ => some (sweep, curr)
  | .claiming sweep _ curr _ | .releasing sweep _ curr _ | .calling sweep _ curr _ =>
      some (sweep, some curr)
  | .flagging _ curr => some (.checkTimeouts, some curr)
  | _ => none

end ReactorCall

/-- A sweep loaded `m_head` after the node was linked. -/
def EnteredAfter (sweep : Sweep) (node : WaitId) (log : List ReactorEvent) : Prop :=
  ∃ newer older, log = newer ++ .entered sweep :: older ∧ .linked node ∈ older

namespace EnteredAfter

variable {sweep : Sweep} {node : WaitId} {log : List ReactorEvent}

theorem cons_iff {event : ReactorEvent} :
    EnteredAfter sweep node (event :: log) ↔
      (event = .entered sweep ∧ .linked node ∈ log) ∨ EnteredAfter sweep node log := by
  constructor
  · rintro ⟨newer, older, split, linked⟩
    cases newer with
    | nil =>
        cases split
        exact .inl ⟨rfl, linked⟩
    | cons head newer =>
        cases split
        exact .inr ⟨newer, older, rfl, linked⟩
  · rintro (⟨rfl, linked⟩ | ⟨newer, older, rfl, linked⟩)
    · exact ⟨[], log, rfl, linked⟩
    · exact ⟨event :: newer, older, rfl, linked⟩

theorem append (entered : EnteredAfter sweep node log) (events : List ReactorEvent) :
    EnteredAfter sweep node (events ++ log) := by
  obtain ⟨newer, older, rfl, linked⟩ := entered
  exact ⟨events ++ newer, older, by simp, linked⟩

theorem linked (entered : EnteredAfter sweep node log) : .linked node ∈ log := by
  obtain ⟨newer, older, rfl, linked⟩ := entered
  exact List.mem_append_right _ (List.mem_cons_of_mem _ linked)

end EnteredAfter

/-- What holds when only notifications go through the list. -/
structure SignalLaw (state : ReactorState) (pool : Multiset ReactorCall) : Prop
    extends ReactorCount state pool where
  chain : Segment state.reactor.next state.reactor.m_head (linkedNodes state.log)
  notifies : ∀ call ∈ pool, ∀ sweep ∈ call.sweep, sweep.isNotification = true
  real : ∀ node cause, .claimed node cause ∈ state.log → cause.isExpired = false
  /-- A sweep goes through nodes that were linked when it began. -/
  ahead : ∀ call ∈ pool, ∀ sweep start, call.position = some (sweep, start) →
    ∃ nodes, Segment state.reactor.next start nodes ∧
      ∀ node ∈ nodes, EnteredAfter sweep node state.log
  /-- A sweep that must find a node has found it or will. -/
  caught : ∀ handle completedValue node,
    EnteredAfter (.notifyTimelineAdvanced handle completedValue) node state.log →
    (Cause.notified handle completedValue).Justifies (state.reactor.wait node) →
    (state.reactor.wait node).satisfied = true ∨
      ∃ call ∈ pool, ∃ start nodes,
        call.position = some (.notifyTimelineAdvanced handle completedValue, start) ∧
        Segment state.reactor.next start nodes ∧ node ∈ nodes
  /-- A node was found by a sweep that began after it was linked. -/
  found : ∀ node, (state.reactor.wait node).satisfied = true → ∃ handle completedValue,
    EnteredAfter (.notifyTimelineAdvanced handle completedValue) node state.log ∧
      (Cause.notified handle completedValue).Justifies (state.reactor.wait node)

namespace SignalLaw

variable {state : ReactorState} {call : ReactorCall} {effect : ReactorEffect}
  {rest pool : Multiset ReactorCall}

/-- Pointers of linked nodes are final. -/
theorem next_kept (law : ReactorCount state (call ::ₘ rest))
    (step : ReactorStep state.reactor call effect) {node : WaitId}
    (linked : .linked node ∈ state.log) : effect.reactor.next node = state.reactor.next node := by
  cases step
  case link other | retry other _ =>
    have different : node ≠ other := by
      rintro rfl
      exact law.not_linked (Multiset.mem_cons_self ..) (if_pos rfl) linked
    simp [TimelineReactor.next, TimelineReactor.setWait, different]
  case claim curr _ _ _ _ _ _ =>
    simp only [TimelineReactor.next, TimelineReactor.setWait, Function.update_apply]
    split
    next isCurr => rw [isCurr]
    next => rfl
  all_goals rfl

/-- A call that has claimed a node holds a satisfied one. -/
theorem satisfied_of_holds (law : ReactorCount state pool) (member : call ∈ pool)
    {expired : Bool} {node : WaitId} (holds : call.holds expired node = 1) :
    (state.reactor.wait node).satisfied = true := by
  have counted : call.holds expired node ≤ (pool.map (ReactorCall.holds expired node)).sum :=
    Multiset.single_le_sum (fun _ _ => Nat.zero_le _) _ (Multiset.mem_map_of_mem _ member)
  have told := law.told expired node
  have claimed := law.claimed node
  by_contra free
  rw [if_neg free] at claimed
  cases expired <;> omega

/-- How a call moves through the list. -/
theorem position_step (law : ReactorCount state (call ::ₘ rest))
    (step : ReactorStep state.reactor call effect) :
    (effect.call.position = none ∧ ∀ sweep start, call.position = some (sweep, start) →
        start = none) ∨
      effect.call.position = call.position ∨
      (∃ sweep, call.position = none ∧
        effect.call.position = some (sweep, state.reactor.m_head) ∧
        effect.events = [.entered sweep]) ∨
      ∃ sweep curr, call.position = some (sweep, some curr) ∧
        effect.call.position = some (sweep, state.reactor.next curr) ∧
        ((state.reactor.wait curr).satisfied = true ∨
          ∀ handle completedValue, sweep = .notifyTimelineAdvanced handle completedValue →
            ¬ (Cause.notified handle completedValue).Justifies (state.reactor.wait curr)) := by
  cases step
  case enter sweep now => exact .inr (.inr (.inl ⟨sweep, rfl, rfl, rfl⟩))
  case leave sweep now result =>
    refine .inl ⟨rfl, fun _ _ same => ?_⟩
    cases same
    rfl
  case skip sweep now curr result passed here =>
    refine .inr (.inr (.inr ⟨sweep, curr, ?_, rfl, passed⟩))
    rcases here with rfl | rfl <;> rfl
  case claim here =>
    refine .inr (.inl ?_)
    rcases here with rfl | rfl <;> rfl
  case drop | decrement | timeOut =>
    refine .inr (.inr (.inr ⟨_, _, rfl, rfl, .inl ?_⟩))
    exact satisfied_of_holds law (Multiset.mem_cons_self ..) (if_pos ⟨rfl, rfl⟩)
  case attempt | release | giveUp | flag => exact .inr (.inl rfl)
  all_goals exact .inl ⟨rfl, nofun⟩

/-- Only a call that loads `m_head` enters. -/
theorem entered_step (step : ReactorStep state.reactor call effect) {sweep : Sweep}
    {node : WaitId} (entered : EnteredAfter sweep node (effect.events ++ state.log)) :
    EnteredAfter sweep node state.log ∨
      (effect.call.position = some (sweep, state.reactor.m_head) ∧ .linked node ∈ state.log) := by
  cases step
  case enter =>
    rcases EnteredAfter.cons_iff.mp entered with ⟨isSweep, linked⟩ | before
    · cases isSweep
      exact .inr ⟨rfl, linked⟩
    · exact .inl before
  case request | link | count | empty | leave | claim | decrement | timeOut =>
    rcases EnteredAfter.cons_iff.mp entered with ⟨isSweep, -⟩ | before
    · cases isSweep
    · exact .inl before
  all_goals exact .inl entered

theorem chain_step (law : SignalLaw state (call ::ₘ rest))
    (step : ReactorStep state.reactor call effect) :
    Segment effect.reactor.next effect.reactor.m_head
      (linkedNodes (effect.events ++ state.log)) := by
  have kept : Segment effect.reactor.next state.reactor.m_head (linkedNodes state.log) :=
    law.chain.congr fun node member =>
      next_kept law.toReactorCount step (mem_linkedNodes.mp member)
  cases step
  case link node =>
    refine .cons ?_
    simp only [TimelineReactor.next, TimelineReactor.setWait, Function.update_self]
    exact kept
  all_goals exact kept

/-- The list ahead of a call stays when pointers of unlinked nodes change. -/
theorem segment_kept (law : ReactorCount state (call ::ₘ rest))
    (step : ReactorStep state.reactor call effect) {start : Option WaitId} {nodes : List WaitId}
    (segment : Segment state.reactor.next start nodes)
    (linked : ∀ node ∈ nodes, .linked node ∈ state.log) :
    Segment effect.reactor.next start nodes :=
  segment.congr fun node member => next_kept law step (linked node member)

theorem ahead_step (law : SignalLaw state (call ::ₘ rest))
    (step : ReactorStep state.reactor call effect) (other : ReactorCall)
    (member : other ∈ effect.call ::ₘ rest) (sweep : Sweep) (start : Option WaitId)
    (positioned : other.position = some (sweep, start)) :
    ∃ nodes, Segment effect.reactor.next start nodes ∧
      ∀ node ∈ nodes, EnteredAfter sweep node (effect.events ++ state.log) := by
  have kept {start : Option WaitId} {nodes : List WaitId}
      (segment : Segment state.reactor.next start nodes)
      (entered : ∀ node ∈ nodes, EnteredAfter sweep node state.log) :
      ∃ nodes, Segment effect.reactor.next start nodes ∧
        ∀ node ∈ nodes, EnteredAfter sweep node (effect.events ++ state.log) :=
    ⟨nodes, segment_kept law.toReactorCount step segment fun node isAhead =>
      (entered node isAhead).linked, fun node isAhead => (entered node isAhead).append _⟩
  rcases Multiset.mem_cons.mp member with rfl | isOther
  · rcases position_step law.toReactorCount step with
      ⟨gone, -⟩ | same | ⟨_, -, entering, isEntered⟩ | ⟨_, curr, before, after, -⟩
    · cases gone.symm.trans positioned
    · obtain ⟨nodes, segment, entered⟩ :=
        law.ahead call (Multiset.mem_cons_self ..) sweep start (same ▸ positioned)
      exact kept segment entered
    · cases entering.symm.trans positioned
      refine ⟨linkedNodes state.log, segment_kept law.toReactorCount step law.chain
        fun node isLinked => mem_linkedNodes.mp isLinked, fun node isLinked => ?_⟩
      rw [isEntered]
      exact EnteredAfter.cons_iff.mpr (.inl ⟨rfl, mem_linkedNodes.mp isLinked⟩)
    · cases after.symm.trans positioned
      obtain ⟨nodes, segment, entered⟩ :=
        law.ahead call (Multiset.mem_cons_self ..) sweep (some curr) before
      obtain ⟨behind, rfl, tail⟩ := segment.of_some
      exact kept tail fun node isBehind => entered node (List.mem_cons_of_mem _ isBehind)
  · obtain ⟨nodes, segment, entered⟩ :=
      law.ahead other (Multiset.mem_cons_of_mem isOther) sweep start positioned
    exact kept segment entered

/-- A claimed node stays claimed. -/
theorem satisfied_kept {reactor : TimelineReactor} (step : ReactorStep reactor call effect)
    {node : WaitId} (satisfied : (reactor.wait node).satisfied = true) :
    (effect.reactor.wait node).satisfied = true := by
  cases step
  case link other | retry other _ =>
    -- only `next` of the new node is written
    simp only [TimelineReactor.setWait, Function.update_apply]
    split
    next isOther => exact isOther ▸ satisfied
    next => exact satisfied
  case claim other _ _ _ _ _ _ =>
    simp only [TimelineReactor.setWait, Function.update_apply]
    split
    next => rfl
    next => exact satisfied
  all_goals exact satisfied

theorem caught_step (law : SignalLaw state (call ::ₘ rest))
    (step : ReactorStep state.reactor call effect) (handle completedValue : Nat) (node : WaitId)
    (entered : EnteredAfter (.notifyTimelineAdvanced handle completedValue) node
      (effect.events ++ state.log))
    (justifies : (Cause.notified handle completedValue).Justifies (effect.reactor.wait node)) :
    (effect.reactor.wait node).satisfied = true ∨
      ∃ other ∈ effect.call ::ₘ rest, ∃ start nodes,
        other.position = some (.notifyTimelineAdvanced handle completedValue, start) ∧
        Segment effect.reactor.next start nodes ∧ node ∈ nodes := by
  have justified : (Cause.notified handle completedValue).Justifies (state.reactor.wait node) := by
    simpa [Cause.Justifies, (ReactorLaw.wait_step step node).2] using justifies
  have count := law.toReactorCount
  have linked {other : ReactorCall} (member : other ∈ call ::ₘ rest) {start : Option WaitId}
      {nodes : List WaitId}
      (positioned : other.position = some (.notifyTimelineAdvanced handle completedValue, start))
      (segment : Segment state.reactor.next start nodes) :
      ∀ node ∈ nodes, .linked node ∈ state.log := by
    obtain ⟨same, isSame, wereEntered⟩ := law.ahead other member _ start positioned
    cases segment.unique isSame
    exact fun node isAhead => (wereEntered node isAhead).linked
  rcases entered_step step entered with before | ⟨entering, isLinked⟩
  · rcases law.caught handle completedValue node before justified with
      satisfied | ⟨other, member, start, nodes, positioned, segment, isAhead⟩
    · exact .inl (satisfied_kept step satisfied)
    · have kept := segment_kept count step segment (linked member positioned segment)
      rcases Multiset.mem_cons.mp member with rfl | isOther
      · rcases position_step count step with
          ⟨-, ended⟩ | same | ⟨_, nowhere, -, -⟩ | ⟨_, curr, here, after, passed⟩
        · cases ended _ _ positioned
          cases segment
          cases isAhead
        · exact .inr ⟨_, Multiset.mem_cons_self .., start, nodes, same.trans positioned, kept,
          isAhead⟩
        · cases nowhere.symm.trans positioned
        · cases here.symm.trans positioned
          obtain ⟨behind, rfl, tail⟩ := segment.of_some
          rcases List.mem_cons.mp isAhead with rfl | isBehind
          · refine .inl (satisfied_kept step ?_)
            exact passed.resolve_right fun notReached => notReached _ _ rfl justified
          · refine .inr ⟨_, Multiset.mem_cons_self .., _, behind, after, ?_, isBehind⟩
            exact segment_kept count step tail fun other member =>
              linked (Multiset.mem_cons_self ..) here segment other (List.mem_cons_of_mem _ member)
      · exact .inr ⟨other, Multiset.mem_cons_of_mem isOther, start, nodes, positioned, kept,
        isAhead⟩
  · refine .inr ⟨_, Multiset.mem_cons_self .., _, linkedNodes state.log, entering, ?_,
      mem_linkedNodes.mpr isLinked⟩
    exact segment_kept count step law.chain fun node member => mem_linkedNodes.mp member

theorem found_step (law : SignalLaw state (call ::ₘ rest))
    (step : ReactorStep state.reactor call effect) (node : WaitId)
    (satisfied : (effect.reactor.wait node).satisfied = true) :
    ∃ handle completedValue,
      EnteredAfter (.notifyTimelineAdvanced handle completedValue) node
        (effect.events ++ state.log) ∧
      (Cause.notified handle completedValue).Justifies (effect.reactor.wait node) := by
  have found : ∃ handle completedValue,
      EnteredAfter (.notifyTimelineAdvanced handle completedValue) node state.log ∧
      (Cause.notified handle completedValue).Justifies (state.reactor.wait node) := by
    by_cases before : (state.reactor.wait node).satisfied = true
    · exact law.found node before
    · have notifies := law.notifies call (Multiset.mem_cons_self ..)
      have ahead := law.ahead call (Multiset.mem_cons_self ..)
      cases step
      case claim sweep _ curr _ cause _ justified causes here =>
        have isCurr : node = curr := by
          by_contra different
          exact before (by simpa [TimelineReactor.setWait, different] using satisfied)
        subst isCurr
        have position : call.position = some (sweep, some node) := by
          rcases here with rfl | rfl <;> rfl
        obtain ⟨nodes, segment, entered⟩ := ahead sweep (some node) position
        obtain ⟨behind, rfl, -⟩ := segment.of_some
        have isNotification := notifies sweep (by rcases here with rfl | rfl <;> rfl)
        cases sweep <;> cases isNotification
        cases causes
        exact ⟨_, _, entered node (List.mem_cons_self ..), justified rfl⟩
      case link other | retry other _ =>
        refine absurd ?_ before
        simp only [TimelineReactor.setWait, Function.update_apply] at satisfied
        split at satisfied
        next isOther => exact isOther ▸ satisfied
        next => exact satisfied
      all_goals exact absurd satisfied before
  obtain ⟨handle, completedValue, entered, justifies⟩ := found
  exact ⟨handle, completedValue, entered.append _, ReactorLaw.justifies_step step rfl justifies⟩

theorem real_step (law : SignalLaw state (call ::ₘ rest))
    (step : ReactorStep state.reactor call effect) (node : WaitId) (cause : Cause)
    (member : .claimed node cause ∈ effect.events ++ state.log) : cause.isExpired = false := by
  rcases List.mem_append.mp member with isNew | isOld
  · have notifies := law.notifies call (Multiset.mem_cons_self ..)
    cases step <;> simp only [List.mem_singleton, List.not_mem_nil, reduceCtorEq] at isNew
    case claim sweep _ _ _ _ _ _ causes here =>
      cases isNew
      have isNotification := notifies sweep (by rcases here with rfl | rfl <;> rfl)
      cases sweep <;> cases isNotification
      cases causes
      rfl
  · exact law.real node cause isOld

/-- A call performs the sweep it was begun with. -/
theorem sweep_step {reactor : TimelineReactor} (step : ReactorStep reactor call effect)
    {sweep : Sweep} (performs : sweep ∈ effect.call.sweep) :
    effect.call = .testing sweep ∨ sweep ∈ call.sweep := by
  cases step
  case begin =>
    cases performs
    exact .inl rfl
  case skip here | claim here =>
    refine .inr ?_
    rcases here with rfl | rfl <;> exact performs
  case request | load | link | retry | count | empty | leave => cases performs
  all_goals exact .inr performs

/-- A step that begins no other sweep than a notification keeps the laws. -/
theorem step (law : SignalLaw state (call ::ₘ rest))
    (step : ReactorStep state.reactor call effect)
    (allowed : ∀ node, .requested node ∈ effect.events →
      .requested node ∉ state.log ∧ (state.reactor.wait node).task ≠ none)
    (announces : ∀ sweep, effect.call = .testing sweep → sweep.isNotification = true) :
    SignalLaw { reactor := effect.reactor, log := effect.events ++ state.log }
      (effect.call ::ₘ rest) where
  toReactorCount := law.toReactorCount.step step allowed
  chain := law.chain_step step
  notifies := by
    intro other member sweep performs
    rcases Multiset.mem_cons.mp member with rfl | isOther
    · rcases sweep_step step performs with begun | before
      · exact announces sweep begun
      · exact law.notifies call (Multiset.mem_cons_self ..) sweep before
    · exact law.notifies other (Multiset.mem_cons_of_mem isOther) sweep performs
  real := law.real_step step
  ahead := law.ahead_step step
  caught := law.caught_step step
  found := law.found_step step

theorem fresh (isFresh : state.Fresh) (isIdle : ∀ call ∈ pool, call = .idle) :
    SignalLaw state pool where
  toReactorCount := .fresh isFresh isIdle
  chain := by
    rw [isFresh.1, isFresh.2.2.2]
    exact .nil
  notifies := by
    intro call member sweep performs
    cases isIdle call member
    cases performs
  real := by simp [isFresh.2.2.2]
  ahead := by
    intro call member sweep start positioned
    cases isIdle call member
    cases positioned
  caught := by
    intro _ _ _ entered
    have linked := entered.linked
    simp [isFresh.2.2.2] at linked
  found := by simp [isFresh.2.2.1]

end SignalLaw

/-! ## Every run -/

/-- Nodes are registered once and with a task, and timelines are announced only by
notifications: no device is configured, and no watchdog looks for timeouts. -/
def ReactorState.Announces (state : ReactorState) (call : ReactorCall) (choice : ReactorChoice) :
    Prop :=
  state.RegistersOnce call choice ∧ ∀ sweep, choice = .sweep sweep → sweep.isNotification = true

instance (state : ReactorState) (call : ReactorCall) :
    (choice : ReactorChoice) → Decidable (state.Announces call choice)
  | .registerWait node =>
      decidable_of_iff (state.RegistersOnce call (.registerWait node))
        (by simp [ReactorState.Announces])
  | .go answers => .isTrue ⟨trivial, nofun⟩
  | .sweep sweep =>
      decidable_of_iff (sweep.isNotification = true)
        (by simp [ReactorState.Announces, ReactorState.RegistersOnce])

/-- All calls register or notify. -/
abbrev announcing {threads : Nat} :
    Program.State ReactorState ReactorCall threads →
      Program.Action Empty ReactorChoice threads → Prop :=
  Program.Allowed (fun _ _ => True) ReactorState.Announces

variable {threads : Nat} {state : Program.State ReactorState ReactorCall threads}

theorem signalLaw_of_reachable
    (reachable : (reactorMachine threads).ReachableBy announcing state) :
    SignalLaw state.shared state.pool := by
  refine Program.invariant (fun _ _ => .fresh) (fun _ _ action => nomatch action) ?_ reachable
  intro shared call rest choice next moved law allowed fired
  change shared.fire call choice = some (next, moved) at fired
  obtain ⟨effect, step, rfl, rfl⟩ := ReactorState.step_of_fire fired
  refine law.step step (allowed.1.of_requested fired step) fun sweep begun => ?_
  have idle : call = .idle := by
    cases step <;> cases begun
    rfl
  subst idle
  rw [begun] at fired
  cases choice with
  | registerWait => cases (Prod.mk.inj (Option.some.inj fired)).2
  | sweep other =>
      cases (Prod.mk.inj (Option.some.inj fired)).2
      exact allowed.2 _ rfl
  | go => cases fired

/-- Some notification that reaches the node found waits pending and loaded `m_head` after the
node was linked. -/
def Announced (shared : ReactorState) (node : WaitId) : Prop :=
  ∃ handle completedValue,
    (Cause.notified handle completedValue).Justifies (shared.reactor.wait node) ∧
      EnteredAfter (.notifyTimelineAdvanced handle completedValue) node shared.log

/-- The signal for the node was not lost: its task has received its decrement. -/
def Signalled (shared : ReactorState) (node : WaitId) : Prop :=
  (shared.reactor.wait node).satisfied = true ∧ shared.log.count (.decrementActive node) = 1

instance (shared : ReactorState) (node : WaitId) : Decidable (Signalled shared node) :=
  inferInstanceAs (Decidable (_ ∧ _))

/-- When all calls have returned, the task of a wait node was told exactly if a notification
looked at the list after the node was linked; one that came before, or found no waits pending,
is lost. -/
theorem signalled_iff (reachable : (reactorMachine threads).ReachableBy announcing state)
    (quiet : ∀ index, state.here index = .idle) (node : WaitId) :
    Signalled state.shared node ↔ Announced state.shared node := by
  have law := signalLaw_of_reachable reachable
  constructor
  · rintro ⟨satisfied, -⟩
    obtain ⟨handle, completedValue, entered, justifies⟩ := law.found node satisfied
    exact ⟨handle, completedValue, justifies, entered⟩
  · rintro ⟨handle, completedValue, justifies, entered⟩
    have satisfied : (state.shared.reactor.wait node).satisfied = true := by
      rcases law.caught handle completedValue node entered justifies with
        satisfied | ⟨call, member, start, nodes, positioned, -, -⟩
      · exact satisfied
      · cases Program.State.idle_of_quiet quiet call member
        cases positioned
    have noTimeout : state.shared.log.countP (ReactorEvent.claims true node) = 0 := by
      refine List.countP_eq_zero.mpr fun event member claims => ?_
      cases event <;> simp only [ReactorEvent.claims, Bool.false_eq_true, decide_eq_true_eq]
        at claims
      cases (law.real _ _ member).symm.trans claims.2
    have claimed := law.claimed node
    have told := law.told false node
    rw [Program.sum_idle (Program.State.idle_of_quiet quiet) rfl] at told
    simp only [satisfied, if_true, noTimeout, ReactorEvent.tells, Bool.false_eq_true, if_false]
      at claimed told
    exact ⟨satisfied, by omega⟩

/-! ## A lost signal -/

section Lost

/-- Wait points for the value 3 of the timeline 7. -/
def forThree : TimelineWaitNode :=
  { task := some (.node 0), syncPoint := { handle := 7, value := 3 } }

def freshForThree : Program.State ReactorState ReactorCall 2 where
  shared := { reactor := { wait := fun _ => forThree } }
  here := fun _ => .idle

theorem freshForThree_initial : (reactorMachine 2).initial freshForThree :=
  ⟨⟨rfl, rfl, fun _ => rfl, rfl⟩, fun _ => rfl⟩

/-- One thread registers the node 0, and goes on `before` steps until another has notified
the value 4. -/
def registerAndNotify (before : Nat) : List (Program.Action Empty ReactorChoice 2) :=
  let go (index : Fin 2) (steps : Nat) : List (Program.Action Empty ReactorChoice 2) :=
    List.replicate steps (.thread index (.go {}))
  let calls := [[.thread 0 (.registerWait 0)], go 0 before,
    [.thread 1 (.sweep (.notifyTimelineAdvanced 7 4))]]
  List.flatten (calls ++ if before = 3 then [go 1 6] else [go 1 1, go 0 (3 - before)])

/-- A notification after the registration reaches the node. -/
theorem signalled_iff_after : ∃ state : Program.State ReactorState ReactorCall 2,
    Signalled state.shared 0 ∧ Announced state.shared 0 := by
  obtain ⟨state, reachable, quiet, signalled⟩ : ∃ state,
      (reactorMachine 2).ReachableBy announcing state ∧
        (∀ index, state.here index = .idle) ∧ Signalled state.shared 0 :=
    Machine.ReachableBy.exists_of_run (.start freshForThree_initial) (registerAndNotify 3)
      (by decide +kernel)
  exact ⟨state, signalled, (signalled_iff reachable quiet 0).mp signalled⟩

/-- A notification that finds the node linked but not yet counted is lost, and so is one that
comes before the registration. -/
theorem not_noSignalLost : ¬ ∀ (threads : Nat)
    (state : Program.State ReactorState ReactorCall threads)
    (node : WaitId) (handle completedValue result : Nat),
    (reactorMachine threads).ReachableBy announcing state →
    (∀ index, state.here index = .idle) → .registered node ∈ state.shared.log →
    .returned (.notifyTimelineAdvanced handle completedValue) result ∈ state.shared.log →
    (Cause.notified handle completedValue).Justifies (state.shared.reactor.wait node) →
    Signalled state.shared node := by
  intro noSignalLost
  obtain ⟨state, reachable, quiet, registered, returned, justifies, lost⟩ : ∃ state,
      (reactorMachine 2).ReachableBy announcing state ∧
        (∀ index, state.here index = .idle) ∧ ReactorEvent.registered 0 ∈ state.shared.log ∧
        ReactorEvent.returned (.notifyTimelineAdvanced 7 4) 0 ∈ state.shared.log ∧
        (Cause.notified 7 4).Justifies (state.shared.reactor.wait 0) ∧
        (state.shared.reactor.wait 0).satisfied = false :=
    Machine.ReachableBy.exists_of_run (.start freshForThree_initial) (registerAndNotify 2)
      (by decide +kernel)
  have signalled := noSignalLost 2 state 0 7 4 0 reachable quiet registered returned justifies
  exact absurd signalled.1 (Bool.eq_false_iff.mp lost)

end Lost

end LightFlow
