import LightFlow.Gpu.Reactor

/-!
# Wait points are claimed once

The `satisfied` flag decides who may act on a wait node.  Everything else that calls do with
a node they have claimed is counted: what is still on its way in some call, and what the
history says was done.
-/

namespace LightFlow

/-- The cause justifies claiming the node: the value was reached, or the time is over. -/
def Cause.Justifies (node : TimelineWaitNode) : Cause → Prop
  | .notified handle completedValue =>
      node.syncPoint.handle = handle ∧ node.syncPoint.value ≤ completedValue
  | .polled completed => node.syncPoint.value ≤ completed
  | .expired now => TimelineReactor.expired node now = true

instance (node : TimelineWaitNode) : (cause : Cause) → Decidable (cause.Justifies node)
  | .notified _ _ => inferInstanceAs (Decidable (_ ∧ _))
  | .polled _ => inferInstanceAs (Decidable (_ ≤ _))
  | .expired _ => inferInstanceAs (Decidable (_ = _))

/-- A cause for `handleGpuTimeout`. -/
def Cause.isExpired : Cause → Bool
  | .expired _ => true
  | _ => false

/-- The cause that a sweep can have. -/
def Sweep.Causes : Sweep → Cause → Prop
  | .notifyTimelineAdvanced handle completedValue, cause =>
      cause = .notified handle completedValue
  | .pollDevice, cause => ∃ completed, cause = .polled completed
  | .checkTimeouts, cause => ∃ now, cause = .expired now

theorem Sweep.Causes.isExpired {sweep : Sweep} {cause : Cause} (causes : sweep.Causes cause) :
    cause.isExpired = decide (sweep = .checkTimeouts) := by
  cases sweep with
  | notifyTimelineAdvanced => cases causes; rfl
  | pollDevice => obtain ⟨completed, rfl⟩ := causes; rfl
  | checkTimeouts => obtain ⟨now, rfl⟩ := causes; rfl

namespace ReactorCall

/-- The call is in the loop of a sweep at `curr`, which it has not claimed. -/
def At (sweep : Sweep) (now : Int) (curr : WaitId) (result : Nat) (call : ReactorCall) : Prop :=
  call = .visiting sweep now (some curr) result ∨ call = .claiming sweep now curr result

end ReactorCall

/-- Everything one step can do. -/
inductive ReactorStep (reactor : TimelineReactor) : ReactorCall → ReactorEffect → Prop where
  | request (node : WaitId) :
      ReactorStep reactor .idle
        { reactor, call := .registering node, events := [.requested node] }
  | begin (sweep : Sweep) : ReactorStep reactor .idle { reactor, call := .testing sweep }
  | load (node : WaitId) :
      ReactorStep reactor (.registering node) { reactor, call := .pushing node reactor.m_head }
  | link (node : WaitId) :
      ReactorStep reactor (.pushing node reactor.m_head)
        { reactor :=
            { reactor.setWait node
                { reactor.wait node with nextInReactor := reactor.m_head } with
              m_head := some node }
          call := .counting node
          events := [.linked node] }
  | retry (node : WaitId) (oldHead : Option WaitId) :
      ReactorStep reactor (.pushing node oldHead)
        { reactor := reactor.setWait node { reactor.wait node with nextInReactor := oldHead }
          call := .pushing node reactor.m_head }
  | count (node : WaitId) :
      ReactorStep reactor (.counting node)
        { reactor := { reactor with m_pendingCount := u32 (reactor.m_pendingCount + 1) }
          call := .idle
          events := [.registered node] }
  | empty (sweep : Sweep) (nothing : reactor.m_pendingCount = 0) :
      ReactorStep reactor (.testing sweep)
        { reactor, call := .idle, events := [.returned sweep 0] }
  | test (sweep : Sweep) (now : Int) :
      ReactorStep reactor (.testing sweep) { reactor, call := .entering sweep now }
  | enter (sweep : Sweep) (now : Int) :
      ReactorStep reactor (.entering sweep now)
        { reactor, call := .visiting sweep now reactor.m_head 0, events := [.entered sweep] }
  | leave (sweep : Sweep) (now : Int) (result : Nat) :
      ReactorStep reactor (.visiting sweep now none result)
        { reactor, call := .idle, events := [.returned sweep result] }
  | skip {call : ReactorCall} {sweep : Sweep} {now : Int} {curr : WaitId} {result : Nat}
      (here : call.At sweep now curr result)
      (passed : (reactor.wait curr).satisfied = true ∨
        ∀ handle completedValue, sweep = .notifyTimelineAdvanced handle completedValue →
          ¬ (Cause.notified handle completedValue).Justifies (reactor.wait curr)) :
      ReactorStep reactor call
        { reactor, call := .visiting sweep now (reactor.wait curr).nextInReactor result }
  | attempt {sweep : Sweep} {now : Int} {curr : WaitId} {result : Nat}
      (other : ∀ handle completedValue, sweep ≠ .notifyTimelineAdvanced handle completedValue) :
      ReactorStep reactor (.visiting sweep now (some curr) result)
        { reactor, call := .claiming sweep now curr result }
  | claim {call : ReactorCall} {sweep : Sweep} {now : Int} {curr : WaitId} {result : Nat}
      (here : call.At sweep now curr result) (cause : Cause)
      (free : (reactor.wait curr).satisfied = false)
      (justified : cause.isExpired = false → cause.Justifies (reactor.wait curr))
      (causes : sweep.Causes cause) :
      ReactorStep reactor call
        { reactor := reactor.setWait curr { reactor.wait curr with satisfied := true }
          call := .releasing sweep now curr result
          events := [.claimed curr cause] }
  | release {sweep : Sweep} (now : Int) (curr : WaitId) (result : Nat)
      (other : sweep ≠ .checkTimeouts) :
      ReactorStep reactor (.releasing sweep now curr result)
        { reactor := { reactor with m_pendingCount := u32Sub reactor.m_pendingCount 1 }
          call := .calling sweep now curr result }
  | giveUp (now : Int) (curr : WaitId) (result : Nat) :
      ReactorStep reactor (.releasing .checkTimeouts now curr result)
        { reactor := { reactor with m_pendingCount := u32Sub reactor.m_pendingCount 1 }
          call := .flagging now curr }
  | flag (now : Int) (curr : WaitId) :
      ReactorStep reactor (.flagging now curr)
        { reactor := { reactor with m_hasTimeout := true }
          call := .calling .checkTimeouts now curr 1 }
  | drop (sweep : Sweep) (now : Int) (curr : WaitId) (result : Nat)
      (noTask : (reactor.wait curr).task = none) :
      ReactorStep reactor (.calling sweep now curr result)
        { reactor, call := .visiting sweep now (reactor.wait curr).nextInReactor result }
  | decrement {sweep : Sweep} (now : Int) (curr : WaitId) (result : Nat)
      (other : sweep ≠ .checkTimeouts) :
      ReactorStep reactor (.calling sweep now curr result)
        { reactor
          call := .visiting sweep now (reactor.wait curr).nextInReactor (result + 1)
          events := [.decrementActive curr] }
  | timeOut (now : Int) (curr : WaitId) (result : Nat) :
      ReactorStep reactor (.calling .checkTimeouts now curr result)
        { reactor
          call := .visiting .checkTimeouts now (reactor.wait curr).nextInReactor result
          events := [.handleGpuTimeout curr] }

/-- The compare-exchange of `satisfied` claims the node, or finds it claimed. -/
theorem ReactorStep.of_claim {reactor : TimelineReactor} {call : ReactorCall} {sweep : Sweep}
    {now : Int} {curr : WaitId} {result : Nat} (here : call.At sweep now curr result)
    (cause : Cause) (justified : cause.isExpired = false → cause.Justifies (reactor.wait curr))
    (causes : sweep.Causes cause) :
    ReactorStep reactor call (ReactorCall.claim reactor sweep now curr result cause) := by
  simp only [ReactorCall.claim]
  split
  next satisfied => exact .skip here (.inl satisfied)
  next free => exact .claim here cause (Bool.eq_false_iff.mpr free) justified causes

theorem ReactorStep.of_fire {reactor : TimelineReactor} {call : ReactorCall} {answers : Answers}
    {effect : ReactorEffect} (fired : call.fire reactor answers = some effect) :
    ReactorStep reactor call effect := by
  cases call with
  | idle => cases fired
  | registering node =>
      cases fired
      exact .load node
  | pushing node oldHead =>
      simp only [ReactorCall.fire] at fired
      split at fired
      next exchanged =>
        cases fired
        obtain ⟨rfl, -⟩ := exchanged
        exact .link node
      next =>
        cases fired
        exact .retry node oldHead
  | counting node =>
      cases fired
      exact .count node
  | testing sweep =>
      simp only [ReactorCall.fire] at fired
      split at fired
      next =>
        cases fired
        exact .test sweep answers.now
      next nothing =>
        cases fired
        exact .empty sweep (by simpa [TimelineReactor.hasPending] using nothing)
  | entering sweep now =>
      cases fired
      exact .enter sweep now
  | visiting sweep now curr result =>
      cases curr with
      | none =>
          cases fired
          exact .leave sweep now result
      | some curr =>
          cases sweep with
          | notifyTimelineAdvanced handle completedValue =>
              simp only [ReactorCall.fire] at fired
              split at fired
              next reached =>
                cases fired
                exact .of_claim (.inl rfl) _ (fun _ => reached) rfl
              next notReached =>
                cases fired
                refine .skip (.inl rfl) (.inr fun _ _ same => ?_)
                cases same
                exact notReached
          | pollDevice =>
              simp only [ReactorCall.fire] at fired
              split at fired
              next satisfied =>
                cases fired
                exact .skip (.inl rfl) (.inl satisfied)
              next =>
                cases fired
                exact .attempt nofun
          | checkTimeouts =>
              simp only [ReactorCall.fire] at fired
              split at fired
              next =>
                cases fired
                exact .attempt nofun
              next =>
                cases fired
                exact .skip (.inl rfl) (.inr nofun)
  | claiming sweep now curr result =>
      cases sweep with
      | checkTimeouts =>
          cases fired
          exact .of_claim (.inr rfl) _ (fun isOther => by cases isOther) ⟨now, rfl⟩
      | notifyTimelineAdvanced => cases fired
      | pollDevice =>
          simp only [ReactorCall.fire] at fired
          split at fired
          next reached =>
            cases fired
            exact .of_claim (.inr rfl) _ (fun _ => reached) ⟨_, rfl⟩
          next =>
            cases fired
            exact .skip (.inr rfl) (.inr nofun)
  | releasing sweep now curr result =>
      simp only [ReactorCall.fire] at fired
      split at fired
      next isTimeouts =>
        cases fired
        exact isTimeouts ▸ .giveUp now curr result
      next other =>
        cases fired
        exact .release now curr result other
  | flagging now curr =>
      cases fired
      exact .flag now curr
  | calling sweep now curr result =>
      simp only [ReactorCall.fire] at fired
      split at fired
      next noTask =>
        cases fired
        exact .drop sweep now curr result noTask
      next =>
        split at fired
        next isTimeouts =>
          cases fired
          exact isTimeouts ▸ .timeOut now curr result
        next other =>
          cases fired
          exact .decrement now curr result other

/-- Only what is listed in `ReactorStep` ever happens. -/
theorem ReactorState.step_of_fire {state next : ReactorState} {call moved : ReactorCall}
    {choice : ReactorChoice} (fired : state.fire call choice = some (next, moved)) :
    ∃ effect, ReactorStep state.reactor call effect ∧ moved = effect.call ∧
      next = { reactor := effect.reactor, log := effect.events ++ state.log } := by
  cases choice with
  | registerWait node =>
      cases call <;> cases fired
      exact ⟨_, .request node, rfl, rfl⟩
  | sweep sweep =>
      cases call <;> cases fired
      exact ⟨_, .begin sweep, rfl, rfl⟩
  | go answers =>
      cases call <;> simp only [ReactorState.fire, Option.map_eq_some_iff, Prod.mk.injEq] at fired
      all_goals
        obtain ⟨effect, performed, rfl, rfl⟩ := fired
        exact ⟨effect, .of_fire performed, rfl, rfl⟩

/-! ## Laws -/

namespace ReactorCall

/-- The call is registering `node` and has not linked it. -/
def links (node : WaitId) : ReactorCall → Nat
  | .registering other | .pushing other _ => if other = node then 1 else 0
  | _ => 0

/-- The call has yet to count `node`. -/
def counts (node : WaitId) : ReactorCall → Nat
  | .counting other => if other = node then 1 else 0
  | _ => 0

/-- The call has claimed `node`, with or without a timeout, and not yet called the function
of its task. -/
def holds (expired : Bool) (node : WaitId) : ReactorCall → Nat
  | .releasing sweep _ curr _ | .calling sweep _ curr _ =>
      if curr = node ∧ decide (sweep = .checkTimeouts) = expired then 1 else 0
  | .flagging _ curr => if curr = node ∧ true = expired then 1 else 0
  | _ => 0

/-- The call has yet to add to `m_pendingCount`. -/
def adds : ReactorCall → Nat
  | .counting _ => 1
  | _ => 0

/-- The call has yet to subtract from `m_pendingCount`. -/
def subtracts : ReactorCall → Nat
  | .releasing _ _ _ _ => 1
  | _ => 0

/-- Nodes that a call of `notifyTimelineAdvanced` or `pollDevice` has released so far. -/
def tally : ReactorCall → Nat
  | .visiting sweep _ _ result | .claiming sweep _ _ result | .releasing sweep _ _ result
  | .calling sweep _ _ result => if sweep = .checkTimeouts then 0 else result
  | _ => 0

/-- The wait node the call may look at next. -/
def looksAt : ReactorCall → Option WaitId
  | .pushing _ oldHead => oldHead
  | .visiting _ _ curr _ => curr
  | .claiming _ _ curr _ | .releasing _ _ curr _ | .flagging _ curr | .calling _ _ curr _ =>
      some curr
  | _ => none

end ReactorCall

namespace ReactorEvent

/-- The event claims the node, with or without a timeout. -/
def claims (expired : Bool) (node : WaitId) : ReactorEvent → Bool
  | .claimed other cause => other = node ∧ cause.isExpired = expired
  | _ => false

/-- The call that follows such a claim. -/
def tells (expired : Bool) (node : WaitId) : ReactorEvent :=
  if expired then .handleGpuTimeout node else .decrementActive node

/-- What the event returns, if it is a number of released nodes. -/
def released : ReactorEvent → Nat
  | .returned sweep result => if sweep = .checkTimeouts then 0 else result
  | _ => 0

/-- The event releases a node. -/
def releases : ReactorEvent → Bool
  | .decrementActive _ => true
  | _ => false

/-- The node the event links. -/
def linkedNode : ReactorEvent → Option WaitId
  | .linked node => some node
  | _ => none

end ReactorEvent

/-- Wait nodes in the list, the newest first. -/
def linkedNodes (log : List ReactorEvent) : List WaitId :=
  log.filterMap ReactorEvent.linkedNode

theorem mem_linkedNodes {log : List ReactorEvent} {node : WaitId} :
    node ∈ linkedNodes log ↔ .linked node ∈ log := by
  simp only [linkedNodes, List.mem_filterMap]
  constructor
  · rintro ⟨event, member, isLinked⟩
    cases event <;> cases isLinked
    exact member
  · exact fun member => ⟨_, member, rfl⟩

theorem count_linkedNodes (log : List ReactorEvent) (node : WaitId) :
    (linkedNodes log).count node = log.count (.linked node) :=
  Counting.count_filterMap (fun event => by cases event <;> simp [ReactorEvent.linkedNode]) log

/-- What holds of the shared state and all calls. -/
structure ReactorLaw (state : ReactorState) (pool : Multiset ReactorCall) : Prop where
  /-- A requested registration is under way or linked. -/
  requested : ∀ node, (pool.map (ReactorCall.links node)).sum +
    state.log.count (.linked node) = state.log.count (.requested node)
  /-- A linked node is about to be counted or is registered. -/
  registered : ∀ node, (pool.map (ReactorCall.counts node)).sum +
    state.log.count (.registered node) = state.log.count (.linked node)
  /-- Pointers lead to linked nodes. -/
  head : ∀ node ∈ state.reactor.m_head, .linked node ∈ state.log
  next : ∀ node, .linked node ∈ state.log → ∀ next ∈ (state.reactor.wait node).nextInReactor,
    .linked next ∈ state.log
  looks : ∀ call ∈ pool, ∀ node ∈ call.looksAt, .linked node ∈ state.log
  /-- `satisfied` is set by a single claim. -/
  claimed : ∀ node, state.log.countP (ReactorEvent.claims false node) +
    state.log.countP (ReactorEvent.claims true node) =
      if (state.reactor.wait node).satisfied then 1 else 0
  reached : ∀ node, (state.reactor.wait node).satisfied = true → .linked node ∈ state.log
  justified : ∀ node cause, .claimed node cause ∈ state.log → cause.isExpired = false →
    cause.Justifies (state.reactor.wait node)
  /-- Returned numbers count released nodes. -/
  tallied : (state.log.map ReactorEvent.released).sum + (pool.map ReactorCall.tally).sum =
    state.log.countP ReactorEvent.releases

namespace ReactorLaw

variable {state : ReactorState} {call : ReactorCall} {effect : ReactorEffect}
  {rest : Multiset ReactorCall}

/-- Wait nodes keep their task and what they wait for. -/
theorem wait_step {reactor : TimelineReactor} (step : ReactorStep reactor call effect)
    (node : WaitId) : (effect.reactor.wait node).task = (reactor.wait node).task ∧
      (effect.reactor.wait node).syncPoint = (reactor.wait node).syncPoint := by
  cases step <;> simp only [TimelineReactor.setWait, and_self]
  all_goals
    rw [Function.update_apply]
    split
    next isNode => simp [isNode]
    next => exact ⟨rfl, rfl⟩

theorem requested_step (law : ReactorLaw state (call ::ₘ rest))
    (step : ReactorStep state.reactor call effect) (node : WaitId) :
    ((effect.call ::ₘ rest).map (ReactorCall.links node)).sum +
        (effect.events ++ state.log).count (.linked node) =
      (effect.events ++ state.log).count (.requested node) := by
  have before := law.requested node
  have balance : effect.call.links node + effect.events.count (.linked node) =
      call.links node + effect.events.count (.requested node) := by
    cases step
    case skip here => rcases here with rfl | rfl <;> rfl
    case claim here => rcases here with rfl | rfl <;> simp [ReactorCall.links]
    all_goals simp [ReactorCall.links, List.count_cons]
  simp only [Multiset.map_cons, Multiset.sum_cons, List.count_append] at before ⊢
  omega

theorem registered_step (law : ReactorLaw state (call ::ₘ rest))
    (step : ReactorStep state.reactor call effect) (node : WaitId) :
    ((effect.call ::ₘ rest).map (ReactorCall.counts node)).sum +
        (effect.events ++ state.log).count (.registered node) =
      (effect.events ++ state.log).count (.linked node) := by
  have before := law.registered node
  have balance : effect.call.counts node + effect.events.count (.registered node) =
      call.counts node + effect.events.count (.linked node) := by
    cases step
    case skip here => rcases here with rfl | rfl <;> rfl
    case claim here => rcases here with rfl | rfl <;> simp [ReactorCall.counts]
    all_goals simp [ReactorCall.counts, List.count_cons]
  simp only [Multiset.map_cons, Multiset.sum_cons, List.count_append] at before ⊢
  omega

theorem tallied_step (law : ReactorLaw state (call ::ₘ rest))
    (step : ReactorStep state.reactor call effect) :
    ((effect.events ++ state.log).map ReactorEvent.released).sum +
        ((effect.call ::ₘ rest).map ReactorCall.tally).sum =
      (effect.events ++ state.log).countP ReactorEvent.releases := by
  have before := law.tallied
  have balance : (effect.events.map ReactorEvent.released).sum + effect.call.tally =
      call.tally + effect.events.countP ReactorEvent.releases := by
    cases step
    case skip here => rcases here with rfl | rfl <;> simp [ReactorCall.tally]
    case claim here =>
      rcases here with rfl | rfl <;>
        simp [ReactorCall.tally, ReactorEvent.released, ReactorEvent.releases]
    all_goals
      simp_all [ReactorCall.tally, ReactorEvent.released, ReactorEvent.releases]
  simp only [Multiset.map_cons, Multiset.sum_cons, List.map_append, List.sum_append,
    List.countP_append] at before ⊢
  omega

theorem head_step (law : ReactorLaw state (call ::ₘ rest))
    (step : ReactorStep state.reactor call effect) (node : WaitId)
    (isHead : node ∈ effect.reactor.m_head) : .linked node ∈ effect.events ++ state.log := by
  cases step
  case link other =>
    cases isHead
    exact List.mem_cons_self ..
  all_goals exact List.mem_append_right _ (law.head node isHead)

theorem next_step (law : ReactorLaw state (call ::ₘ rest))
    (step : ReactorStep state.reactor call effect) (node : WaitId)
    (isLinked : .linked node ∈ effect.events ++ state.log) (next : WaitId)
    (isNext : next ∈ (effect.reactor.wait node).nextInReactor) :
    .linked next ∈ effect.events ++ state.log := by
  refine List.mem_append_right _ ?_
  cases step
  case link other =>
    simp only [TimelineReactor.setWait, Function.update_apply] at isNext
    split at isNext
    next => exact law.head _ isNext
    next different =>
      refine law.next node ?_ _ isNext
      simpa [different] using isLinked
  case retry other oldHead =>
    simp only [TimelineReactor.setWait, Function.update_apply] at isNext
    split at isNext
    next => exact law.looks _ (Multiset.mem_cons_self ..) _ isNext
    next => exact law.next node isLinked _ isNext
  case claim curr _ cause _ _ _ _ =>
    refine law.next node (by simpa using isLinked) _ ?_
    simp only [TimelineReactor.setWait, Function.update_apply] at isNext
    split at isNext
    next isCurr => exact isCurr ▸ isNext
    next => exact isNext
  all_goals exact law.next node (by simpa using isLinked) _ isNext

theorem looks_step (law : ReactorLaw state (call ::ₘ rest))
    (step : ReactorStep state.reactor call effect) (other : ReactorCall)
    (member : other ∈ effect.call ::ₘ rest) (node : WaitId) (looks : node ∈ other.looksAt) :
    .linked node ∈ effect.events ++ state.log := by
  refine List.mem_append_right _ ?_
  rcases Multiset.mem_cons.mp member with rfl | member
  · have here := law.looks call (Multiset.mem_cons_self ..)
    cases step
    case load | retry | enter => exact law.head node looks
    case skip curr _ _ here' =>
      refine law.next _ ?_ _ looks
      rcases here' with rfl | rfl <;> exact here _ rfl
    case claim _ _ _ _ here' => rcases here' with rfl | rfl <;> exact here _ looks
    case drop | decrement | timeOut => exact law.next _ (here _ rfl) _ looks
    case request | begin | link | count | empty | test | leave => cases looks
    all_goals exact here node looks
  · exact law.looks other (Multiset.mem_cons_of_mem member) node looks

theorem claimed_step (law : ReactorLaw state (call ::ₘ rest))
    (step : ReactorStep state.reactor call effect) (node : WaitId) :
    (effect.events ++ state.log).countP (ReactorEvent.claims false node) +
        (effect.events ++ state.log).countP (ReactorEvent.claims true node) =
      if (effect.reactor.wait node).satisfied then 1 else 0 := by
  have before := law.claimed node
  cases step
  case claim curr _ cause free _ _ _ =>
    simp only [TimelineReactor.setWait, Function.update_apply, List.cons_append, List.nil_append,
      List.countP_cons, ReactorEvent.claims, decide_eq_true_eq]
    by_cases isCurr : node = curr
    · subst isCurr
      rw [free, if_neg Bool.false_ne_true] at before
      cases cause.isExpired <;>
        simp only [and_true, Bool.false_eq_true, reduceCtorEq, and_false, if_true, if_false] <;>
        omega
    · simpa [isCurr, Ne.symm isCurr] using before
  case link | retry =>
    simp only [TimelineReactor.setWait, Function.update_apply]
    split
    next isOther => simpa [isOther, ReactorEvent.claims] using before
    next => simpa [ReactorEvent.claims] using before
  all_goals simpa [ReactorEvent.claims] using before

theorem reached_step (law : ReactorLaw state (call ::ₘ rest))
    (step : ReactorStep state.reactor call effect) (node : WaitId)
    (satisfied : (effect.reactor.wait node).satisfied = true) :
    .linked node ∈ effect.events ++ state.log := by
  refine List.mem_append_right _ ?_
  have here := law.looks call (Multiset.mem_cons_self ..)
  cases step
  case claim curr _ _ _ _ _ here' =>
    by_cases isCurr : node = curr
    · subst isCurr
      rcases here' with rfl | rfl <;> exact here _ rfl
    · exact law.reached node (by simpa [TimelineReactor.setWait, isCurr] using satisfied)
  case link other | retry other _ =>
    refine law.reached node ?_
    simp only [TimelineReactor.setWait, Function.update_apply] at satisfied
    split at satisfied
    next isOther => exact isOther ▸ satisfied
    next => exact satisfied
  all_goals exact law.reached node satisfied

theorem justifies_step {reactor : TimelineReactor} (step : ReactorStep reactor call effect)
    {node : WaitId} {cause : Cause} (real : cause.isExpired = false)
    (justifies : cause.Justifies (reactor.wait node)) :
    cause.Justifies (effect.reactor.wait node) := by
  have same := (wait_step step node).2
  cases cause with
  | expired => cases real
  | notified => simpa [Cause.Justifies, same] using justifies
  | polled => simpa [Cause.Justifies, same] using justifies

theorem justified_step (law : ReactorLaw state (call ::ₘ rest))
    (step : ReactorStep state.reactor call effect) (node : WaitId) (cause : Cause)
    (member : .claimed node cause ∈ effect.events ++ state.log)
    (real : cause.isExpired = false) : cause.Justifies (effect.reactor.wait node) := by
  refine justifies_step step real ?_
  rcases List.mem_append.mp member with isNew | isOld
  · cases step <;> simp only [List.mem_singleton, List.not_mem_nil, reduceCtorEq] at isNew
    case claim justified _ _ =>
      cases isNew
      exact justified real
  · exact law.justified node cause isOld real

/-- Every step keeps the laws. -/
theorem step (law : ReactorLaw state (call ::ₘ rest))
    (step : ReactorStep state.reactor call effect) :
    ReactorLaw { reactor := effect.reactor, log := effect.events ++ state.log }
      (effect.call ::ₘ rest) where
  requested := law.requested_step step
  registered := law.registered_step step
  head := law.head_step step
  next := law.next_step step
  looks := law.looks_step step
  claimed := law.claimed_step step
  reached := law.reached_step step
  justified := law.justified_step step
  tallied := law.tallied_step step

/-- Nothing has happened yet. -/
theorem fresh (isFresh : state.Fresh) {pool : Multiset ReactorCall}
    (isIdle : ∀ call ∈ pool, call = .idle) : ReactorLaw state pool := by
  obtain ⟨noHead, -, free, noLog⟩ := isFresh
  constructor
  case looks =>
    intro call member node looks
    rw [isIdle call member] at looks
    cases looks
  case requested | registered =>
    exact fun node => by simpa [noLog] using Program.sum_idle isIdle rfl
  case tallied => simpa [noLog] using Program.sum_idle isIdle rfl
  all_goals simp [noHead, free, noLog]

end ReactorLaw

/-! ## The pending counter -/

/-- 1 for a wait node that is not satisfied. -/
def unsatisfied (wait : WaitId → TimelineWaitNode) (node : WaitId) : Nat :=
  if (wait node).satisfied then 0 else 1

/-- Number of wait nodes in the list that are not satisfied. -/
def waitingNodes (wait : WaitId → TimelineWaitNode) (log : List ReactorEvent) : Nat :=
  ((linkedNodes log).map (unsatisfied wait)).sum

theorem waitingNodes_linked (wait : WaitId → TimelineWaitNode) (node : WaitId)
    (log : List ReactorEvent) :
    waitingNodes wait (.linked node :: log) = unsatisfied wait node + waitingNodes wait log := rfl

theorem waitingNodes_other (wait : WaitId → TimelineWaitNode) {event : ReactorEvent}
    (other : event.linkedNode = none) (log : List ReactorEvent) :
    waitingNodes wait (event :: log) = waitingNodes wait log := by
  rw [waitingNodes, linkedNodes, List.filterMap_cons_none other]
  rfl

theorem waitingNodes_relink (wait : WaitId → TimelineWaitNode) (node : WaitId)
    (next : Option WaitId) (log : List ReactorEvent) :
    waitingNodes (Function.update wait node { wait node with nextInReactor := next }) log =
      waitingNodes wait log := by
  refine Counting.sum_map_congr fun other _ => ?_
  simp only [unsatisfied, Function.update_apply]
  split
  next isNode => rw [isNode]
  next => rfl

/-- What holds when every node is registered once, with a task. -/
structure ReactorCount (state : ReactorState) (pool : Multiset ReactorCall) : Prop
    extends ReactorLaw state pool where
  once : ∀ node, state.log.count (.requested node) ≤ 1
  hasTask : ∀ node, .requested node ∈ state.log → (state.reactor.wait node).task ≠ none
  /-- A claimed node is in the hands of one call, or its task was told. -/
  told : ∀ expired node, (pool.map (ReactorCall.holds expired node)).sum +
    state.log.count (ReactorEvent.tells expired node) =
      state.log.countP (ReactorEvent.claims expired node)
  small : state.reactor.m_pendingCount < 2 ^ 32
  /-- `m_pendingCount` lags behind by what calls have yet to add and to subtract. -/
  pending : (state.reactor.m_pendingCount + (pool.map ReactorCall.adds).sum) % 2 ^ 32 =
    (waitingNodes state.reactor.wait state.log + (pool.map ReactorCall.subtracts).sum) % 2 ^ 32

namespace ReactorCount

variable {state : ReactorState} {call : ReactorCall} {effect : ReactorEffect}
  {rest pool : Multiset ReactorCall}

theorem nodup (law : ReactorCount state pool) : (linkedNodes state.log).Nodup := by
  refine List.nodup_iff_count_le_one.mpr fun node => ?_
  rw [count_linkedNodes]
  have linked := law.requested node
  have once := law.once node
  omega

/-- A node that a call is about to link is not linked yet. -/
theorem not_linked (law : ReactorCount state pool) {node : WaitId} (member : call ∈ pool)
    (links : call.links node = 1) : .linked node ∉ state.log := by
  have linked := law.requested node
  have once := law.once node
  have counted : call.links node ≤ (pool.map (ReactorCall.links node)).sum :=
    Multiset.single_le_sum (fun _ _ => Nat.zero_le _) _ (Multiset.mem_map_of_mem _ member)
  exact List.count_eq_zero.mp (by omega)

/-- A linked node has a task. -/
theorem hasTask_of_linked (law : ReactorCount state pool) {node : WaitId}
    (linked : .linked node ∈ state.log) : (state.reactor.wait node).task ≠ none := by
  refine law.hasTask node (List.count_pos_iff.mp ?_)
  have isLinked := List.count_pos_iff.mpr linked
  have requested := law.requested node
  omega

theorem told_step (law : ReactorCount state (call ::ₘ rest))
    (step : ReactorStep state.reactor call effect) (expired : Bool) (node : WaitId) :
    ((effect.call ::ₘ rest).map (ReactorCall.holds expired node)).sum +
        (effect.events ++ state.log).count (ReactorEvent.tells expired node) =
      (effect.events ++ state.log).countP (ReactorEvent.claims expired node) := by
  have before := law.told expired node
  have balance : effect.call.holds expired node +
        effect.events.count (ReactorEvent.tells expired node) =
      call.holds expired node + effect.events.countP (ReactorEvent.claims expired node) := by
    cases step
    case skip here => rcases here with rfl | rfl <;> rfl
    case claim _ _ _ causes here =>
      rcases here with rfl | rfl <;> cases expired <;>
        simp [ReactorCall.holds, ReactorEvent.claims, ReactorEvent.tells, causes.isExpired]
    case drop sweep now curr result noTask =>
      have linked := law.looks _ (Multiset.mem_cons_self ..) curr rfl
      exact absurd noTask (law.hasTask_of_linked linked)
    all_goals
      cases expired <;>
        simp_all [ReactorCall.holds, ReactorEvent.claims, ReactorEvent.tells, List.count_cons]
  simp only [Multiset.map_cons, Multiset.sum_cons, List.count_append, List.countP_append]
    at before ⊢
  omega

/-- A claimed node waits no longer. -/
theorem waitingNodes_claim (law : ReactorCount state (call ::ₘ rest))
    (here : call.At sweep now curr result) (free : (state.reactor.wait curr).satisfied = false) :
    waitingNodes (Function.update state.reactor.wait curr
      { state.reactor.wait curr with satisfied := true }) state.log + 1 =
        waitingNodes state.reactor.wait state.log := by
  have linked : curr ∈ linkedNodes state.log := by
    refine mem_linkedNodes.mpr (law.looks call (Multiset.mem_cons_self ..) curr ?_)
    rcases here with rfl | rfl <;> rfl
  have others : ∀ other ∈ linkedNodes state.log, other ≠ curr →
      unsatisfied (Function.update state.reactor.wait curr
        { state.reactor.wait curr with satisfied := true }) other =
          unsatisfied state.reactor.wait other := by
    intro other _ different
    simp [unsatisfied, different]
  have replaced := Counting.sum_map_replace _ curr others
  rw [List.count_eq_one_of_mem law.nodup linked] at replaced
  simpa [waitingNodes, unsatisfied, free] using replaced

theorem pending_step (law : ReactorCount state (call ::ₘ rest))
    (step : ReactorStep state.reactor call effect) :
    (effect.reactor.m_pendingCount +
        ((effect.call ::ₘ rest).map ReactorCall.adds).sum) % 2 ^ 32 =
      (waitingNodes effect.reactor.wait (effect.events ++ state.log) +
        ((effect.call ::ₘ rest).map ReactorCall.subtracts).sum) % 2 ^ 32 := by
  have before := law.pending
  have small := law.small
  simp only [Multiset.map_cons, Multiset.sum_cons] at before ⊢
  cases step
  case link node =>
    have free : unsatisfied state.reactor.wait node = 1 := if_neg fun satisfied =>
      law.not_linked (Multiset.mem_cons_self ..) (if_pos rfl) (law.reached node satisfied)
    simp only [TimelineReactor.setWait, List.singleton_append, waitingNodes_relink,
      ReactorCall.adds, ReactorCall.subtracts] at before ⊢
    rw [waitingNodes_linked, free]
    omega
  case claim cause free _ _ here =>
    have taken := law.waitingNodes_claim here free
    rw [List.singleton_append, waitingNodes_other _ rfl]
    rcases here with rfl | rfl <;>
      simp only [TimelineReactor.setWait, ReactorCall.adds, ReactorCall.subtracts]
        at taken before ⊢ <;>
      omega
  case retry node oldHead =>
    simp only [TimelineReactor.setWait, List.nil_append, waitingNodes_relink]
    exact before
  case skip _ here =>
    rcases here with rfl | rfl <;> exact before
  case count node =>
    rw [List.singleton_append, waitingNodes_other _ rfl]
    simp only [u32, ReactorCall.adds, ReactorCall.subtracts] at before ⊢
    omega
  case release | giveUp =>
    simp only [List.nil_append, u32Sub, ReactorCall.adds, ReactorCall.subtracts] at before ⊢
    split <;> omega
  all_goals exact before

/-- Only a call of `registerWait` requests a registration. -/
theorem call_of_requested {reactor : TimelineReactor} {node : WaitId}
    (step : ReactorStep reactor call effect) (isNew : .requested node ∈ effect.events) :
    call = .idle ∧ effect.call = .registering node := by
  cases step
  case request other =>
    simp only [List.mem_singleton, ReactorEvent.requested.injEq] at isNew
    exact ⟨rfl, isNew ▸ rfl⟩
  all_goals simp at isNew

/-- A step that registers no node a second time or without a task keeps the laws. -/
theorem step (law : ReactorCount state (call ::ₘ rest))
    (step : ReactorStep state.reactor call effect)
    (allowed : ∀ node, .requested node ∈ effect.events →
      .requested node ∉ state.log ∧ (state.reactor.wait node).task ≠ none) :
    ReactorCount { reactor := effect.reactor, log := effect.events ++ state.log }
      (effect.call ::ₘ rest) where
  toReactorLaw := law.toReactorLaw.step step
  once := by
    intro node
    have before := law.once node
    simp only [List.count_append]
    by_cases isNew : .requested node ∈ effect.events
    · rw [List.count_eq_zero.mpr (allowed node isNew).1]
      cases step <;> simp_all
    · rw [List.count_eq_zero.mpr isNew]
      omega
  hasTask := by
    intro node member
    simp only [(ReactorLaw.wait_step step node).1]
    rcases List.mem_append.mp member with isNew | isOld
    · exact (allowed node isNew).2
    · exact law.hasTask node isOld
  told := law.told_step step
  small := by
    have before := law.small
    cases step
    case count => exact u32_lt _
    case release | giveUp =>
      simp only [u32Sub]
      split <;> omega
    all_goals exact before
  pending := law.pending_step step

theorem fresh (isFresh : state.Fresh) (isIdle : ∀ call ∈ pool, call = .idle) :
    ReactorCount state pool where
  toReactorLaw := .fresh isFresh isIdle
  once := by simp [isFresh.2.2.2]
  hasTask := by simp [isFresh.2.2.2]
  told := fun _ _ => by simpa [isFresh.2.2.2] using Program.sum_idle isIdle rfl
  small := by simp [isFresh.2.1]
  pending := by
    have noAdds : (pool.map ReactorCall.adds).sum = 0 := Program.sum_idle isIdle rfl
    have noSubtracts : (pool.map ReactorCall.subtracts).sum = 0 := Program.sum_idle isIdle rfl
    simp [isFresh.2.1, isFresh.2.2.2, noAdds, noSubtracts, waitingNodes, linkedNodes]

end ReactorCount

/-! ## Every run -/

/-- A node is registered once, and with a task. -/
def ReactorState.RegistersOnce (state : ReactorState) (_ : ReactorCall) : ReactorChoice → Prop
  | .registerWait node =>
      .requested node ∉ state.log ∧ (state.reactor.wait node).task ≠ none
  | _ => True

instance (state : ReactorState) (call : ReactorCall) :
    (choice : ReactorChoice) → Decidable (state.RegistersOnce call choice)
  | .registerWait _ => inferInstanceAs (Decidable (_ ∧ _))
  | .sweep _ | .go _ => inferInstanceAs (Decidable True)

/-- Any number of threads call one reactor that is fresh at first. -/
abbrev reactorMachine (threads : Nat) :
    Machine (Program.State ReactorState ReactorCall threads)
      (Program.Action Empty ReactorChoice threads) :=
  reactorProgram.machine ReactorState.Fresh .idle threads

/-- All registrations meet `RegistersOnce`. -/
abbrev registeringOnce {threads : Nat} :
    Program.State ReactorState ReactorCall threads →
      Program.Action Empty ReactorChoice threads → Prop :=
  Program.Allowed (fun _ _ => True) ReactorState.RegistersOnce

variable {threads : Nat} {state : Program.State ReactorState ReactorCall threads}

/-- A request in the history comes from an allowed call of `registerWait`. -/
theorem ReactorState.RegistersOnce.of_requested {shared next : ReactorState} {call : ReactorCall}
    {choice : ReactorChoice} {effect : ReactorEffect} (once : shared.RegistersOnce call choice)
    (fired : shared.fire call choice = some (next, effect.call))
    (step : ReactorStep shared.reactor call effect) (node : WaitId)
    (isNew : .requested node ∈ effect.events) :
    .requested node ∉ shared.log ∧ (shared.reactor.wait node).task ≠ none := by
  obtain ⟨rfl, registers⟩ := ReactorCount.call_of_requested step isNew
  rw [registers] at fired
  cases choice with
  | registerWait other =>
      cases (Prod.mk.inj (Option.some.inj fired)).2
      exact once
  | sweep => cases (Prod.mk.inj (Option.some.inj fired)).2
  | go => cases fired

theorem reactorCount_of_reachable
    (reachable : (reactorMachine threads).ReachableBy registeringOnce state) :
    ReactorCount state.shared state.pool := by
  refine Program.invariant (fun _ _ => .fresh) (fun _ _ action => nomatch action) ?_ reachable
  intro shared call rest choice next moved law once fired
  obtain ⟨effect, step, rfl, rfl⟩ := ReactorState.step_of_fire fired
  exact law.step step (once.of_requested fired step)

/-! ## Exactly one call acts on a wait node -/

/-- Wait nodes whose registration has returned. -/
def registeredNodes (log : List ReactorEvent) : List WaitId :=
  log.filterMap fun event =>
    match event with
    | .registered node => some node
    | _ => none

/-- The reactor serves every wait point once. -/
structure ClaimedOnce (state : Program.State ReactorState ReactorCall threads) : Prop where
  /-- At most one call claims a node and acts for it. -/
  claims : ∀ node, state.shared.log.countP (ReactorEvent.claims false node) +
    state.shared.log.countP (ReactorEvent.claims true node) ≤ 1
  decrements : ∀ node, state.shared.log.count (.decrementActive node) ≤
    state.shared.log.countP (ReactorEvent.claims false node)
  timeouts : ∀ node, state.shared.log.count (.handleGpuTimeout node) ≤
    state.shared.log.countP (ReactorEvent.claims true node)
  /-- Nothing is released before its time. -/
  reached : ∀ node cause, .claimed node cause ∈ state.shared.log → cause.isExpired = false →
    cause.Justifies (state.shared.reactor.wait node)
  /-- When no call is in progress, every claim was acted on and every counter is exact. -/
  acted : (∀ index, state.here index = .idle) → ∀ node,
    state.shared.log.count (.decrementActive node) +
      state.shared.log.count (.handleGpuTimeout node) =
        if (state.shared.reactor.wait node).satisfied then 1 else 0
  pending : (∀ index, state.here index = .idle) →
    state.shared.reactor.m_pendingCount = u32 ((registeredNodes state.shared.log).countP
      fun node => !(state.shared.reactor.wait node).satisfied)
  returned : (∀ index, state.here index = .idle) →
    (state.shared.log.map ReactorEvent.released).sum =
      state.shared.log.countP ReactorEvent.releases

/-- With no call in progress, the registered nodes are the linked ones. -/
theorem registeredNodes_perm (law : ReactorCount state.shared state.pool)
    (quiet : ∀ index, state.here index = .idle) :
    (registeredNodes state.shared.log).Perm (linkedNodes state.shared.log) := by
  refine List.perm_iff_count.mpr fun node => ?_
  have counted : (registeredNodes state.shared.log).count node =
      state.shared.log.count (.registered node) :=
    Counting.count_filterMap (fun event => by cases event <;> simp) _
  have registered := law.registered node
  rw [Program.sum_idle (Program.State.idle_of_quiet quiet) rfl] at registered
  rw [counted, count_linkedNodes]
  omega

/-- Whatever calls do at the same time, every wait point is claimed by at most one of them,
and by none that notifies or polls before the value is reached; its task is told once, and
the counters add up. -/
theorem wait_claimed_once
    (reachable : (reactorMachine threads).ReachableBy registeringOnce state) :
    ClaimedOnce state := by
  have law := reactorCount_of_reachable reachable
  constructor
  case claims =>
    intro node
    rw [law.claimed node]
    split <;> omega
  case decrements =>
    intro node
    have told := law.told false node
    simp only [ReactorEvent.tells, Bool.false_eq_true, if_false] at told
    omega
  case timeouts =>
    intro node
    have told := law.told true node
    simp only [ReactorEvent.tells, if_true] at told
    omega
  case reached => exact law.justified
  case acted =>
    intro quiet node
    have decremented := law.told false node
    have timedOut := law.told true node
    rw [Program.sum_idle (Program.State.idle_of_quiet quiet) rfl] at decremented timedOut
    simp only [ReactorEvent.tells, Bool.false_eq_true, if_true, if_false] at decremented timedOut
    rw [← law.claimed node]
    omega
  case pending =>
    intro quiet
    have pending := law.pending
    have small := law.small
    rw [Program.sum_idle (Program.State.idle_of_quiet quiet) rfl,
      Program.sum_idle (Program.State.idle_of_quiet quiet) rfl] at pending
    have counted : waitingNodes state.shared.reactor.wait state.shared.log =
        (linkedNodes state.shared.log).countP
          fun node => !(state.shared.reactor.wait node).satisfied := by
      have indicated := Counting.sum_map_indicator (linkedNodes state.shared.log)
        fun node => (state.shared.reactor.wait node).satisfied = false
      simp only [← Bool.not_eq_true, decide_not, Bool.decide_eq_true] at indicated
      rw [← indicated]
      exact Counting.sum_map_congr fun node _ => (ite_not ..).symm
    rw [(registeredNodes_perm law quiet).countP_eq, ← counted, u32]
    omega
  case returned =>
    intro quiet
    have tallied := law.tallied
    rwa [Program.sum_idle (Program.State.idle_of_quiet quiet) rfl, Nat.add_zero] at tallied

/-- A node notified while a poll looks at the list. -/
theorem wait_claimed_once_raced : ∃ state : Program.State ReactorState ReactorCall 2,
    state.shared.log.count (.decrementActive 0) = 1 ∧ ClaimedOnce state := by
  let node : TimelineWaitNode :=
    { task := some (.node 0), syncPoint := { handle := 7, value := 3 } }
  let fresh : Program.State ReactorState ReactorCall 2 :=
    { shared := { reactor := { wait := fun _ => node } }, here := fun _ => .idle }
  let go (index : Fin 2) : Program.Action Empty ReactorChoice 2 :=
    .thread index (.go { completed := 3 })
  obtain ⟨state, reachable, decremented⟩ : ∃ state,
      (reactorMachine 2).ReachableBy registeringOnce state ∧
        state.shared.log.count (.decrementActive 0) = 1 :=
    Machine.ReachableBy.exists_of_run
      (.start (show (reactorMachine 2).initial fresh from
        ⟨⟨rfl, rfl, fun _ => rfl, rfl⟩, fun _ => rfl⟩))
      (List.flatten
        [[.thread 0 (.registerWait 0), go 0, go 0, go 0],
          [.thread 0 (.sweep (.notifyTimelineAdvanced 7 4)), .thread 1 (.sweep .pollDevice)],
          [go 1, go 1, go 0, go 0, go 1, go 0, go 1, go 0, go 0, go 0, go 1]])
      (by decide +kernel)
  exact ⟨state, decremented, wait_claimed_once reachable⟩

end LightFlow
