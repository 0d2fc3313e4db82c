import LightFlow.Gpu.WaitRun

/-!
# The wait nodes of a run

From the loop of `prepareRun` on, a wait node is unsatisfied, claimed by a sweep that has yet to
call the function of its task, or resolved.  Walks that are left over from an earlier run may
come upon its nodes before they are registered again.
-/

namespace LightFlow

namespace RunCall

/-- The wait nodes that `prepareRun` has yet to make unsatisfied. -/
def todo : RunCall → List WaitId
  | .resetting _ todo | .stamping _ _ todo | .registering _ _ todo => todo
  | _ => []

/-- The wait node that `prepareRun` is about to link in. -/
def linking : RunCall → Option WaitId
  | .stamping _ wait _ => some wait
  | .registering _ (.registering wait) _ | .registering _ (.pushing wait _) _ => some wait
  | _ => none

/-- The wait node that `registerWait` has read from `m_head`. -/
def looksAt : RunCall → Option WaitId
  | .registering _ call _ => call.looksAt
  | _ => none

/-- `prepareRun` calls `registerWait` only. -/
def Registers : RunCall → Prop
  | .registering _ (.registering _) _ | .registering _ (.pushing _ _) _
  | .registering _ (.counting _) _ | .registering _ .idle _ => True
  | .registering _ _ _ => False
  | _ => True

/-- `helpUntil` has found the graph completed, or is not called. -/
def isOver : RunCall → Bool
  | .outside | .leaving | .helped _ => true
  | _ => false

end RunCall

namespace ReactorCall

/-- The call has claimed the node, and not yet called the function of its task. -/
def claims (node : WaitId) (call : ReactorCall) : Nat :=
  call.holds false node + call.holds true node

/-- The call has set `m_hasTimeout`, and not yet called `handleGpuTimeout`. -/
def flagged : ReactorCall → Bool
  | .calling .checkTimeouts _ _ _ => true
  | _ => false

@[simp] theorem claims_releasing (sweep : Sweep) (now : Int) (curr node : WaitId) (result : Nat) :
    (releasing sweep now curr result).claims node = if curr = node then 1 else 0 := by
  by_cases isTimeouts : sweep = .checkTimeouts <;> by_cases same : curr = node <;>
    simp [claims, holds, isTimeouts, same]

@[simp] theorem claims_flagging (now : Int) (curr node : WaitId) :
    (flagging now curr).claims node = if curr = node then 1 else 0 := by
  simp [claims, holds]

@[simp] theorem claims_calling (sweep : Sweep) (now : Int) (curr node : WaitId) (result : Nat) :
    (calling sweep now curr result).claims node = if curr = node then 1 else 0 := by
  by_cases isTimeouts : sweep = .checkTimeouts <;> by_cases same : curr = node <;>
    simp [claims, holds, isTimeouts, same]

@[simp] theorem claims_visiting (sweep : Sweep) (now : Int) (curr : Option WaitId)
    (node : WaitId) (result : Nat) : (visiting sweep now curr result).claims node = 0 := rfl

@[simp] theorem flagged_visiting (sweep : Sweep) (now : Int) (curr : Option WaitId)
    (result : Nat) : (visiting sweep now curr result).flagged = false := rfl

theorem looksAt_of_claims {node : WaitId} {call : ReactorCall} (claims : 0 < call.claims node) :
    call.looksAt = some node := by
  cases call with
  | releasing | flagging | calling =>
      simp only [claims_releasing, claims_flagging, claims_calling] at claims
      split at claims
      next same => rw [looksAt, same]
      next => simp at claims
  | _ => simp [ReactorCall.claims, holds] at claims

theorem claims_of_flagged {call : ReactorCall} (isFlagged : call.flagged = true) :
    ∃ node, 0 < call.claims node := by
  cases call with
  | calling sweep now curr result => exact ⟨curr, by simp⟩
  | _ => cases isFlagged

end ReactorCall

namespace TimelineReactor

theorem setWait_wait (reactor : TimelineReactor) (node other : WaitId) (wait : TimelineWaitNode) :
    (reactor.setWait node wait).wait other = if other = node then wait else reactor.wait other :=
  Function.update_apply ..

end TimelineReactor

/-- What calls can come upon is linked, and the wait nodes that `prepareRun` has yet to reset are
satisfied where a call can come upon them. -/
structure Linked (points : List (WaitId × NodeId)) (known : Set WaitId) (reactor : TimelineReactor)
    (call : RunCall) (calls : Multiset ReactorCall) : Prop where
  tasks : ∀ point ∈ points, (reactor.wait point.1).task = some point.2
  listed : ∀ wait ∈ known, wait ∈ points.map Prod.fst
  head : ∀ wait ∈ reactor.m_head, wait ∈ known
  next : ∀ wait ∈ known, ∀ next ∈ reactor.next wait, next ∈ known
  sweeps : ∀ sweep ∈ calls, sweep.isSweep = true ∧ ∀ wait ∈ sweep.looksAt, wait ∈ known
  registers : call.Registers
  looks : ∀ wait ∈ call.looksAt, wait ∈ known
  todo : ∀ wait ∈ call.linking.toList ++ call.todo, wait ∈ points.map Prod.fst
  distinct : (call.linking.toList ++ call.todo).Nodup
  passed : ∀ wait ∈ call.todo, wait ∈ known → (reactor.wait wait).satisfied = true

/-- The wait node can be claimed once in this run. -/
def isFree (reactor : TimelineReactor) (call : RunCall) (wait : WaitId) : Nat :=
  if wait ∈ call.todo ∨ (reactor.wait wait).satisfied = false then 1 else 0

theorem isFree_congr {reactor onward : TimelineReactor} {call after : RunCall} {wait : WaitId}
    (same : wait ∈ after.todo ∨ (onward.wait wait).satisfied = false ↔
      wait ∈ call.todo ∨ (reactor.wait wait).satisfied = false) :
    isFree onward after wait = isFree reactor call wait :=
  if_congr same rfl rfl

/-- What became of the wait nodes of a run. -/
structure Claimed (points : List (WaitId × NodeId)) (reactor : TimelineReactor) (call : RunCall)
    (released expired : List (WaitId × NodeId)) (calls : Multiset ReactorCall) : Prop where
  /-- A wait node is free, claimed or resolved. -/
  once : ∀ point ∈ points, isFree reactor call point.1 +
    (calls.map (ReactorCall.claims point.1)).sum + released.count point + expired.count point = 1
  ofReleased : ∀ point ∈ released, point ∈ points
  ofExpired : ∀ point ∈ expired, point ∈ points
  /-- The flag is set before a timeout is handled. -/
  flag : call ≠ .outside → (reactor.m_hasTimeout = true ↔
    expired ≠ [] ∨ ∃ sweep ∈ calls, sweep.flagged = true)
  told : ∀ status, call = .helped status → (status = .gpuTimeout ↔ expired ≠ [])
  atEnd : call.isOver = true → ∀ point ∈ points, released.count point + expired.count point = 1

namespace Linked

variable {points : List (WaitId × NodeId)} {known : Set WaitId} {reactor : TimelineReactor}
  {call : RunCall} {calls rest : Multiset ReactorCall} {sweep : ReactorCall}
  {effect : ReactorEffect}

/-- A claimed wait node belongs to the graph. -/
theorem exists_point (linked : Linked points known reactor call (sweep ::ₘ rest)) {wait : WaitId}
    (looks : sweep.looksAt = some wait) :
    wait ∈ known ∧ ∃ node, (wait, node) ∈ points ∧ (reactor.wait wait).task = some node := by
  have isKnown := (linked.sweeps sweep (Multiset.mem_cons_self _ _)).2 wait looks
  obtain ⟨point, member, rfl⟩ := List.mem_map.mp (linked.listed wait isKnown)
  exact ⟨isKnown, point.2, member, linked.tasks point member⟩

/-- A step of a sweep. -/
theorem swept (linked : Linked points known reactor call (sweep ::ₘ rest))
    (step : ReactorStep reactor sweep effect) (stays : effect.call.isSweep = true) :
    Linked points known effect.reactor call (effect.call ::ₘ rest) := by
  obtain ⟨sweeps, looks⟩ := linked.sweeps sweep (Multiset.mem_cons_self _ _)
  have tasks (wait : WaitId) := (ReactorLaw.wait_step step wait).1
  have keeps : effect.reactor.m_head = reactor.m_head ∧
      (∀ wait, effect.reactor.next wait = reactor.next wait) ∧
      (∀ wait, (reactor.wait wait).satisfied = true →
        (effect.reactor.wait wait).satisfied = true) ∧
      ∀ wait ∈ effect.call.looksAt, wait ∈ known := by
    cases step with
    | request => cases stays
    | load | link | retry | count => cases sweeps
    | claim here =>
        have curr := looks _ (by rcases here with rfl | rfl <;> rfl)
        refine ⟨rfl, fun wait => ?_, fun wait satisfied => ?_, ?_⟩
        · simp only [TimelineReactor.next, TimelineReactor.setWait_wait]
          split
          next same => rw [same]
          next => rfl
        · rw [TimelineReactor.setWait_wait]
          split
          next => rfl
          next => exact satisfied
        · simpa [ReactorCall.looksAt] using curr
    | skip here =>
        have curr := looks _ (by rcases here with rfl | rfl <;> rfl)
        exact ⟨rfl, fun _ => rfl, fun _ => id, linked.next _ curr⟩
    | enter => exact ⟨rfl, fun _ => rfl, fun _ => id, linked.head⟩
    | drop | decrement | timeOut =>
        exact ⟨rfl, fun _ => rfl, fun _ => id, linked.next _ (looks _ rfl)⟩
    | attempt | release | giveUp | flag => exact ⟨rfl, fun _ => rfl, fun _ => id, looks⟩
    | _ => exact ⟨rfl, fun _ => rfl, fun _ => id, by simp [ReactorCall.looksAt]⟩
  obtain ⟨sameHead, sameNext, satisfied, looksOn⟩ := keeps
  exact
    { tasks := fun point member => (tasks _).trans (linked.tasks point member)
      listed := linked.listed
      head := sameHead ▸ linked.head
      next := fun wait isKnown => sameNext wait ▸ linked.next wait isKnown
      sweeps := fun other member => by
        rcases Multiset.mem_cons.mp member with rfl | isOld
        · exact ⟨stays, looksOn⟩
        · exact linked.sweeps other (Multiset.mem_cons_of_mem isOld)
      registers := linked.registers
      looks := linked.looks
      todo := linked.todo
      distinct := linked.distinct
      passed := fun wait member isKnown => satisfied wait (linked.passed wait member isKnown) }

/-- A step of `registerWait` in `prepareRun`. -/
theorem register {now : Int} {registration : ReactorCall} {todo : List WaitId}
    (linked : Linked points known reactor (.registering now registration todo) calls)
    (step : ReactorStep reactor registration effect) (busy : registration ≠ .idle) :
    ∃ further, Linked points further effect.reactor (.registering now effect.call todo) calls := by
  have tasks (point : WaitId × NodeId) (member : point ∈ points) :
      (effect.reactor.wait point.1).task = some point.2 :=
    (ReactorLaw.wait_step step point.1).1.trans (linked.tasks point member)
  have registers := linked.registers
  -- `nextInReactor` of the wait node, and nothing else of the wait nodes, is written.
  have satisfied (node wait : WaitId) (oldHead : Option WaitId) :
      ((reactor.setWait node
          { reactor.wait node with nextInReactor := oldHead }).wait wait).satisfied =
        (reactor.wait wait).satisfied := by
    rw [TimelineReactor.setWait_wait]
    split
    next same => rw [same]
    next => rfl
  have next (node wait : WaitId) (oldHead : Option WaitId) :
      (reactor.setWait node { reactor.wait node with nextInReactor := oldHead }).next wait =
        if wait = node then oldHead else reactor.next wait := by
    simp only [TimelineReactor.next, TimelineReactor.setWait_wait]
    split <;> rfl
  cases step with
  | request | «begin» => exact absurd rfl busy
  | load node =>
      exact ⟨known,
        { linked with
          tasks
          registers := trivial
          looks := linked.head }⟩
  | link node =>
      refine ⟨insert node known,
        { tasks
          listed := fun wait isKnown => ?_
          head := fun wait isHead => ?_
          next := fun wait isKnown => ?_
          sweeps := fun other member => ?_
          registers := trivial
          looks := by simp [RunCall.looksAt, ReactorCall.looksAt]
          todo := fun wait member => linked.todo wait (List.mem_cons_of_mem _ member)
          distinct := (List.nodup_cons.mp linked.distinct).2
          passed := fun wait member isKnown => ?_ }⟩
      · rcases isKnown with rfl | isKnown
        · exact linked.todo wait (List.mem_cons_self ..)
        · exact linked.listed wait isKnown
      · exact .inl (Option.some.inj isHead).symm
      · intro onward isNext
        rw [show TimelineReactor.next _ wait = _ from next node wait reactor.m_head] at isNext
        split at isNext
        next => exact .inr (linked.head onward isNext)
        next different => exact .inr (linked.next wait (isKnown.resolve_left different) onward
          isNext)
      · exact (linked.sweeps other member).imp_right fun looks wait isNext =>
        .inr (looks wait isNext)
      · have different : wait ≠ node := fun same =>
          (List.nodup_cons.mp linked.distinct).1 (same ▸ member)
        exact (satisfied node wait reactor.m_head).trans
          (linked.passed wait member (isKnown.resolve_left different))
  | retry node oldHead =>
      refine ⟨known,
        { linked with
          tasks
          next := fun wait isKnown => ?_
          registers := trivial
          looks := linked.head
          passed := fun wait member isKnown =>
            (satisfied node wait oldHead).trans (linked.passed wait member isKnown) }⟩
      intro onward isNext
      rw [next] at isNext
      split at isNext
      next => exact linked.looks onward isNext
      next => exact linked.next wait isKnown onward isNext
  | count node =>
      exact ⟨known,
        { linked with
          tasks
          registers := trivial
          looks := by simp [RunCall.looksAt, ReactorCall.looksAt] }⟩
  | skip here | claim here => rcases here with rfl | rfl <;> exact absurd registers id
  | _ => exact absurd registers id

end Linked

namespace Claimed

variable {points : List (WaitId × NodeId)} {known : Set WaitId} {reactor : TimelineReactor}
  {call : RunCall} {released expired : List (WaitId × NodeId)}
  {calls rest : Multiset ReactorCall} {sweep : ReactorCall} {effect : ReactorEffect}

/-- Up to the call of a task's function, a sweep passes on what is free or claimed. -/
theorem passes (linked : Linked points known reactor call (sweep ::ₘ rest))
    (step : ReactorStep reactor sweep effect) (stays : effect.call.isSweep = true)
    (before : ∀ kind now curr result, sweep ≠ .calling kind now curr result) (wait : WaitId) :
    isFree effect.reactor call wait + effect.call.claims wait =
      isFree reactor call wait + sweep.claims wait := by
  obtain ⟨sweeps, looks⟩ := linked.sweeps sweep (Multiset.mem_cons_self _ _)
  cases step with
  | request => cases stays
  | load | link | retry | count => cases sweeps
  | drop | decrement | timeOut => exact absurd rfl (before _ _ _ _)
  | skip here => rcases here with rfl | rfl <;> rfl
  | @claim sweep kind now curr result here cause free =>
      have isKnown : curr ∈ known := looks _ (by rcases here with rfl | rfl <;> rfl)
      have notTodo : curr ∉ call.todo := fun member => by
        simp [linked.passed curr member isKnown] at free
      have none : sweep.claims wait = 0 := by rcases here with rfl | rfl <;> rfl
      simp only [isFree, none, ReactorCall.claims_releasing, TimelineReactor.setWait_wait]
      by_cases same : wait = curr
      · subst same
        simp [notTodo, free]
      · simp [same, Ne.symm same]
  | release now curr result => simp [isFree]
  | giveUp now curr result => simp [isFree]
  | flag now curr => simp [isFree]
  | _ => rfl

/-- A step of a sweep before the call of a task's function. -/
theorem swept (claimed : Claimed points reactor call released expired (sweep ::ₘ rest))
    (linked : Linked points known reactor call (sweep ::ₘ rest))
    (step : ReactorStep reactor sweep effect) (stays : effect.call.isSweep = true)
    (before : ∀ kind now curr result, sweep ≠ .calling kind now curr result) :
    Claimed points effect.reactor call released expired (effect.call ::ₘ rest) := by
  refine ⟨fun point member => ?_, claimed.ofReleased, claimed.ofExpired, fun inside => ?_,
    claimed.told, claimed.atEnd⟩
  · have once := claimed.once point member
    have moves := passes linked step stays before point.1
    rw [Multiset.map_cons, Multiset.sum_cons] at once ⊢
    omega
  · have flag := claimed.flag inside
    simp only [Multiset.mem_cons, exists_eq_or_imp] at flag ⊢
    have notFlagged : sweep.flagged = false := by
      cases sweep with
      | calling => exact absurd rfl (before _ _ _ _)
      | _ => rfl
    simp only [notFlagged, Bool.false_eq_true, false_or] at flag
    have sets : effect.call.flagged = true ∧ effect.reactor.m_hasTimeout = true ∨
        effect.call.flagged = false ∧ effect.reactor.m_hasTimeout = reactor.m_hasTimeout := by
      cases step with
      | request => cases stays
      | load | link | retry | count => cases (linked.sweeps _ (Multiset.mem_cons_self _ _)).1
      | drop | decrement | timeOut => exact absurd rfl (before _ _ _ _)
      | flag => exact .inl ⟨rfl, rfl⟩
      | @release kind now curr result other =>
          exact .inr ⟨by cases kind <;> first | rfl | exact absurd rfl other, rfl⟩
      | _ => exact .inr ⟨rfl, rfl⟩
    rcases sets with ⟨isFlagged, isSet⟩ | ⟨notFlagged, same⟩
    · simp [isFlagged, isSet]
    · simpa [notFlagged, same] using flag

/-- While a sweep holds a wait node, nothing has become of it, and the run is not over. -/
theorem of_claims (claimed : Claimed points reactor call released expired (sweep ::ₘ rest))
    {point : WaitId × NodeId} (member : point ∈ points) (claims : sweep.claims point.1 = 1) :
    released.count point = 0 ∧ expired.count point = 0 ∧ isFree reactor call point.1 = 0 ∧
      (rest.map (ReactorCall.claims point.1)).sum = 0 ∧ call.isOver = false := by
  have once := claimed.once point member
  rw [Multiset.map_cons, Multiset.sum_cons] at once
  refine ⟨by omega, by omega, by omega, by omega, ?_⟩
  by_contra atEnd
  have resolved := claimed.atEnd (by simpa using atEnd) point member
  omega

/-- Points with the same wait node are the same. -/
theorem eq_of_fst (distinct : (points.map Prod.fst).Nodup) {point other : WaitId × NodeId}
    (member : point ∈ points) (otherMember : other ∈ points) (same : point.1 = other.1) :
    point = other :=
  List.inj_on_of_nodup_map distinct member otherMember same

/-- `decrementActive` is called for a claimed wait node. -/
theorem release {kind : Sweep} {now : Int} {curr : WaitId} {result further : Nat} {node : NodeId}
    {next : Option WaitId}
    (claimed : Claimed points reactor call released expired
      (.calling kind now curr result ::ₘ rest))
    (distinct : (points.map Prod.fst).Nodup) (member : (curr, node) ∈ points)
    (other : kind ≠ .checkTimeouts) :
    Claimed points reactor call ((curr, node) :: released) expired
      (.visiting kind now next further ::ₘ rest) := by
  obtain ⟨-, -, -, -, running⟩ := claimed.of_claims member (by simp)
  have notFlagged : (ReactorCall.calling kind now curr result).flagged = false := by
    cases kind <;> first | rfl | exact absurd rfl other
  refine ⟨fun point isPoint => ?_, ?_, claimed.ofExpired, fun inside => ?_,
    fun status isHelped => ?_, fun atEnd => ?_⟩
  · have once := claimed.once point isPoint
    rw [Multiset.map_cons, Multiset.sum_cons] at once ⊢
    rw [List.count_cons]
    by_cases same : point = (curr, node)
    · subst same
      simp only [ReactorCall.claims_calling, ↓reduceIte] at once
      simp only [ReactorCall.claims_visiting, beq_self_eq_true, ↓reduceIte]
      omega
    · have different : curr ≠ point.1 := fun equal =>
        same (eq_of_fst distinct isPoint member equal.symm)
      simpa [different, Ne.symm same] using once
  · exact List.forall_mem_cons.mpr ⟨member, claimed.ofReleased⟩
  · have flag := claimed.flag inside
    simp only [Multiset.mem_cons, exists_eq_or_imp] at flag ⊢
    simpa [notFlagged] using flag
  · rw [isHelped] at running
    cases running
  · simp [atEnd] at running

/-- `handleGpuTimeout` is called for a claimed wait node. -/
theorem expire {now : Int} {curr : WaitId} {result further : Nat} {node : NodeId}
    {next : Option WaitId}
    (claimed : Claimed points reactor call released expired
      (.calling .checkTimeouts now curr result ::ₘ rest))
    (distinct : (points.map Prod.fst).Nodup) (member : (curr, node) ∈ points) :
    Claimed points reactor call released ((curr, node) :: expired)
      (.visiting .checkTimeouts now next further ::ₘ rest) := by
  obtain ⟨-, -, -, -, running⟩ := claimed.of_claims member (by simp)
  refine ⟨fun point isPoint => ?_, claimed.ofReleased, ?_, fun inside => ?_,
    fun status isHelped => ?_, fun atEnd => ?_⟩
  · have once := claimed.once point isPoint
    rw [Multiset.map_cons, Multiset.sum_cons] at once ⊢
    rw [List.count_cons]
    by_cases same : point = (curr, node)
    · subst same
      simp only [ReactorCall.claims_calling, ↓reduceIte] at once
      simp only [ReactorCall.claims_visiting, beq_self_eq_true, ↓reduceIte]
      omega
    · have different : curr ≠ point.1 := fun equal =>
        same (eq_of_fst distinct isPoint member equal.symm)
      simpa [different, Ne.symm same] using once
  · exact List.forall_mem_cons.mpr ⟨member, claimed.ofExpired⟩
  · have flag := claimed.flag inside
    simp only [Multiset.mem_cons, exists_eq_or_imp] at flag
    simpa [ReactorCall.flagged] using flag
  · rw [isHelped] at running
    cases running
  · simp [atEnd] at running

end Claimed

/-! ## The call of `runAndWait` -/

/-- `satisfied` and `registeredTime` do not say which task waits. -/
theorem TimelineReactor.setWait_task (reactor : TimelineReactor) (node other : WaitId)
    (satisfied : Bool) (registeredTime : Int) :
    ((reactor.setWait node { reactor.wait node with satisfied, registeredTime }).wait other).task =
      (reactor.wait other).task := by
  rw [setWait_wait]
  split
  next same => rw [same]
  next => rfl

section

variable {points : List (WaitId × NodeId)} {known : Set WaitId} {reactor : TimelineReactor}
  {call after : RunCall} {released expired : List (WaitId × NodeId)}
  {calls : Multiset ReactorCall} {workers : Nat} {state next : GpuRun workers}
  {answers : Answers}

/-- Outside of the loop of `prepareRun` nothing is asked of the call. -/
theorem Linked.leave (linked : Linked points known reactor call calls)
    (todo : after.todo = []) (linking : after.linking = none) (looks : after.looksAt = none)
    (registers : after.Registers) : Linked points known reactor after calls :=
  { linked with
    registers
    looks := by simp [looks]
    todo := by simp [linking, todo]
    distinct := by simp [linking, todo]
    passed := by simp [todo] }

theorem Linked.goOn (linked : Linked points known state.reactor state.call calls)
    (stepped : state.goOn answers = some next) :
    ∃ further, Linked points further next.reactor next.call calls := by
  simp only [GpuRun.goOn] at stepped
  cases isCall : state.call with
  | outside => simp [isCall] at stepped
  | resetting now todo =>
      rw [isCall] at linked
      cases todo with
      | nil =>
          simp only [isCall, Option.some.injEq] at stepped
          subst stepped
          exact ⟨known, linked.leave rfl rfl rfl trivial⟩
      | cons wait todo =>
          simp only [isCall, Option.some.injEq] at stepped
          subst stepped
          refine ⟨known,
            { linked with
              tasks := fun point member =>
                (state.reactor.setWait_task wait point.1 false _).trans (linked.tasks point member)
              next := ?_
              registers := trivial
              looks := by simp [RunCall.looksAt]
              passed := fun other member isKnown => ?_ }⟩
          · rw [TimelineReactor.setWait_next]
            exact linked.next
          · have different : other ≠ wait := fun same =>
              (List.nodup_cons.mp linked.distinct).1 (same ▸ member)
            rw [TimelineReactor.setWait_wait, if_neg different]
            exact linked.passed other (List.mem_cons_of_mem _ member) isKnown
  | stamping now wait todo =>
      rw [isCall] at linked
      simp only [isCall, Option.some.injEq] at stepped
      subst stepped
      refine ⟨known,
        { linked with
          tasks := fun point member =>
            (state.reactor.setWait_task wait point.1 _ now).trans (linked.tasks point member)
          next := ?_
          registers := trivial
          looks := by simp [RunCall.looksAt, ReactorCall.looksAt]
          passed := fun other member isKnown => ?_ }⟩
      · rw [TimelineReactor.setWait_next]
        exact linked.next
      · have different : other ≠ wait := fun same =>
          (List.nodup_cons.mp linked.distinct).1 (same ▸ member)
        rw [TimelineReactor.setWait_wait, if_neg different]
        exact linked.passed other member isKnown
  | registering now registration todo =>
      rw [isCall] at linked
      by_cases idle : registration = .idle
      · subst idle
        simp only [isCall, Option.some.injEq] at stepped
        subst stepped
        exact ⟨known, { linked with registers := trivial, looks := by simp [RunCall.looksAt] }⟩
      · simp only [isCall, Option.map_eq_some_iff] at stepped
        obtain ⟨effect, fired, rfl⟩ := stepped
        exact linked.register (.of_fire fired) idle
  | helping =>
      rw [isCall] at linked
      simp only [isCall] at stepped
      split at stepped <;> cases stepped
      exact ⟨known, linked.leave rfl rfl rfl trivial⟩
  | leaving =>
      rw [isCall] at linked
      simp only [isCall, Option.some.injEq] at stepped
      subst stepped
      exact ⟨known, linked.leave rfl rfl rfl trivial⟩
  | helped status =>
      rw [isCall] at linked
      simp only [isCall, Option.some.injEq] at stepped
      subst stepped
      exact ⟨known,
        { (linked.leave rfl rfl rfl trivial :
            Linked points known state.reactor .outside calls) with
          head := by simp [TimelineReactor.reset] }⟩

/-- Registrations set no flags. -/
theorem ReactorStep.keeps_flags {registration : ReactorCall} {effect : ReactorEffect} {now : Int}
    {todo : List WaitId} (step : ReactorStep reactor registration effect)
    (registers : (RunCall.registering now registration todo).Registers)
    (busy : registration ≠ .idle) :
    effect.reactor.m_hasTimeout = reactor.m_hasTimeout ∧
      ∀ wait, (effect.reactor.wait wait).satisfied = (reactor.wait wait).satisfied := by
  have same (node wait : WaitId) (oldHead : Option WaitId) :
      ((reactor.setWait node
          { reactor.wait node with nextInReactor := oldHead }).wait wait).satisfied =
        (reactor.wait wait).satisfied := by
    rw [TimelineReactor.setWait_wait]
    split
    next isNode => rw [isNode]
    next => rfl
  cases step with
  | request | «begin» => exact absurd rfl busy
  | load | count => exact ⟨rfl, fun _ => rfl⟩
  | link node => exact ⟨rfl, fun wait => same node wait _⟩
  | retry node oldHead => exact ⟨rfl, fun wait => same node wait oldHead⟩
  | skip here | claim here => rcases here with rfl | rfl <;> exact absurd registers id
  | _ => exact absurd registers id

/-- The call goes on, and what is free stays free. -/
theorem Claimed.goes {onward : TimelineReactor}
    (claimed : Claimed points reactor call released expired calls) (inside : call ≠ .outside)
    (running : after.isOver = false) (flag : onward.m_hasTimeout = reactor.m_hasTimeout)
    (free : ∀ wait, isFree onward after wait = isFree reactor call wait) :
    Claimed points onward after released expired calls where
  once := fun point member => free point.1 ▸ claimed.once point member
  ofReleased := claimed.ofReleased
  ofExpired := claimed.ofExpired
  flag := fun _ => flag ▸ claimed.flag inside
  told := by
    rintro status rfl
    cases running
  atEnd := fun atEnd => by simp [running] at atEnd

/-- When the run is atEnd, no sweep holds a wait node. -/
theorem Claimed.no_claims (claimed : Claimed points reactor call released expired calls)
    (atEnd : call.isOver = true) {point : WaitId × NodeId} (member : point ∈ points) :
    isFree reactor call point.1 = 0 ∧ (calls.map (ReactorCall.claims point.1)).sum = 0 := by
  have once := claimed.once point member
  have resolved := claimed.atEnd atEnd point member
  omega

/-- Without claims no sweep has set the flag and not called `handleGpuTimeout`. -/
theorem Linked.not_flagged (linked : Linked points known reactor call calls)
    (none : ∀ point ∈ points, (calls.map (ReactorCall.claims point.1)).sum = 0) :
    ¬ ∃ sweep ∈ calls, sweep.flagged = true := by
  rintro ⟨sweep, member, isFlagged⟩
  obtain ⟨wait, claims⟩ := ReactorCall.claims_of_flagged isFlagged
  obtain ⟨rest, rfl⟩ := Multiset.exists_cons_of_mem member
  obtain ⟨-, node, isPoint, -⟩ := linked.exists_point (ReactorCall.looksAt_of_claims claims)
  have zero := none _ isPoint
  rw [Multiset.map_cons, Multiset.sum_cons] at zero
  dsimp only at zero
  omega

theorem Claimed.goOn
    (claimed : Claimed points state.reactor state.call state.released state.expired calls)
    (linked : Linked points known state.reactor state.call calls)
    (stepped : state.goOn answers = some next)
    (completed : state.call = .helping → state.run.Ended →
      ∀ point ∈ points, state.released.count point + state.expired.count point = 1) :
    Claimed points next.reactor next.call next.released next.expired calls := by
  simp only [GpuRun.goOn] at stepped
  cases isCall : state.call with
  | outside => simp [isCall] at stepped
  | resetting now todo =>
      rw [isCall] at claimed
      cases todo with
      | nil =>
          simp only [isCall, Option.some.injEq] at stepped
          subst stepped
          exact claimed.goes (by simp) rfl rfl fun wait => rfl
      | cons wait todo =>
          simp only [isCall, Option.some.injEq] at stepped
          subst stepped
          refine claimed.goes (by simp) rfl rfl fun other => isFree_congr ?_
          simp only [RunCall.todo, TimelineReactor.setWait_wait, List.mem_cons]
          by_cases same : other = wait <;> simp [same]
  | stamping now wait todo =>
      rw [isCall] at claimed
      simp only [isCall, Option.some.injEq] at stepped
      subst stepped
      refine claimed.goes (by simp) rfl rfl fun other => isFree_congr ?_
      simp only [RunCall.todo, TimelineReactor.setWait_wait]
      by_cases same : other = wait <;> simp [same]
  | registering now registration todo =>
      rw [isCall] at claimed linked
      by_cases idle : registration = .idle
      · subst idle
        simp only [isCall, Option.some.injEq] at stepped
        subst stepped
        exact claimed.goes (by simp) rfl rfl fun _ => rfl
      · simp only [isCall, Option.map_eq_some_iff] at stepped
        obtain ⟨effect, fired, rfl⟩ := stepped
        obtain ⟨flag, satisfied⟩ :=
          (ReactorStep.of_fire fired).keeps_flags linked.registers idle
        refine claimed.goes (by simp) rfl flag fun wait => isFree_congr ?_
        simp only [RunCall.todo, satisfied]
  | helping =>
      rw [isCall] at claimed
      simp only [isCall] at stepped
      split at stepped <;> cases stepped
      next ended =>
        exact
          { claimed with
            flag := fun _ => claimed.flag (by simp)
            told := by simp
            atEnd := fun _ => completed isCall ended }
  | leaving =>
      rw [isCall] at claimed linked
      simp only [isCall, Option.some.injEq] at stepped
      subst stepped
      have flag := claimed.flag (by simp)
      have notFlagged := linked.not_flagged fun point member =>
        (claimed.no_claims rfl member).2
      rw [or_iff_left notFlagged] at flag
      exact
        { claimed with
          flag := fun _ => claimed.flag (by simp)
          told := fun status isHelped => by
            rw [← flag]
            cases RunCall.helped.inj isHelped
            cases state.reactor.m_hasTimeout <;> simp
          atEnd := fun _ => claimed.atEnd rfl }
  | helped status =>
      rw [isCall] at claimed
      simp only [isCall, Option.some.injEq] at stepped
      subst stepped
      exact
        { once := claimed.once
          ofReleased := claimed.ofReleased
          ofExpired := claimed.ofExpired
          flag := fun outside => absurd rfl outside
          told := by simp
          atEnd := fun _ => claimed.atEnd rfl }

/-! ## The start of a run -/

/-- `runAndWait` finds nothing free that a call could come upon. -/
theorem Linked.prepare (linked : Linked points known reactor call calls)
    (distinct : (points.map Prod.fst).Nodup)
    (passed : ∀ point ∈ points, point.1 ∈ known → (reactor.wait point.1).satisfied = true)
    (todo : after.todo = points.map Prod.fst) (linking : after.linking = none)
    (looks : after.looksAt = none) (registers : after.Registers) :
    Linked points known reactor.resetTimeout after calls :=
  { linked with
    registers
    looks := by simp [looks]
    todo := fun wait member => by simpa [linking, todo] using member
    distinct := by simpa [linking, todo] using distinct
    passed := fun wait member isKnown => by
      rw [todo] at member
      obtain ⟨point, isPoint, rfl⟩ := List.mem_map.mp member
      exact passed point isPoint isKnown }

/-- `runAndWait` finds nothing claimed. -/
theorem Claimed.prepare (linked : Linked points known reactor call calls)
    (none : ∀ point ∈ points, (calls.map (ReactorCall.claims point.1)).sum = 0)
    (todo : after.todo = points.map Prod.fst) (running : after.isOver = false) :
    Claimed points reactor.resetTimeout after [] [] calls where
  once := fun point member => by
    have isTodo : point.1 ∈ after.todo := todo ▸ List.mem_map_of_mem member
    simp [isFree, isTodo, none point member]
  ofReleased := by simp
  ofExpired := by simp
  flag := fun _ => by
    have notFlagged := linked.not_flagged none
    simpa [TimelineReactor.resetTimeout] using notFlagged
  told := by
    rintro status rfl
    cases running
  atEnd := fun atEnd => by simp [running] at atEnd

end

end LightFlow
