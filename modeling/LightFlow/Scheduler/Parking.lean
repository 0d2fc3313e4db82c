import LightFlow.Lib.Counting
import LightFlow.Scheduler.PoolMoves

/-!
# Where a worker is in its loop

A worker has one frame of its loop until it returns, and calls above it only while it executes
tasks.  Only the worker itself pushes to its deques, so that what it finds empty in its search
before it parks stays empty.
-/

namespace LightFlow

variable {size : PoolSize}

namespace PoolFrame

/-- A frame of `workerLoop`. -/
def isAnchor : PoolFrame size → Bool
  | .checking | .counting | .loading | .rechecking _ | .parking _ | .blocked _ | .uncounting _
  | .draining _ => true
  | .finding .helping _ => false
  | .finding _ _ => true
  | _ => false

/-- The worker is counted in `m_sleepingCount`. -/
def isCounted : PoolFrame size → Bool
  | .loading | .rechecking _ | .finding (.parking _) _ | .parking _ | .blocked _
  | .uncounting _ => true
  | _ => false

/-- At this frame a worker that goes on to park has found its deque of the priority empty. -/
def isDry (priority : TaskPriority) : PoolFrame size → Bool
  | .finding (.parking _) (.pop .normal) | .finding (.parking _) (.popStolen .normal) =>
      priority = .high
  | .finding (.parking _) (.dequeue _) | .finding (.parking _) (.stealBatch _ _)
  | .finding (.parking _) (.steal _ _) | .parking _ | .blocked _ => true
  | _ => false

theorem isCounted_of_isDry {priority : TaskPriority} {frame : PoolFrame size}
    (isDry : frame.isDry priority = true) : frame.isCounted = true := by
  cases frame with
  | finding goal => cases goal <;> first | rfl | cases isDry
  | _ => first | rfl | cases isDry

end PoolFrame

/-- The last frame, and no other, is one of `workerLoop`. -/
def isBased : List (PoolFrame size) → Bool
  | [] => false
  | [frame] => frame.isAnchor
  | frame :: rest => !frame.isAnchor && isBased rest

theorem isBased_append {frames rest : List (PoolFrame size)}
    (plain : ∀ frame ∈ frames, frame.isAnchor = false) (based : isBased rest = true) :
    isBased (frames ++ rest) = true := by
  induction frames with
  | nil => exact based
  | cons frame frames ih =>
      have onward := ih fun other member => plain other (List.mem_cons_of_mem _ member)
      rw [List.cons_append]
      cases following : frames ++ rest with
      | nil =>
          rw [following] at onward
          cases onward
      | cons other others =>
          rw [following] at onward
          simp [isBased, plain frame (List.mem_cons_self ..), onward]

/-- A frame of the loop has no calls below it. -/
theorem eq_nil_of_isBased {frame : PoolFrame size} {rest : List (PoolFrame size)}
    (based : isBased (frame :: rest) = true) (isAnchor : frame.isAnchor = true) : rest = [] := by
  cases rest with
  | nil => rfl
  | cons other rest => simp [isBased, isAnchor] at based

theorem isBased_rest {frame : PoolFrame size} {rest : List (PoolFrame size)}
    (based : isBased (frame :: rest) = true) (plain : frame.isAnchor = false) :
    isBased rest = true := by
  cases rest with
  | nil =>
      rw [isBased, plain] at based
      cases based
  | cons other rest =>
      simp only [isBased, plain, Bool.not_false, Bool.true_and] at based
      exact based

theorem countP_isAnchor {stack : List (PoolFrame size)} (based : isBased stack = true) :
    stack.countP PoolFrame.isAnchor = 1 := by
  induction stack with
  | nil => cases based
  | cons frame rest ih =>
      cases isAnchor : frame.isAnchor with
      | true => simp [eq_nil_of_isBased based isAnchor, isAnchor]
      | false => simp [isAnchor, ih (isBased_rest based isAnchor)]

/-- The worker goes on to park, and has found its deque of the priority empty. -/
def dryTop (priority : TaskPriority) : List (PoolFrame size) → Bool
  | [] => false
  | frame :: _ => frame.isDry priority

theorem PoolShared.setDeque_deque (shared : PoolShared size)
    (worker other : Fin size.m_workerCount) (priority query : TaskPriority)
    (tasks : List PoolTask) :
    (shared.setDeque worker priority tasks).deque other query =
      if other = worker ∧ query = priority then tasks else shared.deque other query := by
  by_cases isWorker : other = worker
  · subst isWorker
    by_cases same : query = priority
    · subst same
      simp
    · simp [setDeque, same]
  · simp [setDeque, isWorker]

namespace FindMove

variable {shared next : PoolShared size} {self : Option (Fin size.m_workerCount)}
  {lost : Bool} {goal : FindGoal} {step : FindStep size} {frames : List (PoolFrame size)}

/-- A search in the loop of a worker leads back into the loop. -/
theorem based (move : FindMove shared self lost goal step next frames) (inLoop : goal ≠ .helping) :
    isBased frames = true := by
  have found (task : PoolTask) : isBased (goal.found task : List (PoolFrame size)) = true := by
    cases goal <;> first | rfl | exact absurd rfl inLoop
  have missed : isBased (goal.missed : List (PoolFrame size)) = true := by
    cases goal with
    | spinning left => cases left <;> rfl
    | helping => exact absurd rfl inLoop
    | _ => rfl
  have finding (next : FindStep size) : isBased [PoolFrame.finding goal next] = true := by
    cases goal <;> first | rfl | exact absurd rfl inLoop
  cases move <;> first
    | exact found _
    | exact missed
    | exact finding _

/-- A search in `helpUntil` does not. -/
theorem plain (move : FindMove shared self lost .helping step next frames) :
    ∀ frame ∈ frames, frame.isAnchor = false := by
  cases move <;> simp [FindGoal.found, FindGoal.missed, PoolFrame.isAnchor]

/-- The frames that a search leaves below its innermost one are not counted. -/
theorem calm (move : FindMove shared self lost goal step next frames) :
    ∀ frame ∈ frames.tail, frame.isCounted = false := by
  have found (task : PoolTask) :
      ∀ frame ∈ (goal.found task : List (PoolFrame size)).tail, frame.isCounted = false := by
    cases goal <;> simp [FindGoal.found, PoolFrame.isCounted]
  have missed : ∀ frame ∈ (goal.missed : List (PoolFrame size)).tail,
      frame.isCounted = false := by
    cases goal with
    | spinning left => cases left <;> simp [FindGoal.missed, PoolFrame.isCounted]
    | _ => simp [FindGoal.missed, PoolFrame.isCounted]
  cases move <;> first
    | exact found _
    | exact missed
    | simp

variable {worker : Fin size.m_workerCount}

/-- Counted is who searches before parking. -/
theorem counted (move : FindMove shared self lost goal step next frames) :
    frames.countP PoolFrame.isCounted =
      [PoolFrame.finding goal step].countP PoolFrame.isCounted := by
  have found (task : PoolTask) :
      (goal.found task : List (PoolFrame size)).countP PoolFrame.isCounted =
      [PoolFrame.finding goal step].countP PoolFrame.isCounted := by
    cases goal <;> rfl
  have missed : (goal.missed : List (PoolFrame size)).countP PoolFrame.isCounted =
      [PoolFrame.finding goal step].countP PoolFrame.isCounted := by
    cases goal with
    | spinning left => cases left <;> rfl
    | _ => rfl
  have finding (next : FindStep size) : [PoolFrame.finding goal next].countP PoolFrame.isCounted =
      [PoolFrame.finding goal step].countP PoolFrame.isCounted := by
    cases goal <;> rfl
  cases move <;> first
    | exact found _
    | exact missed
    | exact finding _

/-- What a worker found empty before it parks stays empty for the rest of its search. -/
theorem dry (move : FindMove shared self lost goal step next frames) (isSelf : self = some worker)
    (thorough : lost = true → ∀ currentSignal, goal = .parking currentSignal →
      ∀ priority, step = .pop priority ∨ step = .popStolen priority →
        shared.deque worker priority = [])
    (before : ∀ priority, (PoolFrame.finding goal step).isDry priority = true →
      shared.deque worker priority = []) {rest : List (PoolFrame size)} (priority : TaskPriority)
    (isDry : dryTop priority (frames ++ rest) = true) : next.deque worker priority = [] := by
  cases goal with
  | parking currentSignal =>
      have popped (query : TaskPriority) (pops : step = .pop query ∨ step = .popStolen query)
          (empty : lost = false → shared.deque worker query = []) :
          shared.deque worker query = [] := by
        cases isLost : lost with
        | true => exact thorough isLost currentSignal rfl query pops
        | false => exact empty isLost
      cases move with
      | pop | dequeue | steal | stealBatch | transferred | transfer => cases isDry
      | popHigh isWorker empty =>
          cases isWorker.symm.trans isSelf
          simp only [dryTop, List.cons_append, PoolFrame.isDry, decide_eq_true_eq] at isDry
          rw [isDry]
          exact popped .high (.inl rfl) empty
      | popNormal isWorker empty =>
          cases isWorker.symm.trans isSelf
          cases priority with
          | high => exact before .high rfl
          | normal => exact popped .normal (.inl rfl) empty
      | dequeueHigh | dequeueNormal => exact before priority rfl
      | look here | give here =>
          refine before priority ?_
          cases step <;> first | rfl | cases here
      | popStolenHigh isWorker empty =>
          cases isWorker.symm.trans isSelf
          simp only [dryTop, List.cons_append, PoolFrame.isDry, decide_eq_true_eq] at isDry
          rw [isDry]
          exact popped .high (.inr rfl) empty
      | popStolenNormal isWorker empty =>
          cases isWorker.symm.trans isSelf
          cases priority with
          | high => exact before .high rfl
          | normal => exact popped .normal (.inr rfl) empty
  | top | polled | helping => cases move <;> cases isDry
  | spinning left =>
      cases move <;> first
        | cases isDry
        | (cases left <;> cases isDry)

/-- Only a worker pushes to its own deques. -/
theorem deque_other (move : FindMove shared self lost goal step next frames)
    (notSelf : self ≠ some worker) {priority : TaskPriority} {task : PoolTask}
    (member : task ∈ next.deque worker priority) : task ∈ shared.deque worker priority := by
  cases move with
  | pop isSelf | transfer isSelf =>
      have different : ¬ worker = _ := fun equal =>
        notSelf (isSelf.trans (congrArg some equal.symm))
      simp only [PoolShared.pushBottom, PoolShared.setDeque_deque, different, false_and,
        if_false] at member
      exact member
  | stealBatch split | steal split =>
      rw [PoolShared.setDeque_deque] at member
      split at member
      next same =>
        obtain ⟨rfl, rfl⟩ := same
        rw [split]
        first
          | exact List.mem_append_right _ member
          | exact List.mem_cons_of_mem _ member
      next => exact member
  | _ => exact member

end FindMove

namespace SubmitMove

variable {shared next : PoolShared size} {self : Option (Fin size.m_workerCount)}
  {kind : Submit} {owed todo : List PoolTask} {frames : List (PoolFrame size)}

/-- The frames of a submission are not frames of a loop. -/
theorem plain (move : SubmitMove shared self kind owed todo next frames) :
    ∀ frame ∈ frames, frame.isAnchor = false ∧ frame.isCounted = false := by
  have pushed (todo owed : List PoolTask) :
      ∀ frame ∈ (PoolFrame.pushed kind todo owed : List (PoolFrame size)),
        frame.isAnchor = false ∧ frame.isCounted = false := by
    intro frame member
    simp only [PoolFrame.pushed] at member
    split at member <;> simp at member
    · rcases member with rfl | rfl <;> exact ⟨rfl, rfl⟩
    · subst member
      exact ⟨rfl, rfl⟩
  cases move with
  | push | enqueue => exact pushed _ _
  | full _ _ retries =>
      rcases retries with rfl | rfl <;> simp [PoolFrame.isAnchor, PoolFrame.isCounted]
  | _ => simp [PoolFrame.isAnchor, PoolFrame.isCounted]

theorem deque_other {worker : Fin size.m_workerCount}
    (move : SubmitMove shared self kind owed todo next frames)
    (notSelf : self ≠ some worker) (priority : TaskPriority) :
    next.deque worker priority = shared.deque worker priority := by
  cases move with
  | push _ isSelf =>
      have different : ¬ worker = _ := fun equal =>
        notSelf (isSelf.trans (congrArg some equal.symm))
      simp only [PoolShared.pushBottom, PoolShared.setDeque_deque, different, false_and, if_false]
  | _ => rfl

theorem sleeping (move : SubmitMove shared self kind owed todo next frames) :
    next.m_sleepingCount = shared.m_sleepingCount := by
  cases move <;> rfl

end SubmitMove

namespace PoolMove

variable {shared next : PoolShared size} {self : ThreadId size} {slot after : Option PoolTask}
  {inlines joined : Bool} {frame : PoolFrame size} {choice : PoolChoice size}
  {frames : List (PoolFrame size)}

/-- A frame of the loop leads back into the loop, until the worker returns. -/
theorem based (move : PoolMove shared self slot inlines joined frame choice next frames after)
    (isAnchor : frame.isAnchor = true) :
    isBased frames = true ∨ frame = .draining .normal ∧ frames = [] := by
  cases move with
  | @find _ goal _ _ _ move =>
      refine .inl (move.based ?_)
      rintro rfl
      cases isAnchor
  | drainNormal => exact .inr ⟨rfl, rfl⟩
  | @uncount _ unpark => exact .inl (by cases unpark <;> rfl)
  | ioWake wakes => rcases wakes with rfl | rfl <;> cases isAnchor
  | ioTake _ loops => rcases loops with ⟨rfl, rfl⟩ | ⟨rfl, rfl⟩ <;> cases isAnchor
  | ioGo loops => cases frame <;> cases loops <;> cases isAnchor
  | check | leave | count | load | recheck | abandon | park | pass | awake | drain | drainHigh =>
      exact .inl rfl
  | _ => cases isAnchor

/-- Other calls do not lead into the loop. -/
theorem plain (move : PoolMove shared self slot inlines joined frame choice next frames after)
    (isPlain : frame.isAnchor = false) : ∀ other ∈ frames, other.isAnchor = false := by
  cases move with
  | @find _ goal _ _ _ move =>
      cases goal with
      | helping => exact move.plain
      | _ => cases isPlain
  | submit move => exact fun other member => (move.plain other member).1
  | check | leave | count | load | recheck | abandon | park | pass | awake | uncount | drain
  | drainHigh | drainNormal => cases isPlain
  | seek => simp [PoolFrame.isAnchor]
  | bump wakes => rcases wakes with ⟨further, rfl⟩ | rfl <;> simp [PoolFrame.isAnchor]
  | wakeOne _ left | wakeNone _ left =>
      rcases left with rfl | ⟨further, rfl⟩ <;> simp [PoolFrame.isAnchor]
  | ioTake _ loops => rcases loops with ⟨rfl, rfl⟩ | ⟨rfl, rfl⟩ <;> simp [PoolFrame.isAnchor]
  | @ioGo _ _ onward _ _ stays =>
      cases onward <;> cases stays <;> simp [PoolFrame.isAnchor]
  | _ => simp [PoolFrame.isAnchor]

/-- Calls stand on frames that are not counted. -/
theorem calm (move : PoolMove shared self slot inlines joined frame choice next frames after) :
    ∀ frame ∈ frames.tail, frame.isCounted = false := by
  cases move with
  | find move => exact move.calm
  | submit move =>
      exact fun frame member => (move.plain frame (List.mem_of_mem_tail member)).2
  | @uncount _ unpark => cases unpark <;> simp [Unpark.onward, PoolFrame.isCounted]
  | wakeOne _ left | wakeNone _ left => rcases left with rfl | ⟨further, rfl⟩ <;> simp
  | ioTake _ loops => rcases loops with ⟨rfl, rfl⟩ | ⟨rfl, rfl⟩ <;> simp [PoolFrame.isCounted]
  | _ => simp [PoolFrame.isCounted]

/-- `m_sleepingCount` counts the frames that are counted. -/
theorem sleeping (move : PoolMove shared self slot inlines joined frame choice next frames after)
    (bound : shared.m_sleepingCount + 1 < 2 ^ 32 ∨ frame ≠ .counting)
    (counted : frame.isCounted = true → 0 < shared.m_sleepingCount) :
    next.m_sleepingCount + [frame].countP PoolFrame.isCounted =
      shared.m_sleepingCount + frames.countP PoolFrame.isCounted := by
  cases move with
  | find move =>
      have same : next.m_sleepingCount = shared.m_sleepingCount := by cases move <;> rfl
      rw [same, move.counted]
  | submit move =>
      have uncounted : frames.countP PoolFrame.isCounted = 0 :=
        List.countP_eq_zero.mpr fun frame member => by simp [(move.plain frame member).2]
      rw [move.sleeping, uncounted]
      rfl
  | count =>
      have small := bound.resolve_right fun differs => differs rfl
      show u32 (shared.m_sleepingCount + 1) + 0 = shared.m_sleepingCount + 1
      rw [u32_of_lt small]
  | @uncount _ unpark =>
      have positive : 1 ≤ shared.m_sleepingCount := counted rfl
      have uncounted : (unpark.onward : List (PoolFrame size)).countP PoolFrame.isCounted = 0 := by
        cases unpark <;> rfl
      show u32Sub shared.m_sleepingCount 1 + 1 = _
      rw [u32Sub_of_le positive, uncounted]
      omega
  | bump wakes => rcases wakes with ⟨further, rfl⟩ | rfl <;> rfl
  | wakeOne _ left | wakeNone _ left => rcases left with rfl | ⟨further, rfl⟩ <;> rfl
  | ioWake wakes => rcases wakes with rfl | rfl <;> rfl
  | ioTake _ loops => rcases loops with ⟨rfl, rfl⟩ | ⟨rfl, rfl⟩ <;> rfl
  | @ioGo _ _ onward _ loops stays =>
      cases frame <;> cases loops <;> cases onward <;> cases stays <;> rfl
  | _ => rfl

variable {worker : Fin size.m_workerCount}

/-- Only a worker pushes to its own deques. -/
theorem deque_other (move : PoolMove shared self slot inlines joined frame choice next frames after)
    (notSelf : self ≠ .worker worker) {priority : TaskPriority} {task : PoolTask}
    (member : task ∈ next.deque worker priority) : task ∈ shared.deque worker priority := by
  have notIndex : self.currentWorkerIndex ≠ some worker := fun isIndex =>
    notSelf (ThreadId.of_currentWorkerIndex isIndex)
  cases move with
  | find move => exact move.deque_other notIndex member
  | submit move =>
      rw [move.deque_other notIndex] at member
      exact member
  | drain isSelf =>
      rw [PoolShared.setDeque_deque, if_neg] at member
      · exact member
      · rintro ⟨rfl, -⟩
        exact notSelf isSelf
  | _ => exact member

/-- What a worker has found empty is empty while it goes on to park. -/
theorem dry (move : PoolMove shared self slot inlines joined frame choice next frames after)
    (isSelf : self = .worker worker)
    (thorough : choice.lost = true → ∀ currentSignal priority,
      frame = .finding (.parking currentSignal) (.pop priority) ∨
        frame = .finding (.parking currentSignal) (.popStolen priority) →
          shared.deque worker priority = [])
    (before : ∀ priority, frame.isDry priority = true → shared.deque worker priority = [])
    {rest : List (PoolFrame size)} (calm : ∀ frame ∈ rest, frame.isCounted = false)
    (priority : TaskPriority) (isDry : dryTop priority (frames ++ rest) = true) :
    next.deque worker priority = [] := by
  subst isSelf
  -- where a call returns, the frame below it has found nothing empty
  have below (returned : frames = []) : False := by
    subst returned
    cases rest with
    | nil => cases isDry
    | cons top rest =>
        have counted := PoolFrame.isCounted_of_isDry isDry
        rw [calm top (List.mem_cons_self ..)] at counted
        cases counted
  cases move with
  | find move =>
      refine move.dry rfl (fun isLost currentSignal isGoal query pops => ?_) before priority isDry
      subst isGoal
      exact thorough isLost currentSignal query
        (pops.imp (fun isStep => by rw [isStep]) fun isStep => by rw [isStep])
  | submit move =>
      cases framesEq : frames with
      | nil => exact (below framesEq).elim
      | cons top others =>
          rw [framesEq, List.cons_append] at isDry
          have counted := PoolFrame.isCounted_of_isDry isDry
          rw [(move.plain top (framesEq ▸ List.mem_cons_self ..)).2] at counted
          cases counted
  | @uncount _ unpark => cases unpark <;> cases isDry
  | park | awake => exact before priority rfl
  | bump wakes => rcases wakes with ⟨further, rfl⟩ | rfl <;> cases isDry
  | wakeOne _ left | wakeNone _ left =>
      rcases left with rfl | ⟨further, rfl⟩
      · exact (below rfl).elim
      · cases isDry
  | ioTake _ loops => cases isDry
  | @ioGo _ _ onward _ loops stays => cases onward <;> cases stays <;> cases isDry
  | drainNormal | continued | finish | finishNone | unhelp | returned | nobody | wakeAll | ioBump
  | ioWake | ioReturn | stopAgain | stopBump | join => exact (below rfl).elim
  | _ => cases isDry

end PoolMove

/-- The frames of a thread that are counted in `m_sleepingCount`. -/
def PoolThread.counted (thread : PoolThread size) : Nat :=
  thread.stack.countP PoolFrame.isCounted

/-- The loop frames of all threads. -/
structure ParkingLaw (state : PoolState size) : Prop where
  /-- A worker is in its loop until it returns. -/
  based : ∀ worker, (state.thread (.worker worker)).stack ≠ [] →
    isBased (state.thread (.worker worker)).stack = true
  plain : ∀ self : ThreadId size, self.currentWorkerIndex = none →
    ∀ frame ∈ (state.thread self).stack, frame.isAnchor = false
  calm : ∀ self : ThreadId size, ∀ frame ∈ (state.thread self).stack.tail,
    frame.isCounted = false
  sleeping : state.shared.m_sleepingCount =
    Counting.total PoolThread.counted fun worker => state.thread (.worker worker)

namespace ParkingLaw

variable {state next : PoolState size}

theorem initial : ParkingLaw (PoolState.initial size) where
  based := fun _ _ => rfl
  plain := fun self notWorker frame member => by
    cases self with
    | worker => cases notWorker
    | io | external =>
        rw [List.mem_singleton.mp member]
        rfl
  calm := fun self frame member => by cases self <;> cases member
  sleeping := (Counting.total_eq_zero.mpr fun _ => rfl).symm

/-- Counted workers are in their loop. -/
theorem isAnchor_of_isCounted {frame : PoolFrame size} (counted : frame.isCounted = true) :
    frame.isAnchor = true := by
  cases frame with
  | finding goal => cases goal <;> first | rfl | cases counted
  | _ => first | rfl | cases counted

theorem counted_le_one (law : ParkingLaw state) (worker : Fin size.m_workerCount) :
    (state.thread (.worker worker)).counted ≤ 1 := by
  rw [PoolThread.counted]
  cases isStack : (state.thread (.worker worker)).stack with
  | nil => simp
  | cons frame rest =>
      have based := law.based worker (by simp [isStack])
      rw [isStack] at based
      rw [← countP_isAnchor based]
      exact List.countP_mono_left fun _ _ => isAnchor_of_isCounted

/-- Who begins to be counted was not counted, so that `m_sleepingCount` does not overflow. -/
theorem sleeping_lt (law : ParkingLaw state) (worker : Fin size.m_workerCount)
    (uncounted : (state.thread (.worker worker)).counted = 0) :
    state.shared.m_sleepingCount + 1 < 2 ^ 32 := by
  have bounded : state.shared.m_sleepingCount + 1 ≤ size.m_workerCount := by
    -- the worker could be counted as well
    rw [law.sleeping]
    have added := Counting.total_update PoolThread.counted
      (fun worker => state.thread (.worker worker)) worker ⟨[.loading], none⟩
    have single : @PoolThread.counted size ⟨[.loading], none⟩ = 1 := rfl
    rw [uncounted, single, Nat.add_zero] at added
    rw [← added, Counting.total]
    calc _ ≤ ∑ _other : Fin size.m_workerCount, 1 := Finset.sum_le_sum fun other _ => by
          rw [Function.update_apply]
          split
          next => exact le_rfl
          next => exact law.counted_le_one other
      _ = size.m_workerCount := by simp
  exact lt_of_le_of_lt bounded size.isCount

variable {mover : ThreadId size} {choice : PoolChoice size} {frame : PoolFrame size}
  {frames rest : List (PoolFrame size)} {after : Option PoolTask}

theorem sleeping_step (law : ParkingLaw state)
    (moves : state.Moves next mover choice frame frames rest after) :
    next.shared.m_sleepingCount =
      Counting.total PoolThread.counted fun worker => next.thread (.worker worker) := by
  have isStack := moves.isStack
  have balance (bound : state.shared.m_sleepingCount + 1 < 2 ^ 32 ∨ frame ≠ .counting)
      (counted : frame.isCounted = true → 0 < state.shared.m_sleepingCount) :=
    moves.move.sleeping bound counted
  cases isWorker : mover.currentWorkerIndex with
  | some worker =>
      obtain rfl := ThreadId.of_currentWorkerIndex isWorker
      have split : (state.thread (.worker worker)).counted =
          [frame].countP PoolFrame.isCounted + rest.countP PoolFrame.isCounted := by
        rw [PoolThread.counted, isStack, ← List.singleton_append, List.countP_append]
      have summed := Counting.total_update PoolThread.counted
        (fun worker => state.thread (.worker worker)) worker ⟨frames ++ rest, after⟩
      have replaced : (fun other => next.thread (.worker other)) =
          Function.update (fun other => state.thread (.worker other)) worker
            ⟨frames ++ rest, after⟩ := by
        funext other
        rw [moves.moved]
        by_cases same : other = worker
        · simp [same]
        · simp [same]
      have joined : PoolThread.counted ⟨frames ++ rest, after⟩ =
          frames.countP PoolFrame.isCounted + rest.countP PoolFrame.isCounted :=
        List.countP_append
      rw [← replaced, split, joined, ← law.sleeping] at summed
      have onward := balance ?_ ?_
      · omega
      · by_cases isCounting : frame = .counting
        · subst isCounting
          refine .inl (law.sleeping_lt worker ?_)
          have based := law.based worker (by simp [isStack])
          rw [isStack] at based
          rw [split, eq_nil_of_isBased based rfl]
          rfl
        · exact .inr isCounting
      · intro counted
        rw [law.sleeping]
        refine Counting.total_pos.mpr ⟨worker, ?_⟩
        rw [split]
        simp [counted]
  | none =>
      have plain := law.plain mover isWorker
      rw [isStack] at plain
      have isPlain := plain frame (List.mem_cons_self ..)
      have uncounted : frame.isCounted = false := by
        by_contra counted
        rw [isAnchor_of_isCounted (eq_true_of_ne_false counted)] at isPlain
        cases isPlain
      have none : frames.countP PoolFrame.isCounted = 0 := by
        refine List.countP_eq_zero.mpr fun other member counted => ?_
        have isAnchor := isAnchor_of_isCounted counted
        rw [moves.move.plain isPlain other member] at isAnchor
        cases isAnchor
      have onward := balance (.inr (by rintro rfl; cases isPlain)) (by simp [uncounted])
      have same : (fun worker => next.thread (.worker worker)) =
          fun worker => state.thread (.worker worker) := by
        funext worker
        refine moves.other ?_
        rintro rfl
        cases isWorker
      rw [same, ← law.sleeping]
      simp only [List.countP_singleton, uncounted, none] at onward
      exact onward

theorem step (law : ParkingLaw state)
    (moves : state.Moves next mover choice frame frames rest after) : ParkingLaw next := by
  have isStack := moves.isStack
  have calmRest : ∀ other ∈ rest, other.isCounted = false := fun other member =>
    law.calm mover other (by simpa [isStack] using member)
  refine ⟨fun worker nonempty => ?_, fun other notWorker => ?_, fun other => ?_,
    law.sleeping_step moves⟩
  · by_cases isMover : ThreadId.worker worker = mover
    · subst isMover
      have before := law.based worker (by simp [isStack])
      rw [isStack] at before
      rw [moves.here] at nonempty ⊢
      cases isAnchor : frame.isAnchor with
      | true =>
          have alone := eq_nil_of_isBased before isAnchor
          subst alone
          rcases moves.move.based isAnchor with based | ⟨-, rfl⟩
          · rwa [List.append_nil]
          · exact absurd rfl nonempty
      | false => exact isBased_append (moves.move.plain isAnchor) (isBased_rest before isAnchor)
    · rw [moves.other isMover] at nonempty ⊢
      exact law.based worker nonempty
  · intro query member
    rcases moves.mem_cases member with ⟨rfl, isNew⟩ | isOld
    · exact moves.move.plain (law.plain other notWorker frame moves.mem_stack) query isNew
    · exact law.plain other notWorker query isOld
  · by_cases isMover : other = mover
    · subst isMover
      rw [moves.here]
      intro query member
      cases framesEq : frames with
      | nil =>
          rw [framesEq, List.nil_append] at member
          exact calmRest query (List.mem_of_mem_tail member)
      | cons top others =>
          rw [framesEq, List.cons_append, List.tail_cons] at member
          rcases List.mem_append.mp member with isNew | isOld
          · exact moves.move.calm query (by simpa [framesEq] using isNew)
          · exact calmRest query isOld
    · rw [moves.other isMover]
      exact law.calm other

end ParkingLaw

end LightFlow
