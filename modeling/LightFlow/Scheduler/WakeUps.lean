import LightFlow.Scheduler.Notifying

/-!
# Wake-ups of parked workers

A worker that goes on to park after it found the global queues empty is either blocked, and
then reached by `notify_one`, or finds that `m_wakeSignal` changed since it loaded it.
-/

namespace LightFlow

variable {size : PoolSize}

/-- Each task in the global queue is one that a call pushed and has still to wake workers for: it
has not bumped `m_wakeSignal` yet. -/
def PoolState.StillOwed (state : PoolState size) (priority : TaskPriority) : Prop :=
  ∀ task ∈ state.shared.global priority, ∃ self, ∃ frame ∈ (state.thread self).stack,
    frame.isWaking = false ∧ task ∈ frame.owed

instance (state : PoolState size) (priority : TaskPriority) :
    Decidable (state.StillOwed priority) :=
  inferInstanceAs (Decidable (∀ task ∈ state.shared.global priority, _))

/-- A disturbed operation of the frame misses no task that its worker must see before it parks.
Its pops return null only on an empty deque, and its dequeues only while each task in the queue is
still to be notified for, as a task is whose cell is not published yet. -/
def PoolFrame.Thorough (state : PoolState size) (self : ThreadId size) : PoolFrame size → Prop
  | .finding (.parking _) (.pop priority) | .finding (.parking _) (.popStolen priority) =>
      ∀ worker ∈ self.currentWorkerIndex, state.shared.deque worker priority = []
  | .finding (.parking _) (.dequeue priority) => state.StillOwed priority
  | _ => True

instance (state : PoolState size) (self : ThreadId size) :
    DecidablePred (PoolFrame.Thorough state self)
  | .finding (.parking _) (.pop _) | .finding (.parking _) (.popStolen _) =>
      inferInstanceAs (Decidable (∀ worker ∈ _, _))
  | .finding (.parking _) (.dequeue priority) =>
      inferInstanceAs (Decidable (state.StillOwed priority))
  | .finding (.parking _) (.stealBatch _ _) | .finding (.parking _) (.transfer _ _)
  | .finding (.parking _) (.steal _ _) | .finding .top _ | .finding (.spinning _) _
  | .finding .polled _ | .finding .helping _ | .checking | .counting | .loading | .rechecking _
  | .parking _ | .blocked _ | .uncounting _ | .draining _ | .continuing | .body _ | .helping
  | .submitting _ _ _ | .returning _ | .notifying _ _ | .bumping _ _ | .waking _ _
  | .wakingAll _ | .ioBumping | .ioWaking | .ioWakingAll | .ioChecking | .ioDequeuing
  | .ioLoading | .ioRechecking _ | .ioTesting _ | .ioParking _ | .ioBlocked _ | .ioDraining
  | .stopping | .stopBumping | .joining => inferInstanceAs (Decidable True)

/-- No bump of `m_wakeSignal` brings back the value that a worker has loaded for its wait, a
batch has less than `2 ^ 32` tasks, and no search before parking misses a task.  The first is about
the 32 bits of the futex word; the last holds where each operation on a deque or queue is atomic. -/
def Distinguishing (state : PoolState size) : ThreadId size × PoolChoice size → Prop
  | (self, choice) =>
      (∀ toWake ∈ (state.thread self).stack.head?.bind PoolFrame.bumps,
        ∀ worker : Fin size.m_workerCount,
          ∀ currentSignal ∈
              (state.thread (.worker worker)).stack.head?.bind PoolFrame.loadedSignal,
            currentSignal ≠ state.shared.m_wakeSignal →
              u32 (state.shared.m_wakeSignal + toWake) ≠ currentSignal) ∧
      match choice with
      | .submit _ requests => requests.length < 2 ^ 32
      | .go _ true _ _ => ∀ frame ∈ (state.thread self).stack.head?, frame.Thorough state self
      | _ => True

instance (state : PoolState size) : DecidablePred (Distinguishing state)
  | (_, .submit _ _) => inferInstanceAs (Decidable (_ ∧ _ < _))
  | (_, .go _ true _ _) => inferInstanceAs (Decidable (_ ∧ ∀ _ ∈ _, _))
  | (_, .go _ false _ _) | (_, .stage _) | (_, .notify _) | (_, .help) | (_, .leave)
  | (_, .shutdown) | (_, .finish) => inferInstanceAs (Decidable (_ ∧ True))

theorem Distinguishing.thorough {state : PoolState size} {self : ThreadId size}
    {choice : PoolChoice size} (guarded : Distinguishing state (self, choice))
    (isLost : choice.lost = true) {frame : PoolFrame size}
    (isTop : (state.thread self).stack.head? = some frame) : frame.Thorough state self := by
  cases choice with
  | go start lost worker ioWorker =>
      cases isLost
      exact guarded.2 frame isTop
  | _ => cases isLost

/-- The worker will look into the global queue again, or find that `m_wakeSignal` changed. -/
def PoolState.Alert (state : PoolState size) (priority : TaskPriority)
    (worker : Fin size.m_workerCount) : Prop :=
  state.shared.parked worker = false ∧ ∀ currentSignal,
    pastTop priority (state.thread (.worker worker)).stack = some currentSignal →
      currentSignal ≠ state.shared.m_wakeSignal

/-- How often the calls of a thread carry the task. -/
def PoolThread.carries (task : PoolTask) (thread : PoolThread size) : Nat :=
  (thread.stack.map (PoolFrame.carries task)).sum

/-- Queued tasks have somebody who notifies, or a worker that looks again. -/
structure WakeLaw (state : PoolState size) : Prop where
  parking : ParkingLaw state
  /-- What a worker that goes on to park found empty is empty. -/
  dry : ∀ worker priority, dryTop priority (state.thread (.worker worker)).stack = true →
    state.shared.deque worker priority = []
  signal : state.shared.m_wakeSignal < 2 ^ 32
  inRange : ∀ self, ∀ frame ∈ (state.thread self).stack, frame.InRange
  parked : ∀ worker, state.shared.parked worker = true →
    ∃ currentSignal, (state.thread (.worker worker)).stack.head? = some (.blocked currentSignal)
  /-- Tasks have different numbers. -/
  numbers : ∀ self, ∀ frame ∈ (state.thread self).stack, ∀ task : PoolTask,
    0 < frame.carries task → task.number < state.shared.nextNumber
  single : ∀ task, Counting.total (PoolThread.carries task) state.thread ≤ 1
  woken : ∀ self, ∀ frame ∈ (state.thread self).stack, frame.isWaking = true →
    ∀ task ∈ frame.owed, ∀ priority, task ∈ state.shared.global priority →
      ∀ worker currentSignal,
        pastTop priority (state.thread (.worker worker)).stack = some currentSignal →
          currentSignal ≠ state.shared.m_wakeSignal
  queued : ∀ priority, ∀ task ∈ state.shared.global priority,
    (∃ self, ∃ frame ∈ (state.thread self).stack, task ∈ frame.owed) ∨
      ∃ worker, state.Alert priority worker

namespace WakeLaw

variable {state next : PoolState size} {mover : ThreadId size} {choice : PoolChoice size}
  {frame : PoolFrame size} {frames rest : List (PoolFrame size)} {after : Option PoolTask}

theorem initial : WakeLaw (PoolState.initial size) where
  parking := .initial
  dry := fun _ _ _ => rfl
  signal := Nat.two_pow_pos 32
  inRange := fun self frame member => by
    cases self <;> rw [List.mem_singleton.mp member] <;> trivial
  parked := fun worker isParked => by cases isParked
  numbers := fun self frame member task carried => by
    cases self <;> rw [List.mem_singleton.mp member] at carried <;> cases carried
  single := fun task => by
    refine le_of_eq_of_le (Counting.total_eq_zero.mpr fun self => ?_) (Nat.zero_le 1)
    cases self <;> rfl
  woken := fun self frame member isWaking => by
    cases self <;> rw [List.mem_singleton.mp member] at isWaking <;> cases isWaking
  queued := fun priority task member => by cases member

/-- Where a worker is past a global queue, it was so before, or the tasks in the queue are still
to be notified for. -/
theorem past_step (law : ParkingLaw state)
    (moves : state.Moves next mover choice frame frames rest after)
    (guarded : Distinguishing state (mover, choice)) {priority : TaskPriority}
    {worker : Fin size.m_workerCount} {currentSignal : Nat}
    (isPast : pastTop priority (next.thread (.worker worker)).stack = some currentSignal) :
    pastTop priority (state.thread (.worker worker)).stack = some currentSignal ∨
      next.StillOwed priority := by
  by_cases isMover : ThreadId.worker worker = mover
  · subst isMover
    have isTop : (state.thread (.worker worker)).stack.head? = some frame := by
      rw [moves.isStack, List.head?_cons]
    rw [moves.here] at isPast
    rcases moves.move.past (fun other member => law.calm (.worker worker) other (by
        simpa [moves.isStack] using member)) isPast with before | empty | ⟨isLost, rfl, same⟩
    · rw [moves.isStack]
      exact .inl before
    · refine .inr fun task member => ?_
      rw [empty] at member
      cases member
    · -- the dequeue was disturbed, and the threads with the notifications did not move
      refine .inr fun task member => ?_
      rw [same] at member
      obtain ⟨query, owing, inStack, notWaking, isOwed⟩ := guarded.thorough isLost isTop task member
      refine ⟨query, owing, moves.mem_of_ne inStack fun _ isFrame => ?_, notWaking, isOwed⟩
      rw [isFrame] at isOwed
      cases isOwed
  · rw [moves.other isMover] at isPast
    exact .inl isPast

/-- A worker that compares an old value still does after the step. -/
theorem stale_step
    (moves : state.Moves next mover choice frame frames rest after)
    (guarded : Distinguishing state (mover, choice)) {priority : TaskPriority}
    {worker : Fin size.m_workerCount} {currentSignal : Nat}
    (isPast : pastTop priority (state.thread (.worker worker)).stack = some currentSignal)
    (stale : currentSignal ≠ state.shared.m_wakeSignal) :
    currentSignal ≠ next.shared.m_wakeSignal := by
  rcases moves.move.signal with same | ⟨toWake, bumps, bumped⟩
  · rwa [same]
  · rw [bumped]
    cases isStack : (state.thread (.worker worker)).stack with
    | nil =>
        rw [isStack] at isPast
        cases isPast
    | cons top others =>
        rw [isStack] at isPast
        have loaded := (PoolFrame.counted_of_past isPast).2
        exact (guarded.1 toWake (by simpa [moves.isStack] using bumps) worker currentSignal
          (by simpa [isStack] using loaded) stale).symm

/-- A worker that looks again still does after the step, or the tasks in the queue are still to be
notified for. -/
theorem alert_step (law : WakeLaw state)
    (moves : state.Moves next mover choice frame frames rest after)
    (guarded : Distinguishing state (mover, choice)) {priority : TaskPriority}
    {worker : Fin size.m_workerCount} (alert : state.Alert priority worker)
    (settled : ¬ next.StillOwed priority) : next.Alert priority worker := by
  obtain ⟨notParked, stale⟩ := alert
  refine ⟨?_, fun currentSignal isPast => ?_⟩
  · by_contra isParked
    rcases moves.move.parked (eq_true_of_ne_false isParked) with before | ⟨rfl, rfl, -⟩
    · rw [notParked] at before
      cases before
    · refine stale state.shared.m_wakeSignal ?_ rfl
      rw [moves.isStack]
      rfl
  · have before := (past_step law.parking moves guarded isPast).resolve_right settled
    exact stale_step moves guarded before (stale currentSignal before)

/-- What a worker found empty before it parks stays empty. -/
theorem dry_step (law : WakeLaw state)
    (moves : state.Moves next mover choice frame frames rest after)
    (guarded : Distinguishing state (mover, choice)) {worker : Fin size.m_workerCount}
    {priority : TaskPriority}
    (isDry : dryTop priority (next.thread (.worker worker)).stack = true) :
    next.shared.deque worker priority = [] := by
  by_cases isMover : ThreadId.worker worker = mover
  · subst isMover
    have isTop : (state.thread (.worker worker)).stack.head? = some frame := by
      rw [moves.isStack, List.head?_cons]
    rw [moves.here] at isDry
    refine moves.move.dry rfl (fun isLost currentSignal query pops => ?_)
      (fun query isDry => law.dry worker query ?_) (fun other member => ?_) priority isDry
    · have thorough := guarded.thorough isLost isTop
      rcases pops with rfl | rfl <;> exact thorough worker rfl
    · rw [moves.isStack]
      exact isDry
    · exact law.parking.calm (.worker worker) other (by simpa [moves.isStack] using member)
  · rw [moves.other isMover] at isDry
    have empty := law.dry worker priority isDry
    refine List.eq_nil_iff_forall_not_mem.mpr fun task member => ?_
    have old := moves.move.deque_other (Ne.symm isMover) member
    rw [empty] at old
    cases old

theorem signal_step (law : WakeLaw state)
    (moves : state.Moves next mover choice frame frames rest after) :
    next.shared.m_wakeSignal < 2 ^ 32 := by
  rcases moves.move.signal with same | ⟨toWake, -, bumped⟩
  · rw [same]
    exact law.signal
  · rw [bumped]
    exact u32_lt _

theorem inRange_step (law : WakeLaw state)
    (moves : state.Moves next mover choice frame frames rest after)
    (guarded : Distinguishing state (mover, choice)) (query : ThreadId size) :
    ∀ top ∈ (next.thread query).stack, top.InRange := by
  have sleeping : state.shared.m_sleepingCount < 2 ^ 32 := by
    rw [law.parking.sleeping]
    refine lt_of_le_of_lt ?_ size.isCount
    calc Counting.total PoolThread.counted _ ≤ ∑ _worker : Fin size.m_workerCount, 1 :=
          Finset.sum_le_sum fun worker _ => law.parking.counted_le_one worker
      _ = size.m_workerCount := by simp
  intro top member
  rcases moves.mem_cases member with ⟨-, isNew⟩ | isOld
  · refine moves.move.inRange ?_ sleeping (law.inRange mover frame moves.mem_stack) top isNew
    rintro kind requests rfl
    exact guarded.2
  · exact law.inRange query top isOld

theorem parked_step (law : WakeLaw state)
    (moves : state.Moves next mover choice frame frames rest after)
    {worker : Fin size.m_workerCount} (isParked : next.shared.parked worker = true) :
    ∃ currentSignal,
      (next.thread (.worker worker)).stack.head? = some (.blocked currentSignal) := by
  rcases moves.move.parked isParked with before | ⟨rfl, -, rfl⟩
  · obtain ⟨currentSignal, blocked⟩ := law.parked worker before
    by_cases isMover : ThreadId.worker worker = mover
    · -- a blocked worker does not move before it is notified
      subst isMover
      rw [moves.isStack] at blocked
      cases blocked
      rw [moves.move.notified rfl] at before
      cases before
    · rw [moves.other isMover]
      exact ⟨currentSignal, blocked⟩
  · refine ⟨state.shared.m_wakeSignal, ?_⟩
    rw [moves.here]
    rfl

/-- New tasks have new numbers, and no task is carried twice. -/
theorem carried_step (law : WakeLaw state)
    (moves : state.Moves next mover choice frame frames rest after) (task : PoolTask) :
    (∀ query, ∀ top ∈ (next.thread query).stack, 0 < top.carries task →
        task.number < next.shared.nextNumber) ∧
      Counting.total (PoolThread.carries task) next.thread ≤ 1 := by
  obtain ⟨grows, carried⟩ := moves.move.carries task
  have small {query : ThreadId size} {top : PoolFrame size}
      (member : top ∈ (state.thread query).stack) (carries : 0 < top.carries task) :
      task.number < next.shared.nextNumber :=
    Nat.lt_of_lt_of_le (law.numbers query top member task carries) grows
  have isStack : (state.thread mover).carries task =
      frame.carries task + (rest.map (PoolFrame.carries task)).sum := by
    rw [PoolThread.carries, moves.isStack, List.map_cons, List.sum_cons]
  have joined : PoolThread.carries task ⟨frames ++ rest, after⟩ =
      (frames.map (PoolFrame.carries task)).sum + (rest.map (PoolFrame.carries task)).sum := by
    rw [PoolThread.carries, List.map_append, List.sum_append]
  have summed := Counting.total_update (PoolThread.carries task) state.thread mover
    ⟨frames ++ rest, after⟩
  rw [← moves.moved, isStack, joined] at summed
  refine ⟨fun query top member carries => ?_, ?_⟩
  · rcases moves.mem_cases member with ⟨-, isNew⟩ | isOld
    · rcases carried with kept | ⟨-, below, -⟩
      · have part := Counting.le_sum_map isNew (PoolFrame.carries task)
        exact small moves.mem_stack (by omega)
      · exact below
    · exact small isOld carries
  · have single := law.single task
    rcases carried with kept | ⟨above, -, once⟩
    · omega
    · -- a new task was carried by nobody
      have none : Counting.total (PoolThread.carries task) state.thread = 0 := by
        refine Counting.total_eq_zero.mpr fun query => Counting.sum_map_eq_zero fun top member => ?_
        by_contra carries
        have below := law.numbers query top member task (Nat.pos_of_ne_zero carries)
        omega
      have zero := Counting.le_total (PoolThread.carries task) state.thread mover
      rw [isStack] at zero
      omega

/-- No two calls carry the same task. -/
theorem eq_of_carries {task : PoolTask}
    (single : Counting.total (PoolThread.carries task) state.thread ≤ 1)
    {query other : ThreadId size} {top bottom : PoolFrame size}
    (member : top ∈ (state.thread query).stack) (inOther : bottom ∈ (state.thread other).stack)
    (carries : 0 < top.carries task) (carriesToo : 0 < bottom.carries task) : top = bottom := by
  by_contra different
  by_cases same : query = other
  · subst same
    have all := Counting.le_total (PoolThread.carries task) state.thread query
    have both := Counting.add_le_sum_map member inOther different (PoolFrame.carries task)
    rw [PoolThread.carries] at all
    omega
  · have all := Counting.add_le_total (PoolThread.carries task) state.thread same
    have one := Counting.le_sum_map member (PoolFrame.carries task)
    have two := Counting.le_sum_map inOther (PoolFrame.carries task)
    rw [PoolThread.carries, PoolThread.carries] at all
    omega

theorem carries_of_owed {task : PoolTask} {top : PoolFrame size} (isOwed : task ∈ top.owed) :
    0 < top.carries task := by
  cases top <;> first
    | exact Nat.add_pos_right _ (List.count_pos_iff.mpr isOwed)
    | exact List.count_pos_iff.mpr isOwed

/-- A task that is yet to be pushed is owed by nobody. -/
theorem not_owed (law : WakeLaw state)
    (moves : state.Moves next mover choice frame frames rest after) {kind : Submit}
    {todo owed : List PoolTask} (isSubmit : frame = .submitting kind todo owed)
    {task : PoolTask} (isTodo : task ∈ todo) {query : ThreadId size} {top : PoolFrame size}
    (member : top ∈ (state.thread query).stack) (isWaking : top.isWaking = true) :
    task ∉ top.owed := by
  intro isOwed
  have todoCarries : 0 < frame.carries task := by
    rw [isSubmit]
    exact Nat.add_pos_left (List.count_pos_iff.mpr isTodo) _
  have same := eq_of_carries (law.single task) member moves.mem_stack (carries_of_owed isOwed)
    todoCarries
  rw [same, isSubmit] at isWaking
  cases isWaking

/-- A task that a call wakes workers for is not still owed. -/
theorem not_stillOwed (law : WakeLaw state)
    (moves : state.Moves next mover choice frame frames rest after) {query : ThreadId size}
    {top : PoolFrame size} (member : top ∈ (next.thread query).stack)
    (isWaking : top.isWaking = true) {task : PoolTask} (isOwed : task ∈ top.owed)
    {priority : TaskPriority} (queued : task ∈ next.shared.global priority) :
    ¬ next.StillOwed priority := by
  intro still
  obtain ⟨other, owing, inStack, notWaking, owesToo⟩ := still task queued
  have same := eq_of_carries (law.carried_step moves task).2 member inStack
    (carries_of_owed isOwed) (carries_of_owed owesToo)
  rw [← same, isWaking] at notWaking
  cases notWaking

/-- Where a call has changed `m_wakeSignal` for a queued task, no worker past the queue
compares the present value. -/
theorem woken_step (law : WakeLaw state)
    (moves : state.Moves next mover choice frame frames rest after)
    (guarded : Distinguishing state (mover, choice)) {query : ThreadId size}
    {top : PoolFrame size} (member : top ∈ (next.thread query).stack)
    (isWaking : top.isWaking = true) {task : PoolTask} (isOwed : task ∈ top.owed)
    {priority : TaskPriority} (queued : task ∈ next.shared.global priority)
    {worker : Fin size.m_workerCount} {currentSignal : Nat}
    (isPast : pastTop priority (next.thread (.worker worker)).stack = some currentSignal) :
    currentSignal ≠ next.shared.m_wakeSignal := by
  have before := (past_step law.parking moves guarded isPast).resolve_right
    (law.not_stillOwed moves member isWaking isOwed queued)
  rcases moves.mem_cases member with ⟨rfl, isNew⟩ | isOld
  · -- the task was in the queue before, as the mover pushes nothing
    have old : task ∈ state.shared.global priority := by
      rcases moves.move.queues queued with old | ⟨⟨kind, todo, owed, rfl, -⟩, -⟩
      · exact old
      · rcases moves.move.woken isNew isWaking with ⟨wakes, -⟩ | ⟨_, bumping, -⟩ | none
        · cases wakes
        · cases bumping
        · rw [none] at isOwed
          cases isOwed
    rcases moves.move.woken isNew isWaking with ⟨wakes, same, -⟩ | ⟨toWake, rfl, bumped⟩ | none
    · exact stale_step moves guarded before
        (law.woken query frame moves.mem_stack wakes task (same ▸ isOwed) priority old worker
          currentSignal before)
    · by_cases fresh : currentSignal = state.shared.m_wakeSignal
      · -- a fresh value is not the bumped one
        have bounds := law.inRange query _ moves.mem_stack
        have small := law.signal
        simp only [PoolFrame.InRange] at bounds
        rw [bumped, fresh, u32]
        omega
      · exact stale_step moves guarded before fresh
    · rw [none] at isOwed
      cases isOwed
  · refine stale_step moves guarded before ?_
    rcases moves.move.queues queued with old | ⟨⟨kind, todo, owed, isSubmit, isTodo⟩, -⟩
    · exact law.woken query top isOld isWaking task isOwed priority old worker currentSignal before
    · exact absurd isOwed (law.not_owed moves isSubmit isTodo isOld isWaking)

/-- A worker that is not counted looks into the global queues before it parks. -/
theorem alert_of_sleeping (law : ParkingLaw state)
    (parked : ∀ worker, state.shared.parked worker = true →
      ∃ currentSignal,
        (state.thread (.worker worker)).stack.head? = some (.blocked currentSignal))
    (none : state.shared.m_sleepingCount = 0) (priority : TaskPriority)
    (worker : Fin size.m_workerCount) : state.Alert priority worker := by
  have uncounted : (state.thread (.worker worker)).counted = 0 := by
    rw [law.sleeping] at none
    exact Counting.total_eq_zero.mp none worker
  have notCounted {top : PoolFrame size} (member : top ∈ (state.thread (.worker worker)).stack) :
      top.isCounted ≠ true :=
    List.countP_eq_zero.mp uncounted top member
  refine ⟨?_, fun currentSignal isPast => ?_⟩
  · by_contra isParked
    obtain ⟨currentSignal, blocked⟩ := parked worker (eq_true_of_ne_false isParked)
    exact notCounted (List.mem_of_mem_head? blocked) rfl
  · cases isStack : (state.thread (.worker worker)).stack with
    | nil =>
        rw [isStack] at isPast
        cases isPast
    | cons top others =>
        rw [isStack] at isPast
        refine absurd (PoolFrame.counted_of_past isPast).1 (notCounted ?_)
        rw [isStack]
        exact List.mem_cons_self ..

/-- A queued task is owed for, or a worker looks again. -/
theorem queued_step (law : WakeLaw state)
    (moves : state.Moves next mover choice frame frames rest after)
    (guarded : Distinguishing state (mover, choice)) {priority : TaskPriority} {task : PoolTask}
    (queued : task ∈ next.shared.global priority) :
    (∃ query, ∃ top ∈ (next.thread query).stack, task ∈ top.owed) ∨
      ∃ worker, next.Alert priority worker := by
  by_cases still : next.StillOwed priority
  · obtain ⟨query, top, member, -, isOwed⟩ := still task queued
    exact .inl ⟨query, top, member, isOwed⟩
  rcases moves.move.queues queued with old | ⟨-, top, isNew, isOwed⟩
  · rcases law.queued priority task old with ⟨query, top, member, isOwed⟩ | ⟨worker, alert⟩
    · by_cases isMoved : query = mover ∧ top = frame
      · obtain ⟨rfl, rfl⟩ := isMoved
        rcases moves.move.owes (law.inRange query top member) isOwed with
          ⟨onward, isNew, owes⟩ | none | ⟨wakes, worker, notParked⟩
        · exact .inl ⟨query, onward, moves.mem_new isNew, owes⟩
        · exact .inr ⟨⟨0, size.hasWorker⟩, alert_of_sleeping (law.parking.step moves)
            (fun _ => law.parked_step moves) none priority _⟩
        · refine .inr ⟨worker, notParked, fun currentSignal isPast => ?_⟩
          have before := (past_step law.parking moves guarded isPast).resolve_right still
          exact stale_step moves guarded before
            (law.woken query top member wakes task isOwed priority old worker _ before)
      · refine .inl ⟨query, top, moves.mem_of_ne member fun isMover isFrame => ?_, isOwed⟩
        exact isMoved ⟨isMover, isFrame⟩
    · exact .inr ⟨worker, law.alert_step moves guarded alert still⟩
  · exact .inl ⟨mover, top, moves.mem_new isNew, isOwed⟩

theorem step (law : WakeLaw state)
    (moves : state.Moves next mover choice frame frames rest after)
    (guarded : Distinguishing state (mover, choice)) : WakeLaw next where
  parking := law.parking.step moves
  dry := fun _ _ isDry => law.dry_step moves guarded isDry
  signal := law.signal_step moves
  inRange := law.inRange_step moves guarded
  parked := fun _ => law.parked_step moves
  numbers := fun query top member task => (law.carried_step moves task).1 query top member
  single := fun task => (law.carried_step moves task).2
  woken := fun _ _ member isWaking _ isOwed _ queued _ _ isPast =>
    law.woken_step moves guarded member isWaking isOwed queued isPast
  queued := fun _ _ => law.queued_step moves guarded

end WakeLaw

theorem wakeLaw_of_reachable {state : PoolState size}
    (reachable : (poolMachine size).ReachableBy Distinguishing state) : WakeLaw state := by
  refine reachable.invariant ?_ ?_
  · rintro state rfl
    exact .initial
  · rintro state ⟨mover, choice⟩ next law guarded stepped
    obtain ⟨frame, frames, rest, after, moves⟩ := PoolState.Moves.of_step stepped
    exact law.step moves guarded

/-- The deques of a parked worker are empty, and when all workers are parked, a task in a
global queue is one that its thread has not finished to notify for. -/
def PoolState.NoLostWakeUp (state : PoolState size) : Prop :=
  (∀ worker, state.shared.parked worker = true → ∀ priority,
    state.shared.deque worker priority = []) ∧
  ((∀ worker, state.shared.parked worker = true) → ∀ priority,
    ∀ task ∈ state.shared.global priority,
      ∃ self, ∃ frame ∈ (state.thread self).stack, task ∈ frame.owed)

/-- As long as `m_wakeSignal` does not return to a value that a worker has loaded for its wait,
no wake-up is lost. -/
theorem no_lost_wake_up {state : PoolState size}
    (reachable : (poolMachine size).ReachableBy Distinguishing state) : state.NoLostWakeUp := by
  have law := wakeLaw_of_reachable reachable
  refine ⟨fun worker isParked priority => ?_, fun allParked priority task queued => ?_⟩
  · obtain ⟨currentSignal, blocked⟩ := law.parked worker isParked
    obtain ⟨rest, isStack⟩ := List.head?_eq_some_iff.mp blocked
    refine law.dry worker priority ?_
    rw [isStack]
    rfl
  · rcases law.queued priority task queued with owed | ⟨worker, notParked, -⟩
    · exact owed
    · rw [allParked worker] at notParked
      cases notParked

/-! ## A signal that returns to its value -/

section Wrap

/-- One worker and one external thread. -/
abbrev onePool : PoolSize where
  m_workerCount := 1
  m_ioWorkerCount := 0
  externals := 1
  hasWorker := Nat.one_pos
  isCount := oneWorker_isCount

/-- A step that decides nothing. -/
abbrev goOn : PoolChoice onePool := .go 0 false none none

/-- The worker finds nothing and is about to wait. -/
def parkingRun : List (ThreadId onePool × PoolChoice onePool) :=
  List.replicate 1286 (.worker 0, goOn) ++ [(.worker 0, .finish)] ++
    List.replicate 13 (.worker 0, goOn)

/-- The worker blocks, and then a task is pushed. -/
theorem no_lost_wake_up_pushed : ∃ state : PoolState onePool,
    (∀ worker, state.shared.parked worker = true) ∧ state.shared.global .normal ≠ [] ∧
      state.NoLostWakeUp := by
  obtain ⟨state, reachable, parked, queued⟩ : ∃ state,
      (poolMachine onePool).ReachableBy Distinguishing state ∧
        (∀ worker, state.shared.parked worker = true) ∧ state.shared.global .normal ≠ [] :=
    Machine.ReachableBy.exists_of_run (.start rfl)
      (parkingRun ++ [(.worker 0, goOn), (.external 0, .submit .schedule [{}]),
        (.external 0, goOn)])
      (by decide +kernel)
  exact ⟨state, parked, queued, no_lost_wake_up reachable⟩

/-- The worker is about to wait with the value 0, and the external thread is in a call. -/
def aboutToWait (shared : PoolShared onePool) (stack : List (PoolFrame onePool)) :
    PoolState onePool where
  shared
  thread
    | .external _ => { stack }
    | _ => { stack := [.parking 0] }

theorem aboutToWait_step {shared next : PoolShared onePool} {frame : PoolFrame onePool}
    {frames rest : List (PoolFrame onePool)} {choice : PoolChoice onePool}
    (reachable : (poolMachine onePool).Reachable (aboutToWait shared (frame :: rest)))
    (fired : ∀ joined, frame.fire shared (.external 0) none (PoolState.inlines rest) joined choice =
      some { shared := next, frames, t_nextInlineTask := none }) :
    (poolMachine onePool).Reachable (aboutToWait next (frames ++ rest)) := by
  suffices stepped : (poolMachine onePool).step (aboutToWait shared (frame :: rest))
      (.external 0, choice) = some (aboutToWait next (frames ++ rest)) from
    .step reachable trivial stepped
  simp only [poolMachine, PoolState.step, aboutToWait]
  rw [fired, Option.map_some]
  congr 2
  funext self
  cases self with
  | external index =>
      obtain rfl := Subsingleton.elim index 0
      rw [Function.update_self]
  | worker | io => rfl

/-- Pushed tasks and bumps, while the worker is about to wait. -/
structure Pushed (shared : PoolShared onePool) (tasks bumps : Nat) : Prop where
  sleeping : shared.m_sleepingCount = 1
  signal : shared.m_wakeSignal = u32 bumps
  parked : ∀ worker, shared.parked worker = false
  queue : (shared.global .high).length = tasks

/-- `notifyWorker(1)` finds nobody blocked. -/
theorem aboutToWait_notify {shared : PoolShared onePool} {owed : List PoolTask}
    {rest : List (PoolFrame onePool)} {tasks bumps : Nat} (pushed : Pushed shared tasks bumps)
    (reachable : (poolMachine onePool).Reachable
      (aboutToWait shared (.notifying 1 owed :: rest))) :
    ∃ next, (poolMachine onePool).Reachable (aboutToWait next rest) ∧
      Pushed next tasks (bumps + 1) := by
  have bumping := @aboutToWait_step shared shared (.notifying 1 owed) [.bumping 1 owed] rest goOn
    reachable fun joined => by simp [PoolFrame.fire, pushed.sleeping]
  have waking := @aboutToWait_step _ _ _ [.waking 0 owed] _ goOn bumping fun joined => rfl
  have returned := @aboutToWait_step _
    { shared with m_wakeSignal := u32 (shared.m_wakeSignal + 1) } _ [] _ goOn waking
    fun joined => by
      simp [PoolFrame.fire, PoolShared.notifyOne, pushed.parked, PoolFrame.wakings]
  refine ⟨_, returned, pushed.sleeping, ?_, pushed.parked, pushed.queue⟩
  show u32 (shared.m_wakeSignal + 1) = u32 (bumps + 1)
  rw [pushed.signal, u32, u32, Nat.mod_add_mod, u32]

theorem highCapacity : PoolShared.globalCapacity onePool .high = 4096 := by
  simp only [PoolShared.globalCapacity, queueCapacity]
  rw [show max 4096 16 = 2 ^ 12 from rfl, Nat.clog_pow 2 12 (by decide)]
  rfl

/-- The external thread calls `schedule` with a task of high priority. -/
theorem aboutToWait_submit {shared : PoolShared onePool} {tasks bumps : Nat}
    (pushed : Pushed shared tasks bumps)
    (reachable : (poolMachine onePool).Reachable (aboutToWait shared [.body none])) :
    ∃ next task numbers, (poolMachine onePool).Reachable
        (aboutToWait next [.submitting .schedule [task] [], .returning numbers, .body none]) ∧
      task.request = { priority := .high } ∧ Pushed next tasks bumps :=
  ⟨_, _, _, @aboutToWait_step _ _ _ _ _ (.submit .schedule [{ priority := .high }]) reachable
    fun joined => rfl, rfl, pushed.sleeping, pushed.signal, pushed.parked, pushed.queue⟩

/-- `schedule` of a task, while there is room. -/
theorem aboutToWait_schedule {shared : PoolShared onePool} {tasks bumps : Nat}
    (pushed : Pushed shared tasks bumps) (room : tasks < 4096)
    (reachable : (poolMachine onePool).Reachable (aboutToWait shared [.body none])) :
    ∃ next, (poolMachine onePool).Reachable (aboutToWait next [.body none]) ∧
      Pushed next (tasks + 1) (bumps + 1) := by
  obtain ⟨shared, task, numbers, calling, isHigh, pushed⟩ := aboutToWait_submit pushed reachable
  have queued := @aboutToWait_step shared
    (shared.setGlobal .high (shared.global .high ++ [task])) _ [.submitting .schedule [] [task]] _
    goOn calling fun joined => by
      simp [PoolFrame.fire, PoolFrame.submit, ThreadId.currentWorkerIndex, PoolShared.tryEnqueue,
        isHigh, pushed.queue, room, highCapacity, PoolFrame.pushed]
  have grown : Pushed (shared.setGlobal .high (shared.global .high ++ [task])) (tasks + 1)
      bumps :=
    ⟨pushed.sleeping, pushed.signal, pushed.parked, by simp [PoolShared.setGlobal, pushed.queue]⟩
  have awake : 0 < (shared.setGlobal .high (shared.global .high ++ [task])).m_sleepingCount :=
    grown.sleeping ▸ Nat.one_pos
  have notifying := @aboutToWait_step _
    (shared.setGlobal .high (shared.global .high ++ [task])) _ [.notifying 1 [task]] _ goOn
    queued fun joined => by simp [PoolFrame.fire, PoolFrame.submit, if_pos awake]
  obtain ⟨next, notified, bumped⟩ := aboutToWait_notify grown notifying
  exact ⟨_, @aboutToWait_step _ _ _ [] _ goOn notified fun joined => rfl, bumped.sleeping,
    bumped.signal, bumped.parked, bumped.queue⟩

/-- The queue is filled. -/
theorem aboutToWait_fill {shared : PoolShared onePool} (pushed : Pushed shared 0 0)
    (reachable : (poolMachine onePool).Reachable (aboutToWait shared [.body none])) :
    ∀ tasks ≤ 4096, ∃ next, (poolMachine onePool).Reachable (aboutToWait next [.body none]) ∧
      Pushed next tasks tasks := by
  intro tasks
  induction tasks with
  | zero => exact fun _ => ⟨shared, reachable, pushed⟩
  | succ tasks ih =>
      intro bound
      obtain ⟨next, reached, filled⟩ := ih (Nat.le_of_succ_le bound)
      exact aboutToWait_schedule filled bound reached

/-- `schedule` finds the queue full, and notifies again and again. -/
theorem aboutToWait_retry {shared : PoolShared onePool} {task : PoolTask}
    {rest : List (PoolFrame onePool)} {bumps : Nat} (pushed : Pushed shared 4096 bumps)
    (isHigh : task.request = { priority := .high })
    (reachable : (poolMachine onePool).Reachable
      (aboutToWait shared (.submitting .schedule [task] [] :: rest))) (retries : Nat) :
    ∃ next, (poolMachine onePool).Reachable
        (aboutToWait next (.submitting .schedule [task] [] :: rest)) ∧
      Pushed next 4096 (bumps + retries) := by
  induction retries with
  | zero => exact ⟨shared, reachable, pushed⟩
  | succ retries ih =>
      obtain ⟨next, reached, filled⟩ := ih
      have notifying := @aboutToWait_step next next (.submitting .schedule [task] [])
        [.notifying 1 [], .submitting .schedule [task] []] rest goOn reached fun joined => by
          simp [PoolFrame.fire, PoolFrame.submit, ThreadId.currentWorkerIndex,
            PoolShared.tryEnqueue, isHigh, filled.queue, highCapacity]
      exact aboutToWait_notify filled notifying

/-- The worker blocks when the signal has its value. -/
theorem aboutToWait_block {shared : PoolShared onePool} {stack : List (PoolFrame onePool)}
    (signal : shared.m_wakeSignal = 0)
    (reachable : (poolMachine onePool).Reachable (aboutToWait shared stack)) :
    (poolMachine onePool).Reachable
      { shared := { shared with parked := Function.update shared.parked 0 true },
        thread := Function.update (aboutToWait shared stack).thread (.worker 0)
          { stack := [.blocked 0] } } := by
  have blocking : (poolMachine onePool).step (aboutToWait shared stack) (.worker 0, goOn) = some
      { shared := { shared with parked := Function.update shared.parked 0 true },
        thread := Function.update (aboutToWait shared stack).thread (.worker 0)
          { stack := [.blocked 0] } } := by
    simp only [poolMachine, PoolState.step, aboutToWait, PoolFrame.fire, signal, if_true]
    rfl
  exact .step reachable trivial blocking

/-- The worker comes to its wait, and no task was pushed. -/
theorem aboutToWait_reached : ∃ shared, Pushed shared 0 0 ∧
    (poolMachine onePool).Reachable (aboutToWait shared [.body none]) := by
  obtain ⟨state, waiting, isWorker, isExternal, sleeping, signal, queue, parked⟩ : ∃ state,
      (poolMachine onePool).Reachable state ∧
        state.thread (.worker 0) = { stack := [.parking 0] } ∧
        state.thread (.external 0) = { stack := [.body none] } ∧
        state.shared.m_sleepingCount = 1 ∧ state.shared.m_wakeSignal = 0 ∧
        state.shared.global .high = [] ∧ ∀ worker, state.shared.parked worker = false :=
    Machine.ReachableBy.exists_of_run (.start rfl) parkingRun (by decide +kernel)
  have isWaiting : state = aboutToWait state.shared [.body none] := by
    refine congrArg (PoolState.mk state.shared) ?_
    funext self
    cases self with
    | worker worker =>
        obtain rfl := Subsingleton.elim worker 0
        exact isWorker
    | io worker => exact worker.elim0
    | external index =>
        obtain rfl := Subsingleton.elim index 0
        exact isExternal
  rw [isWaiting] at waiting
  exact ⟨state.shared, ⟨sleeping, signal, parked, by rw [queue]; rfl⟩, waiting⟩

/-- After `2 ^ 32` bumps the worker blocks on a full queue that nobody notifies for. -/
theorem not_no_lost_wake_up : ∃ state : PoolState onePool,
    (poolMachine onePool).Reachable state ∧ ¬ state.NoLostWakeUp := by
  obtain ⟨shared, pushed, waiting⟩ := aboutToWait_reached
  obtain ⟨full, reached, filled⟩ := aboutToWait_fill pushed waiting 4096 le_rfl
  obtain ⟨calling, task, numbers, submitting, isHigh, pushed⟩ := aboutToWait_submit filled reached
  obtain ⟨last, wrapped, bumped⟩ := aboutToWait_retry pushed isHigh submitting (2 ^ 32 - 4096)
  have signal : last.m_wakeSignal = 0 := bumped.signal
  refine ⟨_, aboutToWait_block signal wrapped, fun noLost => ?_⟩
  obtain ⟨task, queued⟩ := List.exists_mem_of_length_pos
    (show 0 < (last.global .high).length by rw [bumped.queue]; exact Nat.succ_pos _)
  obtain ⟨self, frame, held, isOwed⟩ := noLost.2 (fun worker => by
    obtain rfl := Subsingleton.elim worker 0
    simp only [Function.update_self]) .high task queued
  cases self with
  | worker worker =>
      obtain rfl := Subsingleton.elim worker 0
      simp only [Function.update_self, List.mem_singleton] at held
      subst held
      cases isOwed
  | io worker => exact worker.elim0
  | external index =>
      simp only [aboutToWait, ne_eq, reduceCtorEq, not_false_eq_true, Function.update_of_ne,
        List.mem_cons, List.not_mem_nil, or_false] at held
      obtain rfl | rfl | rfl := held <;> cases isOwed

end Wrap

end LightFlow
