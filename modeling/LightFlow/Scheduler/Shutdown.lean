import LightFlow.Scheduler.Holdings

/-!
# What shutdown drains

A worker leaves its loop when it finds `m_stop` set, and drains its own deques and no global
queue.  An IO worker drains the IO queue.  `shutdown` returns when all have returned.  Each drain
ends at the first null, which a disturbed pop or dequeue also returns with tasks left.
-/

namespace LightFlow

variable {size : PoolSize}

/-- When `shutdown` stopped the pool, the call had returned that handed over the task, or a task
inside of whose execution it was handed over. -/
def Promised (log : List PoolEvent) (task : PoolTask) : Prop :=
  ∃ number ∈ task.number :: task.ancestors, .returned number ∈ log.dropWhile (· ≠ .stopped)

instance (log : List PoolEvent) : DecidablePred (Promised log) :=
  fun task => inferInstanceAs (Decidable (∃ number ∈ task.number :: task.ancestors, _))

/-- After `shutdown` returned, what it had to drain was executed exactly once. -/
def PoolState.Drained (state : PoolState size) : Prop :=
  .shutDown ∈ state.shared.log → ∀ task, .requested task ∈ state.shared.log →
    Promised state.shared.log task → state.shared.log.count (.executed task) = 1

/-- A frame of `workerLoop` after its main loop. -/
def PoolFrame.isLeaving : PoolFrame size → Bool
  | .draining _ | .uncounting .stopped => true
  | _ => false

/-- The worker has left its main loop. -/
def hasLeft (stack : List (PoolFrame size)) : Bool :=
  stack.isEmpty || stack.any PoolFrame.isLeaving

namespace PoolState

/-- No task that is to be drained is in a global queue. -/
def GlobalsClear (state : PoolState size) : Prop :=
  ∀ task ∈ state.shared.global .high ++ state.shared.global .normal,
    ¬ Promised state.shared.log task

/-- No task that is to be drained is in the deques of the worker. -/
def DequesClear (state : PoolState size) (worker : Fin size.m_workerCount) : Prop :=
  ∀ task ∈ state.shared.deque worker .high ++ state.shared.deque worker .normal,
    ¬ Promised state.shared.log task

/-- No task that is to be drained is in the IO queue. -/
def IoClear (state : PoolState size) : Prop :=
  ∀ task ∈ state.shared.m_ioQueue, ¬ Promised state.shared.log task

variable (state : PoolState size)

instance : Decidable state.GlobalsClear := inferInstanceAs (Decidable (∀ task ∈ _ ++ _, _))

instance (worker : Fin size.m_workerCount) : Decidable (state.DequesClear worker) :=
  inferInstanceAs (Decidable (∀ task ∈ _ ++ _, _))

instance : Decidable state.IoClear := inferInstanceAs (Decidable (∀ task ∈ _, _))

theorem GlobalsClear.not_promised {state : PoolState size} (clear : state.GlobalsClear)
    {priority : TaskPriority} {task : PoolTask} (member : task ∈ state.shared.global priority) :
    ¬ Promised state.shared.log task := by
  refine clear task ?_
  cases priority with
  | high => exact List.mem_append_left _ member
  | normal => exact List.mem_append_right _ member

theorem DequesClear.not_promised {state : PoolState size} {worker : Fin size.m_workerCount}
    (clear : state.DequesClear worker) {priority : TaskPriority} {task : PoolTask}
    (member : task ∈ state.shared.deque worker priority) : ¬ Promised state.shared.log task := by
  refine clear task ?_
  cases priority with
  | high => exact List.mem_append_left _ member
  | normal => exact List.mem_append_right _ member

end PoolState

/-- The next step of the thread loses no task that `shutdown` has to drain.

* The last worker that leaves its main loop leaves nothing behind in the global queues, into which
  nobody looks any more, and in the deques of workers that have returned.
* A worker whose drain ends leaves nothing behind in its deques once nobody steals from them any
  more, and the last IO worker whose drain ends leaves nothing behind in the IO queue.
* Tasks are handed over to a queue only while somebody still looks into it.
* A second `shutdown` comes after the first one has returned.
* When the joins end, no external thread is in the middle of a task. -/
def PoolFrame.Drains (state : PoolState size) (self : ThreadId size) (lost : Bool) :
    PoolFrame size → Prop
  | .checking | .rechecking _ =>
      state.shared.m_stop = true →
        (∀ worker, self ≠ .worker worker →
          hasLeft (state.thread (.worker worker)).stack = true) →
        state.GlobalsClear ∧
          ∀ worker, (state.thread (.worker worker)).stack = [] → state.DequesClear worker
  | .draining .normal =>
      ∀ worker ∈ self.currentWorkerIndex,
        lost = true ∨ state.shared.deque worker .normal = [] →
          (∀ other, hasLeft (state.thread (.worker other)).stack = true) →
            state.DequesClear worker
  | .ioDraining =>
      lost = true → (∀ worker, self ≠ .io worker → (state.thread (.io worker)).stack = []) →
        state.IoClear
  | .submitting _ (task :: _) _ =>
      Promised state.shared.log task →
        (task.request.domain = .io → ∃ worker, (state.thread (.io worker)).stack ≠ []) ∧
          (task.request.domain ≠ .io → self.currentWorkerIndex = none →
            ∃ worker, hasLeft (state.thread (.worker worker)).stack = false)
  | .stopping => state.shared.m_stop = true → .shutDown ∈ state.shared.log
  | .joining =>
      -- `shutdown` does not wait for an external thread in `helpUntil`
      ∀ index, ∀ task ∈ (state.thread (.external index)).held, ¬ Promised state.shared.log task
  | _ => True

instance (state : PoolState size) (self : ThreadId size) (lost : Bool) :
    DecidablePred (PoolFrame.Drains state self lost)
  | .checking | .rechecking _ => inferInstanceAs (Decidable (_ → _ → _ ∧ ∀ _, _))
  | .draining .normal => inferInstanceAs (Decidable (∀ worker ∈ _, _ → _ → _))
  | .ioDraining => inferInstanceAs (Decidable (_ → _ → _))
  | .submitting _ (_ :: _) _ => inferInstanceAs (Decidable (_ → _ ∧ _))
  | .stopping => inferInstanceAs (Decidable (_ → _))
  | .joining => inferInstanceAs (Decidable (∀ _, _))
  | .submitting _ [] _ => inferInstanceAs (Decidable True)
  | .finding _ _ | .counting | .loading | .parking _ | .blocked _ | .uncounting _
  | .draining .high | .continuing | .body _ | .helping | .returning _ | .notifying _ _
  | .bumping _ _ | .waking _ _ | .wakingAll _ | .ioBumping | .ioWaking | .ioWakingAll
  | .ioChecking | .ioDequeuing | .ioLoading | .ioRechecking _ | .ioTesting _ | .ioParking _
  | .ioBlocked _ | .stopBumping => inferInstanceAs (Decidable True)

/-- The step loses no task that `shutdown` has to drain. -/
def Draining (state : PoolState size) : ThreadId size × PoolChoice size → Prop
  | (self, choice) =>
      ∀ frame ∈ (state.thread self).stack.head?, frame.Drains state self choice.lost

instance (state : PoolState size) : DecidablePred (Draining state) := fun _ =>
  inferInstanceAs (Decidable (∀ _ ∈ _, _))

namespace PoolMove

variable {shared next : PoolShared size} {self : ThreadId size} {slot after : Option PoolTask}
  {inlines joined : Bool} {frame : PoolFrame size} {choice : PoolChoice size}
  {frames : List (PoolFrame size)}

/-- A worker leaves its main loop after it found `m_stop` set. -/
theorem leaving (move : PoolMove shared self slot inlines joined frame choice next frames after)
    {other : PoolFrame size} (isNew : other ∈ frames) (isLeaving : other.isLeaving = true) :
    frame.isLeaving = true ∨ shared.m_stop = true ∧
      (frame = .checking ∨ ∃ currentSignal, frame = .rechecking currentSignal) := by
  have staying (none : ∀ other ∈ frames, other.isLeaving = false) : False := by
    rw [none other isNew] at isLeaving
    cases isLeaving
  cases move with
  | leave stopped => exact .inr ⟨stopped, .inl rfl⟩
  | abandon stopped => exact .inr ⟨stopped, .inr ⟨_, rfl⟩⟩
  | @uncount _ unpark =>
      cases unpark with
      | stopped => exact .inl rfl
      | found | awakened => exact (staying (by simp [Unpark.onward, PoolFrame.isLeaving])).elim
  | drain | drainHigh | drainNormal => exact .inl rfl
  | @find _ goal step _ _ move =>
      refine (staying ?_).elim
      have found (task : PoolTask) :
          ∀ other ∈ (goal.found task : List (PoolFrame size)), other.isLeaving = false := by
        cases goal <;> simp [FindGoal.found, PoolFrame.isLeaving]
      have missed : ∀ other ∈ (goal.missed : List (PoolFrame size)), other.isLeaving = false := by
        cases goal with
        | spinning left => cases left <;> simp [FindGoal.missed, PoolFrame.isLeaving]
        | _ => simp [FindGoal.missed, PoolFrame.isLeaving]
      cases move <;>
        first | exact found _ | exact missed | simp [PoolFrame.isLeaving]
  | @submit _ kind todo owed _ _ move =>
      refine (staying ?_).elim
      have pushed (todo owed : List PoolTask) :
          ∀ other ∈ (PoolFrame.pushed kind todo owed : List (PoolFrame size)),
            other.isLeaving = false := by
        simp only [PoolFrame.pushed]
        split <;> simp [PoolFrame.isLeaving]
      cases move with
      | push | enqueue => exact pushed _ _
      | full _ _ retries => rcases retries with rfl | rfl <;> simp [PoolFrame.isLeaving]
      | _ => simp [PoolFrame.isLeaving]
  | bump wakes =>
      refine (staying ?_).elim
      rcases wakes with ⟨further, rfl⟩ | rfl <;> simp [PoolFrame.isLeaving]
  | wakeOne _ left | wakeNone _ left =>
      refine (staying ?_).elim
      rcases left with rfl | ⟨further, rfl⟩ <;> simp [PoolFrame.isLeaving]
  | ioTake _ loops =>
      refine (staying ?_).elim
      rcases loops with ⟨rfl, rfl⟩ | ⟨rfl, rfl⟩ <;> simp [PoolFrame.isLeaving]
  | @ioGo _ _ onward _ loops stays =>
      refine (staying ?_).elim
      cases onward <;> cases stays <;> simp [PoolFrame.isLeaving]
  | _ => exact (staying (by simp [PoolFrame.isLeaving])).elim

/-- The loop of an IO worker goes on until a dequeue returns null after `m_stop` was set. -/
theorem loops (move : PoolMove shared self slot inlines joined frame choice next frames after)
    (isIoLoop : frame.isIoLoop = true) :
    (frame = .ioDraining ∧ (choice.lost = false → shared.m_ioQueue = []) ∧ frames = []) ∨
      ∃ above loop, frames = above ++ [loop] ∧ loop.isIoLoop = true := by
  cases move with
  | ioTake _ loops =>
      rcases loops with ⟨rfl, rfl⟩ | ⟨rfl, rfl⟩
      · exact .inr ⟨[_], _, rfl, rfl⟩
      · exact .inr ⟨[_], _, rfl, rfl⟩
  | ioGo _ stays => exact .inr ⟨[], _, rfl, stays⟩
  | ioReturn empty => exact .inl ⟨rfl, empty, rfl⟩
  | ioWake wakes => rcases wakes with rfl | rfl <;> cases isIoLoop
  | _ => cases isIoLoop

/-- A worker returns when the last pop of its drain returns null. -/
theorem returns {worker : Fin size.m_workerCount}
    (move : PoolMove shared (.worker worker) slot inlines joined frame choice next frames after)
    (isDraining : frame = .draining .normal) (returned : frames = []) :
    next.deque = shared.deque ∧
      (choice.lost = true ∨ shared.deque worker .normal = []) := by
  cases move with
  | drainNormal isSelf empty =>
      cases isSelf
      refine ⟨rfl, ?_⟩
      cases isLost : choice.lost with
      | true => exact .inl rfl
      | false => exact .inr (empty isLost)
  | ioWake wakes => rcases wakes with rfl | rfl <;> cases isDraining
  | drain | ioTake | ioGo => cases returned
  | _ => cases isDraining

theorem ioDraining (move : PoolMove shared self slot inlines joined frame choice next frames after)
    (isNew : .ioDraining ∈ frames) : frame = .ioDraining ∨ shared.m_stop = true := by
  cases move with
  | @find _ goal step _ _ move =>
      have found (task : PoolTask) : .ioDraining ∉ (goal.found task : List (PoolFrame size)) := by
        cases goal <;> simp [FindGoal.found]
      have missed : .ioDraining ∉ (goal.missed : List (PoolFrame size)) := by
        cases goal with
        | spinning left => cases left <;> simp [FindGoal.missed]
        | _ => simp [FindGoal.missed]
      cases move <;>
        first | exact absurd isNew (found _) | exact absurd isNew missed | simp at isNew
  | @submit _ kind todo owed _ _ move =>
      have pushed (todo owed : List PoolTask) :
          .ioDraining ∉ (PoolFrame.pushed kind todo owed : List (PoolFrame size)) := by
        simp only [PoolFrame.pushed]
        split <;> simp
      cases move with
      | push | enqueue => exact absurd isNew (pushed _ _)
      | full _ _ retries => rcases retries with rfl | rfl <;> simp at isNew
      | _ => simp at isNew
  | @uncount _ unpark => cases unpark <;> simp [Unpark.onward] at isNew
  | bump wakes => rcases wakes with ⟨further, rfl⟩ | rfl <;> simp at isNew
  | wakeOne _ left | wakeNone _ left =>
      rcases left with rfl | ⟨further, rfl⟩ <;> simp at isNew
  | ioTake _ loops =>
      rcases loops with ⟨rfl, rfl⟩ | ⟨rfl, rfl⟩
      · simp at isNew
      · exact .inl rfl
  | ioGo _ _ stops => exact .inr (stops (List.mem_singleton.mp isNew).symm)
  | _ => simp at isNew

theorem global_cases
    (move : PoolMove shared self slot inlines joined frame choice next frames after)
    {priority : TaskPriority} {task : PoolTask} (member : task ∈ next.global priority) :
    task ∈ shared.global priority ∨
      (∃ kind todo owed, frame = .submitting kind (task :: todo) owed) ∧
      task.request.domain ≠ .io ∧ self.currentWorkerIndex = none := by
  cases move with
  | find move => exact .inl (move.queues.2.2.2 priority task member)
  | submit move =>
      cases move with
      | enqueue isWorker external =>
          rcases PoolShared.mem_setGlobal member with ⟨rfl, inQueue⟩ | old
          · rcases List.mem_append.mp inQueue with old | isNew
            · exact .inl old
            · obtain rfl := List.mem_singleton.mp isNew
              exact .inr ⟨⟨_, _, _, rfl⟩, isWorker, external⟩
          · exact .inl old
      | _ => exact .inl member
  | _ => exact .inl member

theorem ioQueue_cases
    (move : PoolMove shared self slot inlines joined frame choice next frames after)
    {task : PoolTask} (member : task ∈ next.m_ioQueue) :
    task ∈ shared.m_ioQueue ∨ (∃ kind todo owed, frame = .submitting kind (task :: todo) owed) ∧
      task.request.domain = .io := by
  cases move with
  | find move => cases move <;> exact .inl member
  | submit move =>
      cases move with
      | enqueueIo isIo =>
          rcases List.mem_append.mp member with old | isNew
          · exact .inl old
          · obtain rfl := List.mem_singleton.mp isNew
            exact .inr ⟨⟨_, _, _, rfl⟩, isIo⟩
      | _ => exact .inl member
  | ioTake before =>
      rw [before]
      exact .inl (List.mem_cons_of_mem _ member)
  | _ => exact .inl member

end PoolMove

namespace PoolRecord

variable {shared : PoolShared size} {joined : Bool} {frame : PoolFrame size}
  {events : List PoolEvent} {nextNumber : Nat} {m_stop : Bool}

theorem stays (recorded : PoolRecord shared joined frame events nextNumber m_stop)
    (stopped : shared.m_stop = true) : m_stop = true := by
  cases recorded <;> first | exact stopped | rfl

theorem of_stopped (recorded : PoolRecord shared joined frame events nextNumber m_stop)
    (member : .stopped ∈ events) :
    frame = .stopping ∧ events = [.stopped] ∧ shared.m_stop = false ∧ m_stop = true := by
  cases recorded with
  | stopped going => exact ⟨rfl, rfl, going, rfl⟩
  | nothing => cases member
  | requested | returned | executed | shutDown => simp at member

theorem of_shutDown (recorded : PoolRecord shared joined frame events nextNumber m_stop)
    (member : .shutDown ∈ events) :
    events = [.shutDown] ∧ (frame = .stopping ∧ shared.m_stop = true ∨
      frame = .joining ∧ joined = true) := by
  cases recorded with
  | shutDown returns => exact ⟨rfl, returns⟩
  | nothing => cases member
  | requested | returned | executed | stopped => simp at member

theorem of_requested (recorded : PoolRecord shared joined frame events nextNumber m_stop)
    {task : PoolTask} (member : .requested task ∈ events) :
    ∃ parent, frame = .body parent ∧ task.ancestors =
      match parent with
      | none => []
      | some parent => parent.number :: parent.ancestors := by
  cases recorded with
  | @requested parent requests =>
      obtain ⟨query, isNew, same⟩ := List.mem_map.mp member
      cases same
      obtain ⟨index, inRange, rfl⟩ := List.mem_mapIdx.mp (List.mem_reverse.mp isNew)
      exact ⟨parent, rfl, rfl⟩
  | nothing => cases member
  | returned | executed | stopped | shutDown => simp at member

end PoolRecord

/-- What `shutdown` has to drain is settled when it stops the pool. -/
theorem promised_append {events log : List PoolEvent} {task : PoolTask}
    (going : .stopped ∉ events) : Promised (events ++ log) task ↔ Promised log task := by
  have dropped : (events ++ log).dropWhile (· ≠ .stopped) = log.dropWhile (· ≠ .stopped) :=
    List.dropWhile_append_of_pos fun event member => by
      refine decide_eq_true fun isStopped => going ?_
      rwa [← isStopped]
  rw [Promised, Promised, dropped]

theorem hasLeft_iff {stack : List (PoolFrame size)} :
    hasLeft stack = true ↔ stack = [] ∨ ∃ frame ∈ stack, frame.isLeaving = true := by
  simp [hasLeft]

/-- Threads leave their loops after `m_stop` was set, and it stays set. -/
structure StoppingLaw (state : PoolState size) : Prop where
  /-- An IO worker is in its loop until it returns. -/
  based : ∀ worker, ∀ frame ∈ (state.thread (.io worker)).stack.getLast?, frame.isIoLoop = true
  stopped : .stopped ∈ state.shared.log → state.shared.m_stop = true
  shutDown : .shutDown ∈ state.shared.log → state.shared.m_stop = true
  left : ∀ worker, hasLeft (state.thread (.worker worker)).stack = true →
    state.shared.m_stop = true
  ioLeft : ∀ worker, (state.thread (.io worker)).stack = [] ∨
    .ioDraining ∈ (state.thread (.io worker)).stack → state.shared.m_stop = true

namespace StoppingLaw

variable {state next : PoolState size}

theorem initial : StoppingLaw (PoolState.initial size) where
  based := fun worker frame member => by
    cases member
    rfl
  stopped := fun member => by cases member
  shutDown := fun member => by cases member
  left := fun worker left => by cases left
  ioLeft := fun worker left => by
    rcases left with returned | draining
    · cases returned
    · cases List.mem_singleton.mp draining

variable {mover : ThreadId size} {choice : PoolChoice size} {frame : PoolFrame size}
  {frames rest : List (PoolFrame size)} {after : Option PoolTask}

/-- A worker that has returned did so before, or at the end of its drain now. -/
theorem worker_returned_cases (parking : ParkingLaw state)
    (moves : state.Moves next mover choice frame frames rest after)
    {worker : Fin size.m_workerCount} (returned : (next.thread (.worker worker)).stack = []) :
    (state.thread (.worker worker)).stack = [] ∨
      mover = .worker worker ∧ frame = .draining .normal ∧ frames = [] := by
  by_cases isMover : ThreadId.worker worker = mover
  · subst isMover
    rw [moves.here] at returned
    obtain ⟨rfl, rfl⟩ := List.append_eq_nil_iff.mp returned
    have based := parking.based worker (by rw [moves.isStack]; simp)
    rw [moves.isStack] at based
    rcases moves.move.based based with onward | ⟨rfl, -⟩
    · cases onward
    · exact .inr ⟨rfl, rfl, rfl⟩
  · rw [moves.other isMover] at returned
    exact .inl returned

/-- A worker that has left did so before, or in this step. -/
theorem left_cases (parking : ParkingLaw state)
    (moves : state.Moves next mover choice frame frames rest after)
    {worker : Fin size.m_workerCount}
    (left : hasLeft (next.thread (.worker worker)).stack = true) :
    hasLeft (state.thread (.worker worker)).stack = true ∨
      mover = .worker worker ∧ state.shared.m_stop = true ∧
        (frame = .checking ∨ ∃ currentSignal, frame = .rechecking currentSignal) := by
  by_cases isMover : ThreadId.worker worker = mover
  · subst isMover
    rcases hasLeft_iff.mp left with returned | ⟨other, member, isLeaving⟩
    · rcases worker_returned_cases parking moves returned with before | ⟨-, rfl, -⟩
      · exact .inl (hasLeft_iff.mpr (.inl before))
      · exact .inl (hasLeft_iff.mpr (.inr ⟨_, moves.mem_stack, rfl⟩))
    · rcases moves.mem_cases member with ⟨-, isNew⟩ | isOld
      · rcases moves.move.leaving isNew isLeaving with before | now
        · exact .inl (hasLeft_iff.mpr (.inr ⟨_, moves.mem_stack, before⟩))
        · exact .inr ⟨rfl, now⟩
      · exact .inl (hasLeft_iff.mpr (.inr ⟨_, isOld, isLeaving⟩))
  · rw [moves.other isMover] at left
    exact .inl left

/-- An IO worker that has returned did so before, or at the end of its drain now. -/
theorem returned_cases (law : StoppingLaw state)
    (moves : state.Moves next mover choice frame frames rest after)
    {worker : Fin size.m_ioWorkerCount} (returned : (next.thread (.io worker)).stack = []) :
    (state.thread (.io worker)).stack = [] ∨
      mover = .io worker ∧ frame = .ioDraining ∧
        (choice.lost = false → state.shared.m_ioQueue = []) := by
  by_cases isMover : ThreadId.io worker = mover
  · subst isMover
    rw [moves.here] at returned
    obtain ⟨rfl, rfl⟩ := List.append_eq_nil_iff.mp returned
    have isIoLoop := law.based worker frame (by rw [moves.isStack]; rfl)
    rcases moves.move.loops isIoLoop with ⟨isDraining, empty, -⟩ | ⟨above, loop, onward, -⟩
    · exact .inr ⟨rfl, isDraining, empty⟩
    · cases above <;> cases onward
  · rw [moves.other isMover] at returned
    exact .inl returned

theorem step (parking : ParkingLaw state) (law : StoppingLaw state)
    (moves : state.Moves next mover choice frame frames rest after) : StoppingLaw next := by
  obtain ⟨events, added, recorded⟩ := moves.move.recorded
  have stays := recorded.stays
  refine ⟨fun worker other isLast => ?_, fun member => ?_, fun member => ?_, fun worker left => ?_,
    fun worker left => ?_⟩
  · by_cases isMover : ThreadId.io worker = mover
    · subst isMover
      have before := law.based worker
      rw [moves.isStack] at before
      rw [moves.here] at isLast
      cases below : rest with
      | nil =>
          subst below
          have isIoLoop := before frame rfl
          rw [List.append_nil] at isLast
          rcases moves.move.loops isIoLoop with ⟨-, -, rfl⟩ | ⟨above, loop, rfl, stays⟩
          · cases isLast
          · rw [List.getLast?_append] at isLast
            cases isLast
            exact stays
      | cons top others =>
          subst below
          refine before other ?_
          rw [List.getLast?_append_of_ne_nil _ (by simp)] at isLast
          rwa [List.getLast?_cons_cons]
    · rw [moves.other isMover] at isLast
      exact law.based worker other isLast
  · rw [added] at member
    rcases List.mem_append.mp member with isNew | isOld
    · exact (recorded.of_stopped isNew).2.2.2
    · exact stays (law.stopped isOld)
  · rw [added] at member
    rcases List.mem_append.mp member with isNew | isOld
    · rcases (recorded.of_shutDown isNew).2 with ⟨-, stopped⟩ | ⟨-, joined⟩
      · exact stays stopped
      · have returned := (of_decide_eq_true joined).1 ⟨0, size.hasWorker⟩
        exact stays (law.left _ (hasLeft_iff.mpr (.inl returned)))
    · exact stays (law.shutDown isOld)
  · rcases left_cases parking moves left with before | ⟨-, stopped, -⟩
    · exact stays (law.left worker before)
    · exact stays stopped
  · rcases left with returned | draining
    · rcases law.returned_cases moves returned with before | ⟨rfl, rfl, -⟩
      · exact stays (law.ioLeft worker (.inl before))
      · exact stays (law.ioLeft worker (.inr moves.mem_stack))
    · rcases moves.mem_cases draining with ⟨rfl, isNew⟩ | isOld
      · rcases moves.move.ioDraining isNew with rfl | stopped
        · exact stays (law.ioLeft worker (.inr moves.mem_stack))
        · exact stays stopped
      · exact stays (law.ioLeft worker (.inr isOld))

end StoppingLaw

/-- What holds in every run that loses no task. -/
structure DrainLaw (state : PoolState size) : Prop where
  parking : ParkingLaw state
  holding : HoldingLaw state
  stopping : StoppingLaw state
  /-- When all workers have left, the global queues have nothing that is to be drained. -/
  globals : (∀ worker, hasLeft (state.thread (.worker worker)).stack = true) →
    ∀ priority, ∀ task ∈ state.shared.global priority, ¬ Promised state.shared.log task
  /-- Neither have the deques of those that have returned. -/
  deques : (∀ worker, hasLeft (state.thread (.worker worker)).stack = true) →
    ∀ worker, (state.thread (.worker worker)).stack = [] →
      ∀ priority, ∀ task ∈ state.shared.deque worker priority, ¬ Promised state.shared.log task
  /-- When all IO workers have returned, neither has the IO queue. -/
  ioQueue : (∀ worker, (state.thread (.io worker)).stack = []) →
    ∀ task ∈ state.shared.m_ioQueue, ¬ Promised state.shared.log task
  drained : state.Drained

namespace DrainLaw

variable {state next : PoolState size}

theorem initial (hasIo : 0 < size.m_ioWorkerCount) : DrainLaw (PoolState.initial size) where
  parking := .initial
  holding := .initial
  stopping := .initial
  globals := fun left => by cases left ⟨0, size.hasWorker⟩
  deques := fun left => by cases left ⟨0, size.hasWorker⟩
  ioQueue := fun returned => by cases returned ⟨0, hasIo⟩
  drained := fun returned => by cases returned

variable {mover : ThreadId size} {choice : PoolChoice size} {frame : PoolFrame size}
  {frames rest : List (PoolFrame size)} {after : Option PoolTask}

/-- Once the pool is stopped, what is to be drained does not change any more. -/
theorem promised_step
    (moves : state.Moves next mover choice frame frames rest after)
    (stopped : state.shared.m_stop = true) (task : PoolTask) :
    Promised next.shared.log task ↔ Promised state.shared.log task := by
  obtain ⟨events, added, recorded⟩ := moves.move.recorded
  rw [added]
  refine promised_append fun isNew => ?_
  rw [(recorded.of_stopped isNew).2.2.1] at stopped
  cases stopped

/-- When all workers have left after a step, they had before, or the last one leaves now. -/
theorem all_left_cases (law : DrainLaw state)
    (moves : state.Moves next mover choice frame frames rest after)
    (left : ∀ worker, hasLeft (next.thread (.worker worker)).stack = true) :
    state.shared.m_stop = true ∧
      ((∀ worker, hasLeft (state.thread (.worker worker)).stack = true) ∨
        (∀ worker, mover ≠ .worker worker →
            hasLeft (state.thread (.worker worker)).stack = true) ∧
          (frame = .checking ∨ ∃ currentSignal, frame = .rechecking currentSignal)) := by
  have before := fun worker => StoppingLaw.left_cases law.parking moves (left worker)
  refine ⟨?_, ?_⟩
  · rcases before ⟨0, size.hasWorker⟩ with left | ⟨-, stopped, -⟩
    · exact law.stopping.left _ left
    · exact stopped
  · by_cases hadLeft : ∀ worker, hasLeft (state.thread (.worker worker)).stack = true
    · exact .inl hadLeft
    · push Not at hadLeft
      obtain ⟨last, stayed⟩ := hadLeft
      obtain ⟨rfl, -, isLoop⟩ := (before last).resolve_left stayed
      exact .inr ⟨fun worker different =>
        (before worker).resolve_right fun isMover => different isMover.1, isLoop⟩

/-- The last worker that leaves leaves nothing behind. -/
theorem clear_of_last (drains : frame.Drains state mover choice.lost)
    (stopped : state.shared.m_stop = true)
    (others : ∀ worker, mover ≠ .worker worker →
      hasLeft (state.thread (.worker worker)).stack = true)
    (isLoop : frame = .checking ∨ ∃ currentSignal, frame = .rechecking currentSignal) :
    state.GlobalsClear ∧
      ∀ worker, (state.thread (.worker worker)).stack = [] → state.DequesClear worker := by
  rcases isLoop with rfl | ⟨currentSignal, rfl⟩ <;> exact drains stopped others

theorem globals_step (law : DrainLaw state) (drains : frame.Drains state mover choice.lost)
    (moves : state.Moves next mover choice frame frames rest after)
    (left : ∀ worker, hasLeft (next.thread (.worker worker)).stack = true)
    {priority : TaskPriority} {task : PoolTask} (queued : task ∈ next.shared.global priority) :
    ¬ Promised next.shared.log task := by
  obtain ⟨stopped, hadLeft | ⟨others, isLoop⟩⟩ := law.all_left_cases moves left
  · rw [promised_step moves stopped]
    rcases moves.move.global_cases queued with old | ⟨⟨kind, todo, owed, rfl⟩, isWorker, external⟩
    · exact law.globals hadLeft priority task old
    · intro promised
      obtain ⟨worker, stays⟩ := (drains promised).2 isWorker external
      rw [hadLeft worker] at stays
      cases stays
  · rw [promised_step moves stopped]
    refine (clear_of_last drains stopped others isLoop).1.not_promised
      ((moves.move.global_cases queued).resolve_right ?_)
    rintro ⟨⟨kind, todo, owed, rfl⟩, -⟩
    rcases isLoop with isLoop | ⟨currentSignal, isLoop⟩ <;> cases isLoop

theorem deques_step (law : DrainLaw state) (drains : frame.Drains state mover choice.lost)
    (moves : state.Moves next mover choice frame frames rest after)
    (left : ∀ worker, hasLeft (next.thread (.worker worker)).stack = true)
    {worker : Fin size.m_workerCount} (returned : (next.thread (.worker worker)).stack = [])
    {priority : TaskPriority} {task : PoolTask}
    (queued : task ∈ next.shared.deque worker priority) : ¬ Promised next.shared.log task := by
  obtain ⟨stopped, leaves⟩ := law.all_left_cases moves left
  rw [promised_step moves stopped]
  rcases StoppingLaw.worker_returned_cases law.parking moves returned with
    hadReturned | ⟨rfl, rfl, returns⟩
  · -- a worker that has returned pushes nothing
    have old : task ∈ state.shared.deque worker priority := moves.move.deque_other (by
      rintro rfl
      rw [moves.isStack] at hadReturned
      cases hadReturned) queued
    rcases leaves with hadLeft | ⟨others, isLoop⟩
    · exact law.deques hadLeft worker hadReturned priority task old
    · exact ((clear_of_last drains stopped others isLoop).2 worker hadReturned).not_promised old
  · obtain ⟨same, ends⟩ := moves.move.returns rfl returns
    have hadLeft : ∀ other, hasLeft (state.thread (.worker other)).stack = true := by
      rcases leaves with hadLeft | ⟨-, isLoop⟩
      · exact hadLeft
      · rcases isLoop with isLoop | ⟨currentSignal, isLoop⟩ <;> cases isLoop
    rw [same] at queued
    exact (drains worker rfl ends hadLeft).not_promised queued

theorem ioQueue_step (hasIo : 0 < size.m_ioWorkerCount) (law : DrainLaw state)
    (drains : frame.Drains state mover choice.lost)
    (moves : state.Moves next mover choice frame frames rest after)
    (returned : ∀ worker, (next.thread (.io worker)).stack = []) {task : PoolTask}
    (queued : task ∈ next.shared.m_ioQueue) : ¬ Promised next.shared.log task := by
  have before := fun worker => law.stopping.returned_cases moves (returned worker)
  have stopped : state.shared.m_stop = true := by
    rcases before ⟨0, hasIo⟩ with returned | ⟨rfl, rfl, -⟩
    · exact law.stopping.ioLeft _ (.inl returned)
    · exact law.stopping.ioLeft _ (.inr moves.mem_stack)
  rw [promised_step moves stopped]
  rcases moves.move.ioQueue_cases queued with old | ⟨⟨kind, todo, owed, rfl⟩, isIo⟩
  · by_cases hadReturned : ∀ worker, (state.thread (.io worker)).stack = []
    · exact law.ioQueue hadReturned task old
    · push Not at hadReturned
      obtain ⟨last, stayed⟩ := hadReturned
      obtain ⟨rfl, rfl, empty⟩ := (before last).resolve_left stayed
      cases isLost : choice.lost with
      | true =>
          refine drains isLost (fun worker different => ?_) task old
          exact (before worker).resolve_right fun isMover => different isMover.1
      | false =>
          rw [empty isLost] at old
          cases old
  · intro promised
    obtain ⟨worker, stays⟩ := (drains promised).1 isIo
    refine absurd ?_ stays
    rcases before worker with returned | ⟨-, isLoop, -⟩
    · exact returned
    · cases isLoop

/-- At the end of the joins no thread holds a task that was to be drained, and none is queued. -/
theorem executed_of_joined (law : DrainLaw state) (drains : frame.Drains state mover choice.lost)
    (isJoining : frame = .joining) (joined : state.Joined) {task : PoolTask}
    (requested : .requested task ∈ state.shared.log) (promised : Promised state.shared.log task) :
    state.shared.log.count (.executed task) = 1 := by
  subst isJoining
  have left (worker : Fin size.m_workerCount) :
      hasLeft (state.thread (.worker worker)).stack = true :=
    hasLeft_iff.mpr (.inl (joined.1 worker))
  have unheld : Counting.total (fun thread => thread.held.count task) state.thread = 0 := by
    refine Counting.total_eq_zero.mpr fun self => ?_
    cases self with
    | worker worker => simp [law.holding.held_eq_nil (joined.1 worker)]
    | io worker => simp [law.holding.held_eq_nil (joined.2 worker)]
    | external index =>
        exact List.count_eq_zero.mpr fun held => drains index task held promised
  have unqueued : state.shared.queued task = 0 := by
    by_contra queued
    rcases PoolShared.mem_queued_deque (Nat.pos_of_ne_zero queued) with
      ⟨worker, priority, member⟩ | ⟨priority, member⟩ | member
    · exact law.deques left worker (joined.1 worker) priority task member promised
    · exact law.globals left priority task member promised
    · exact law.ioQueue joined.2 task member promised
  have balance := law.holding.account task
  have once := law.holding.once task
  have some := List.count_pos_iff.mpr requested
  omega

/-- After `shutdown` returned, nobody executes a task that was to be drained. -/
theorem not_promised_of_body (law : DrainLaw state) (returned : .shutDown ∈ state.shared.log)
    {self : ThreadId size} {task : PoolTask}
    (executing : .body (some task) ∈ (state.thread self).stack) :
    ¬ Promised state.shared.log task := by
  intro promised
  have held : 0 < (state.thread self).held.count task := by
    refine List.count_pos_iff.mpr (List.mem_append_left _ (List.mem_flatMap.mpr ⟨_, executing, ?_⟩))
    exact List.mem_singleton_self _
  have counted := Counting.le_total (fun thread : PoolThread size => thread.held.count task)
    state.thread self
  have balance := law.holding.account task
  have once := law.holding.once task
  have executed := law.drained returned task (List.count_pos_iff.mp (by omega)) promised
  omega

/-- A task that is requested after `shutdown` returned was not to be drained. -/
theorem not_promised_of_new (law : DrainLaw state) (returned : .shutDown ∈ state.shared.log)
    (moves : state.Moves next mover choice frame frames rest after) {events : List PoolEvent}
    (recorded : PoolRecord state.shared state.Joined frame events next.shared.nextNumber
      next.shared.m_stop) {task : PoolTask} (isNew : .requested task ∈ events) :
    ¬ Promised state.shared.log task := by
  rintro ⟨number, isNumber, wasReturned⟩
  obtain ⟨parent, rfl, ancestors⟩ := recorded.of_requested isNew
  rcases List.mem_cons.mp isNumber with rfl | isAncestor
  · have old := law.holding.returned _ ((List.dropWhile_sublist _).subset wasReturned)
    exact Nat.not_lt.mpr (recorded.requested_new isNew).1 old
  · rw [ancestors] at isAncestor
    cases parent with
    | none => cases isAncestor
    | some parent =>
        exact law.not_promised_of_body returned moves.mem_stack ⟨number, isAncestor, wasReturned⟩

theorem drained_step (law : DrainLaw state) (drains : frame.Drains state mover choice.lost)
    (moves : state.Moves next mover choice frame frames rest after) : next.Drained := by
  obtain ⟨events, added, recorded⟩ := moves.move.recorded
  have holding := law.holding.step moves
  intro returned task requested promised
  have cases : .shutDown ∈ state.shared.log ∨
      events = [.shutDown] ∧ frame = .joining ∧ state.Joined := by
    rw [added] at returned
    rcases List.mem_append.mp returned with isNew | isOld
    · obtain ⟨single, ⟨rfl, stopped⟩ | ⟨isJoining, joined⟩⟩ := recorded.of_shutDown isNew
      · exact .inl (drains stopped)
      · exact .inr ⟨single, isJoining, of_decide_eq_true joined⟩
    · exact .inl isOld
  have balance := holding.account task
  have once := holding.once task
  rw [added] at requested promised balance once ⊢
  rcases cases with before | ⟨rfl, isJoining, joined⟩
  · have going : .stopped ∉ events := fun isNew => by
      have stopped := law.stopping.shutDown before
      rw [(recorded.of_stopped isNew).2.2.1] at stopped
      cases stopped
    rw [promised_append going] at promised
    rcases List.mem_append.mp requested with isNew | isOld
    · exact absurd promised (law.not_promised_of_new before moves recorded isNew)
    · have executed := law.drained before task isOld promised
      rw [List.count_append] at balance ⊢
      omega
  · rw [promised_append (by simp)] at promised
    have executed := law.executed_of_joined drains isJoining joined (by simpa using requested)
      promised
    simpa using executed

theorem step (hasIo : 0 < size.m_ioWorkerCount) (law : DrainLaw state)
    (drains : frame.Drains state mover choice.lost)
    (moves : state.Moves next mover choice frame frames rest after) : DrainLaw next where
  parking := law.parking.step moves
  holding := law.holding.step moves
  stopping := law.stopping.step law.parking moves
  globals := fun left _ _ queued => law.globals_step drains moves left queued
  deques := fun left _ returned _ _ queued => law.deques_step drains moves left returned queued
  ioQueue := fun returned _ queued => law.ioQueue_step hasIo drains moves returned queued
  drained := law.drained_step drains moves

end DrainLaw

/-- In a run that loses no task, `shutdown` drains the pool. -/
theorem shutdown_drains (hasIo : 0 < size.m_ioWorkerCount) {state : PoolState size}
    (reachable : (poolMachine size).ReachableBy Draining state) : state.Drained := by
  have law : DrainLaw state := by
    refine reachable.invariant (fun state initial => ?_)
      fun state action next law drains stepped => ?_
    · obtain rfl := initial
      exact .initial hasIo
    · obtain ⟨mover, choice⟩ := action
      obtain ⟨frame, frames, rest, after, moves⟩ := PoolState.Moves.of_step stepped
      exact law.step hasIo (drains frame (by rw [moves.isStack]; rfl)) moves
  exact law.drained

/-! ## A small pool that is shut down -/

section Small

/-- One worker, one IO worker and one external thread. -/
abbrev smallPool : PoolSize where
  m_workerCount := 1
  m_ioWorkerCount := 1
  externals := 1
  hasWorker := Nat.one_pos
  isCount := oneWorker_isCount

/-- Steps of one thread that decide nothing. -/
def goes (steps : Nat) (self : ThreadId smallPool) :
    List (ThreadId smallPool × PoolChoice smallPool) :=
  List.replicate steps (self, .go 0 false none none)

/-- The external thread schedules a Worker task and an IO task.  The worker executes one of them
when the pool is shut down, and schedules another one. -/
def drainingRun : List (ThreadId smallPool × PoolChoice smallPool) :=
  [(.external 0, .submit .scheduleBatch [{}, { domain := .io }])] ++ goes 6 (.external 0) ++
    goes 5 (.worker 0) ++ [(.external 0, .shutdown)] ++ goes 5 (.external 0) ++
    [(.worker 0, .submit .schedule [{}])] ++ goes 3 (.worker 0) ++ [(.worker 0, .finish)] ++
    goes 4 (.worker 0) ++ [(.worker 0, .finish)] ++ goes 3 (.worker 0) ++ goes 2 (.io 0) ++
    [(.io 0, .finish)] ++ goes 1 (.io 0) ++ goes 1 (.external 0)

theorem shutdown_drains_small : ∃ state : PoolState smallPool,
    (.shutDown ∈ state.shared.log ∧
      (state.shared.log.countP fun event => event matches .executed _) = 3) ∧ state.Drained := by
  obtain ⟨state, reachable, returned⟩ : ∃ state,
      (poolMachine smallPool).ReachableBy Draining state ∧
        (.shutDown ∈ state.shared.log ∧
          (state.shared.log.countP fun event => event matches .executed _) = 3) :=
    Machine.ReachableBy.exists_of_run (.start rfl) drainingRun (by decide +kernel)
  exact ⟨state, returned, shutdown_drains Nat.one_pos reachable⟩

/-- The external thread schedules a Worker task and shuts down the pool before the worker looks
for work. -/
def losingRun : List (ThreadId smallPool × PoolChoice smallPool) :=
  [(.external 0, .submit .schedule [{}])] ++ goes 3 (.external 0) ++ [(.external 0, .shutdown)] ++
    goes 5 (.external 0) ++ goes 3 (.worker 0) ++ goes 2 (.io 0) ++ goes 1 (.external 0)

/-- A task stays in a global queue when the worker finds `m_stop` set. -/
theorem not_shutdown_drains : ∃ state : PoolState smallPool,
    (poolMachine smallPool).Reachable state ∧ ¬ state.Drained := by
  obtain ⟨state, reachable, returned, requested, promised, unexecuted⟩ : ∃ state,
      (poolMachine smallPool).Reachable state ∧ .shutDown ∈ state.shared.log ∧
        .requested { number := 0 } ∈ state.shared.log ∧
        Promised state.shared.log { number := 0 } ∧
        state.shared.log.count (.executed { number := 0 }) = 0 :=
    Machine.ReachableBy.exists_of_run (.start rfl) losingRun (by decide +kernel)
  refine ⟨state, reachable, fun drained => ?_⟩
  have executed := drained returned _ requested promised
  omega

end Small

end LightFlow
