import LightFlow.Scheduler.Parking

/-!
# Notifications for pushed tasks

Whoever pushes a Worker task owes the workers a notification, and carries the task until it is
given.  A worker that searches before it parks gets past a global queue only when that is
empty, or when the search is disturbed.
-/

namespace LightFlow

variable {size : PoolSize}

namespace PoolFrame

/-- The value of `m_wakeSignal` that a worker compares when it parks. -/
def loadedSignal : PoolFrame size → Option Nat
  | .rechecking currentSignal | .finding (.parking currentSignal) _ | .parking currentSignal
  | .blocked currentSignal => some currentSignal
  | _ => none

/-- The value that a worker compares, once it is past the global queue. -/
def past (priority : TaskPriority) : PoolFrame size → Option Nat
  | .finding (.parking currentSignal) (.dequeue .normal) =>
      if priority = .high then some currentSignal else none
  | .finding (.parking _) (.pop _) | .finding (.parking _) (.dequeue .high) => none
  | .finding (.parking currentSignal) _ | .parking currentSignal | .blocked currentSignal =>
      some currentSignal
  | _ => none

/-- The Worker tasks that the call pushed and has not finished to notify for. -/
def owed : PoolFrame size → List PoolTask
  | .submitting _ _ owed | .notifying _ owed | .bumping _ owed | .waking _ owed
  | .wakingAll owed => owed
  | _ => []

/-- The call has changed `m_wakeSignal`. -/
def isWaking : PoolFrame size → Bool
  | .waking _ _ | .wakingAll _ => true
  | _ => false

/-- What the next step of the call adds to `m_wakeSignal`. -/
def bumps : PoolFrame size → Option Nat
  | .bumping toWake _ => some toWake
  | .stopBumping => some 1
  | _ => none

/-- How often the call has the task to push, or has pushed it and has to notify for it. -/
def carries (task : PoolTask) : PoolFrame size → Nat
  | .submitting _ todo owed => todo.count task + owed.count task
  | frame => frame.owed.count task

/-- The counters of a call are in range. -/
def InRange : PoolFrame size → Prop
  | .submitting _ todo owed => todo.length + owed.length < 2 ^ 32
  | .notifying count owed => owed ≠ [] → 0 < count
  | .bumping toWake _ => 0 < toWake ∧ toWake < 2 ^ 32
  | _ => True

theorem counted_of_past {priority : TaskPriority} {frame : PoolFrame size} {currentSignal : Nat}
    (isPast : frame.past priority = some currentSignal) :
    frame.isCounted = true ∧ frame.loadedSignal = some currentSignal := by
  cases frame with
  | finding goal step =>
      cases goal with
      | parking =>
          cases step with
          | dequeue queue =>
              cases queue <;> simp only [past, reduceCtorEq] at isPast
              split at isPast <;> cases isPast
              exact ⟨rfl, rfl⟩
          | pop => cases isPast
          | _ =>
              cases isPast
              exact ⟨rfl, rfl⟩
      | _ => cases isPast
  | parking | blocked =>
      cases isPast
      exact ⟨rfl, rfl⟩
  | _ => cases isPast

end PoolFrame

/-- The value that a worker compares, once it is past the global queue. -/
def pastTop (priority : TaskPriority) : List (PoolFrame size) → Option Nat
  | [] => none
  | frame :: _ => frame.past priority

namespace PoolShared

@[simp] theorem setDeque_global (shared : PoolShared size) (worker : Fin size.m_workerCount)
    (priority : TaskPriority) (tasks : List PoolTask) :
    (shared.setDeque worker priority tasks).global = shared.global := rfl

@[simp] theorem setDeque_signal (shared : PoolShared size) (worker : Fin size.m_workerCount)
    (priority : TaskPriority) (tasks : List PoolTask) :
    (shared.setDeque worker priority tasks).m_wakeSignal = shared.m_wakeSignal := rfl

theorem mem_setGlobal {shared : PoolShared size} {priority query : TaskPriority}
    {tasks : List PoolTask} {task : PoolTask}
    (member : task ∈ (shared.setGlobal priority tasks).global query) :
    query = priority ∧ task ∈ tasks ∨ task ∈ shared.global query := by
  simp only [setGlobal, Function.update_apply] at member
  split at member
  next same => exact .inl ⟨same, member⟩
  next => exact .inr member

end PoolShared

namespace FindMove

variable {shared next : PoolShared size} {self : Option (Fin size.m_workerCount)}
  {lost : Bool} {goal : FindGoal} {step : FindStep size} {frames : List (PoolFrame size)}

/-- A search only takes tasks away. -/
theorem queues (move : FindMove shared self lost goal step next frames) :
    next.m_wakeSignal = shared.m_wakeSignal ∧ next.parked = shared.parked ∧
      next.nextNumber = shared.nextNumber ∧
      ∀ priority, ∀ task ∈ next.global priority, task ∈ shared.global priority := by
  cases move with
  | @dequeue priority task rest before =>
      refine ⟨rfl, rfl, rfl, fun query other member => ?_⟩
      rcases PoolShared.mem_setGlobal member with ⟨rfl, inRest⟩ | old
      · rw [before]
        exact List.mem_cons_of_mem _ inRest
      · exact old
  | _ => exact ⟨rfl, rfl, rfl, fun _ _ member => member⟩

/-- A search is no notification. -/
theorem silent (move : FindMove shared self lost goal step next frames) :
    ∀ frame ∈ frames, frame.owed = [] ∧ frame.isWaking = false ∧ frame.InRange ∧
      ∀ task, frame.carries task = 0 := by
  have found (task : PoolTask) : ∀ frame ∈ (goal.found task : List (PoolFrame size)),
      frame.owed = [] ∧ frame.isWaking = false ∧ frame.InRange ∧
        ∀ task, frame.carries task = 0 := by
    cases goal <;>
      simp [FindGoal.found, PoolFrame.owed, PoolFrame.isWaking, PoolFrame.InRange,
        PoolFrame.carries]
  have missed : ∀ frame ∈ (goal.missed : List (PoolFrame size)),
      frame.owed = [] ∧ frame.isWaking = false ∧ frame.InRange ∧
        ∀ task, frame.carries task = 0 := by
    cases goal with
    | spinning left =>
        cases left <;>
          simp [FindGoal.missed, PoolFrame.owed, PoolFrame.isWaking, PoolFrame.InRange,
            PoolFrame.carries]
    | _ =>
        simp [FindGoal.missed, PoolFrame.owed, PoolFrame.isWaking, PoolFrame.InRange,
          PoolFrame.carries]
  cases move <;> first
    | exact found _
    | exact missed
    | simp [PoolFrame.owed, PoolFrame.isWaking, PoolFrame.InRange, PoolFrame.carries]

/-- A worker gets past a global queue only when it finds it empty, or its dequeue is disturbed. -/
theorem past (move : FindMove shared self lost goal step next frames) {priority : TaskPriority}
    {rest : List (PoolFrame size)} {currentSignal : Nat}
    (isPast : pastTop priority (frames ++ rest) = some currentSignal) :
    (PoolFrame.finding goal step).past priority = some currentSignal ∨
      next.global priority = [] ∨
        lost = true ∧ goal = .parking currentSignal ∧ step = .dequeue priority ∧
          next = shared := by
  cases goal with
  | parking signal =>
      -- where the dequeue returned null
      have missed (query : TaskPriority) (empty : lost = false → shared.global query = []) :
          shared.global query = [] ∨ lost = true ∧
            FindGoal.parking signal = .parking signal ∧
              (FindStep.dequeue query : FindStep size) = .dequeue query ∧ shared = shared := by
        cases isLost : lost with
        | true => exact .inr ⟨rfl, rfl, rfl, rfl⟩
        | false => exact .inl (empty isLost)
      cases move with
      | pop | popHigh | popNormal | dequeue | steal => cases isPast
      | dequeueHigh empty =>
          simp only [pastTop, List.cons_append, PoolFrame.past] at isPast
          split at isPast <;> cases isPast
          next same =>
            subst same
            exact .inr (missed .high empty)
      | dequeueNormal empty steals =>
          cases priority with
          | high =>
              left
              rename_i onward
              cases onward <;> first | exact isPast | cases steals
          | normal =>
              rename_i onward
              obtain rfl : signal = currentSignal := by
                cases onward <;> first | exact Option.some.inj isPast | cases steals
              exact .inr (missed .normal empty)
      | @look step onward here steals =>
          left
          cases onward <;> cases steals <;> cases step <;> cases here <;> exact isPast
      | @give step here =>
          left
          cases step <;> first | exact isPast | cases here
      | stealBatch | transferred | transfer | popStolenHigh | popStolenNormal => exact .inl isPast
  | top | polled | helping => cases move <;> cases isPast
  | spinning left =>
      cases move <;> first
        | cases isPast
        | (cases left <;> cases isPast)

end FindMove

namespace PoolFrame

theorem mem_owed_pushed {kind : Submit} {todo owed : List PoolTask} {task : PoolTask}
    (member : task ∈ owed) :
    ∃ frame ∈ (pushed kind todo owed : List (PoolFrame size)), task ∈ frame.owed := by
  simp only [pushed]
  split
  next => exact ⟨_, List.mem_cons_self .., member⟩
  next => exact ⟨_, List.mem_cons_self .., member⟩

end PoolFrame

namespace SubmitMove

variable {shared next : PoolShared size} {self : Option (Fin size.m_workerCount)}
  {kind : Submit} {owed todo : List PoolTask} {frames : List (PoolFrame size)}

/-- A submission only adds tasks that it owes, and wakes nobody itself. -/
theorem queues (move : SubmitMove shared self kind owed todo next frames) :
    next.m_wakeSignal = shared.m_wakeSignal ∧ next.parked = shared.parked ∧
      next.nextNumber = shared.nextNumber ∧
      (∀ frame ∈ frames, frame.isWaking = false ∧ ∀ priority, frame.past priority = none) ∧
      ∀ priority, ∀ task ∈ next.global priority, task ∈ shared.global priority ∨
        task ∈ todo ∧ ∃ frame ∈ frames, task ∈ frame.owed := by
  have quiet (todo owed : List PoolTask) :
      ∀ frame ∈ (PoolFrame.pushed kind todo owed : List (PoolFrame size)),
        frame.isWaking = false ∧ ∀ priority, frame.past priority = none := by
    intro frame member
    simp only [PoolFrame.pushed] at member
    split at member <;> simp at member
    · rcases member with rfl | rfl <;> exact ⟨rfl, fun _ => rfl⟩
    · subst member
      exact ⟨rfl, fun _ => rfl⟩
  cases move with
  | push => exact ⟨rfl, rfl, rfl, quiet _ _, fun _ _ member => .inl member⟩
  | enqueue =>
      refine ⟨rfl, rfl, rfl, quiet _ _, fun query other member => ?_⟩
      rcases PoolShared.mem_setGlobal member with ⟨rfl, inQueue⟩ | old
      · rcases List.mem_append.mp inQueue with old | isNew
        · exact .inl old
        · rw [List.mem_singleton.mp isNew]
          exact .inr ⟨List.mem_cons_self .., PoolFrame.mem_owed_pushed (List.mem_cons_self ..)⟩
      · exact .inl old
  | full _ _ retries =>
      refine ⟨rfl, rfl, rfl, ?_, fun _ _ member => .inl member⟩
      rcases retries with rfl | rfl <;> simp [PoolFrame.isWaking, PoolFrame.past]
  | _ =>
      refine ⟨rfl, rfl, rfl, ?_, fun _ _ member => .inl member⟩
      simp [PoolFrame.isWaking, PoolFrame.past]

/-- A submission forgets what it owes only when no worker is counted. -/
theorem owes (move : SubmitMove shared self kind owed todo next frames)
    (bound : todo.length + owed.length < 2 ^ 32) {task : PoolTask} (isOwed : task ∈ owed) :
    (∃ frame ∈ frames, task ∈ frame.owed) ∨ next.m_sleepingCount = 0 := by
  cases move with
  | quiet settled =>
      rcases settled with rfl | none | wrapped
      · cases isOwed
      · exact .inr none
      · rw [List.length_nil, Nat.zero_add] at bound
        rw [u32_of_lt bound] at wrapped
        rw [List.length_eq_zero_iff.mp wrapped] at isOwed
        cases isOwed
  | notify => exact .inl ⟨_, List.mem_cons_self .., isOwed⟩
  | enqueueIo =>
      exact .inl ⟨_, List.mem_cons_of_mem _ (List.mem_cons_of_mem _ (List.mem_cons_self ..)),
        isOwed⟩
  | fullIo => exact .inl ⟨_, List.mem_cons_self .., isOwed⟩
  | push | enqueue =>
      exact .inl (PoolFrame.mem_owed_pushed (List.mem_cons_of_mem _ isOwed))
  | full => exact .inl ⟨_, List.mem_append_right _ (List.mem_cons_self ..), isOwed⟩

/-- A submission carries its tasks from the list to what it owes. -/
theorem carries (move : SubmitMove shared self kind owed todo next frames) (task : PoolTask) :
    (frames.map (PoolFrame.carries task)).sum ≤ todo.count task + owed.count task := by
  have pushed (head : PoolTask) (todo : List PoolTask) :
      ((PoolFrame.pushed kind todo (head :: owed) : List (PoolFrame size)).map
        (PoolFrame.carries task)).sum ≤ (head :: todo).count task + owed.count task := by
    simp only [PoolFrame.pushed]
    split <;> simp [PoolFrame.carries, PoolFrame.owed, List.count_cons] <;> omega
  cases move with
  | push | enqueue => exact pushed _ _
  | full _ _ retries => rcases retries with rfl | rfl <;> simp [PoolFrame.carries, PoolFrame.owed]
  | enqueueIo => simp [PoolFrame.carries, PoolFrame.owed, List.count_cons]
  | _ => simp [PoolFrame.carries, PoolFrame.owed]

theorem inRange (move : SubmitMove shared self kind owed todo next frames)
    (bound : todo.length + owed.length < 2 ^ 32) : ∀ frame ∈ frames, frame.InRange := by
  have pushed (task : PoolTask) (todo : List PoolTask)
      (bound : (task :: todo).length + owed.length < 2 ^ 32) :
      ∀ frame ∈ (PoolFrame.pushed kind todo (task :: owed) : List (PoolFrame size)),
        frame.InRange := by
    intro frame member
    simp only [List.length_cons] at bound
    simp only [PoolFrame.pushed] at member
    split at member <;> simp at member
    · rcases member with rfl | rfl
      · exact fun _ => by simp
      · simp only [PoolFrame.InRange, List.length_nil]
        omega
    · subst member
      simp only [PoolFrame.InRange, List.length_cons]
      omega
  cases move with
  | notify counts => simpa [PoolFrame.InRange] using counts
  | push | enqueue => exact pushed _ _ bound
  | enqueueIo =>
      simp only [List.length_cons] at bound
      simp [PoolFrame.InRange]
      omega
  | full _ _ retries => 
      rcases retries with rfl | rfl <;> simpa [PoolFrame.InRange] using bound
  | quiet => simp
  | fullIo => simpa [PoolFrame.InRange] using bound

end SubmitMove

namespace PoolShared

theorem mem_newTasks {shared : PoolShared size} {parent : Option PoolTask}
    {requests : List TaskRequest} {task : PoolTask}
    (member : task ∈ shared.newTasks parent requests) :
    shared.nextNumber ≤ task.number ∧ task.number < shared.nextNumber + requests.length := by
  obtain ⟨index, inRange, rfl⟩ := List.mem_mapIdx.mp member
  exact ⟨Nat.le_add_right .., Nat.add_lt_add_left inRange _⟩

theorem newTasks_nodup (shared : PoolShared size) (parent : Option PoolTask)
    (requests : List TaskRequest) : (shared.newTasks parent requests).Nodup := by
  refine List.Nodup.of_map (·.number) ?_
  have numbers : (shared.newTasks parent requests).map (·.number) =
      List.range' shared.nextNumber requests.length := by
    refine List.ext_getElem (by simp [newTasks]) fun index _ _ => ?_
    simp [newTasks]
  rw [numbers]
  exact List.nodup_range'

@[simp] theorem newTasks_length (shared : PoolShared size) (parent : Option PoolTask)
    (requests : List TaskRequest) :
    (shared.newTasks parent requests).length = requests.length := by
  simp [newTasks]

@[simp] theorem newTasks_request (shared : PoolShared size) (parent : Option PoolTask)
    (requests : List TaskRequest) :
    (shared.newTasks parent requests).map (·.request) = requests :=
  List.ext_getElem (by simp [newTasks]) fun index _ _ => by simp [newTasks]

end PoolShared

namespace PoolMove

variable {shared next : PoolShared size} {self : ThreadId size} {slot after : Option PoolTask}
  {inlines joined : Bool} {frame : PoolFrame size} {choice : PoolChoice size}
  {frames : List (PoolFrame size)}

theorem signal (move : PoolMove shared self slot inlines joined frame choice next frames after) :
    next.m_wakeSignal = shared.m_wakeSignal ∨ ∃ toWake, frame.bumps = some toWake ∧
      next.m_wakeSignal = u32 (shared.m_wakeSignal + toWake) := by
  cases move with
  | find move => exact .inl move.queues.1
  | submit move => exact .inl move.queues.1
  | bump | stopBump => exact .inr ⟨_, rfl, rfl⟩
  | _ => exact .inl rfl

theorem parked (move : PoolMove shared self slot inlines joined frame choice next frames after)
    {worker : Fin size.m_workerCount} (isParked : next.parked worker = true) :
    shared.parked worker = true ∨ self = .worker worker ∧ frame = .parking shared.m_wakeSignal ∧
      frames = [.blocked shared.m_wakeSignal] := by
  cases move with
  | find move =>
      rw [move.queues.2.1] at isParked
      exact .inl isParked
  | submit move =>
      rw [move.queues.2.1] at isParked
      exact .inl isParked
  | @park _ other isSelf =>
      simp only [Function.update_apply] at isParked
      split at isParked
      next same => exact .inr ⟨same ▸ isSelf, rfl, rfl⟩
      next => exact .inl isParked
  | @wakeOne _ _ _ other =>
      simp only [Function.update_apply] at isParked
      split at isParked
      next => cases isParked
      next => exact .inl isParked
  | wakeAll => cases isParked
  | _ => exact .inl isParked

/-- A blocked worker does not move before it is notified. -/
theorem notified {worker : Fin size.m_workerCount} {currentSignal : Nat}
    (move : PoolMove shared (.worker worker) slot inlines joined frame choice next frames after)
    (isBlocked : frame = .blocked currentSignal) : shared.parked worker = false := by
  cases move with
  | awake isSelf notified =>
      cases isSelf
      exact notified
  | ioWake wakes => rcases wakes with rfl | rfl <;> cases isBlocked
  | ioTake _ loops => rcases loops with ⟨rfl, -⟩ | ⟨rfl, -⟩ <;> cases isBlocked
  | ioGo loops =>
      subst isBlocked
      cases loops
  | _ => cases isBlocked

/-- A worker gets past a global queue only when it finds it empty, or its dequeue is disturbed. -/
theorem past (move : PoolMove shared self slot inlines joined frame choice next frames after)
    {priority : TaskPriority} {rest : List (PoolFrame size)}
    (calm : ∀ other ∈ rest, other.isCounted = false) {currentSignal : Nat}
    (isPast : pastTop priority (frames ++ rest) = some currentSignal) :
    frame.past priority = some currentSignal ∨ next.global priority = [] ∨
      choice.lost = true ∧ frame = .finding (.parking currentSignal) (.dequeue priority) ∧
        next = shared := by
  -- where a call returns, the frame below it is not past anything
  have below (returned : frames = []) : False := by
    subst returned
    cases rest with
    | nil => cases isPast
    | cons top rest =>
        have counted := (PoolFrame.counted_of_past isPast).1
        rw [calm top (List.mem_cons_self ..)] at counted
        cases counted
  cases move with
  | find move =>
      rcases move.past isPast with before | empty | ⟨isLost, rfl, rfl, same⟩
      · exact .inl before
      · exact .inr (.inl empty)
      · exact .inr (.inr ⟨isLost, rfl, same⟩)
  | submit move =>
      cases framesEq : frames with
      | nil => exact (below framesEq).elim
      | cons top others =>
          have none := ((move.queues.2.2.2.1) top (framesEq ▸ List.mem_cons_self ..)).2 priority
          rw [framesEq, List.cons_append, pastTop, none] at isPast
          cases isPast
  | @uncount _ unpark => cases unpark <;> cases isPast
  | park | awake => exact .inl isPast
  | bump wakes => rcases wakes with ⟨further, rfl⟩ | rfl <;> cases isPast
  | wakeOne _ left | wakeNone _ left =>
      rcases left with rfl | ⟨further, rfl⟩
      · exact (below rfl).elim
      · cases isPast
  | @ioGo _ _ onward _ loops stays => cases onward <;> cases stays <;> cases isPast
  | drainNormal | continued | finish | finishNone | unhelp | returned | nobody | wakeAll | ioBump
  | ioWake | ioReturn | stopAgain | stopBump | join => exact (below rfl).elim
  | _ => cases isPast

/-- A step adds to a global queue only what it owes then. -/
theorem queues (move : PoolMove shared self slot inlines joined frame choice next frames after)
    {priority : TaskPriority} {task : PoolTask} (member : task ∈ next.global priority) :
    task ∈ shared.global priority ∨ (∃ kind todo owed, frame = .submitting kind todo owed ∧
      task ∈ todo) ∧ ∃ frame ∈ frames, task ∈ frame.owed := by
  cases move with
  | find move => exact .inl (move.queues.2.2.2 priority task member)
  | submit move =>
      rcases move.queues.2.2.2.2 priority task member with old | ⟨isTodo, isOwed⟩
      · exact .inl old
      · exact .inr ⟨⟨_, _, _, rfl, isTodo⟩, isOwed⟩
  | _ => exact .inl member

/-- What a call owes is forgotten only when no worker is counted, or when a notification has
left a worker unblocked. -/
theorem owes (move : PoolMove shared self slot inlines joined frame choice next frames after)
    (inRange : frame.InRange) {task : PoolTask} (isOwed : task ∈ frame.owed) :
    (∃ frame ∈ frames, task ∈ frame.owed) ∨ next.m_sleepingCount = 0 ∨
      frame.isWaking = true ∧ ∃ worker, next.parked worker = false := by
  cases move with
  | submit move => exact (move.owes inRange isOwed).imp_right .inl
  | nobody nothing =>
      rcases nothing with none | rfl
      · exact .inr (.inl none)
      · exact absurd (inRange (List.ne_nil_of_mem isOwed)) (Nat.lt_irrefl _)
  | notifies => exact .inl ⟨_, List.mem_cons_self .., isOwed⟩
  | bump wakes =>
      rcases wakes with ⟨further, rfl⟩ | rfl <;>
        exact .inl ⟨_, List.mem_cons_self .., isOwed⟩
  | @wakeOne _ _ _ worker => exact .inr (.inr ⟨rfl, worker, by simp⟩)
  | wakeNone none => exact .inr (.inr ⟨rfl, ⟨0, size.hasWorker⟩, none _⟩)
  | wakeAll => exact .inr (.inr ⟨rfl, ⟨0, size.hasWorker⟩, rfl⟩)
  | ioWake wakes => rcases wakes with rfl | rfl <;> cases isOwed
  | ioTake _ loops => rcases loops with ⟨rfl, rfl⟩ | ⟨rfl, rfl⟩ <;> cases isOwed
  | ioGo loops => cases frame <;> cases loops <;> cases isOwed
  | _ => cases isOwed

/-- A call that wakes workers has bumped the signal for what it owes. -/
theorem woken (move : PoolMove shared self slot inlines joined frame choice next frames after)
    {other : PoolFrame size} (member : other ∈ frames) (isWaking : other.isWaking = true) :
    frame.isWaking = true ∧ other.owed = frame.owed ∧ next.m_wakeSignal = shared.m_wakeSignal ∨
      (∃ toWake, frame = .bumping toWake other.owed ∧
        next.m_wakeSignal = u32 (shared.m_wakeSignal + toWake)) ∨ other.owed = [] := by
  cases move with
  | find move =>
      rw [(move.silent other member).2.1] at isWaking
      cases isWaking
  | submit move =>
      rw [(move.queues.2.2.2.1 other member).1] at isWaking
      cases isWaking
  | bump wakes =>
      rw [List.mem_singleton.mp member]
      rcases wakes with ⟨further, rfl⟩ | rfl <;> exact .inr (.inl ⟨_, rfl, rfl⟩)
  | wakeOne _ left | wakeNone _ left =>
      rcases left with rfl | ⟨further, rfl⟩
      · cases member
      · rw [List.mem_singleton.mp member]
        exact .inl ⟨rfl, rfl, rfl⟩
  | stop =>
      right
      right
      simp only [List.mem_cons, List.not_mem_nil, or_false] at member
      rcases member with rfl | rfl | rfl | rfl | rfl <;> rfl
  | @uncount _ unpark =>
      cases unpark <;> simp [Unpark.onward] at member
      · rcases member with rfl | rfl | rfl <;> cases isWaking
      · subst member
        cases isWaking
      · subst member
        cases isWaking
  | @ioGo _ _ onward _ loops stays =>
      rw [List.mem_singleton.mp member] at isWaking
      cases onward <;> cases stays <;> cases isWaking
  | ioTake _ loops =>
      simp only [List.mem_cons, List.not_mem_nil, or_false] at member
      rcases loops with ⟨rfl, rfl⟩ | ⟨rfl, rfl⟩ <;> rcases member with rfl | rfl <;> cases isWaking
  | _ =>
      simp only [List.mem_cons, List.not_mem_nil, or_false] at member <;>
        first
          | (subst member; cases isWaking)
          | (rcases member with rfl | rfl <;> cases isWaking)
          | (rcases member with rfl | rfl | rfl <;> cases isWaking)

/-- A step carries no task twice: it passes on what its frame carries, or makes new ones. -/
theorem carries (move : PoolMove shared self slot inlines joined frame choice next frames after)
    (task : PoolTask) : shared.nextNumber ≤ next.nextNumber ∧
      ((frames.map (PoolFrame.carries task)).sum ≤ frame.carries task ∨
        shared.nextNumber ≤ task.number ∧ task.number < next.nextNumber ∧
          (frames.map (PoolFrame.carries task)).sum ≤ 1 + frame.carries task) := by
  cases move with
  | find move =>
      refine ⟨le_of_eq move.queues.2.2.1.symm, .inl ?_⟩
      have none : (frames.map (PoolFrame.carries task)).sum = 0 :=
        Counting.sum_map_eq_zero fun frame member => (move.silent frame member).2.2.2 task
      rw [none]
      exact Nat.zero_le _
  | submit move =>
      exact ⟨le_of_eq move.queues.2.2.1.symm, .inl (move.carries task)⟩
  | @request parent kind requests =>
      refine ⟨Nat.le_add_right .., ?_⟩
      by_cases isNew : task ∈ shared.newTasks parent requests
      · right
        obtain ⟨above, below⟩ := PoolShared.mem_newTasks isNew
        refine ⟨above, ?_, ?_⟩
        · simpa [PoolShared.request] using below
        · have once := List.nodup_iff_count_le_one.mp (shared.newTasks_nodup parent requests) task
          simpa [PoolFrame.carries, PoolFrame.owed] using once
      · left
        simp [PoolFrame.carries, PoolFrame.owed, List.count_eq_zero.mpr isNew]
  | stage =>
      refine ⟨Nat.le_add_right .., .inl ?_⟩
      simp [PoolFrame.carries, PoolFrame.owed]
  | @uncount _ unpark =>
      refine ⟨le_rfl, .inl ?_⟩
      cases unpark <;> simp [Unpark.onward, PoolFrame.carries, PoolFrame.owed]
  | bump wakes =>
      refine ⟨le_rfl, .inl ?_⟩
      rcases wakes with ⟨further, rfl⟩ | rfl <;> simp [PoolFrame.carries, PoolFrame.owed]
  | wakeOne _ left | wakeNone _ left =>
      refine ⟨le_rfl, .inl ?_⟩
      rcases left with rfl | ⟨further, rfl⟩ <;> simp [PoolFrame.carries, PoolFrame.owed]
  | ioTake _ loops =>
      refine ⟨le_rfl, .inl ?_⟩
      rcases loops with ⟨rfl, rfl⟩ | ⟨rfl, rfl⟩ <;> simp [PoolFrame.carries, PoolFrame.owed]
  | @ioGo _ _ onward _ loops stays =>
      refine ⟨le_rfl, .inl ?_⟩
      cases onward <;> cases stays <;> simp [PoolFrame.carries, PoolFrame.owed]
  | _ => exact ⟨le_rfl, .inl (by simp [PoolFrame.carries, PoolFrame.owed])⟩

theorem inRange (move : PoolMove shared self slot inlines joined frame choice next frames after)
    (bound : ∀ kind requests, choice = .submit kind requests → requests.length < 2 ^ 32)
    (sleeping : shared.m_sleepingCount < 2 ^ 32) (before : frame.InRange) :
    ∀ other ∈ frames, other.InRange := by
  cases move with
  | find move => exact fun other member => (move.silent other member).2.2.1
  | submit move => exact move.inRange before
  | @request parent kind requests => simpa [PoolFrame.InRange] using bound kind requests rfl
  | notifies positive counts =>
      simp only [List.mem_singleton, forall_eq, PoolFrame.InRange]
      omega
  | @uncount _ unpark => cases unpark <;> simp [Unpark.onward, PoolFrame.InRange]
  | bump wakes => rcases wakes with ⟨further, rfl⟩ | rfl <;> simp [PoolFrame.InRange]
  | wakeOne _ left | wakeNone _ left =>
      rcases left with rfl | ⟨further, rfl⟩ <;> simp [PoolFrame.InRange]
  | ioTake _ loops => rcases loops with ⟨rfl, rfl⟩ | ⟨rfl, rfl⟩ <;> simp [PoolFrame.InRange]
  | @ioGo _ _ onward _ loops stays => cases onward <;> cases stays <;> simp [PoolFrame.InRange]
  | _ => simp [PoolFrame.InRange]

end PoolMove

end LightFlow
