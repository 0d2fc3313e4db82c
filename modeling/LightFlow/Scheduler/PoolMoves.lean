import LightFlow.Scheduler.PoolStep

/-!
# What a step of a pool can do

One inversion for each of the functions that the frames of a pool belong to.
-/

namespace LightFlow

variable {size : PoolSize}

/-- A search is behind the global queues. -/
def FindStep.isStealing : FindStep size → Bool
  | .stealBatch _ _ | .steal _ _ => true
  | _ => false

/-- A step of `findWork` or `findWorkExternal`. -/
inductive FindMove (shared : PoolShared size) (self : Option (Fin size.m_workerCount))
    (lost : Bool) (goal : FindGoal) :
    FindStep size → PoolShared size → List (PoolFrame size) → Prop where
  | pop {worker : Fin size.m_workerCount} {priority : TaskPriority} {task : PoolTask}
      {rest : List PoolTask} {step : FindStep size} (isSelf : self = some worker)
      (pops : step = .pop priority ∨ step = .popStolen priority)
      (before : shared.deque worker priority = rest ++ [task]) :
      FindMove shared self lost goal step (shared.setDeque worker priority rest) (goal.found task)
  | popHigh {worker : Fin size.m_workerCount} (isSelf : self = some worker)
      (empty : lost = false → shared.deque worker .high = []) :
      FindMove shared self lost goal (.pop .high) shared [.finding goal (.pop .normal)]
  | popNormal {worker : Fin size.m_workerCount} (isSelf : self = some worker)
      (empty : lost = false → shared.deque worker .normal = []) :
      FindMove shared self lost goal (.pop .normal) shared [.finding goal (.dequeue .high)]
  | dequeue {priority : TaskPriority} {task : PoolTask} {rest : List PoolTask}
      (before : shared.global priority = task :: rest) :
      FindMove shared self lost goal (.dequeue priority) (shared.setGlobal priority rest)
        (goal.found task)
  | dequeueHigh (empty : lost = false → shared.global .high = []) :
      FindMove shared self lost goal (.dequeue .high) shared [.finding goal (.dequeue .normal)]
  | dequeueNormal {next : FindStep size} (empty : lost = false → shared.global .normal = [])
      (steals : next.isStealing = true) :
      FindMove shared self lost goal (.dequeue .normal) shared [.finding goal next]
  | look {step next : FindStep size} (here : step.isStealing = true)
      (steals : next.isStealing = true) :
      FindMove shared self lost goal step shared [.finding goal next]
  | give {step : FindStep size} (here : step.isStealing = true) :
      FindMove shared self lost goal step shared goal.missed
  | stealBatch {priority : TaskPriority} {victim : Fin size.m_workerCount}
      {victims : List (Fin size.m_workerCount)} {batch rest : List PoolTask}
      (before : shared.deque victim priority = batch ++ rest) :
      FindMove shared self lost goal (.stealBatch priority (victim :: victims))
        (shared.setDeque victim priority rest) [.finding goal (.transfer priority batch)]
  | transferred {priority : TaskPriority} :
      FindMove shared self lost goal (.transfer priority []) shared
        [.finding goal (.popStolen .high)]
  | transfer {worker : Fin size.m_workerCount} {priority : TaskPriority} {task : PoolTask}
      {batch : List PoolTask} (isSelf : self = some worker) :
      FindMove shared self lost goal (.transfer priority (task :: batch))
        (shared.pushBottom worker priority task) [.finding goal (.transfer priority batch)]
  | popStolenHigh {worker : Fin size.m_workerCount} (isSelf : self = some worker)
      (empty : lost = false → shared.deque worker .high = []) :
      FindMove shared self lost goal (.popStolen .high) shared [.finding goal (.popStolen .normal)]
  | popStolenNormal {worker : Fin size.m_workerCount} (isSelf : self = some worker)
      (empty : lost = false → shared.deque worker .normal = []) :
      FindMove shared self lost goal (.popStolen .normal) shared goal.missed
  | steal {priority : TaskPriority} {victim : Fin size.m_workerCount}
      {victims : List (Fin size.m_workerCount)} {task : PoolTask} {rest : List PoolTask}
      (before : shared.deque victim priority = task :: rest) :
      FindMove shared self lost goal (.steal priority (victim :: victims))
        (shared.setDeque victim priority rest) (goal.found task)

/-- A step of a function that hands over tasks. -/
inductive SubmitMove (shared : PoolShared size) (self : Option (Fin size.m_workerCount))
    (kind : Submit) (owed : List PoolTask) :
    List PoolTask → PoolShared size → List (PoolFrame size) → Prop where
  | quiet (settled : owed = [] ∨ shared.m_sleepingCount = 0 ∨ u32 owed.length = 0) :
      SubmitMove shared self kind owed [] shared []
  | notify {count : Nat} (counts : owed ≠ [] → 0 < count) :
      SubmitMove shared self kind owed [] shared [.notifying count owed]
  | enqueueIo {task : PoolTask} {todo : List PoolTask} (isIo : task.request.domain = .io)
      (room : shared.m_ioQueue.length < PoolShared.ioCapacity) :
      SubmitMove shared self kind owed (task :: todo)
        { shared with m_ioQueue := shared.m_ioQueue ++ [task] }
        [.ioBumping, .ioWaking, .submitting kind todo owed]
  | fullIo {task : PoolTask} {todo : List PoolTask} (isIo : task.request.domain = .io) :
      SubmitMove shared self kind owed (task :: todo) shared
        [.submitting kind (task :: todo) owed]
  | push {worker : Fin size.m_workerCount} {task : PoolTask} {todo : List PoolTask}
      (isWorker : task.request.domain ≠ .io) (isSelf : self = some worker) :
      SubmitMove shared self kind owed (task :: todo)
        (shared.pushBottom worker task.request.priority task)
        (PoolFrame.pushed kind todo (task :: owed))
  | enqueue {task : PoolTask} {todo : List PoolTask} (isWorker : task.request.domain ≠ .io)
      (external : self = none)
      (room : (shared.global task.request.priority).length <
        PoolShared.globalCapacity size task.request.priority) :
      SubmitMove shared self kind owed (task :: todo)
        (shared.setGlobal task.request.priority (shared.global task.request.priority ++ [task]))
        (PoolFrame.pushed kind todo (task :: owed))
  | full {task : PoolTask} {todo : List PoolTask} {retry : List (PoolFrame size)}
      (isWorker : task.request.domain ≠ .io) (external : self = none)
      (retries : retry = [] ∨ retry = [.notifying size.m_workerCount []]) :
      SubmitMove shared self kind owed (task :: todo) shared
        (retry ++ [.submitting kind (task :: todo) owed])

namespace PoolShared

variable {shared next : PoolShared size}

theorem popBottom_cases (shared : PoolShared size) (worker : Fin size.m_workerCount)
    (priority : TaskPriority) (lost : Bool) :
    ((lost = false → shared.deque worker priority = []) ∧
        shared.popBottom worker priority lost = none) ∨
      ∃ rest task, shared.deque worker priority = rest ++ [task] ∧
        shared.popBottom worker priority lost =
          some (task, shared.setDeque worker priority rest) := by
  cases lost with
  | true => exact .inl ⟨fun undisturbed => (by cases undisturbed), rfl⟩
  | false =>
      rcases List.eq_nil_or_concat (shared.deque worker priority) with empty | ⟨rest, task, split⟩
      · exact .inl ⟨fun _ => empty, by simp [popBottom, empty]⟩
      · rw [List.concat_eq_append] at split
        exact .inr ⟨rest, task, split, by simp [popBottom, split]⟩

theorem tryDequeue_cases (shared : PoolShared size) (priority : TaskPriority) (lost : Bool) :
    ((lost = false → shared.global priority = []) ∧ shared.tryDequeue priority lost = none) ∨
      ∃ task rest, shared.global priority = task :: rest ∧
        shared.tryDequeue priority lost = some (task, shared.setGlobal priority rest) := by
  cases lost with
  | true => exact .inl ⟨fun undisturbed => (by cases undisturbed), rfl⟩
  | false =>
      cases queue : shared.global priority with
      | nil => exact .inl ⟨fun _ => rfl, by simp [tryDequeue, queue]⟩
      | cons task rest => exact .inr ⟨task, rest, rfl, by simp [tryDequeue, queue]⟩

theorem tryDequeueIo_cases (shared : PoolShared size) (lost : Bool) :
    ((lost = false → shared.m_ioQueue = []) ∧ shared.tryDequeueIo lost = none) ∨
      ∃ task rest, shared.m_ioQueue = task :: rest ∧
        shared.tryDequeueIo lost = some (task, { shared with m_ioQueue := rest }) := by
  cases lost with
  | true => exact .inl ⟨fun undisturbed => (by cases undisturbed), rfl⟩
  | false =>
      cases queue : shared.m_ioQueue with
      | nil => exact .inl ⟨fun _ => rfl, by simp [tryDequeueIo, queue]⟩
      | cons task rest => exact .inr ⟨task, rest, rfl, by simp [tryDequeueIo, queue]⟩

end PoolShared

theorem FindMove.of_find {shared next : PoolShared size} {self : Option (Fin size.m_workerCount)}
    {start : Nat} {lost : Bool} {goal : FindGoal} {step : FindStep size}
    {frames : List (PoolFrame size)}
    (performed : PoolFrame.find shared self start lost goal step = some (next, frames)) :
    FindMove shared self lost goal step next frames := by
  unfold PoolFrame.find at performed
  split at performed
  next priority =>
    cases self with
    | none => cases performed
    | some worker =>
        rcases shared.popBottom_cases worker priority lost with
          ⟨empty, popped⟩ | ⟨rest, task, split, popped⟩
        · rw [Option.map_some, popped] at performed
          cases performed
          cases priority with
          | high => exact .popHigh rfl empty
          | normal => exact .popNormal rfl empty
        · rw [Option.map_some, popped] at performed
          cases performed
          exact .pop rfl (.inl rfl) split
  next priority =>
    rcases shared.tryDequeue_cases priority lost with
      ⟨empty, dequeued⟩ | ⟨task, rest, queue, dequeued⟩
    · simp only [dequeued] at performed
      cases priority with
      | high =>
          cases performed
          exact .dequeueHigh empty
      | normal => cases self <;> cases performed <;> exact .dequeueNormal empty rfl
    · simp only [dequeued] at performed
      cases performed
      exact .dequeue queue
  next => 
    cases performed
    exact .give rfl
  next priority victim victims =>
    by_cases misses : lost = true ∨ shared.deque victim priority = []
    · simp only [if_pos misses] at performed
      cases priority <;> cases performed <;> exact .look rfl rfl
    · simp only [if_neg misses] at performed
      cases performed
      exact .stealBatch (List.take_append_drop _ _).symm
  next =>
    cases performed
    exact .transferred
  next priority task batch =>
    cases self with
    | none => cases performed
    | some worker =>
        cases performed
        exact .transfer rfl
  next priority =>
    cases self with
    | none => cases performed
    | some worker =>
        rcases shared.popBottom_cases worker priority lost with
          ⟨empty, popped⟩ | ⟨rest, task, split, popped⟩
        · rw [Option.map_some, popped] at performed
          cases priority with
          | high =>
              cases performed
              exact .popStolenHigh rfl empty
          | normal =>
              cases performed
              exact .popStolenNormal rfl empty
        · rw [Option.map_some, popped] at performed
          cases performed
          exact .pop rfl (.inr rfl) split
  next =>
    cases performed
    exact .give rfl
  next priority victim victims =>
    split at performed
    next task rest split =>
      cases performed
      rw [PoolShared.takeTop, split]
      exact .steal split
    next => cases priority <;> cases self <;> cases performed <;> exact .look rfl rfl

theorem SubmitMove.of_submit (shared : PoolShared size) (self : Option (Fin size.m_workerCount))
    (lost : Bool) (kind : Submit) (owed todo : List PoolTask) :
    SubmitMove shared self kind owed todo (PoolFrame.submit shared self lost kind owed todo).1
      (PoolFrame.submit shared self lost kind owed todo).2 := by
  unfold PoolFrame.submit
  split
  next =>
    split
    next =>
      split
      next => exact .notify fun _ => Nat.one_pos
      next settled =>
        refine .quiet ?_
        by_cases isEmpty : owed = []
        · exact .inl isEmpty
        · simp only [ne_eq, isEmpty, not_false_eq_true, true_and, Nat.not_lt, Nat.le_zero]
          at settled
          exact .inr (.inl settled)
    next =>
      simp only
      split
      next counts => exact .notify fun _ => counts.1
      next settled =>
        refine .quiet (.inr ?_)
        omega
    next =>
      split
      next isEmpty => exact .quiet (.inl isEmpty)
      next => exact .notify List.length_pos_iff.mpr
  next task todo =>
    split
    next isIo =>
      simp only [PoolShared.tryEnqueueIo]
      by_cases room : lost = false ∧ shared.m_ioQueue.length < PoolShared.ioCapacity
      · rw [if_pos room]
        exact .enqueueIo isIo room.2
      · rw [if_neg room]
        exact .fullIo isIo
    next isWorker =>
      cases self with
      | some worker => exact .push isWorker rfl
      | none =>
          simp only [PoolShared.tryEnqueue]
          by_cases room : lost = false ∧ (shared.global task.request.priority).length <
            PoolShared.globalCapacity size task.request.priority
          · rw [if_pos room]
            exact .enqueue isWorker rfl room.2
          · rw [if_neg room]
            simp only
            split
            next =>
              have retries := @SubmitMove.full _ shared none kind owed task todo [] isWorker rfl
                (.inl rfl)
              exact retries
            next =>
              have retries := @SubmitMove.full _ shared none kind owed task todo
                [.notifying size.m_workerCount []] isWorker rfl (.inr rfl)
              exact retries

/-- A frame of `ioWorkerLoop`. -/
def PoolFrame.isIoLoop : PoolFrame size → Bool
  | .ioChecking | .ioDequeuing | .ioLoading | .ioRechecking _ | .ioTesting _ | .ioParking _
  | .ioBlocked _ | .ioDraining => true
  | _ => false

/-- A step of the innermost call of a thread: the frame, the choice, and what becomes of the
shared state, the frame and the inline slot. -/
inductive PoolMove (shared : PoolShared size) (self : ThreadId size) (slot : Option PoolTask)
    (inlines joined : Bool) :
    PoolFrame size → PoolChoice size → PoolShared size → List (PoolFrame size) →
      Option PoolTask → Prop where
  | check {choice : PoolChoice size} (going : shared.m_stop = false) :
      PoolMove shared self slot inlines joined .checking choice shared
        [.finding .top (.pop .high)] slot
  | leave {choice : PoolChoice size} (stopped : shared.m_stop = true) :
      PoolMove shared self slot inlines joined .checking choice shared [.draining .high] slot
  | find {choice : PoolChoice size} {goal : FindGoal} {step : FindStep size}
      {next : PoolShared size} {frames : List (PoolFrame size)}
      (move : FindMove shared self.currentWorkerIndex choice.lost goal step next frames) :
      PoolMove shared self slot inlines joined (.finding goal step) choice next frames slot
  | count {choice : PoolChoice size} :
      PoolMove shared self slot inlines joined .counting choice
        { shared with m_sleepingCount := u32 (shared.m_sleepingCount + 1) } [.loading] slot
  | load {choice : PoolChoice size} :
      PoolMove shared self slot inlines joined .loading choice shared
        [.rechecking shared.m_wakeSignal] slot
  | recheck {choice : PoolChoice size} {currentSignal : Nat} (going : shared.m_stop = false) :
      PoolMove shared self slot inlines joined (.rechecking currentSignal) choice shared
        [.finding (.parking currentSignal) (.pop .high)] slot
  | abandon {choice : PoolChoice size} {currentSignal : Nat} (stopped : shared.m_stop = true) :
      PoolMove shared self slot inlines joined (.rechecking currentSignal) choice shared
        [.uncounting .stopped] slot
  | park {choice : PoolChoice size} {worker : Fin size.m_workerCount}
      (isSelf : self = .worker worker) :
      PoolMove shared self slot inlines joined (.parking shared.m_wakeSignal) choice
        { shared with parked := Function.update shared.parked worker true }
        [.blocked shared.m_wakeSignal] slot
  | pass {choice : PoolChoice size} {currentSignal : Nat}
      (differs : shared.m_wakeSignal ≠ currentSignal) :
      PoolMove shared self slot inlines joined (.parking currentSignal) choice shared
        [.uncounting .awakened] slot
  | awake {choice : PoolChoice size} {currentSignal : Nat} {worker : Fin size.m_workerCount}
      (isSelf : self = .worker worker) (notified : shared.parked worker = false) :
      PoolMove shared self slot inlines joined (.blocked currentSignal) choice shared
        [.parking currentSignal] slot
  | uncount {choice : PoolChoice size} {unpark : Unpark} :
      PoolMove shared self slot inlines joined (.uncounting unpark) choice
        { shared with m_sleepingCount := u32Sub shared.m_sleepingCount 1 } unpark.onward slot
  | drain {choice : PoolChoice size} {worker : Fin size.m_workerCount}
      {priority : TaskPriority} {task : PoolTask} {rest : List PoolTask}
      (isSelf : self = .worker worker) (before : shared.deque worker priority = rest ++ [task]) :
      PoolMove shared self slot inlines joined (.draining priority) choice
        (shared.setDeque worker priority rest) [.body (some task), .continuing, .draining .high]
        slot
  | drainHigh {choice : PoolChoice size} {worker : Fin size.m_workerCount}
      (isSelf : self = .worker worker)
      (empty : choice.lost = false → shared.deque worker .high = []) :
      PoolMove shared self slot inlines joined (.draining .high) choice shared
        [.draining .normal] slot
  | drainNormal {choice : PoolChoice size} {worker : Fin size.m_workerCount}
      (isSelf : self = .worker worker)
      (empty : choice.lost = false → shared.deque worker .normal = []) :
      PoolMove shared self slot inlines joined (.draining .normal) choice shared [] slot
  | inline {choice : PoolChoice size} {task : PoolTask} (staged : slot = some task) :
      PoolMove shared self slot inlines joined .continuing choice shared
        [.body (some task), .continuing] none
  | continued {choice : PoolChoice size} (free : slot = none) :
      PoolMove shared self slot inlines joined .continuing choice shared [] none
  | request {task : Option PoolTask} {kind : Submit} {requests : List TaskRequest} :
      PoolMove shared self slot inlines joined (.body task) (.submit kind requests)
        (shared.request (shared.newTasks task requests))
        [.submitting kind (shared.newTasks task requests) [],
          .returning ((shared.newTasks task requests).map (·.number)), .body task] slot
  | stage {task : PoolTask} {priority : TaskPriority} (allowed : inlines = true)
      (free : slot = none) :
      PoolMove shared self slot inlines joined (.body (some task)) (.stage priority)
        (shared.request (shared.newTasks (some task) [{ priority }])) [.body (some task)]
        (shared.newTasks (some task) [{ priority }]).head?
  | notify {task : Option PoolTask} {count : Nat} :
      PoolMove shared self slot inlines joined (.body task) (.notify count) shared
        [.notifying (u32 count) [], .body task] slot
  | help {task : Option PoolTask} :
      PoolMove shared self slot inlines joined (.body task) .help shared
        [.helping, .body task] slot
  | shutdown {index : Fin size.externals} (isSelf : self = .external index) :
      PoolMove shared self slot inlines joined (.body none) .shutdown shared
        [.stopping, .body none] slot
  | finish {task : PoolTask} :
      PoolMove shared self slot inlines joined (.body (some task)) .finish
        (shared.record (.executed task)) [] slot
  | finishNone :
      PoolMove shared self slot inlines joined (.body none) .finish shared [] slot
  | unhelp {choice : PoolChoice size} :
      PoolMove shared self slot inlines joined .helping choice shared [] slot
  | seek {choice : PoolChoice size} {step : FindStep size}
      (begins : step = .pop .high ∨ step = .dequeue .high ∧ self.currentWorkerIndex = none) :
      PoolMove shared self slot inlines joined .helping choice shared
        [.finding .helping step] slot
  | submit {choice : PoolChoice size} {kind : Submit} {todo owed : List PoolTask}
      {next : PoolShared size} {frames : List (PoolFrame size)}
      (move : SubmitMove shared self.currentWorkerIndex kind owed todo next frames) :
      PoolMove shared self slot inlines joined (.submitting kind todo owed) choice next frames
        slot
  | returned {choice : PoolChoice size} {numbers : List Nat} :
      PoolMove shared self slot inlines joined (.returning numbers) choice
        { shared with log := numbers.map .returned ++ shared.log } [] slot
  | nobody {choice : PoolChoice size} {count : Nat} {owed : List PoolTask}
      (nothing : shared.m_sleepingCount = 0 ∨ count = 0) :
      PoolMove shared self slot inlines joined (.notifying count owed) choice shared [] slot
  | notifies {choice : PoolChoice size} {count : Nat} {owed : List PoolTask}
      (sleeping : 0 < shared.m_sleepingCount) (some : 0 < count) :
      PoolMove shared self slot inlines joined (.notifying count owed) choice shared
        [.bumping (min count shared.m_sleepingCount) owed] slot
  | bump {choice : PoolChoice size} {toWake : Nat} {owed : List PoolTask}
      {frame : PoolFrame size}
      (wakes : (∃ further, frame = .waking further owed) ∨ frame = .wakingAll owed) :
      PoolMove shared self slot inlines joined (.bumping toWake owed) choice
        { shared with m_wakeSignal := u32 (shared.m_wakeSignal + toWake) } [frame] slot
  | wakeOne {choice : PoolChoice size} {further : Nat} {owed : List PoolTask}
      {worker : Fin size.m_workerCount} {frames : List (PoolFrame size)}
      (blocked : shared.parked worker = true)
      (left : frames = [] ∨ ∃ further, frames = [.waking further owed]) :
      PoolMove shared self slot inlines joined (.waking further owed) choice
        { shared with parked := Function.update shared.parked worker false } frames slot
  | wakeNone {choice : PoolChoice size} {further : Nat} {owed : List PoolTask}
      {frames : List (PoolFrame size)} (none : ∀ worker, shared.parked worker = false)
      (left : frames = [] ∨ ∃ further, frames = [.waking further owed]) :
      PoolMove shared self slot inlines joined (.waking further owed) choice shared frames slot
  | wakeAll {choice : PoolChoice size} {owed : List PoolTask} :
      PoolMove shared self slot inlines joined (.wakingAll owed) choice
        { shared with parked := fun _ => false } [] slot
  | ioBump {choice : PoolChoice size} :
      PoolMove shared self slot inlines joined .ioBumping choice
        { shared with m_ioWakeSignal := u32 (shared.m_ioWakeSignal + 1) } [] slot
  | ioWake {choice : PoolChoice size} {frame : PoolFrame size}
      {ioParked : Fin size.m_ioWorkerCount → Bool}
      (wakes : frame = .ioWaking ∨ frame = .ioWakingAll) :
      PoolMove shared self slot inlines joined frame choice { shared with ioParked } [] slot
  | ioTake {choice : PoolChoice size} {task : PoolTask} {rest : List PoolTask}
      {frame after : PoolFrame size} (before : shared.m_ioQueue = task :: rest)
      (loops : frame = .ioDequeuing ∧ after = .ioChecking ∨
        frame = .ioDraining ∧ after = .ioDraining) :
      PoolMove shared self slot inlines joined frame choice { shared with m_ioQueue := rest }
        [.body (some task), after] slot
  | ioGo {choice : PoolChoice size} {frame after : PoolFrame size}
      {ioParked : Fin size.m_ioWorkerCount → Bool} (loops : frame.isIoLoop = true)
      (stays : after.isIoLoop = true) (stops : after = .ioDraining → shared.m_stop = true) :
      PoolMove shared self slot inlines joined frame choice { shared with ioParked } [after] slot
  | ioReturn {choice : PoolChoice size} (empty : choice.lost = false → shared.m_ioQueue = []) :
      PoolMove shared self slot inlines joined .ioDraining choice shared [] slot
  | stop {choice : PoolChoice size} (going : shared.m_stop = false) :
      PoolMove shared self slot inlines joined .stopping choice
        ({ shared with m_stop := true }.record .stopped)
        [.stopBumping, .wakingAll [], .ioBumping, .ioWakingAll, .joining] slot
  | stopAgain {choice : PoolChoice size} (stopped : shared.m_stop = true) :
      PoolMove shared self slot inlines joined .stopping choice (shared.record .shutDown) [] slot
  | stopBump {choice : PoolChoice size} :
      PoolMove shared self slot inlines joined .stopBumping choice
        { shared with m_wakeSignal := u32 (shared.m_wakeSignal + 1) } [] slot
  | join {choice : PoolChoice size} (returned : joined = true) :
      PoolMove shared self slot inlines joined .joining choice (shared.record .shutDown) [] slot

theorem ThreadId.of_currentWorkerIndex {self : ThreadId size} {worker : Fin size.m_workerCount}
    (isSelf : self.currentWorkerIndex = some worker) : self = .worker worker := by
  cases self with
  | worker index =>
      cases isSelf
      rfl
  | io | external => cases isSelf

theorem PoolFrame.wakings_cases (owed : List PoolTask) (further : Nat) :
    (PoolFrame.wakings owed further : List (PoolFrame size)) = [] ∨
      ∃ left, (PoolFrame.wakings owed further : List (PoolFrame size)) = [.waking left owed] := by
  cases further with
  | zero => exact .inl rfl
  | succ further => exact .inr ⟨further, rfl⟩

theorem PoolMove.of_fire {shared : PoolShared size} {self : ThreadId size}
    {slot : Option PoolTask} {inlines joined : Bool} {frame : PoolFrame size}
    {choice : PoolChoice size} {effect : PoolEffect size}
    (fired : frame.fire shared self slot inlines joined choice = some effect) :
    PoolMove shared self slot inlines joined frame choice effect.shared effect.frames
      effect.t_nextInlineTask := by
  unfold PoolFrame.fire at fired
  split at fired
  -- `workerLoop`
  next =>
    cases fired
    cases stopped : shared.m_stop with
    | false => simpa [stopped] using PoolMove.check stopped
    | true => simpa [stopped] using PoolMove.leave stopped
  next =>
    obtain ⟨⟨next, frames⟩, performed, rfl⟩ := Option.map_eq_some_iff.mp fired
    exact .find (.of_find performed)
  next =>
    cases fired
    exact .count
  next =>
    cases fired
    exact .load
  next =>
    cases fired
    cases stopped : shared.m_stop with
    | false => simpa [stopped] using PoolMove.recheck stopped
    | true => simpa [stopped] using PoolMove.abandon stopped
  next currentSignal _ _ _ _ =>
    cases self with
    | worker worker =>
        simp only at fired
        split at fired <;> cases fired
        next same =>
          subst same
          exact .park rfl
        next differs => exact .pass differs
    | io | external => cases fired
  next =>
    cases self with
    | worker worker =>
        simp only at fired
        split at fired <;> cases fired
        next notified => exact .awake rfl (eq_false_of_ne_true notified)
    | io | external => cases fired
  next =>
    cases fired
    exact .uncount
  next priority _ lost _ _ =>
    obtain ⟨worker, isSelf, rfl⟩ := Option.map_eq_some_iff.mp fired
    have isWorker := ThreadId.of_currentWorkerIndex isSelf
    rcases shared.popBottom_cases worker priority lost with
      ⟨empty, popped⟩ | ⟨rest, task, split, popped⟩
    · rw [popped]
      cases priority with
      | high => exact .drainHigh isWorker empty
      | normal => exact .drainNormal isWorker empty
    · rw [popped]
      exact .drain isWorker split
  next =>
    split at fired <;> cases fired
    · exact .inline rfl
    · exact .continued rfl
  -- bodies
  next =>
    split at fired <;> cases fired
    exact .request
  next =>
    split at fired <;> cases fired
    next allowed => exact .stage allowed.1 allowed.2
  next =>
    cases fired
    exact .notify
  next =>
    cases fired
    exact .help
  next =>
    split at fired <;> cases fired
    exact .shutdown rfl
  next =>
    cases fired
    exact .finish
  next =>
    cases fired
    exact .finishNone
  next =>
    cases fired
    exact .unhelp
  next =>
    cases fired
    refine .seek ?_
    cases self.currentWorkerIndex <;> simp
  -- `schedule`, `scheduleBatch` and `notifyWorker`
  next kind todo owed _ lost _ _ =>
    cases fired
    exact .submit (.of_submit shared self.currentWorkerIndex lost kind owed todo)
  next =>
    cases fired
    exact .returned
  next count owed _ _ _ _ =>
    cases fired
    by_cases nothing : shared.m_sleepingCount = 0 ∨ count = 0
    · simpa [nothing] using PoolMove.nobody nothing
    · simp only [if_neg nothing]
      exact .notifies (by omega) (by omega)
  next =>
    cases fired
    refine .bump ?_
    split
    next => exact .inl ⟨_, rfl⟩
    next =>
      split
      next => exact .inr rfl
      next => exact .inl ⟨_, rfl⟩
  next further owed _ _ worker _ =>
    obtain ⟨next, reached, rfl⟩ := Option.map_eq_some_iff.mp fired
    cases worker with
    | some worker =>
        simp only [PoolShared.notifyOne] at reached
        split at reached <;> cases reached
        next blocked => exact .wakeOne blocked (PoolFrame.wakings_cases owed further)
    | none =>
        simp only [PoolShared.notifyOne] at reached
        split at reached <;> cases reached
        next none => exact .wakeNone none (PoolFrame.wakings_cases owed further)
  next =>
    cases fired
    exact .wakeAll
  next =>
    cases fired
    exact .ioBump
  next ioWorker =>
    obtain ⟨next, reached, rfl⟩ := Option.map_eq_some_iff.mp fired
    cases ioWorker with
    | some ioWorker =>
        simp only [PoolShared.notifyOneIo] at reached
        split at reached <;> cases reached
        exact .ioWake (.inl rfl)
    | none =>
        simp only [PoolShared.notifyOneIo] at reached
        split at reached <;> cases reached
        exact .ioWake (.inl rfl)
  next =>
    cases fired
    exact .ioWake (.inr rfl)
  -- `ioWorkerLoop`
  next =>
    cases fired
    exact .ioGo rfl (by split <;> rfl) (by split <;> simp [*])
  next lost _ _ =>
    rcases shared.tryDequeueIo_cases lost with ⟨-, dequeued⟩ | ⟨task, rest, queue, dequeued⟩
    · simp only [dequeued] at fired
      cases fired
      exact .ioGo rfl rfl (by simp)
    · simp only [dequeued] at fired
      cases fired
      exact .ioTake queue (.inl ⟨rfl, rfl⟩)
  next =>
    cases fired
    exact .ioGo rfl rfl (by simp)
  next =>
    cases fired
    exact .ioGo rfl (by split <;> rfl) (by split <;> simp [*])
  next =>
    cases fired
    exact .ioGo rfl (by split <;> rfl) (by split <;> simp [*])
  next =>
    split at fired
    next =>
      split at fired <;> cases fired
      · exact .ioGo rfl rfl (by simp)
      · exact .ioGo rfl rfl (by simp)
    next => cases fired
  next =>
    split at fired
    next =>
      split at fired <;> cases fired
      exact .ioGo rfl rfl (by simp)
    next => cases fired
  next lost _ _ =>
    rcases shared.tryDequeueIo_cases lost with ⟨empty, dequeued⟩ | ⟨task, rest, queue, dequeued⟩
    · simp only [dequeued] at fired
      cases fired
      exact .ioReturn empty
    · simp only [dequeued] at fired
      cases fired
      exact .ioTake queue (.inr ⟨rfl, rfl⟩)
  -- `shutdown`
  next =>
    cases stopped : shared.m_stop with
    | false =>
        simp only [stopped, Bool.false_eq_true, if_false] at fired
        cases fired
        exact .stop stopped
    | true =>
        simp only [stopped, if_true] at fired
        cases fired
        exact .stopAgain stopped
  next =>
    cases fired
    exact .stopBump
  next =>
    split at fired <;> cases fired
    next returned => exact .join returned
  next => cases fired

/-- A step that replaces the innermost frame of one thread. -/
structure PoolState.Moves (state next : PoolState size) (mover : ThreadId size)
    (choice : PoolChoice size) (frame : PoolFrame size) (frames rest : List (PoolFrame size))
    (after : Option PoolTask) : Prop where
  isStack : (state.thread mover).stack = frame :: rest
  move : PoolMove state.shared mover (state.thread mover).t_nextInlineTask (inlines rest)
    state.Joined frame choice next.shared frames after
  moved : next.thread = Function.update state.thread mover ⟨frames ++ rest, after⟩

namespace PoolState.Moves

variable {state next : PoolState size} {mover : ThreadId size} {choice : PoolChoice size}
  {frame : PoolFrame size} {frames rest : List (PoolFrame size)} {after : Option PoolTask}

theorem of_step (stepped : state.step (mover, choice) = some next) :
    ∃ frame frames rest after, Moves state next mover choice frame frames rest after := by
  simp only [PoolState.step] at stepped
  split at stepped
  next => cases stepped
  next frame rest isStack =>
    obtain ⟨effect, fired, rfl⟩ := Option.map_eq_some_iff.mp stepped
    exact ⟨frame, effect.frames, rest, effect.t_nextInlineTask, isStack, .of_fire fired, rfl⟩

theorem here (moves : Moves state next mover choice frame frames rest after) :
    (next.thread mover).stack = frames ++ rest := by
  rw [moves.moved, Function.update_self]

theorem other (moves : Moves state next mover choice frame frames rest after)
    {query : ThreadId size} (different : query ≠ mover) :
    next.thread query = state.thread query := by
  rw [moves.moved, Function.update_of_ne different]

theorem mem_stack (moves : Moves state next mover choice frame frames rest after) :
    frame ∈ (state.thread mover).stack := by
  rw [moves.isStack]
  exact List.mem_cons_self ..

/-- A frame of the next state is new, or was there before. -/
theorem mem_cases (moves : Moves state next mover choice frame frames rest after)
    {query : ThreadId size} {top : PoolFrame size} (member : top ∈ (next.thread query).stack) :
    query = mover ∧ top ∈ frames ∨ top ∈ (state.thread query).stack := by
  by_cases isMover : query = mover
  · subst isMover
    rw [moves.here] at member
    rcases List.mem_append.mp member with isNew | isOld
    · exact .inl ⟨rfl, isNew⟩
    · rw [moves.isStack]
      exact .inr (List.mem_cons_of_mem _ isOld)
  · rw [moves.other isMover] at member
    exact .inr member

/-- The frames below the innermost one stay, and those of other threads. -/
theorem mem_of_ne (moves : Moves state next mover choice frame frames rest after)
    {query : ThreadId size} {top : PoolFrame size} (member : top ∈ (state.thread query).stack)
    (kept : query = mover → top ≠ frame) : top ∈ (next.thread query).stack := by
  by_cases isMover : query = mover
  · subst isMover
    rw [moves.isStack] at member
    rw [moves.here]
    exact List.mem_append_right _ (List.mem_of_ne_of_mem (kept rfl) member)
  · rwa [moves.other isMover]

theorem mem_new (moves : Moves state next mover choice frame frames rest after)
    {top : PoolFrame size} (member : top ∈ frames) : top ∈ (next.thread mover).stack := by
  rw [moves.here]
  exact List.mem_append_left _ member

end PoolState.Moves

end LightFlow
