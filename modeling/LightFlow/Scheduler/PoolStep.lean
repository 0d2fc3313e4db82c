import LightFlow.Lib.Machine
import LightFlow.Scheduler.Pool

/-!
# Steps of the thread pool

Firing the innermost frame of a thread performs its next access and replaces the frame by the
frames of what is left of the call.
-/

namespace LightFlow

variable {size : PoolSize}

namespace PoolShared

def record (shared : PoolShared size) (event : PoolEvent) : PoolShared size :=
  { shared with log := event :: shared.log }

/-- Replace one of the deques of a worker. -/
def setDeque (shared : PoolShared size) (worker : Fin size.m_workerCount)
    (priority : TaskPriority) (tasks : List PoolTask) : PoolShared size :=
  { shared with
    deque := Function.update shared.deque worker
      (Function.update (shared.deque worker) priority tasks) }

@[simp] theorem setDeque_self (shared : PoolShared size) (worker : Fin size.m_workerCount)
    (priority : TaskPriority) (tasks : List PoolTask) :
    (shared.setDeque worker priority tasks).deque worker priority = tasks := by
  simp [setDeque]

/-- Replace one of the global queues. -/
def setGlobal (shared : PoolShared size) (priority : TaskPriority) (tasks : List PoolTask) :
    PoolShared size :=
  { shared with global := Function.update shared.global priority tasks }

/-- `pushBottom` on a deque of a worker. -/
def pushBottom (shared : PoolShared size) (worker : Fin size.m_workerCount)
    (priority : TaskPriority) (task : PoolTask) : PoolShared size :=
  shared.setDeque worker priority (shared.deque worker priority ++ [task])

/-- `popBottom` on a deque of a worker.  It returns null on an empty deque, and when it finds
`m_top` beyond its task because a batch steal has claimed tasks that it will give back. -/
def popBottom (shared : PoolShared size) (worker : Fin size.m_workerCount)
    (priority : TaskPriority) (lost : Bool) : Option (PoolTask × PoolShared size) :=
  if lost then none
  else
    (shared.deque worker priority).getLast?.map fun task =>
      (task, shared.setDeque worker priority (shared.deque worker priority).dropLast)

/-- A thief takes the first `count` tasks of a deque. -/
def takeTop (shared : PoolShared size) (victim : Fin size.m_workerCount)
    (priority : TaskPriority) (count : Nat) : PoolShared size :=
  shared.setDeque victim priority ((shared.deque victim priority).drop count)

/-- How many tasks `stealBatch` takes from a deque with `available` tasks: half of them, or as
many as it `computed` from an older size. -/
def stealCount (available computed : Nat) : Nat :=
  min (if computed = 0 then (available + 1) / 2 else min computed available) 128

/-- Capacity of a global queue. -/
def globalCapacity (size : PoolSize) : TaskPriority → Nat
  | .high => queueCapacity 4096
  | .normal => queueCapacity (max size.initialDequeCapacity 65536)

/-- `tryEnqueue` on a global queue.  It fails on a full queue, and in front of a cell whose task
was taken and that is not released yet. -/
def tryEnqueue (shared : PoolShared size) (task : PoolTask) (lost : Bool) :
    Option (PoolShared size) :=
  let queue := shared.global task.request.priority
  if lost = false ∧ queue.length < globalCapacity size task.request.priority then
    some (shared.setGlobal task.request.priority (queue ++ [task]))
  else none

/-- `tryDequeue` on a global queue.  It returns null on an empty queue, and in front of a cell
that is claimed and not published yet. -/
def tryDequeue (shared : PoolShared size) (priority : TaskPriority) (lost : Bool) :
    Option (PoolTask × PoolShared size) :=
  match lost, shared.global priority with
  | false, task :: rest => some (task, shared.setGlobal priority rest)
  | _, _ => none

/-- Capacity of `m_ioQueue`. -/
def ioCapacity : Nat := queueCapacity 1024

/-- `tryEnqueue` on the IO queue. -/
def tryEnqueueIo (shared : PoolShared size) (task : PoolTask) (lost : Bool) :
    Option (PoolShared size) :=
  if lost = false ∧ shared.m_ioQueue.length < ioCapacity then
    some { shared with m_ioQueue := shared.m_ioQueue ++ [task] }
  else none

/-- `tryDequeue` on the IO queue. -/
def tryDequeueIo (shared : PoolShared size) (lost : Bool) : Option (PoolTask × PoolShared size) :=
  match lost, shared.m_ioQueue with
  | false, task :: rest => some (task, { shared with m_ioQueue := rest })
  | _, _ => none

/-- `m_wakeSignal.notify_one` reaches a blocked worker if there is one. -/
def notifyOne (shared : PoolShared size) (reached : Option (Fin size.m_workerCount)) :
    Option (PoolShared size) :=
  match reached with
  | some worker =>
      if shared.parked worker then
        some { shared with parked := Function.update shared.parked worker false }
      else none
  | none => if ∀ worker, shared.parked worker = false then some shared else none

/-- `m_ioWakeSignal.notify_one`. -/
def notifyOneIo (shared : PoolShared size) (reached : Option (Fin size.m_ioWorkerCount)) :
    Option (PoolShared size) :=
  match reached with
  | some worker =>
      if shared.ioParked worker then
        some { shared with ioParked := Function.update shared.ioParked worker false }
      else none
  | none => if ∀ worker, shared.ioParked worker = false then some shared else none

/-- New tasks for the requests of a body. -/
def newTasks (shared : PoolShared size) (parent : Option PoolTask) (requests : List TaskRequest) :
    List PoolTask :=
  let ancestors :=
    match parent with
    | none => []
    | some task => task.number :: task.ancestors
  requests.mapIdx fun index request =>
    { number := shared.nextNumber + index, ancestors, request }

/-- The tasks were handed over. -/
def request (shared : PoolShared size) (tasks : List PoolTask) : PoolShared size :=
  { shared with
    nextNumber := shared.nextNumber + tasks.length
    log := tasks.reverse.map .requested ++ shared.log }

end PoolShared

namespace FindGoal

/-- What is left of the caller when `findWork` returns a task. -/
def found (task : PoolTask) : FindGoal → List (PoolFrame size)
  | .top | .spinning _ | .polled => [.body (some task), .continuing, .checking]
  | .parking _ => [.uncounting (.found task)]
  | .helping => [.body (some task), .continuing, .helping]

/-- What is left of the caller when `findWork` returns null. -/
def missed : FindGoal → List (PoolFrame size)
  | .top => [.finding (.spinning 255) (.pop .high)]
  | .spinning (left + 1) => [.finding (.spinning left) (.pop .high)]
  | .spinning 0 => [.body none, .finding .polled (.pop .high)]
  | .polled => [.counting]
  | .parking currentSignal => [.parking currentSignal]
  | .helping => [.body none, .helping]

end FindGoal

/-- What is left of the loop after `m_sleepingCount.fetch_sub`. -/
def Unpark.onward : Unpark → List (PoolFrame size)
  | .found task => [.body (some task), .continuing, .checking]
  | .awakened => [.checking]
  | .stopped => [.draining .high]

/-- The other workers, as `findWork` visits them, or all workers for an external thread. -/
def victimsFrom (size : PoolSize) (self : Option (Fin size.m_workerCount)) (start : Nat) :
    List (Fin size.m_workerCount) :=
  ((List.range size.m_workerCount).map fun attempt =>
    ⟨(start + attempt) % size.m_workerCount, Nat.mod_lt _ size.hasWorker⟩).filter (some · ≠ self)

/-- `currentWorkerIndex`. -/
def ThreadId.currentWorkerIndex : ThreadId size → Option (Fin size.m_workerCount)
  | .worker workerIndex => some workerIndex
  | _ => none

/-- What one step of a frame does. -/
structure PoolEffect (size : PoolSize) where
  shared : PoolShared size
  frames : List (PoolFrame size) := []
  t_nextInlineTask : Option PoolTask

namespace PoolFrame

/-- The next step of `findWork` and `findWorkExternal`. -/
def find (shared : PoolShared size) (self : Option (Fin size.m_workerCount)) (start : Nat)
    (lost : Bool) (goal : FindGoal) : FindStep size →
    Option (PoolShared size × List (PoolFrame size))
  | .pop priority =>
      self.map fun worker =>
        match shared.popBottom worker priority lost with
        | some (task, shared) => (shared, goal.found task)
        | none =>
            (shared,
              [.finding goal
                (match priority with
                | .high => .pop .normal
                | .normal => .dequeue .high)])
  | .dequeue priority =>
      match shared.tryDequeue priority lost with
      | some (task, shared) => some (shared, goal.found task)
      | none =>
          match priority with
          | .high => some (shared, [.finding goal (.dequeue .normal)])
          | .normal =>
              let victims := victimsFrom size self start
              match self with
              | some _ => some (shared, [.finding goal (.stealBatch .high victims)])
              | none => some (shared, [.finding goal (.steal .high victims)])
  | .stealBatch _ [] => some (shared, goal.missed)
  | .stealBatch priority (victim :: victims) =>
      let available := shared.deque victim priority
      if lost ∨ available = [] then
        some
          (shared,
            [.finding goal
              (match priority with
              | .high => .stealBatch .normal (victim :: victims)
              | .normal => .steal .high (victim :: victims))])
      else
        let count := PoolShared.stealCount available.length start
        some (shared.takeTop victim priority count,
          [.finding goal (.transfer priority (available.take count))])
  | .transfer _ [] => some (shared, [.finding goal (.popStolen .high)])
  | .transfer priority (task :: batch) =>
      self.map fun worker =>
        (shared.pushBottom worker priority task, [.finding goal (.transfer priority batch)])
  | .popStolen priority =>
      self.map fun worker =>
        match shared.popBottom worker priority lost with
        | some (task, shared) => (shared, goal.found task)
        | none =>
            match priority with
            | .high => (shared, [.finding goal (.popStolen .normal)])
            | .normal => (shared, goal.missed)
  | .steal _ [] => some (shared, goal.missed)
  | .steal priority (victim :: victims) =>
      match lost, shared.deque victim priority with
      | false, task :: _ => some (shared.takeTop victim priority 1, goal.found task)
      | _, _ =>
          match priority, self with
          | .high, _ => some (shared, [.finding goal (.steal .normal (victim :: victims))])
          | .normal, some _ => some (shared, [.finding goal (.stealBatch .high victims)])
          | .normal, none => some (shared, [.finding goal (.steal .high victims)])

/-- What is left of a call after a push of a Worker task. -/
def pushed (kind : Submit) (todo owed : List PoolTask) : List (PoolFrame size) :=
  if kind = .unblock ∧ 64 ≤ owed.length then
    [.notifying owed.length owed, .submitting kind todo []]
  else [.submitting kind todo owed]

/-- The next step of `schedule`, `scheduleBatch`, or a loop that schedules successors. -/
def submit (shared : PoolShared size) (self : Option (Fin size.m_workerCount)) (lost : Bool)
    (kind : Submit) (owed : List PoolTask) : List PoolTask → PoolShared size × List (PoolFrame size)
  | [] =>
      match kind with
      | .schedule =>
          if owed ≠ [] ∧ 0 < shared.m_sleepingCount then (shared, [.notifying 1 owed])
          else (shared, [])
      | .scheduleBatch =>
          let workerTaskCount := u32 owed.length
          if 0 < workerTaskCount ∧ 0 < shared.m_sleepingCount then
            (shared, [.notifying workerTaskCount owed])
          else (shared, [])
      | .unblock => (shared, if owed = [] then [] else [.notifying owed.length owed])
  | task :: todo =>
      if task.request.domain = .io then
        match shared.tryEnqueueIo task lost with
        | some shared => (shared, [.ioBumping, .ioWaking, .submitting kind todo owed])
        | none => (shared, [.submitting kind (task :: todo) owed])
      else
        match self with
        | some worker =>
            (shared.pushBottom worker task.request.priority task, pushed kind todo (task :: owed))
        | none =>
            match shared.tryEnqueue task lost with
            | some shared => (shared, pushed kind todo (task :: owed))
            | none =>
                if kind = .scheduleBatch then (shared, [.submitting kind (task :: todo) owed])
                else
                  (shared,
                    [.notifying size.m_workerCount [], .submitting kind (task :: todo) owed])

/-- The calls of `notify_one` that are left. -/
def wakings (owed : List PoolTask) : Nat → List (PoolFrame size)
  | 0 => []
  | further + 1 => [.waking further owed]

/-- The next step of the innermost call; `slot` is `t_nextInlineTask`, and `inlines` says
whether the caller executes it, which is when `t_canInlineTask` is set. -/
def fire (shared : PoolShared size) (self : ThreadId size) (slot : Option PoolTask)
    (inlines joined : Bool) : PoolFrame size → PoolChoice size → Option (PoolEffect size)
  -- `workerLoop`
  | .checking, .go _ _ _ _ =>
      some
        { shared
          frames :=
            [if shared.m_stop then .draining .high else .finding .top (.pop .high)]
          t_nextInlineTask := slot }
  | .finding goal step, .go start lost _ _ =>
      (find shared self.currentWorkerIndex start lost goal step).map fun (shared, frames) =>
        { shared, frames, t_nextInlineTask := slot }
  | .counting, .go _ _ _ _ =>
      some
        { shared := { shared with m_sleepingCount := u32 (shared.m_sleepingCount + 1) }
          frames := [.loading]
          t_nextInlineTask := slot }
  | .loading, .go _ _ _ _ =>
      some { shared, frames := [.rechecking shared.m_wakeSignal], t_nextInlineTask := slot }
  | .rechecking currentSignal, .go _ _ _ _ =>
      some
        { shared
          frames :=
            [if shared.m_stop then .uncounting .stopped
             else .finding (.parking currentSignal) (.pop .high)]
          t_nextInlineTask := slot }
  | .parking currentSignal, .go _ _ _ _ =>
      match self with
      | .worker worker =>
          if shared.m_wakeSignal = currentSignal then
            some
              { shared := { shared with parked := Function.update shared.parked worker true }
                frames := [.blocked currentSignal]
                t_nextInlineTask := slot }
          else some { shared, frames := [.uncounting .awakened], t_nextInlineTask := slot }
      | _ => none
  | .blocked currentSignal, .go _ _ _ _ =>
      match self with
      | .worker worker =>
          if shared.parked worker then none
          else some { shared, frames := [.parking currentSignal], t_nextInlineTask := slot }
      | _ => none
  | .uncounting unpark, .go _ _ _ _ =>
      some
        { shared := { shared with m_sleepingCount := u32Sub shared.m_sleepingCount 1 }
          frames := unpark.onward
          t_nextInlineTask := slot }
  | .draining priority, .go _ lost _ _ =>
      self.currentWorkerIndex.map fun worker =>
        match shared.popBottom worker priority lost with
        | some (task, shared) =>
            { shared
              frames := [.body (some task), .continuing, .draining .high]
              t_nextInlineTask := slot }
        | none =>
            { shared
              frames :=
                match priority with
                | .high => [.draining .normal]
                | .normal => []
              t_nextInlineTask := slot }
  | .continuing, .go _ _ _ _ =>
      match slot with
      | some nextTask =>
          some
            { shared
              frames := [.body (some nextTask), .continuing]
              t_nextInlineTask := none }
      | none => some { shared, t_nextInlineTask := none }
  -- bodies
  | .body task, .submit kind requests =>
      if kind = .schedule → requests.length = 1 then
        let tasks := shared.newTasks task requests
        some
          { shared := shared.request tasks
            frames :=
              [.submitting kind tasks [], .returning (tasks.map (·.number)), .body task]
            t_nextInlineTask := slot }
      else none
  | .body (some task), .stage priority =>
      if inlines ∧ slot = none then
        let tasks := shared.newTasks (some task) [{ priority }]
        some
          { shared := shared.request tasks
            frames := [.body (some task)]
            t_nextInlineTask := tasks.head? }
      else none
  | .body task, .notify count =>
      some
        { shared
          frames := [.notifying (u32 count) [], .body task]
          t_nextInlineTask := slot }
  | .body task, .help => some { shared, frames := [.helping, .body task], t_nextInlineTask := slot }
  | .body none, .shutdown =>
      match self with
      | .external _ =>
          some { shared, frames := [.stopping, .body none], t_nextInlineTask := slot }
      | _ => none
  | .body (some task), .finish =>
      some { shared := shared.record (.executed task), t_nextInlineTask := slot }
  | .body none, .finish => some { shared, t_nextInlineTask := slot }
  | .helping, .leave => some { shared, t_nextInlineTask := slot }
  | .helping, .go _ _ _ _ =>
      some
        { shared
          frames :=
            [.finding .helping
              (if self.currentWorkerIndex.isSome then .pop .high else .dequeue .high)]
          t_nextInlineTask := slot }
  -- `schedule`, `scheduleBatch` and `notifyWorker`
  | .submitting kind todo owed, .go _ lost _ _ =>
      let (shared, frames) := submit shared self.currentWorkerIndex lost kind owed todo
      some { shared, frames, t_nextInlineTask := slot }
  | .returning numbers, .go _ _ _ _ =>
      some
        { shared := { shared with log := numbers.map .returned ++ shared.log }
          t_nextInlineTask := slot }
  | .notifying count owed, .go _ _ _ _ =>
      let sleeping := shared.m_sleepingCount
      some
        { shared
          frames := if sleeping = 0 ∨ count = 0 then [] else [.bumping (min count sleeping) owed]
          t_nextInlineTask := slot }
  | .bumping toWake owed, .go _ _ _ _ =>
      some
        { shared := { shared with m_wakeSignal := u32 (shared.m_wakeSignal + toWake) }
          frames :=
            [if toWake = 1 then .waking 0 owed
             else if size.m_workerCount ≤ toWake then .wakingAll owed
             else .waking (toWake - 1) owed]
          t_nextInlineTask := slot }
  | .waking further owed, .go _ _ worker _ =>
      (shared.notifyOne worker).map fun shared =>
        { shared
          frames := wakings owed further
          t_nextInlineTask := slot }
  | .wakingAll _, .go _ _ _ _ =>
      some
        { shared := { shared with parked := fun _ => false }
          t_nextInlineTask := slot }
  | .ioBumping, .go _ _ _ _ =>
      some
        { shared := { shared with m_ioWakeSignal := u32 (shared.m_ioWakeSignal + 1) }
          t_nextInlineTask := slot }
  | .ioWaking, .go _ _ _ ioWorker =>
      (shared.notifyOneIo ioWorker).map fun shared => { shared, t_nextInlineTask := slot }
  | .ioWakingAll, .go _ _ _ _ =>
      some
        { shared := { shared with ioParked := fun _ => false }
          t_nextInlineTask := slot }
  -- `ioWorkerLoop`
  | .ioChecking, .go _ _ _ _ =>
      some
        { shared
          frames := [if shared.m_stop then .ioDraining else .ioDequeuing]
          t_nextInlineTask := slot }
  | .ioDequeuing, .go _ lost _ _ =>
      match shared.tryDequeueIo lost with
      | some (task, shared) =>
          some { shared, frames := [.body (some task), .ioChecking], t_nextInlineTask := slot }
      | none => some { shared, frames := [.ioLoading], t_nextInlineTask := slot }
  | .ioLoading, .go _ _ _ _ =>
      some { shared, frames := [.ioRechecking shared.m_ioWakeSignal], t_nextInlineTask := slot }
  | .ioRechecking currentSignal, .go _ _ _ _ =>
      some
        { shared
          frames := [if shared.m_stop then .ioDraining else .ioTesting currentSignal]
          t_nextInlineTask := slot }
  | .ioTesting currentSignal, .go _ lost _ _ =>
      -- `empty` loads the two positions one after the other
      some
        { shared
          frames :=
            [if lost ∨ shared.m_ioQueue = [] then .ioParking currentSignal else .ioChecking]
          t_nextInlineTask := slot }
  | .ioParking currentSignal, .go _ _ _ _ =>
      match self with
      | .io worker =>
          if shared.m_ioWakeSignal = currentSignal then
            some
              { shared := { shared with ioParked := Function.update shared.ioParked worker true }
                frames := [.ioBlocked currentSignal]
                t_nextInlineTask := slot }
          else some { shared, frames := [.ioChecking], t_nextInlineTask := slot }
      | _ => none
  | .ioBlocked currentSignal, .go _ _ _ _ =>
      match self with
      | .io worker =>
          if shared.ioParked worker then none
          else some { shared, frames := [.ioParking currentSignal], t_nextInlineTask := slot }
      | _ => none
  | .ioDraining, .go _ lost _ _ =>
      match shared.tryDequeueIo lost with
      | some (task, shared) =>
          some { shared, frames := [.body (some task), .ioDraining], t_nextInlineTask := slot }
      | none => some { shared, t_nextInlineTask := slot }
  -- `shutdown`
  | .stopping, .go _ _ _ _ =>
      if shared.m_stop then some { shared := shared.record .shutDown, t_nextInlineTask := slot }
      else
        some
          { shared := { shared with m_stop := true }.record .stopped
            frames := [.stopBumping, .wakingAll [], .ioBumping, .ioWakingAll, .joining]
            t_nextInlineTask := slot }
  | .stopBumping, .go _ _ _ _ =>
      some
        { shared := { shared with m_wakeSignal := u32 (shared.m_wakeSignal + 1) }
          t_nextInlineTask := slot }
  | .joining, .go _ _ _ _ =>
      if joined then some { shared := shared.record .shutDown, t_nextInlineTask := slot }
      else none
  | _, _ => none

end PoolFrame

namespace PoolState

/-- All worker threads and IO threads have returned. -/
def Joined (state : PoolState size) : Prop :=
  (∀ worker, (state.thread (.worker worker)).stack = []) ∧
    ∀ worker, (state.thread (.io worker)).stack = []

instance (state : PoolState size) : Decidable state.Joined :=
  inferInstanceAs (Decidable (_ ∧ _))

/-- The caller of the innermost call executes `t_nextInlineTask`. -/
def inlines : List (PoolFrame size) → Bool
  | .continuing :: _ => true
  | _ => false

/-- The next step of a thread. -/
def step (state : PoolState size) :
    ThreadId size × PoolChoice size → Option (PoolState size)
  | (self, choice) =>
      match (state.thread self).stack with
      | [] => none
      | frame :: stack =>
          (frame.fire state.shared self (state.thread self).t_nextInlineTask (inlines stack)
            state.Joined choice).map fun effect =>
              { shared := effect.shared
                thread := Function.update state.thread self
                  { stack := effect.frames ++ stack
                    t_nextInlineTask := effect.t_nextInlineTask } }

end PoolState

/-- A pool whose threads were just started. -/
def PoolState.initial (size : PoolSize) : PoolState size where
  thread
    | .worker _ => { stack := [.checking] }
    | .io _ => { stack := [.ioChecking] }
    | .external _ => { stack := [.body none] }

/-- All interleavings of the threads of a pool. -/
def poolMachine (size : PoolSize) : Machine (PoolState size) (ThreadId size × PoolChoice size) where
  initial := fun state => state = PoolState.initial size
  step := PoolState.step

end LightFlow
