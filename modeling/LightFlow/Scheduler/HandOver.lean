import LightFlow.Scheduler.PoolStep
import Mathlib.Data.List.ReduceOption

/-!
# Handing over tasks one by one and together

`schedule` and `scheduleBatch` as calls of one thread, with the tasks of all domains and null
entries.  Whether a queue has room, and whether workers sleep, is up to the other threads at each
access.
-/

namespace LightFlow

variable {size : PoolSize}

/-- What the scheduler reads of a `TaskNode`. -/
structure ScheduledTask where
  number : Nat
  domain : TaskDomain := .worker
  priority : TaskPriority := .normal
  deriving DecidableEq, Repr

/-- Where a task is handed over. -/
inductive TaskQueue (size : PoolSize) where
  /-- The list at `m_mainThreadHead`. -/
  | mainThread
  /-- `m_ioQueue`. -/
  | io
  /-- A deque of a worker. -/
  | deque (worker : Fin size.m_workerCount) (priority : TaskPriority)
  /-- `m_globalHigh` or `m_globalNormal`. -/
  | global (priority : TaskPriority)
  deriving DecidableEq, Repr

/-- What a call does to the scheduler. -/
inductive SubmitEvent (size : PoolSize) where
  /-- The task is in the queue. -/
  | handed (task : ScheduledTask) (queue : TaskQueue size)
  /-- `tryEnqueue` returned false. -/
  | refused (task : ScheduledTask) (queue : TaskQueue size)
  /-- `m_ioWakeSignal.fetch_add` and `notify_one`. -/
  | notifiedIo
  /-- `notifyWorker(count)`. -/
  | notified (count : Nat)
  deriving DecidableEq, Repr

/-- The rest of a call. -/
inductive SubmitCall where
  /-- `schedule(task)` at its `switch`. -/
  | scheduling (task : ScheduledTask)
  /-- `scheduleBatch` in its loop. -/
  | batching (tasks : List (Option ScheduledTask)) (workerTaskCount : Nat)
  /-- At the notification of the IO workers. -/
  | notifyingIo
  /-- At the load of `m_sleepingCount` before `notifyWorker(count)`. -/
  | loading (count : Nat)
  /-- At `notifyWorker(count)`. -/
  | notifying (count : Nat)
  deriving DecidableEq, Repr

/-- What the caller sees of the scheduler at one access. -/
structure SubmitAnswer where
  /-- The bounded queue that is tried has room. -/
  room : Bool
  m_sleepingCount : Nat
  deriving DecidableEq, Repr

namespace SubmitCall

/-- The next access of a call, and what is left of it. -/
def step (self : ThreadId size) (answer : SubmitAnswer) :
    SubmitCall → List (SubmitEvent size) × List SubmitCall
  | .scheduling task =>
      match task.domain with
      | .mainThread => ([.handed task .mainThread], [])
      | .io =>
          if answer.room then ([.handed task .io], [.notifyingIo])
          else ([.refused task .io], [.scheduling task])
      | .worker =>
          match self.currentWorkerIndex with
          | some worker => ([.handed task (.deque worker task.priority)], [.loading 1])
          | none =>
              if answer.room then ([.handed task (.global task.priority)], [.loading 1])
              else
                ([.refused task (.global task.priority)],
                  [.notifying size.m_workerCount, .scheduling task])
  | .batching [] workerTaskCount =>
      ([], if 0 < workerTaskCount then [.loading workerTaskCount] else [])
  | .batching (none :: tasks) workerTaskCount => ([], [.batching tasks workerTaskCount])
  | .batching (some task :: tasks) workerTaskCount =>
      match task.domain with
      | .mainThread => ([.handed task .mainThread], [.batching tasks workerTaskCount])
      | .io =>
          if answer.room then
            ([.handed task .io], [.notifyingIo, .batching tasks workerTaskCount])
          else ([.refused task .io], [.batching (some task :: tasks) workerTaskCount])
      | .worker =>
          match self.currentWorkerIndex with
          | some worker =>
              ([.handed task (.deque worker task.priority)],
                [.batching tasks (u32 (workerTaskCount + 1))])
          | none =>
              if answer.room then
                ([.handed task (.global task.priority)],
                  [.batching tasks (u32 (workerTaskCount + 1))])
              else
                ([.refused task (.global task.priority)],
                  [.batching (some task :: tasks) workerTaskCount])
  | .notifyingIo => ([.notifiedIo], [])
  | .loading count => ([], if 0 < answer.m_sleepingCount then [.notifying count] else [])
  | .notifying count => ([.notified count], [])

/-- Calls after each other, as far as the answers go. -/
def run (self : ThreadId size) :
    List SubmitCall → List SubmitAnswer → List (SubmitEvent size) × List SubmitCall
  | [], _ => ([], [])
  | calls, [] => ([], calls)
  | call :: calls, answer :: answers =>
      let (events, left) := call.step self answer
      let (further, rest) := run self (left ++ calls) answers
      (events ++ further, rest)

/-- `scheduleBatch(tasks)`. -/
def scheduleBatch (tasks : List (Option ScheduledTask)) : List SubmitCall :=
  if tasks.isEmpty then [] else [.batching tasks 0]

/-- `schedule(task)` for each task that is not null. -/
def scheduleEach (tasks : List (Option ScheduledTask)) : List SubmitCall :=
  tasks.reduceOption.map .scheduling

/-- The tasks that a call has still to hand over. -/
def pending : SubmitCall → List ScheduledTask
  | .scheduling task => [task]
  | .batching tasks _ => tasks.reduceOption
  | _ => []

end SubmitCall

/-- The tasks that were handed over, with their queues. -/
def handOvers (events : List (SubmitEvent size)) : List (ScheduledTask × TaskQueue size) :=
  events.filterMap fun
    | .handed task queue => some (task, queue)
    | _ => none

/-- The queue that a thread hands the task to. -/
def ThreadId.queueOf (self : ThreadId size) (task : ScheduledTask) : TaskQueue size :=
  match task.domain with
  | .mainThread => .mainThread
  | .io => .io
  | .worker =>
      match self.currentWorkerIndex with
      | some index => .deque index task.priority
      | none => .global task.priority

/-- `scheduleBatch` hands over the same tasks to the same queues in the same order as `schedule` of
each task that is not null: the one is never ahead of the other, and when both have returned they
have handed over the same.  They return once the queues have room. -/
structure HandsOverAlike (self : ThreadId size) (tasks : List (Option ScheduledTask)) : Prop where
  same : ∀ batch each events others,
    SubmitCall.run self (SubmitCall.scheduleBatch tasks) batch = (events, []) →
    SubmitCall.run self (SubmitCall.scheduleEach tasks) each = (others, []) →
      handOvers events = handOvers others
  behind : ∀ batch each events left others,
    SubmitCall.run self (SubmitCall.scheduleBatch tasks) batch = (events, left) →
    SubmitCall.run self (SubmitCall.scheduleEach tasks) each = (others, []) →
      handOvers events <+: handOvers others
  ahead : ∀ batch each events left others,
    SubmitCall.run self (SubmitCall.scheduleBatch tasks) batch = (events, []) →
    SubmitCall.run self (SubmitCall.scheduleEach tasks) each = (others, left) →
      handOvers others <+: handOvers events
  returns : ∀ calls answers events left,
    calls = SubmitCall.scheduleBatch tasks ∨ calls = SubmitCall.scheduleEach tasks →
    SubmitCall.run self calls answers = (events, left) →
      ∃ further, ∀ more : List SubmitAnswer, further ≤ more.length →
        (∀ answer ∈ more, answer.room = true) →
          (SubmitCall.run self calls (answers ++ more)).2 = []

namespace SubmitCall

variable {self : ThreadId size}

/-- A task and the queue that the thread hands it to. -/
def placed (self : ThreadId size) (task : ScheduledTask) : ScheduledTask × TaskQueue size :=
  (task, self.queueOf task)

/-- What a step hands over was pending, and the rest is pending still. -/
theorem step_handOvers (answer : SubmitAnswer) (call : SubmitCall) :
    handOvers (call.step self answer).1 ++
        ((call.step self answer).2.flatMap pending).map (placed self) =
      call.pending.map (placed self) := by
  cases call with
  | scheduling task =>
      cases isDomain : task.domain with
      | mainThread => simp [step, isDomain, handOvers, pending, placed, ThreadId.queueOf]
      | io =>
          cases room : answer.room <;>
            simp [step, isDomain, room, handOvers, pending, placed, ThreadId.queueOf]
      | worker =>
          cases isWorker : self.currentWorkerIndex with
          | some worker =>
              simp [step, isDomain, isWorker, handOvers, pending, placed, ThreadId.queueOf]
          | none =>
              cases room : answer.room <;>
                simp [step, isDomain, isWorker, room, handOvers, pending, placed, ThreadId.queueOf]
  | batching tasks workerTaskCount =>
      match tasks with
      | [] =>
          simp only [step, pending]
          split <;> simp [handOvers, pending]
      | none :: tasks => simp [step, handOvers, pending]
      | some task :: tasks =>
          cases isDomain : task.domain with
          | mainThread => simp [step, isDomain, handOvers, pending, placed, ThreadId.queueOf]
          | io =>
              cases room : answer.room <;>
                simp [step, isDomain, room, handOvers, pending, placed, ThreadId.queueOf]
          | worker =>
              cases isWorker : self.currentWorkerIndex with
              | some worker =>
                  simp [step, isDomain, isWorker, handOvers, pending, placed, ThreadId.queueOf]
              | none =>
                  cases room : answer.room <;>
                    simp [step, isDomain, isWorker, room, handOvers, pending, placed,
                      ThreadId.queueOf]
  | notifyingIo => simp [step, handOvers, pending]
  | loading count =>
      simp only [step]
      split <;> simp [handOvers, pending]
  | notifying count => simp [step, handOvers, pending]

theorem run_handOvers (calls : List SubmitCall) (answers : List SubmitAnswer) :
    handOvers (run self calls answers).1 ++
        ((run self calls answers).2.flatMap pending).map (placed self) =
      (calls.flatMap pending).map (placed self) := by
  induction answers generalizing calls with
  | nil => cases calls <;> simp [run, handOvers]
  | cons answer answers ih =>
      cases calls with
      | nil => simp [run, handOvers]
      | cons call calls =>
          have stepped := @step_handOvers _ self answer call
          have rest := ih ((call.step self answer).2 ++ calls)
          rw [List.flatMap_append, List.map_append] at rest
          simp only [run, List.flatMap_cons, List.map_append, ← stepped]
          rw [handOvers, List.filterMap_append, List.append_assoc, List.append_assoc]
          exact congrArg _ rest

/-- Both ways have the same tasks to hand over. -/
theorem pending_scheduleBatch (tasks : List (Option ScheduledTask)) :
    (scheduleBatch tasks).flatMap pending = tasks.reduceOption := by
  cases tasks <;> simp [scheduleBatch, pending]

theorem pending_scheduleEach (tasks : List (Option ScheduledTask)) :
    (scheduleEach tasks).flatMap pending = tasks.reduceOption := by
  simp [scheduleEach, List.flatMap_map, pending]

/-! ## Calls return -/

/-- How many accesses a call makes at most when it never has to wait. -/
def accesses : SubmitCall → Nat
  | .scheduling _ => 3
  | .batching tasks _ => 2 * tasks.length + 3
  | .notifyingIo | .notifying _ => 1
  | .loading _ => 2

theorem step_accesses {answer : SubmitAnswer} (room : answer.room = true) (call : SubmitCall) :
    ((call.step self answer).2.map accesses).sum < call.accesses := by
  cases call with
  | scheduling task =>
      simp only [step, room, if_true]
      split
      next => simp [accesses]
      next => simp [accesses]
      next => split <;> simp [accesses]
  | batching tasks workerTaskCount =>
      match tasks with
      | [] =>
          simp only [step]
          split <;> simp [accesses]
      | none :: tasks => simp [step, accesses]
      | some task :: tasks =>
          simp only [step, room, if_true]
          split
          next => simp [accesses]
          next =>
            simp [accesses]
            omega
          next => split <;> simp [accesses]
  | loading count =>
      simp only [step]
      split <;> simp [accesses]
  | _ => simp [step, accesses]

theorem run_returns (calls : List SubmitCall) (answers : List SubmitAnswer)
    (enough : (calls.map accesses).sum ≤ answers.length)
    (room : ∀ answer ∈ answers, answer.room = true) : (run self calls answers).2 = [] := by
  induction answers generalizing calls with
  | nil =>
      cases calls with
      | nil => rfl
      | cons call calls =>
          rw [List.map_cons, List.sum_cons] at enough
          cases call <;> simp [accesses] at enough
  | cons answer answers ih =>
      cases calls with
      | nil => rfl
      | cons call calls =>
          have fewer := @step_accesses _ self _ (room answer (List.mem_cons_self ..)) call
          rw [List.map_cons, List.sum_cons, List.length_cons] at enough
          refine ih ((call.step self answer).2 ++ calls) ?_ fun other member =>
            room other (List.mem_cons_of_mem _ member)
          rw [List.map_append, List.sum_append]
          omega

theorem run_append (calls : List SubmitCall) (answers more : List SubmitAnswer) :
    (run self calls (answers ++ more)).2 = (run self (run self calls answers).2 more).2 := by
  induction answers generalizing calls with
  | nil => cases calls <;> simp [run]
  | cons answer answers ih =>
      cases calls with
      | nil => cases more <;> simp [run]
      | cons call calls => exact ih _

end SubmitCall

open SubmitCall in
/-- The hand-overs of the two are the same. -/
theorem handsOverAlike (self : ThreadId size) (tasks : List (Option ScheduledTask)) :
    HandsOverAlike self tasks := by
  have batched (answers : List SubmitAnswer) :=
    @run_handOvers _ self (scheduleBatch tasks) answers
  have separate (answers : List SubmitAnswer) :=
    @run_handOvers _ self (scheduleEach tasks) answers
  simp only [pending_scheduleBatch] at batched
  simp only [pending_scheduleEach] at separate
  refine ⟨fun batch each events others ran ranEach => ?_,
    fun batch each events left others ran ranEach => ?_,
    fun batch each events left others ran ranEach => ?_, fun calls answers events left _ ran => ?_⟩
  · have all := batched batch
    have allEach := separate each
    rw [ran] at all
    rw [ranEach] at allEach
    simp only [List.flatMap_nil, List.map_nil, List.append_nil] at all allEach
    rw [all, allEach]
  · have all := batched batch
    have allEach := separate each
    rw [ran] at all
    rw [ranEach] at allEach
    simp only [List.flatMap_nil, List.map_nil, List.append_nil] at allEach
    rw [allEach]
    exact ⟨_, all⟩
  · have all := batched batch
    have allEach := separate each
    rw [ran] at all
    rw [ranEach] at allEach
    simp only [List.flatMap_nil, List.map_nil, List.append_nil] at all
    rw [all]
    exact ⟨_, allEach⟩
  · refine ⟨(left.map accesses).sum, fun more enough room => ?_⟩
    rw [run_append, ran]
    exact run_returns left more enough room

/-! ## The machine hands over where the calls do -/

/-- The task, as the calls see it. -/
def PoolTask.scheduled (task : PoolTask) : ScheduledTask where
  number := task.number
  domain := task.request.domain
  priority := task.request.priority

namespace PoolShared

/-- The queue takes one more task, where `tryEnqueue` is not disturbed. -/
def hasRoom (shared : PoolShared size) (lost : Bool) : TaskQueue size → Bool
  | .mainThread | .deque _ _ => true
  | .io => lost = false ∧ shared.m_ioQueue.length < ioCapacity
  | .global priority =>
      lost = false ∧ (shared.global priority).length < globalCapacity size priority

/-- The task is put at the end of the queue. -/
def handOver (shared : PoolShared size) (task : PoolTask) : TaskQueue size → PoolShared size
  | .mainThread => shared
  | .io => { shared with m_ioQueue := shared.m_ioQueue ++ [task] }
  | .deque worker priority => shared.pushBottom worker priority task
  | .global priority => shared.setGlobal priority (shared.global priority ++ [task])

end PoolShared

/-- A step of the machine that hands over tasks puts the first one where the calls put it, or leaves
all queues as they are. -/
theorem submit_handOver (shared : PoolShared size) (self : ThreadId size) (lost : Bool)
    (kind : Submit) (owed todo : List PoolTask) (task : PoolTask) :
    (PoolFrame.submit shared self.currentWorkerIndex lost kind owed (task :: todo)).1 =
      if shared.hasRoom lost (self.queueOf task.scheduled) then
        shared.handOver task (self.queueOf task.scheduled)
      else shared := by
  have pooled := task.request.isPooled
  cases isDomain : task.request.domain with
  | mainThread => exact absurd isDomain pooled
  | io =>
      by_cases room : lost = false ∧ shared.m_ioQueue.length < PoolShared.ioCapacity <;>
        simp [PoolFrame.submit, isDomain, PoolShared.tryEnqueueIo, room, ThreadId.queueOf,
          PoolTask.scheduled, PoolShared.hasRoom, PoolShared.handOver]
  | worker =>
      cases isWorker : self.currentWorkerIndex with
      | some worker =>
          simp [PoolFrame.submit, isDomain, ThreadId.queueOf, PoolTask.scheduled, isWorker,
            PoolShared.hasRoom, PoolShared.handOver]
      | none =>
          by_cases room : lost = false ∧ (shared.global task.request.priority).length <
            PoolShared.globalCapacity size task.request.priority
          · simp [PoolFrame.submit, isDomain, PoolShared.tryEnqueue, room, ThreadId.queueOf,
              PoolTask.scheduled, isWorker, PoolShared.hasRoom, PoolShared.handOver]
          · by_cases batch : kind = .scheduleBatch <;>
              simp [PoolFrame.submit, isDomain, PoolShared.tryEnqueue, room, ThreadId.queueOf,
                PoolTask.scheduled, isWorker, PoolShared.hasRoom, batch]

end LightFlow
