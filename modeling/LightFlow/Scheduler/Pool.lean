import LightFlow.Core.Types
import LightFlow.Scheduler.ChaseLevDeque
import LightFlow.Task.Node
import Mathlib.Data.Fintype.Sum
import Mathlib.Data.Nat.Log

/-!
# The thread pool

The worker threads, the IO threads and the external threads of a scheduler, cut at their
accesses to `m_wakeSignal`, `m_sleepingCount`, `m_ioWakeSignal` and `m_stop` and at the
operations on the deques and queues, each of which is one step.  A thread owns the stack of
its calls, and the inline slot `t_nextInlineTask`.

A deque or queue is the list of its tasks.  An operation that succeeds acts on the list; one
that another thread disturbs in the middle of its own operation may fail with tasks left, or
with room left: a pop while a thief has claimed more tasks than it keeps, a dequeue in front of a
cell that is claimed and not published, an enqueue at a cell that is not released yet.
-/

namespace LightFlow

/-- The threads of a scheduler, and the external threads that use it.  The constructor starts
at least one worker. -/
structure PoolSize where
  m_workerCount : Nat
  m_ioWorkerCount : Nat
  initialDequeCapacity : Nat := 65536
  externals : Nat
  hasWorker : 0 < m_workerCount
  isCount : m_workerCount < 2 ^ 32

theorem oneWorker_isCount : 1 < 2 ^ 32 := by decide

/-- `m_capacity` of an `MpmcTaskQueue(capacity)`. -/
def queueCapacity (capacity : Nat) : Nat :=
  2 ^ Nat.clog 2 (max capacity 16)

/-- A thread of the pool. -/
inductive ThreadId (size : PoolSize) where
  | worker (workerIndex : Fin size.m_workerCount)
  | io (ioIndex : Fin size.m_ioWorkerCount)
  | external (index : Fin size.externals)
  deriving DecidableEq, Repr

/-- Workers, IO workers and external threads side by side. -/
def ThreadId.equiv (size : PoolSize) :
    Fin size.m_workerCount ⊕ Fin size.m_ioWorkerCount ⊕ Fin size.externals ≃ ThreadId size where
  toFun
    | .inl workerIndex => .worker workerIndex
    | .inr (.inl ioIndex) => .io ioIndex
    | .inr (.inr index) => .external index
  invFun
    | .worker workerIndex => .inl workerIndex
    | .io ioIndex => .inr (.inl ioIndex)
    | .external index => .inr (.inr index)
  left_inv := fun index => by rcases index with _ | _ | _ <;> rfl
  right_inv := fun self => by cases self <;> rfl

instance (size : PoolSize) : Fintype (ThreadId size) :=
  Fintype.ofEquiv _ (ThreadId.equiv size)

theorem worker_ne_mainThread : TaskDomain.worker ≠ .mainThread := by decide

theorem io_ne_mainThread : TaskDomain.io ≠ .mainThread := by decide

/-- What a caller asks the scheduler to execute. -/
structure TaskRequest where
  priority : TaskPriority := .normal
  domain : TaskDomain := .worker
  isPooled : domain ≠ .mainThread := by
    first | exact worker_ne_mainThread | exact io_ne_mainThread
  deriving DecidableEq, Repr

/-- A task that was handed to the scheduler, or to the inline slot: the number of the request,
and the numbers of the tasks inside of whose execution it was made, innermost first. -/
structure PoolTask where
  number : Nat
  ancestors : List Nat := []
  request : TaskRequest := {}
  deriving DecidableEq, Repr

/-- What `findWork` is called for. -/
inductive FindGoal where
  /-- At the top of the loop. -/
  | top
  /-- While spinning; `left` spins are left. -/
  | spinning (left : Nat)
  /-- After `pollTimelineFallback`. -/
  | polled
  /-- Before parking. -/
  | parking (currentSignal : Nat)
  /-- In `helpUntil`. -/
  | helping
  deriving DecidableEq, Repr

/-- Where `findWork` or `findWorkExternal` is. -/
inductive FindStep (size : PoolSize) where
  /-- At the pop of the own deque. -/
  | pop (priority : TaskPriority)
  /-- At `tryDequeue` of a global queue. -/
  | dequeue (priority : TaskPriority)
  /-- At the batch steal from the first victim. -/
  | stealBatch (priority : TaskPriority) (victims : List (Fin size.m_workerCount))
  /-- Pushing the stolen tasks to the own deque. -/
  | transfer (priority : TaskPriority) (batch : List PoolTask)
  /-- At the pop after a batch steal. -/
  | popStolen (priority : TaskPriority)
  /-- At the single steal from the first victim. -/
  | steal (priority : TaskPriority) (victims : List (Fin size.m_workerCount))
  deriving DecidableEq, Repr

/-- Why a worker is no longer counted as sleeping. -/
inductive Unpark where
  | found (task : PoolTask)
  | awakened
  | stopped
  deriving DecidableEq, Repr

/-- The functions that hand tasks to the scheduler. -/
inductive Submit where
  /-- `schedule(task)`. -/
  | schedule
  /-- `scheduleBatch(tasks)`. -/
  | scheduleBatch
  /-- `schedule(task, false)` in a loop with `notifyWorker` after every 64 tasks and after the
  last one, in `unblockSuccessors` and `prepareRun`. -/
  | unblock
  deriving DecidableEq, Repr

/-- The rest of a call. -/
inductive PoolFrame (size : PoolSize) where
  /-- `workerLoop` at the load of `m_stop`. -/
  | checking
  /-- In `findWork`. -/
  | finding (goal : FindGoal) (step : FindStep size)
  /-- At `m_sleepingCount.fetch_add`. -/
  | counting
  /-- At the load of `m_wakeSignal`. -/
  | loading
  /-- At the second load of `m_stop`. -/
  | rechecking (currentSignal : Nat)
  /-- `m_wakeSignal.wait` at the comparison. -/
  | parking (currentSignal : Nat)
  /-- Blocked in `m_wakeSignal.wait`. -/
  | blocked (currentSignal : Nat)
  /-- At `m_sleepingCount.fetch_sub`. -/
  | uncounting (unpark : Unpark)
  /-- Draining the own deque. -/
  | draining (priority : TaskPriority)
  /-- In the loop over `t_nextInlineTask`. -/
  | continuing
  /-- Executing a task, or user code of an external thread, or in `pollTimelineFallback`. -/
  | body (task : Option PoolTask)
  /-- In the loop of `helpUntil`. -/
  | helping
  /-- Handing tasks to the scheduler; `owed` are the Worker tasks that were pushed and not
  notified. -/
  | submitting (kind : Submit) (todo owed : List PoolTask)
  /-- A call that handed over tasks returns. -/
  | returning (numbers : List Nat)
  /-- `notifyWorker(count)` at the load of `m_sleepingCount`. -/
  | notifying (count : Nat) (owed : List PoolTask)
  /-- `notifyWorker` at `m_wakeSignal.fetch_add`. -/
  | bumping (toWake : Nat) (owed : List PoolTask)
  /-- `notifyWorker` at `m_wakeSignal.notify_one`, with further calls of it behind. -/
  | waking (further : Nat) (owed : List PoolTask)
  /-- At `m_wakeSignal.notify_all`. -/
  | wakingAll (owed : List PoolTask)
  /-- At `m_ioWakeSignal.fetch_add`. -/
  | ioBumping
  /-- At `m_ioWakeSignal.notify_one`. -/
  | ioWaking
  /-- At `m_ioWakeSignal.notify_all`. -/
  | ioWakingAll
  /-- `ioWorkerLoop` at the load of `m_stop`. -/
  | ioChecking
  /-- `ioWorkerLoop` at `tryDequeue`. -/
  | ioDequeuing
  /-- At the load of `m_ioWakeSignal`. -/
  | ioLoading
  /-- At the second load of `m_stop`. -/
  | ioRechecking (currentSignal : Nat)
  /-- At `m_ioQueue.empty`. -/
  | ioTesting (currentSignal : Nat)
  /-- `m_ioWakeSignal.wait` at the comparison. -/
  | ioParking (currentSignal : Nat)
  /-- Blocked in `m_ioWakeSignal.wait`. -/
  | ioBlocked (currentSignal : Nat)
  /-- Draining the IO queue. -/
  | ioDraining
  /-- `shutdown` at the exchange of `m_stop`. -/
  | stopping
  /-- `shutdown` at `m_wakeSignal.fetch_add`. -/
  | stopBumping
  /-- `shutdown` at its joins. -/
  | joining
  deriving DecidableEq, Repr

/-- History of the pool. -/
inductive PoolEvent where
  /-- A task was handed to the scheduler or to an inline slot. -/
  | requested (task : PoolTask)
  /-- The call that handed over the numbered task returned. -/
  | returned (number : Nat)
  | executed (task : PoolTask)
  /-- `shutdown` set `m_stop`. -/
  | stopped
  /-- `shutdown` returned. -/
  | shutDown
  deriving DecidableEq, Repr

/-- What the threads share. -/
structure PoolShared (size : PoolSize) where
  /-- The two deques of each worker, from the end where thieves steal. -/
  deque : Fin size.m_workerCount → TaskPriority → List PoolTask := fun _ _ => []
  /-- `m_globalHigh` and `m_globalNormal`. -/
  global : TaskPriority → List PoolTask := fun _ => []
  m_ioQueue : List PoolTask := []
  m_wakeSignal : Nat := 0
  m_sleepingCount : Nat := 0
  m_ioWakeSignal : Nat := 0
  m_stop : Bool := false
  /-- The workers blocked in `m_wakeSignal.wait` that no notification reached. -/
  parked : Fin size.m_workerCount → Bool := fun _ => false
  /-- The IO workers blocked in `m_ioWakeSignal.wait` that no notification reached. -/
  ioParked : Fin size.m_ioWorkerCount → Bool := fun _ => false
  /-- Number of the next request. -/
  nextNumber : Nat := 0
  /-- Newest event first. -/
  log : List PoolEvent := []

structure PoolThread (size : PoolSize) where
  /-- Innermost call first. -/
  stack : List (PoolFrame size)
  t_nextInlineTask : Option PoolTask := none
  deriving DecidableEq, Repr

structure PoolState (size : PoolSize) where
  shared : PoolShared size := {}
  thread : ThreadId size → PoolThread size

/-- What the environment and the user code decide about one step. -/
inductive PoolChoice (size : PoolSize) where
  /-- The next step; `start` is where a search for victims starts, or the size of a batch steal
  that was computed before the deque changed, `lost` says that an operation on a deque or queue
  is disturbed and fails, and `worker` and `ioWorker` are whom `notify_one` reaches. -/
  | go (start : Nat) (lost : Bool) (worker : Option (Fin size.m_workerCount))
      (ioWorker : Option (Fin size.m_ioWorkerCount))
  /-- The body hands tasks to the scheduler. -/
  | submit (kind : Submit) (requests : List TaskRequest)
  /-- `unblockSuccessors` stores a task in the inline slot. -/
  | stage (priority : TaskPriority)
  /-- The body calls `notifyWorker`. -/
  | notify (count : Nat)
  /-- The body calls `helpUntil`. -/
  | help
  /-- The predicate of `helpUntil` is true. -/
  | leave
  /-- The body calls `shutdown`. -/
  | shutdown
  /-- The body returns. -/
  | finish
  deriving DecidableEq

/-- The operation on a deque or queue is disturbed. -/
def PoolChoice.lost {size : PoolSize} : PoolChoice size → Bool
  | .go _ lost _ _ => lost
  | _ => false

end LightFlow
