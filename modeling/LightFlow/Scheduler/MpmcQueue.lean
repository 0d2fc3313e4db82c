import LightFlow.Lib.Threads
import LightFlow.Scheduler.Pool

/-!
# The bounded queue of the scheduler

`MpmcTaskQueue` with any number of threads in `tryEnqueue` and `tryDequeue`, one access to the
shared state at a time.  The sequence number of a cell says for which position it is ready: `pos`
for the producer that claims `pos`, and `pos + 1` for the consumer that does.
-/

namespace LightFlow

universe u

/-- The capacity that a queue is constructed with. -/
structure MpmcSize where
  capacity : Nat
  /-- `m_buffer != nullptr`: there is memory for the cells, of 16 bytes each. -/
  isAllocated : queueCapacity capacity * 16 < 2 ^ 64

namespace MpmcSize

variable (size : MpmcSize)

def m_capacity : Nat :=
  queueCapacity size.capacity

def m_mask : Nat :=
  size.m_capacity - 1

theorem sixteen_le : 16 ≤ size.m_capacity := by
  exact (le_max_right size.capacity 16).trans (Nat.le_pow_clog Nat.one_lt_two _)

theorem m_capacity_lt : size.m_capacity < 2 ^ 60 := by
  have allocated := size.isAllocated
  rw [m_capacity]
  omega

/-- The mask takes a position to the index of its cell. -/
theorem and_mask (pos : Nat) : pos &&& size.m_mask = pos % size.m_capacity :=
  Nat.and_two_pow_sub_one_eq_mod pos _

end MpmcSize

/-- `MpmcTaskQueue::Cell`. -/
structure QueueCell (Task : Type u) where
  sequence : Nat
  task : Option Task := none

structure MpmcTaskQueue (Task : Type u) where
  m_buffer : Nat → QueueCell Task
  m_enqueuePos : Nat := 0
  m_dequeuePos : Nat := 0

/-- `static_cast<intptr_t>`. -/
def intptr (value : Nat) : Int :=
  if value < 2 ^ 63 then value else value - 2 ^ 64

/-- History of a queue. -/
inductive MpmcEvent (Task : Type u) where
  /-- A call of `tryEnqueue` or `tryDequeue` began. -/
  | called
  /-- `tryEnqueue(task)` stored at position `pos` and returned true. -/
  | enqueued (pos : Nat) (task : Task)
  /-- `tryEnqueue` returned false; it tried for position `pos`. -/
  | full (pos : Nat)
  /-- `tryDequeue` returned what it took at position `pos`. -/
  | dequeued (pos : Nat) (task : Option Task)
  /-- `tryDequeue` returned null; it tried for position `pos`. -/
  | empty (pos : Nat)
  deriving DecidableEq, Repr

/-- A queue and its history, newest event first. -/
structure MpmcShared (Task : Type u) where
  queue : MpmcTaskQueue Task
  log : List (MpmcEvent Task) := []

/-- Where a thread is. -/
inductive MpmcCall (Task : Type u) where
  /-- In no call. -/
  | idle
  /-- At `m_enqueuePos.load`. -/
  | enqueueLoading (task : Task)
  /-- At `cell->sequence.load` of `tryEnqueue`. -/
  | enqueueChecking (task : Task) (pos : Nat)
  /-- At the weak compare-exchange of `m_enqueuePos`. -/
  | enqueueExchanging (task : Task) (pos : Nat)
  /-- At `cell->task = task`. -/
  | storing (task : Task) (pos : Nat)
  /-- At `cell->sequence.store(pos + 1)`. -/
  | publishing (task : Task) (pos : Nat)
  /-- At `m_dequeuePos.load`. -/
  | dequeueLoading
  /-- At `cell->sequence.load` of `tryDequeue`. -/
  | dequeueChecking (pos : Nat)
  /-- At the weak compare-exchange of `m_dequeuePos`. -/
  | dequeueExchanging (pos : Nat)
  /-- At `task = cell->task`. -/
  | taking (pos : Nat)
  /-- At `cell->task = nullptr`. -/
  | clearing (pos : Nat) (task : Option Task)
  /-- At `cell->sequence.store(pos + m_mask + 1)`. -/
  | releasing (pos : Nat) (task : Option Task)
  deriving DecidableEq, Repr

/-- What a thread may do: call a function of the queue, or go on with its call. -/
inductive MpmcChoice (Task : Type u) where
  | tryEnqueue (task : Task)
  | tryDequeue
  | go (spurious : Bool)
  deriving DecidableEq, Repr

variable {Task : Type u}

namespace MpmcTaskQueue

/-- `MpmcTaskQueue::MpmcTaskQueue`. -/
def create : MpmcTaskQueue Task where
  m_buffer := fun index => { sequence := index }

/-- `m_buffer[pos & m_mask]`. -/
def cell (size : MpmcSize) (queue : MpmcTaskQueue Task) (pos : Nat) : QueueCell Task :=
  queue.m_buffer (pos &&& size.m_mask)

def setCell (size : MpmcSize) (queue : MpmcTaskQueue Task) (pos : Nat) (cell : QueueCell Task) :
    MpmcTaskQueue Task :=
  { queue with m_buffer := Function.update queue.m_buffer (pos &&& size.m_mask) cell }

end MpmcTaskQueue

def MpmcShared.record (shared : MpmcShared Task) (event : MpmcEvent Task) : MpmcShared Task :=
  { shared with log := event :: shared.log }

/-- The next step of a call; `spurious` makes a weak compare-exchange fail. -/
def MpmcCall.go (size : MpmcSize) (shared : MpmcShared Task) (spurious : Bool) :
    MpmcCall Task → MpmcShared Task × MpmcCall Task
  | .idle => (shared, .idle)
  | .enqueueLoading task => (shared, .enqueueChecking task shared.queue.m_enqueuePos)
  | .enqueueChecking task pos =>
      let dif := intptr (shared.queue.cell size pos).sequence - intptr pos
      if dif = 0 then (shared, .enqueueExchanging task pos)
      else if dif < 0 then (shared.record (.full pos), .idle)
      else (shared, .enqueueLoading task)
  | .enqueueExchanging task pos =>
      if shared.queue.m_enqueuePos = pos ∧ spurious = false then
        ({ shared with queue := { shared.queue with m_enqueuePos := u64 (pos + 1) } },
          .storing task pos)
      else (shared, .enqueueChecking task shared.queue.m_enqueuePos)
  | .storing task pos =>
      let cell := { shared.queue.cell size pos with task := some task }
      ({ shared with queue := shared.queue.setCell size pos cell }, .publishing task pos)
  | .publishing task pos =>
      let cell := { shared.queue.cell size pos with sequence := u64 (pos + 1) }
      ({ queue := shared.queue.setCell size pos cell, log := .enqueued pos task :: shared.log },
        .idle)
  | .dequeueLoading => (shared, .dequeueChecking shared.queue.m_dequeuePos)
  | .dequeueChecking pos =>
      let dif := intptr (shared.queue.cell size pos).sequence - intptr (u64 (pos + 1))
      if dif = 0 then (shared, .dequeueExchanging pos)
      else if dif < 0 then (shared.record (.empty pos), .idle)
      else (shared, .dequeueLoading)
  | .dequeueExchanging pos =>
      if shared.queue.m_dequeuePos = pos ∧ spurious = false then
        ({ shared with queue := { shared.queue with m_dequeuePos := u64 (pos + 1) } }, .taking pos)
      else (shared, .dequeueChecking shared.queue.m_dequeuePos)
  | .taking pos => (shared, .clearing pos (shared.queue.cell size pos).task)
  | .clearing pos task =>
      let cell := { shared.queue.cell size pos with task := none }
      ({ shared with queue := shared.queue.setCell size pos cell }, .releasing pos task)
  | .releasing pos task =>
      let cell := { shared.queue.cell size pos with sequence := u64 (pos + size.m_mask + 1) }
      ({ queue := shared.queue.setCell size pos cell, log := .dequeued pos task :: shared.log },
        .idle)

/-- One step of a thread. -/
def MpmcCall.fire (size : MpmcSize) (shared : MpmcShared Task) :
    MpmcCall Task → MpmcChoice Task → Option (MpmcShared Task × MpmcCall Task)
  | .idle, .tryEnqueue task => some (shared.record .called, .enqueueLoading task)
  | .idle, .tryDequeue => some (shared.record .called, .dequeueLoading)
  | .idle, .go _ => none
  | call, .go spurious => some (call.go size shared spurious)
  | _, _ => none

/-- Threads that call `tryEnqueue` and `tryDequeue`. -/
def mpmcProgram (Task : Type u) (size : MpmcSize) :
    Program (MpmcShared Task) (MpmcCall Task) Empty (MpmcChoice Task) where
  solo := fun _ => Empty.elim
  fire := MpmcCall.fire size

/-- The queue was constructed. -/
def MpmcShared.Fresh (shared : MpmcShared Task) : Prop :=
  shared.queue = .create ∧ shared.log = []

abbrev mpmcMachine (Task : Type u) (size : MpmcSize) (threads : Nat) :
    Machine (Program.State (MpmcShared Task) (MpmcCall Task) threads)
      (Program.Action Empty (MpmcChoice Task) threads) :=
  (mpmcProgram Task size).machine MpmcShared.Fresh .idle threads

def MpmcEvent.isCall : MpmcEvent Task → Bool
  | .called => true
  | _ => false

/-- The calls so far. -/
def MpmcShared.calls (shared : MpmcShared Task) : Nat :=
  shared.log.countP (·.isCall)

/-- There are fewer than 2^63 calls. -/
def FewCalls (shared : MpmcShared Task) : MpmcChoice Task → Prop
  | .go _ => True
  | _ => shared.calls + 1 < 2 ^ 63

instance (shared : MpmcShared Task) : DecidablePred (FewCalls shared)
  | .go _ => inferInstanceAs (Decidable True)
  | .tryEnqueue _ | .tryDequeue => inferInstanceAs (Decidable (_ < _))

abbrev fewCalls {threads : Nat} :
    Program.State (MpmcShared Task) (MpmcCall Task) threads →
      Program.Action Empty (MpmcChoice Task) threads → Prop :=
  Program.Allowed (fun _ _ => True) fun shared _ choice => FewCalls shared choice

end LightFlow
