import LightFlow.Core.Types
import Mathlib.Data.Nat.Log
import Mathlib.Logic.Function.Basic

/-!
# The deque of a worker

`ChaseLevDeque` and `DualPriorityQueue`, used by one thread at a time: each operation is a function
of the state that the one before left.  A `TaskNode*` is an `Option`, and the memory for a ring
buffer is granted.
-/

namespace LightFlow

/-- `enum class TaskPriority`. -/
inductive TaskPriority where
  | high
  | normal
  deriving DecidableEq, Repr

/-- `ChaseLevDeque::RingBuffer`. -/
structure RingBuffer (Task : Type) where
  m_capacity : Nat
  m_tasks : Nat → Option Task := fun _ => none

namespace RingBuffer

variable {Task : Type}

def m_mask (buffer : RingBuffer Task) : Nat := buffer.m_capacity - 1

def store (buffer : RingBuffer Task) (index : Nat) (task : Option Task) : RingBuffer Task :=
  { buffer with m_tasks := Function.update buffer.m_tasks (index &&& buffer.m_mask) task }

def load (buffer : RingBuffer Task) (index : Nat) : Option Task :=
  buffer.m_tasks (index &&& buffer.m_mask)

/-- `RingBuffer::grow(top, bottom)`. -/
def grow (buffer : RingBuffer Task) (top bottom : Nat) : RingBuffer Task :=
  let newBuf : RingBuffer Task := { m_capacity := buffer.m_capacity * 2 }
  if top < bottom then
    (List.range (u32Sub bottom top)).foldl
      (fun newBuf i => newBuf.store (u32 (top + i)) (buffer.load (u32 (top + i)))) newBuf
  else newBuf

end RingBuffer

structure ChaseLevDeque (Task : Type) where
  m_top : Nat := 0
  m_bottom : Nat := 0
  m_buffer : RingBuffer Task

namespace ChaseLevDeque

variable {Task : Type}

/-- The constructor, with `std::bit_ceil`. -/
def create (initialCapacity : Nat) : ChaseLevDeque Task :=
  { m_buffer := { m_capacity := 2 ^ Nat.clog 2 (max initialCapacity 16) } }

theorem create_sixteen : (create 16 : ChaseLevDeque Task) =
    { m_buffer := { m_capacity := 16 } } := by
  rw [create, show max 16 16 = 2 ^ 4 from rfl, Nat.clog_pow 2 4 (by decide)]
  rfl

/-- `m_top.compare_exchange_strong(expected, desired)`. -/
def exchangeTop (deque : ChaseLevDeque Task) (expected desired : Nat) :
    ChaseLevDeque Task × Bool :=
  if deque.m_top = expected then ({ deque with m_top := desired }, true) else (deque, false)

/-- `ChaseLevDeque::grow(bottom, top)`, which returns the buffer that is current afterwards. -/
def grow (deque : ChaseLevDeque Task) (bottom top : Nat) : ChaseLevDeque Task :=
  if bottom ≤ top then deque
  else { deque with m_buffer := deque.m_buffer.grow top bottom }

def pushBottom (deque : ChaseLevDeque Task) (task : Option Task) : ChaseLevDeque Task :=
  let b := deque.m_bottom
  let t := deque.m_top
  let (deque, b) := if b < t then ({ deque with m_bottom := t }, t) else (deque, b)
  let deque :=
    if u32 deque.m_buffer.m_capacity ≤ u32Sub b t then deque.grow b t else deque
  { deque with m_buffer := deque.m_buffer.store b task, m_bottom := u32 (b + 1) }

def popBottom (deque : ChaseLevDeque Task) : ChaseLevDeque Task × Option Task :=
  if deque.m_bottom ≤ deque.m_top then (deque, none)
  else
    let b := u32Sub deque.m_bottom 1
    let deque := { deque with m_bottom := b }
    let t := deque.m_top
    if t ≤ b then
      let task := deque.m_buffer.load b
      if t = b then
        let (deque, won) := deque.exchangeTop t (u32 (t + 1))
        ({ deque with m_bottom := u32 (b + 1) }, if won then task else none)
      else (deque, task)
    else ({ deque with m_bottom := u32 (b + 1) }, none)

def stealTop (deque : ChaseLevDeque Task) : ChaseLevDeque Task × Option Task :=
  let t := deque.m_top
  let b := deque.m_bottom
  if b ≤ t then (deque, none)
  else
    let task := deque.m_buffer.load t
    let (deque, won) := deque.exchangeTop t (u32 (t + 1))
    (deque, if won then task else none)

/-- `stealBatch(destination)` into a span of some length, with what it writes there.  `spurious`
says that `compare_exchange_weak` fails without a reason. -/
def stealBatch (deque : ChaseLevDeque Task) (spurious : Bool) (length : Nat) :
    ChaseLevDeque Task × List (Option Task) :=
  let t := deque.m_top
  let b := deque.m_bottom
  if length = 0 then (deque, [])
  else if b ≤ t then (deque, [])
  else
    let available := u32Sub b t
    let half := u32 (available + 1) / 2
    let stealCount := if u32 length < half then u32 length else half
    if stealCount = 0 then (deque, [])
    else
      let buf := deque.m_buffer
      let (deque, won) :=
        if spurious then (deque, false) else deque.exchangeTop t (u32 (t + stealCount))
      if won then
        let b := deque.m_bottom
        let (deque, stealCount) :=
          if b < u32 (t + stealCount) then
            let actualSteal := if t < b then u32Sub b t else 0
            ({ deque with m_top := u32 (t + actualSteal) }, actualSteal)
          else (deque, stealCount)
        (deque, (List.range stealCount).map fun i => buf.load (u32 (t + i)))
      else (deque, [])

def size (deque : ChaseLevDeque Task) : Nat :=
  if deque.m_top < deque.m_bottom then u32Sub deque.m_bottom deque.m_top else 0

def empty (deque : ChaseLevDeque Task) : Bool := deque.m_bottom ≤ deque.m_top

end ChaseLevDeque

/-- Any number of deques. -/
structure Deques (Name Task : Type) where
  deque : Name → ChaseLevDeque Task
  /-- How often `pushBottom` was called. -/
  pushes : Name → Nat := fun _ => 0

/-- The deques of a `DualPriorityQueue`, by their names. -/
structure DualPriorityQueue (Name : Type) where
  m_high : Name
  m_normal : Name

/-- `deque(priority)`. -/
def DualPriorityQueue.deque {Name : Type} (queue : DualPriorityQueue Name) :
    TaskPriority → Name
  | .high => queue.m_high
  | .normal => queue.m_normal

/-- A call on a deque or on a `DualPriorityQueue`. -/
inductive DequeCall (Name Task : Type) where
  | pushBottom (name : Name) (task : Task)
  | popBottom (name : Name)
  | stealTop (name : Name)
  | stealBatch (name : Name) (length : Nat)
  | stealBatchInto (name destination : Name)
  | size (name : Name)
  | empty (name : Name)
  | push (queue : DualPriorityQueue Name) (task : Task) (priority : TaskPriority)
  | pop (queue : DualPriorityQueue Name)
  | steal (queue : DualPriorityQueue Name)
  | stealQueue (queue : DualPriorityQueue Name) (length : Nat)
  | stealQueueInto (queue destination : DualPriorityQueue Name)
  | queueSize (queue : DualPriorityQueue Name)
  | queueEmpty (queue : DualPriorityQueue Name)

/-- What a call returns, with the content of the span that it fills. -/
inductive DequeReply (Task : Type) where
  | done
  | task (task : Option Task)
  | batch (tasks : List (Option Task))
  | count (count : Nat)
  | flag (flag : Bool)
  deriving DecidableEq, Repr

namespace Deques

variable {Name Task : Type} [DecidableEq Name]

def create (initialCapacity : Name → Nat) : Deques Name Task :=
  { deque := fun name => .create (initialCapacity name) }

def setDeque (deques : Deques Name Task) (name : Name) (deque : ChaseLevDeque Task) :
    Deques Name Task :=
  { deques with deque := Function.update deques.deque name deque }

def pushBottom (deques : Deques Name Task) (name : Name) (task : Option Task) :
    Deques Name Task :=
  { deques.setDeque name ((deques.deque name).pushBottom task) with
    pushes := Function.update deques.pushes name (deques.pushes name + 1) }

def popBottom (deques : Deques Name Task) (name : Name) : Deques Name Task × Option Task :=
  let (deque, task) := (deques.deque name).popBottom
  (deques.setDeque name deque, task)

def stealTop (deques : Deques Name Task) (name : Name) : Deques Name Task × Option Task :=
  let (deque, task) := (deques.deque name).stealTop
  (deques.setDeque name deque, task)

/-- `stealBatch(destination)` into a span, where `compare_exchange_weak` does not fail without a
reason. -/
def stealBatch (deques : Deques Name Task) (name : Name) (length : Nat) :
    Deques Name Task × List (Option Task) :=
  let (deque, batch) := (deques.deque name).stealBatch false length
  (deques.setDeque name deque, batch)

/-- `stealBatch(destination)` into another deque. -/
def stealBatchInto (deques : Deques Name Task) (name destination : Name) :
    Deques Name Task × Nat :=
  let (deques, batch) := deques.stealBatch name 128
  (batch.foldl (fun deques task => deques.pushBottom destination task) deques, batch.length)

/-! ## `DualPriorityQueue` -/

/-- `pop` and `steal`: the same operation on both deques, in turn. -/
def firstTask (operation : Deques Name Task → Name → Deques Name Task × Option Task)
    (deques : Deques Name Task) (queue : DualPriorityQueue Name) :
    Deques Name Task × Option Task :=
  let (deques, task) := operation deques queue.m_high
  match task with
  | some task => (deques, some task)
  | none => operation deques queue.m_normal

def pop (deques : Deques Name Task) (queue : DualPriorityQueue Name) :
    Deques Name Task × Option Task :=
  firstTask popBottom deques queue

def steal (deques : Deques Name Task) (queue : DualPriorityQueue Name) :
    Deques Name Task × Option Task :=
  firstTask stealTop deques queue

def stealQueue (deques : Deques Name Task) (queue : DualPriorityQueue Name) (length : Nat) :
    Deques Name Task × List (Option Task) :=
  let (deques, batch) := deques.stealBatch queue.m_high length
  if 0 < batch.length then (deques, batch) else deques.stealBatch queue.m_normal length

def stealQueueInto (deques : Deques Name Task) (queue destination : DualPriorityQueue Name) :
    Deques Name Task × Nat :=
  let (deques, stolen) := deques.stealBatchInto queue.m_high destination.m_high
  if 0 < stolen then (deques, stolen)
  else deques.stealBatchInto queue.m_normal destination.m_normal

/-- A call is made. -/
def perform (deques : Deques Name Task) :
    DequeCall Name Task → Deques Name Task × DequeReply Task
  | .pushBottom name task => (deques.pushBottom name (some task), .done)
  | .popBottom name =>
      let (deques, task) := deques.popBottom name
      (deques, .task task)
  | .stealTop name =>
      let (deques, task) := deques.stealTop name
      (deques, .task task)
  | .stealBatch name length =>
      let (deques, batch) := deques.stealBatch name length
      (deques, .batch batch)
  | .stealBatchInto name destination =>
      let (deques, stolen) := deques.stealBatchInto name destination
      (deques, .count stolen)
  | .size name => (deques, .count (deques.deque name).size)
  | .empty name => (deques, .flag (deques.deque name).empty)
  | .push queue task priority => (deques.pushBottom (queue.deque priority) (some task), .done)
  | .pop queue =>
      let (deques, task) := deques.pop queue
      (deques, .task task)
  | .steal queue =>
      let (deques, task) := deques.steal queue
      (deques, .task task)
  | .stealQueue queue length =>
      let (deques, batch) := deques.stealQueue queue length
      (deques, .batch batch)
  | .stealQueueInto queue destination =>
      let (deques, stolen) := deques.stealQueueInto queue destination
      (deques, .count stolen)
  | .queueSize queue =>
      (deques, .count ((deques.deque queue.m_high).size + (deques.deque queue.m_normal).size))
  | .queueEmpty queue =>
      (deques, .flag ((deques.deque queue.m_high).empty && (deques.deque queue.m_normal).empty))

/-- Calls are made one after the other, with their replies. -/
def run (deques : Deques Name Task) :
    List (DequeCall Name Task) → Deques Name Task × List (DequeReply Task)
  | [] => (deques, [])
  | call :: calls =>
      let (deques, reply) := deques.perform call
      let (deques, replies) := deques.run calls
      (deques, reply :: replies)

end Deques

end LightFlow
