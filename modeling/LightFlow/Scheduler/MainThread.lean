import LightFlow.Core.Types
import LightFlow.Lib.Segment
import LightFlow.Lib.Threads

/-!
# Tasks for the main thread

`pushMainThreadTask` puts a task on an intrusive stack, which `drainMainThreadTasks` takes as
a whole, reverses and executes.  Pushes come from any number of threads, and from the main
thread itself: outside of a drain, or inside of a task that a drain executes.
-/

namespace LightFlow

/-- A `TaskNode*` that is not null. -/
structure TaskPointer where
  address : Nat
  isAddress : 0 < address ∧ address < 2 ^ 64
  deriving DecidableEq, Repr

/-- There are fewer tasks than a `usize` can count. -/
theorem TaskPointer.length_lt {tasks : List TaskPointer} (distinct : tasks.Nodup) :
    tasks.length < 2 ^ 64 := by
  have injective : Function.Injective TaskPointer.address := by
    rintro ⟨left, _⟩ ⟨right, _⟩ same
    simpa using same
  have inRange : (tasks.map TaskPointer.address).toFinset ⊆ (Finset.range (2 ^ 64)).erase 0 := by
    intro address member
    obtain ⟨task, -, rfl⟩ := List.mem_map.mp (List.mem_toFinset.mp member)
    exact Finset.mem_erase.mpr
      ⟨Nat.pos_iff_ne_zero.mp task.isAddress.1, Finset.mem_range.mpr task.isAddress.2⟩
  have bounded := Finset.card_le_card inRange
  rw [List.toFinset_card_of_nodup (distinct.map injective), List.length_map,
    Finset.card_erase_of_mem (Finset.mem_range.mpr (by decide)), Finset.card_range] at bounded
  omega

/-- The list of main-thread tasks of a scheduler, with the `next` pointers of all nodes. -/
structure MainThreadQueue where
  m_mainThreadHead : Option TaskPointer := none
  m_mainThreadCount : Nat := 0
  next : TaskPointer → Option TaskPointer

/-- `task->next = ...`. -/
def MainThreadQueue.setNext (queue : MainThreadQueue) (task : TaskPointer)
    (next : Option TaskPointer) : MainThreadQueue :=
  { queue with next := Function.update queue.next task next }

/-- History of the list. -/
inductive MainThreadEvent where
  /-- `pushMainThreadTask(task)` was called. -/
  | submitted (task : TaskPointer)
  /-- A push exchanged `m_mainThreadHead` for `task`. -/
  | exchanged (task : TaskPointer)
  /-- A drain exchanged `m_mainThreadHead` for null. -/
  | detached
  /-- A drain called `task->execute()`. -/
  | started (task : TaskPointer)
  /-- A drain returned. -/
  | returned (count : Nat)
  deriving DecidableEq, Repr

/-- The rest of a call of `pushMainThreadTask`. -/
inductive PushCall where
  /-- At `m_mainThreadHead.load`. -/
  | loading (task : TaskPointer)
  /-- At `task->next = oldHead`. -/
  | linking (task : TaskPointer) (oldHead : Option TaskPointer)
  /-- At the weak compare-exchange of `m_mainThreadHead`. -/
  | exchanging (task : TaskPointer) (oldHead : Option TaskPointer)
  /-- At `m_mainThreadCount.fetch_add`. -/
  | counting
  deriving DecidableEq, Repr

/-- The rest of a call of `drainMainThreadTasks`. -/
inductive DrainCall where
  /-- No call. -/
  | idle
  /-- At `m_mainThreadHead.exchange`. -/
  | entering
  /-- In the loop that reverses the list. -/
  | reversing (prev curr : Option TaskPointer) (count : Nat)
  /-- In the loop that executes the list, between two tasks. -/
  | running (curr : Option TaskPointer) (count : Nat)
  /-- Inside of a task; `next` is the task to come. -/
  | executing (next : Option TaskPointer) (count : Nat)
  deriving DecidableEq, Repr

/-- The list, the main thread and their history, newest event first. -/
structure MainThreadState where
  queue : MainThreadQueue
  drain : DrainCall := .idle
  /-- The push that the main thread is in. -/
  pushing : Option PushCall := none
  log : List MainThreadEvent := []

/-- What one step of a push does. -/
structure PushEffect where
  queue : MainThreadQueue
  call : Option PushCall
  events : List MainThreadEvent := []

/-- The next step of a push; `spurious` makes the weak compare-exchange fail. -/
def PushCall.fire (queue : MainThreadQueue) (spurious : Bool) : PushCall → PushEffect
  | .loading task => { queue, call := some (.linking task queue.m_mainThreadHead) }
  | .linking task oldHead =>
      { queue := queue.setNext task oldHead, call := some (.exchanging task oldHead) }
  | .exchanging task oldHead =>
      if queue.m_mainThreadHead = oldHead ∧ spurious = false then
        { queue := { queue with m_mainThreadHead := some task }
          call := some .counting
          events := [.exchanged task] }
      else { queue, call := some (.linking task queue.m_mainThreadHead) }
  | .counting =>
      { queue := { queue with m_mainThreadCount := u64 (queue.m_mainThreadCount + 1) }
        call := none }

/-- What one step of a drain does. -/
structure DrainEffect where
  queue : MainThreadQueue
  drain : DrainCall
  events : List MainThreadEvent := []

/-- The next step of a drain. -/
def DrainCall.fire (queue : MainThreadQueue) : DrainCall → Option DrainEffect
  | .idle => none
  | .entering =>
      let detached := { queue with m_mainThreadHead := none }
      match queue.m_mainThreadHead with
      | none => some { queue := detached, drain := .idle, events := [.returned 0, .detached] }
      | some head =>
          some { queue := detached, drain := .reversing none (some head) 0, events := [.detached] }
  | .reversing prev (some curr) count =>
      some
        { queue := queue.setNext curr prev
          drain := .reversing (some curr) (queue.next curr) (u64 (count + 1)) }
  | .reversing prev none count => some { queue, drain := .running prev count }
  | .running (some curr) count =>
      some
        { queue := queue.setNext curr none
          drain := .executing (queue.next curr) count
          events := [.started curr] }
  | .running none count =>
      some
        { queue := { queue with m_mainThreadCount := u64Sub queue.m_mainThreadCount count }
          drain := .idle
          events := [.returned count] }
  | .executing next count => some { queue, drain := .running next count }

/-- Code outside of `drainMainThreadTasks` runs on the main thread. -/
def DrainCall.isOutside : DrainCall → Bool
  | .idle | .executing _ _ => true
  | _ => false

/-- What a thread may do: call `pushMainThreadTask`, or go on with the call it is in. -/
inductive PushChoice where
  | pushMainThreadTask (task : TaskPointer)
  | go (spurious : Bool)
  deriving DecidableEq, Repr

/-- What the main thread may do. -/
inductive MainThreadAction where
  | drainMainThreadTasks
  /-- Go on with the drain, out of the task it executes as well. -/
  | go
  | push (choice : PushChoice)
  deriving DecidableEq, Repr

namespace MainThreadState

/-- One step of a push. -/
def firePush (state : MainThreadState) : Option PushCall → PushChoice →
    Option (MainThreadState × Option PushCall)
  | none, .pushMainThreadTask task =>
      some ({ state with log := .submitted task :: state.log }, some (.loading task))
  | some call, .go spurious =>
      let effect := call.fire state.queue spurious
      some ({ state with queue := effect.queue, log := effect.events ++ state.log }, effect.call)
  | _, _ => none

/-- One step of the main thread. -/
def fireMain (state : MainThreadState) : MainThreadAction → Option MainThreadState
  | .drainMainThreadTasks =>
      if state.drain = .idle ∧ state.pushing = none then some { state with drain := .entering }
      else none
  | .go =>
      if state.pushing = none then
        (state.drain.fire state.queue).map fun effect =>
          { state with
            queue := effect.queue
            drain := effect.drain
            log := effect.events ++ state.log }
      else none
  | .push choice =>
      if state.drain.isOutside then
        (state.firePush state.pushing choice).map fun (next, pushing) => { next with pushing }
      else none

/-- No task is in the list, and nothing has happened. -/
def Fresh (state : MainThreadState) : Prop :=
  state.queue.m_mainThreadHead = none ∧ state.queue.m_mainThreadCount = 0 ∧
    state.drain = .idle ∧ state.pushing = none ∧ state.log = []

end MainThreadState

/-- The main thread, and any number of threads that push. -/
def mainThreadProgram :
    Program MainThreadState (Option PushCall) MainThreadAction PushChoice where
  solo := MainThreadState.fireMain
  fire := MainThreadState.firePush

abbrev mainThreadMachine (threads : Nat) :
    Machine (Program.State MainThreadState (Option PushCall) threads)
      (Program.Action MainThreadAction PushChoice threads) :=
  mainThreadProgram.machine MainThreadState.Fresh none threads

/-- A task is submitted for the first time, or again after it was started. -/
def PushChoice.Resubmits (log : List MainThreadEvent) : PushChoice → Prop
  | .pushMainThreadTask task => log.count (.submitted task) = log.count (.started task)
  | .go _ => True

def MainThreadAction.Resubmits (log : List MainThreadEvent) : MainThreadAction → Prop
  | .push choice => choice.Resubmits log
  | _ => True

instance (log : List MainThreadEvent) : DecidablePred (PushChoice.Resubmits log)
  | .pushMainThreadTask _ => inferInstanceAs (Decidable (_ = _))
  | .go _ => inferInstanceAs (Decidable True)

instance (log : List MainThreadEvent) : DecidablePred (MainThreadAction.Resubmits log)
  | .push choice => inferInstanceAs (Decidable (choice.Resubmits log))
  | .drainMainThreadTasks | .go => inferInstanceAs (Decidable True)

/-- Tasks are submitted again only after they were started. -/
abbrev resubmitting {threads : Nat} :
    Program.State MainThreadState (Option PushCall) threads →
      Program.Action MainThreadAction PushChoice threads → Prop :=
  Program.Allowed (fun shared action => action.Resubmits shared.log)
    (fun shared _ choice => choice.Resubmits shared.log)

end LightFlow
