import Mathlib.Data.Option.Basic
import Mathlib.Logic.Function.Basic
import Mathlib.Logic.ExistsUnique

/-!
# Move-only tasks

`MoveOnlyTask` erases the type of a callable behind an invoker and a manager.  A small callable
lives in the storage of the container, and a move constructs it anew; a large one lives in an
arena, and a move hands its pointer over.  The arena that a large callable is constructed in has
memory for it.
-/

namespace LightFlow

/-- `DecayedF`. -/
structure ClosureType where
  name : Nat
  size : Nat
  alignment : Nat
  deriving DecidableEq, Repr

/-- `SBO_SIZE`. -/
def sboSize : Nat := 48

/-- The callable goes into the storage of the container. -/
def ClosureType.isInline (type : ClosureType) : Bool :=
  type.size ≤ sboSize && type.alignment ≤ 16

/-- A callable object.  An object that was moved from has no callable any more. -/
structure TaskObject where
  type : ClosureType
  callable : Option Nat
  /-- Calls of the destructor. -/
  destroyed : Nat := 0
  deriving DecidableEq, Repr

/-- `m_storage`: the object in it, or the pointer in it. -/
inductive TaskStorage where
  | zero
  | inPlace (object : Nat)
  | pointer (object : Option Nat)
  deriving DecidableEq, Repr

/-- `MoveOnlyTask`; the two function pointers are those of a closure type. -/
structure MoveOnlyTask where
  m_storage : TaskStorage := .zero
  m_invoker : Option ClosureType := none
  m_manager : Option ClosureType := none
  deriving DecidableEq, Repr

/-- The callable objects, in the storages and in the arenas. -/
structure CallableHeap where
  objects : Nat → Option TaskObject := fun _ => none
  /-- How many were constructed. -/
  made : Nat := 0
  /-- The callables that ran, newest first. -/
  invoked : List (Option Nat) := []
  /-- The behaviour is undefined: a wrong type, a null pointer or a destroyed object. -/
  undefined : Bool := false

namespace CallableHeap

def fault (heap : CallableHeap) : CallableHeap := { heap with undefined := true }

/-- The object, if it can be used at this type. -/
def access (heap : CallableHeap) (type : ClosureType) (object : Nat) : Option TaskObject :=
  (heap.objects object).filter fun value => value.type = type ∧ value.destroyed = 0

/-- A constructor of the type ran. -/
def construct (heap : CallableHeap) (type : ClosureType) (callable : Option Nat) : CallableHeap :=
  { heap with
    objects := Function.update heap.objects heap.made (some { type, callable })
    made := heap.made + 1 }

/-- `~DecayedF()`. -/
def destruct (heap : CallableHeap) (type : ClosureType) (object : Nat) : CallableHeap :=
  { heap with
    objects := Function.update heap.objects object
      ((heap.objects object).map fun value => { value with destroyed := value.destroyed + 1 })
    undefined := heap.undefined || (heap.access type object).isNone }

/-- `DecayedF(std::move(*s))` followed by `s->~DecayedF()`. -/
def moveConstruct (heap : CallableHeap) (type : ClosureType) (object : Nat) : CallableHeap :=
  match heap.access type object with
  | none => heap.fault
  | some value =>
      let constructed := heap.construct type value.callable
      { constructed with
        objects := Function.update constructed.objects object
          (some { value with callable := none }) }.destruct type object

/-- The call operator. -/
def run (heap : CallableHeap) (type : ClosureType) (object : Nat) : CallableHeap :=
  match heap.access type object with
  | none => heap.fault
  | some value => { heap with invoked := value.callable :: heap.invoked }

end CallableHeap

namespace MoveOnlyTask

/-- `m_manager(Op::Destroy, storage, nullptr)`. -/
def managerDestroy (type : ClosureType) (storage : TaskStorage) (heap : CallableHeap) :
    CallableHeap :=
  match type.isInline, storage with
  | true, .inPlace object => heap.destruct type object
  | false, .pointer none => heap
  | false, .pointer (some object) => heap.destruct type object
  | _, _ => heap.fault

/-- `m_manager(Op::Move, src, dst)`, with the storage of the source and of the target
afterwards. -/
def managerMove (type : ClosureType) (src : TaskStorage) (heap : CallableHeap) :
    CallableHeap × TaskStorage × TaskStorage :=
  match type.isInline, src with
  | true, .inPlace object => (heap.moveConstruct type object, src, .inPlace heap.made)
  | false, .pointer object => (heap, .pointer none, .pointer object)
  | _, _ => (heap.fault, src, src)

/-- `MoveOnlyTask(callable, arena)`. -/
def construct (type : ClosureType) (callable : Nat) (heap : CallableHeap) :
    CallableHeap × MoveOnlyTask :=
  (heap.construct type (some callable),
    { m_storage := if type.isInline then .inPlace heap.made else .pointer (some heap.made)
      m_invoker := some type
      m_manager := some type })

/-- `valid()`. -/
def valid (task : MoveOnlyTask) : Bool := task.m_invoker.isSome

/-- `invoke()`. -/
def invoke (task : MoveOnlyTask) (heap : CallableHeap) : CallableHeap :=
  match task.m_invoker with
  | none => heap
  | some type =>
      match type.isInline, task.m_storage with
      | true, .inPlace object => heap.run type object
      | false, .pointer (some object) => heap.run type object
      | _, _ => heap.fault

/-- `reset()`, also the destructor. -/
def reset (task : MoveOnlyTask) (heap : CallableHeap) : CallableHeap × MoveOnlyTask :=
  match task.m_manager with
  | none => (heap, task)
  | some type =>
      (managerDestroy type task.m_storage heap, { task with m_invoker := none, m_manager := none })

/-- `moveFrom(other)`, with the two containers afterwards. -/
def moveFrom (task other : MoveOnlyTask) (heap : CallableHeap) :
    CallableHeap × MoveOnlyTask × MoveOnlyTask :=
  match other.m_manager with
  | none => (heap, task, other)
  | some type =>
      let (heap, src, dst) := managerMove type other.m_storage heap
      (heap, { m_storage := dst, m_invoker := other.m_invoker, m_manager := other.m_manager },
        { m_storage := src, m_invoker := none, m_manager := none })

end MoveOnlyTask

/-- Operations on containers, which are told apart by their addresses. -/
inductive TaskCall where
  | construct (container : Nat) (type : ClosureType)
  | default (container : Nat)
  | moveConstruct (container other : Nat)
  | moveAssign (container other : Nat)
  | invoke (container : Nat)
  | reset (container : Nat)
  | destroy (container : Nat)
  deriving DecidableEq, Repr

/-- The containers that live. -/
structure TaskSystem where
  containers : Nat → Option MoveOnlyTask := fun _ => none
  heap : CallableHeap := {}
  /-- Callables that were put into containers. -/
  callables : Nat := 0

namespace TaskSystem

/-- What is at the address of a container is overwritten. -/
def put (system : TaskSystem) (container : Nat) (task : Option MoveOnlyTask) : TaskSystem :=
  { system with containers := Function.update system.containers container task }

/-- `other` is moved into the container. -/
def move (system : TaskSystem) (container other : Nat) (task source : MoveOnlyTask) : TaskSystem :=
  let (heap, target, left) := task.moveFrom source system.heap
  { (system.put container (some target)).put other (some left) with heap }

/-- `reset()` of a container. -/
def reset (system : TaskSystem) (container : Nat) (task : MoveOnlyTask) : TaskSystem :=
  let (heap, left) := task.reset system.heap
  { system.put container (some left) with heap }

/-- The system after an operation; `none` where the operation is not possible. -/
def perform (system : TaskSystem) : TaskCall → Option TaskSystem
  | .construct container type =>
      if system.containers container = none then
        let (heap, task) := MoveOnlyTask.construct type system.callables system.heap
        some { system.put container (some task) with heap, callables := system.callables + 1 }
      else none
  | .default container =>
      if system.containers container = none then some (system.put container (some {})) else none
  | .moveConstruct container other =>
      if system.containers container = none then
        (system.containers other).map fun source => system.move container other {} source
      else none
  | .moveAssign container other => (system.containers container).bind fun task =>
      (system.containers other).map fun source =>
        if container = other then system
        else
          (system.reset container task).move container other (task.reset system.heap).2 source
  | .invoke container => (system.containers container).map fun task =>
      { system with heap := task.invoke system.heap }
  | .reset container => (system.containers container).map fun task => system.reset container task
  | .destroy container => (system.containers container).map fun task =>
      (system.reset container task).put container none

end TaskSystem

/-- What containers are for: each is empty or holds one callable. -/
structure Holders where
  containers : Nat → Option (Option Nat) := fun _ => none
  callables : Nat := 0
  /-- The callables that ran, newest first. -/
  invoked : List Nat := []

namespace Holders

/-- The callable that a container holds. -/
def held (holders : Holders) (container : Nat) : Option Nat := (holders.containers container).join

/-- A container is given what it holds, or is gone. -/
def put (holders : Holders) (container : Nat) (slot : Option (Option Nat)) : Holders :=
  { holders with containers := Function.update holders.containers container slot }

/-- The meaning of the operations: a move hands the callable on, and an assignment drops the one
that the target held. -/
def perform (holders : Holders) : TaskCall → Option Holders
  | .construct container _ =>
      if holders.containers container = none then
        some { holders.put container (some (some holders.callables)) with
          callables := holders.callables + 1 }
      else none
  | .default container =>
      if holders.containers container = none then some (holders.put container (some none))
      else none
  | .moveConstruct container other =>
      if holders.containers container = none then
        (holders.containers other).map fun held =>
          (holders.put container (some held)).put other (some none)
      else none
  | .moveAssign container other => (holders.containers container).bind fun _ =>
      (holders.containers other).map fun held =>
        if container = other then holders
        else (holders.put container (some held)).put other (some none)
  | .invoke container => (holders.containers container).map fun held =>
      { holders with invoked := held.toList ++ holders.invoked }
  | .reset container => (holders.containers container).map fun _ =>
      holders.put container (some none)
  | .destroy container => (holders.containers container).map fun _ => holders.put container none

end Holders

end LightFlow
