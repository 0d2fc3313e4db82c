import LightFlow.Task.MoveOnlyTask
import Mathlib.Data.Nat.Basic

/-!
# A callable has one container

The storages and function pointers of the containers follow the meaning of the operations: a
container that holds a callable points to the one live object that carries it, no two containers
point to the same object, and every other object was destroyed once.
-/

namespace LightFlow

/-- The storage that points to an object of the type. -/
def placed (type : ClosureType) (object : Nat) : TaskStorage :=
  if type.isInline then .inPlace object else .pointer (some object)

theorem placed_inj {type : ClosureType} {first second : Nat}
    (same : placed type first = placed type second) : first = second := by
  simp only [placed] at same
  split at same <;> simpa using same

/-- The container that holds an object. -/
def fullTask (type : ClosureType) (object : Nat) : MoveOnlyTask :=
  ⟨placed type object, some type, some type⟩

theorem fullTask_inj {type other : ClosureType} {first second : Nat}
    (same : fullTask type first = fullTask other second) : type = other ∧ first = second := by
  simp only [fullTask, MoveOnlyTask.mk.injEq, Option.some.injEq] at same
  obtain ⟨storage, rfl, -⟩ := same
  exact ⟨rfl, placed_inj storage⟩

/-- An empty container points to no object. -/
theorem empty_ne_full {storage : TaskStorage} (type : ClosureType) (object : Nat) :
    some ⟨storage, none, none⟩ ≠ some (fullTask type object) := by
  intro same
  cases same

/-- What is at the address of a container agrees with what it is to hold. -/
inductive Slot (heap : CallableHeap) : Option MoveOnlyTask → Option (Option Nat) → Prop where
  | gone : Slot heap none none
  | empty {storage : TaskStorage} : Slot heap (some ⟨storage, none, none⟩) (some none)
  | full {type : ClosureType} {object callable : Nat} :
      heap.objects object = some ⟨type, some callable, 0⟩ →
      Slot heap (some (fullTask type object)) (some (some callable))

/-- The containers and the objects agree with what the containers are to hold. -/
structure Owned (containers : Nat → Option MoveOnlyTask) (heap : CallableHeap)
    (slots : Nat → Option (Option Nat)) (callables : Nat) : Prop where
  defined : heap.undefined = false
  slot : ∀ container, Slot heap (containers container) (slots container)
  apart : ∀ {first second : Nat} {type other : ClosureType} {object : Nat},
    containers first = some (fullTask type object) →
    containers second = some (fullTask other object) → first = second
  accounted : ∀ {object : Nat} {value : TaskObject}, heap.objects object = some value →
    value.destroyed = 1 ∨
      value.destroyed = 0 ∧ ∃ container type, containers container = some (fullTask type object)
  unique : ∀ {first second : Nat} {value other : TaskObject} {callable : Nat},
    heap.objects first = some value → heap.objects second = some other →
    value.callable = some callable → other.callable = some callable → first = second
  known : ∀ callable < callables, ∃ object value, heap.objects object = some value ∧
    value.callable = some callable
  numbered : ∀ {object : Nat} {value : TaskObject} {callable : Nat},
    heap.objects object = some value → value.callable = some callable → callable < callables
  fresh : ∀ object, heap.made ≤ object → heap.objects object = none

section Heap

variable {heap : CallableHeap} {type : ClosureType} {object callable : Nat}

theorem access_of_live (live : heap.objects object = some ⟨type, some callable, 0⟩) :
    heap.access type object = some ⟨type, some callable, 0⟩ := by
  simp [CallableHeap.access, live]

theorem destruct_of_live (live : heap.objects object = some ⟨type, some callable, 0⟩) :
    heap.destruct type object =
      { heap with
        objects := Function.update heap.objects object (some ⟨type, some callable, 1⟩) } := by
  simp [CallableHeap.destruct, access_of_live live, live]

theorem moveConstruct_of_live (live : heap.objects object = some ⟨type, some callable, 0⟩) :
    heap.moveConstruct type object =
      { heap with
        objects := Function.update (Function.update heap.objects heap.made
          (some ⟨type, some callable, 0⟩)) object (some ⟨type, none, 1⟩)
        made := heap.made + 1 } := by
  simp only [CallableHeap.moveConstruct, access_of_live live]
  simp [CallableHeap.construct, CallableHeap.destruct, CallableHeap.access]

theorem managerDestroy_eq (type : ClosureType) (object : Nat) (heap : CallableHeap) :
    MoveOnlyTask.managerDestroy type (placed type object) heap = heap.destruct type object := by
  simp only [MoveOnlyTask.managerDestroy, placed]
  cases type.isInline <;> rfl

end Heap

namespace Owned

variable {containers : Nat → Option MoveOnlyTask} {heap : CallableHeap}
  {slots : Nat → Option (Option Nat)} {callables container : Nat}

/-- A container that is gone, or is empty, may become the other. -/
theorem put_empty (owned : Owned containers heap slots callables)
    (unfilled : ∀ type object, containers container ≠ some (fullTask type object))
    {task : Option MoveOnlyTask} {slot : Option (Option Nat)} (agrees : Slot heap task slot)
    (stays : ∀ type object, task ≠ some (fullTask type object)) :
    Owned (Function.update containers container task) heap
      (Function.update slots container slot) callables := by
  have other {place : Nat} {type : ClosureType} {object : Nat}
      (isFull : Function.update containers container task place = some (fullTask type object)) :
      containers place = some (fullTask type object) := by
    by_cases same : place = container
    · subst same
      rw [Function.update_self] at isFull
      exact absurd isFull (stays type object)
    · rwa [Function.update_of_ne same] at isFull
  refine ⟨owned.defined, fun place => ?_, fun first second => owned.apart (other first)
    (other second), fun found => ?_, owned.unique, owned.known, owned.numbered, owned.fresh⟩
  · by_cases same : place = container
    · subst same
      simpa only [Function.update_self] using agrees
    · simpa only [Function.update_of_ne same] using owned.slot place
  · refine (owned.accounted found).imp_right fun ⟨live, place, type, isFull⟩ =>
      ⟨live, place, type, ?_⟩
    have different : place ≠ container := by
      rintro rfl
      exact unfilled type _ isFull
    rw [Function.update_of_ne different, isFull]

/-- A container that points to an object holds its callable. -/
theorem live_of_full (owned : Owned containers heap slots callables) {type : ClosureType}
    {object : Nat} (isFull : containers container = some (fullTask type object)) :
    ∃ callable, slots container = some (some callable) ∧
      heap.objects object = some ⟨type, some callable, 0⟩ := by
  have agrees := owned.slot container
  rw [isFull] at agrees
  generalize isTask : fullTask type object = task at agrees
  generalize slots container = slot at agrees
  cases agrees with
  | empty => cases isTask
  | full live =>
      obtain ⟨rfl, rfl⟩ := fullTask_inj isTask
      exact ⟨_, rfl, live⟩

/-- A container that was emptied, whose object was destroyed. -/
theorem drop (owned : Owned containers heap slots callables) {type : ClosureType}
    {object callable : Nat} (isFull : containers container = some (fullTask type object))
    (live : heap.objects object = some ⟨type, some callable, 0⟩) (storage : TaskStorage) :
    Owned (Function.update containers container (some ⟨storage, none, none⟩))
      { heap with
        objects := Function.update heap.objects object (some ⟨type, some callable, 1⟩) }
      (Function.update slots container (some none)) callables := by
  have elsewhere {place : Nat} {other : ClosureType} {held : Nat}
      (full : Function.update containers container (some ⟨storage, none, none⟩) place =
        some (fullTask other held)) :
      place ≠ container ∧ containers place = some (fullTask other held) ∧ held ≠ object := by
    have different : place ≠ container := by
      rintro rfl
      rw [Function.update_self] at full
      cases full
    rw [Function.update_of_ne different] at full
    refine ⟨different, full, ?_⟩
    rintro rfl
    exact different (owned.apart full isFull)
  -- The objects are the old ones up to the call of the destructor.
  have older {other : Nat} {value : TaskObject}
      (found : Function.update heap.objects object (some ⟨type, some callable, 1⟩) other =
        some value) :
      ∃ before, heap.objects other = some before ∧ before.callable = value.callable ∧
        (other = object ∧ value.destroyed = 1 ∨ other ≠ object ∧ before = value) := by
    by_cases same : other = object
    · subst same
      rw [Function.update_self] at found
      cases found
      exact ⟨_, live, rfl, .inl ⟨rfl, rfl⟩⟩
    · rw [Function.update_of_ne same] at found
      exact ⟨value, found, rfl, .inr ⟨same, rfl⟩⟩
  refine ⟨owned.defined, fun place => ?_, fun first second => ?_, fun found => ?_,
    fun first second isFirst isSecond => ?_, fun number few => ?_, fun found carries => ?_,
    fun other beyond => ?_⟩
  · by_cases same : place = container
    · subst same
      simpa only [Function.update_self] using Slot.empty
    · have agrees := owned.slot place
      simp only [Function.update_of_ne same]
      generalize isTask : containers place = task at agrees
      generalize slots place = slot at agrees
      cases agrees with
      | gone => exact .gone
      | empty => exact .empty
      | @full other held number liveHeld =>
          refine .full ?_
          have different : held ≠ object := by
            rintro rfl
            exact same (owned.apart isTask isFull)
          exact (Function.update_of_ne different ..).trans liveHeld
  · exact owned.apart (elsewhere first).2.1 (elsewhere second).2.1
  · obtain ⟨before, old, -, ⟨-, once⟩ | ⟨different, rfl⟩⟩ := older found
    · exact .inl once
    · refine (owned.accounted old).imp_right fun ⟨alive, place, other, full⟩ =>
        ⟨alive, place, other, ?_⟩
      have elsewhere : place ≠ container := by
        rintro rfl
        exact different (fullTask_inj (Option.some.inj (full.symm.trans isFull))).2
      rw [Function.update_of_ne elsewhere, full]
  · obtain ⟨one, oneFound, oneCarries, -⟩ := older first
    obtain ⟨two, twoFound, twoCarries, -⟩ := older second
    exact owned.unique oneFound twoFound (oneCarries.trans isFirst) (twoCarries.trans isSecond)
  · obtain ⟨other, value, found, carries⟩ := owned.known number few
    by_cases same : other = object
    · subst same
      cases live.symm.trans found
      exact ⟨other, _, Function.update_self .., carries⟩
    · exact ⟨other, value, (Function.update_of_ne same ..).trans found, carries⟩
  · obtain ⟨before, old, sameCallable, -⟩ := older found
    exact owned.numbered old (sameCallable.trans carries)
  · have none := owned.fresh other beyond
    have different : other ≠ object := by
      rintro rfl
      cases live.symm.trans none
    exact (Function.update_of_ne different ..).trans none

/-- `reset()`. -/
theorem reset (owned : Owned containers heap slots callables) {task : MoveOnlyTask}
    (found : containers container = some task) :
    Owned (Function.update containers container (some (task.reset heap).2)) (task.reset heap).1
      (Function.update slots container (some none)) callables ∧
      ∃ storage, (task.reset heap).2 = ⟨storage, none, none⟩ := by
  have agrees := owned.slot container
  rw [found] at agrees
  generalize slots container = slot at agrees
  cases agrees with
  | @empty storage =>
      refine ⟨owned.put_empty (fun type object isFull => ?_) .empty nofun, storage, rfl⟩
      rw [found] at isFull
      cases isFull
  | @full type object callable live =>
      have reset : (fullTask type object).reset heap =
          (heap.destruct type object, ⟨placed type object, none, none⟩) := by
        simp only [MoveOnlyTask.reset, fullTask, managerDestroy_eq]
      rw [reset, destruct_of_live live]
      exact ⟨owned.drop found live _, _, rfl⟩

/-- A callable is put into a new container. -/
theorem construct (owned : Owned containers heap slots callables)
    (none : containers container = none) (type : ClosureType) :
    Owned
      (Function.update containers container (some (MoveOnlyTask.construct type callables heap).2))
      (MoveOnlyTask.construct type callables heap).1
      (Function.update slots container (some (some callables))) (callables + 1) := by
  have isFull : (MoveOnlyTask.construct type callables heap).2 = fullTask type heap.made := rfl
  rw [isFull]
  have elsewhere {place : Nat} {other : ClosureType} {held : Nat} (different : place ≠ container)
      (full : containers place = some (fullTask other held)) : held ≠ heap.made := by
    rintro rfl
    obtain ⟨_, -, live⟩ := owned.live_of_full full
    cases (owned.fresh _ le_rfl).symm.trans live
  have older {object : Nat} {value : TaskObject}
      (found : Function.update heap.objects heap.made (some ⟨type, some callables, 0⟩) object =
        some value) :
      object = heap.made ∧ value = ⟨type, some callables, 0⟩ ∨
        object ≠ heap.made ∧ heap.objects object = some value := by
    by_cases same : object = heap.made
    · subst same
      rw [Function.update_self] at found
      cases found
      exact .inl ⟨rfl, rfl⟩
    · rw [Function.update_of_ne same] at found
      exact .inr ⟨same, found⟩
  have keeps {object : Nat} {value : TaskObject} (found : heap.objects object = some value) :
      Function.update heap.objects heap.made (some ⟨type, some callables, 0⟩) object =
        some value := by
    have different : object ≠ heap.made := by
      rintro rfl
      cases (owned.fresh _ le_rfl).symm.trans found
    exact (Function.update_of_ne different ..).trans found
  refine ⟨owned.defined, fun place => ?_, fun {first second one two object} isFirst isSecond => ?_,
    fun {object value} found => ?_, fun {first second value other number} isFirst isSecond => ?_,
    fun number few => ?_, fun {object value number} found carries => ?_, fun object beyond => ?_⟩
  · by_cases same : place = container
    · subst same
      simp only [Function.update_self]
      exact .full (Function.update_self ..)
    · have agrees := owned.slot place
      simp only [Function.update_of_ne same]
      generalize containers place = task at agrees
      generalize slots place = slot at agrees
      cases agrees with
      | gone => exact .gone
      | empty => exact .empty
      | full live => exact .full (keeps live)
  · by_cases sameFirst : first = container <;> by_cases sameSecond : second = container
    · rw [sameFirst, sameSecond]
    · subst sameFirst
      rw [Function.update_self] at isFirst
      rw [Function.update_of_ne sameSecond] at isSecond
      exact absurd (fullTask_inj (Option.some.inj isFirst)).2.symm (elsewhere sameSecond isSecond)
    · subst sameSecond
      rw [Function.update_self] at isSecond
      rw [Function.update_of_ne sameFirst] at isFirst
      exact absurd (fullTask_inj (Option.some.inj isSecond)).2.symm (elsewhere sameFirst isFirst)
    · rw [Function.update_of_ne sameFirst] at isFirst
      rw [Function.update_of_ne sameSecond] at isSecond
      exact owned.apart isFirst isSecond
  · rcases older found with ⟨rfl, rfl⟩ | ⟨-, old⟩
    · exact .inr ⟨rfl, container, type, Function.update_self ..⟩
    · refine (owned.accounted old).imp_right fun ⟨alive, place, other, full⟩ =>
        ⟨alive, place, other, ?_⟩
      have different : place ≠ container := by
        rintro rfl
        cases none.symm.trans full
      rw [Function.update_of_ne different, full]
  · intro firstCarries secondCarries
    rcases older isFirst with ⟨rfl, rfl⟩ | ⟨-, oldFirst⟩ <;>
      rcases older isSecond with ⟨rfl, rfl⟩ | ⟨-, oldSecond⟩
    · rfl
    · cases firstCarries
      exact absurd (owned.numbered oldSecond secondCarries) (lt_irrefl _)
    · cases secondCarries
      exact absurd (owned.numbered oldFirst firstCarries) (lt_irrefl _)
    · exact owned.unique oldFirst oldSecond firstCarries secondCarries
  · rcases Nat.lt_succ_iff_lt_or_eq.mp few with old | rfl
    · obtain ⟨object, value, found, carries⟩ := owned.known number old
      exact ⟨object, value, keeps found, carries⟩
    · exact ⟨heap.made, _, Function.update_self .., rfl⟩
  · rcases older found with ⟨rfl, rfl⟩ | ⟨-, old⟩
    · cases carries
      exact Nat.lt_succ_self _
    · exact Nat.lt_succ_of_lt (owned.numbered old carries)
  · have different : object ≠ heap.made := by
      rintro rfl
      exact absurd beyond (Nat.not_succ_le_self _)
    exact (Function.update_of_ne different ..).trans
      (owned.fresh object (Nat.le_of_succ_le beyond))

/-- The pointer to an arena is handed over. -/
theorem handOver (owned : Owned containers heap slots callables) (left : TaskStorage)
    {storage : TaskStorage} {type : ClosureType} {object callable other : Nat}
    (isEmpty : containers container = some ⟨storage, none, none⟩)
    (isFull : containers other = some (fullTask type object))
    (live : heap.objects object = some ⟨type, some callable, 0⟩) :
    Owned
      (Function.update (Function.update containers container (some (fullTask type object))) other
        (some ⟨left, none, none⟩)) heap
      (Function.update (Function.update slots container (some (some callable))) other
        (some none)) callables := by
  have different : container ≠ other := by
    rintro rfl
    cases isEmpty.symm.trans isFull
  -- What is full now was full before, up to the object that changed its place.
  have before {place : Nat} {kind : ClosureType} {held : Nat}
      (full : Function.update (Function.update containers container (some (fullTask type object)))
        other (some ⟨left, none, none⟩) place = some (fullTask kind held)) :
      place = container ∧ kind = type ∧ held = object ∨
        place ≠ container ∧ place ≠ other ∧ containers place = some (fullTask kind held) := by
    have notOther : place ≠ other := by
      rintro rfl
      rw [Function.update_self] at full
      cases full
    rw [Function.update_of_ne notOther] at full
    by_cases same : place = container
    · subst same
      rw [Function.update_self] at full
      obtain ⟨isKind, isHeld⟩ := fullTask_inj (Option.some.inj full)
      exact .inl ⟨rfl, isKind.symm, isHeld.symm⟩
    · rw [Function.update_of_ne same] at full
      exact .inr ⟨same, notOther, full⟩
  refine ⟨owned.defined, fun place => ?_, fun first second => ?_, fun found => ?_, owned.unique,
    owned.known, owned.numbered, owned.fresh⟩
  · by_cases isOther : place = other
    · subst isOther
      simpa only [Function.update_self] using Slot.empty
    · simp only [Function.update_of_ne isOther]
      by_cases same : place = container
      · subst same
        simp only [Function.update_self]
        exact .full live
      · simpa only [Function.update_of_ne same] using owned.slot place
  · rcases before first with ⟨rfl, -, rfl⟩ | ⟨-, notOther, wasFirst⟩ <;>
      rcases before second with ⟨isSecond, -, isObject⟩ | ⟨-, notOther', wasSecond⟩
    · exact isSecond.symm
    · exact absurd (owned.apart wasSecond isFull) notOther'
    · subst isObject
      exact absurd (owned.apart wasFirst isFull) notOther
    · exact owned.apart wasFirst wasSecond
  · refine (owned.accounted found).imp_right fun ⟨alive, place, kind, full⟩ => ⟨alive, ?_⟩
    by_cases isOther : place = other
    · subst isOther
      obtain ⟨isKind, isHeld⟩ := fullTask_inj (Option.some.inj (full.symm.trans isFull))
      subst isKind isHeld
      exact ⟨container, kind, by rw [Function.update_of_ne different, Function.update_self]⟩
    · have notContainer : place ≠ container := by
        rintro rfl
        cases isEmpty.symm.trans full
      exact ⟨place, kind, by
        rw [Function.update_of_ne isOther, Function.update_of_ne notContainer, full]⟩

/-- An object is constructed from another one, which is destroyed. -/
theorem reconstruct (owned : Owned containers heap slots callables) {type : ClosureType}
    {object callable : Nat} (isFull : containers container = some (fullTask type object))
    (live : heap.objects object = some ⟨type, some callable, 0⟩) :
    Owned (Function.update containers container (some (fullTask type heap.made)))
      { heap with
        objects := Function.update (Function.update heap.objects heap.made
          (some ⟨type, some callable, 0⟩)) object (some ⟨type, none, 1⟩)
        made := heap.made + 1 } slots callables := by
  have old {held : Nat} {value : TaskObject} (found : heap.objects held = some value) :
      held ≠ heap.made := by
    rintro rfl
    cases (owned.fresh _ le_rfl).symm.trans found
  -- The objects are the new one, the one moved from, and the others.
  have cases {held : Nat} {value : TaskObject}
      (found : Function.update (Function.update heap.objects heap.made
        (some ⟨type, some callable, 0⟩)) object (some ⟨type, none, 1⟩) held = some value) :
      held = object ∧ value = ⟨type, none, 1⟩ ∨
        held = heap.made ∧ value = ⟨type, some callable, 0⟩ ∨
        held ≠ object ∧ held ≠ heap.made ∧ heap.objects held = some value := by
    by_cases isObject : held = object
    · subst isObject
      rw [Function.update_self] at found
      exact .inl ⟨rfl, (Option.some.inj found).symm⟩
    · rw [Function.update_of_ne isObject] at found
      by_cases isMade : held = heap.made
      · subst isMade
        rw [Function.update_self] at found
        exact .inr (.inl ⟨rfl, (Option.some.inj found).symm⟩)
      · rw [Function.update_of_ne isMade] at found
        exact .inr (.inr ⟨isObject, isMade, found⟩)
  have keeps {held : Nat} {value : TaskObject} (found : heap.objects held = some value)
      (different : held ≠ object) :
      Function.update (Function.update heap.objects heap.made (some ⟨type, some callable, 0⟩))
        object (some ⟨type, none, 1⟩) held = some value := by
    rw [Function.update_of_ne different, Function.update_of_ne (old found), found]
  have isNew : Function.update (Function.update heap.objects heap.made
      (some ⟨type, some callable, 0⟩)) object (some ⟨type, none, 1⟩) heap.made =
      some ⟨type, some callable, 0⟩ := by
    rw [Function.update_of_ne (old live).symm, Function.update_self]
  refine ⟨owned.defined, fun place => ?_, fun {first second one two held} isFirst isSecond => ?_,
    fun {held value} found => ?_, fun {first second value other number} isFirst isSecond => ?_,
    fun number few => ?_, fun {held value number} found carries => ?_, fun held beyond => ?_⟩
  · have agrees := owned.slot place
    by_cases same : place = container
    · subst same
      obtain ⟨_, isSlot, lives⟩ := owned.live_of_full isFull
      cases live.symm.trans lives
      rw [isSlot, Function.update_self]
      exact .full isNew
    · rw [Function.update_of_ne same]
      generalize isTask : containers place = task at agrees
      generalize slots place = slot at agrees
      cases agrees with
      | gone => exact .gone
      | empty => exact .empty
      | full lives =>
          refine .full (keeps lives ?_)
          rintro rfl
          exact same (owned.apart isTask isFull)
  · have held_old {place : Nat} {kind : ClosureType} (different : place ≠ container)
        (full : containers place = some (fullTask kind heap.made)) : False := by
      obtain ⟨_, -, lives⟩ := owned.live_of_full full
      exact old lives rfl
    by_cases sameFirst : first = container <;> by_cases sameSecond : second = container
    · rw [sameFirst, sameSecond]
    · subst sameFirst
      rw [Function.update_self] at isFirst
      rw [Function.update_of_ne sameSecond] at isSecond
      obtain ⟨-, rfl⟩ := fullTask_inj (Option.some.inj isFirst)
      exact (held_old sameSecond isSecond).elim
    · subst sameSecond
      rw [Function.update_self] at isSecond
      rw [Function.update_of_ne sameFirst] at isFirst
      obtain ⟨-, rfl⟩ := fullTask_inj (Option.some.inj isSecond)
      exact (held_old sameFirst isFirst).elim
    · rw [Function.update_of_ne sameFirst] at isFirst
      rw [Function.update_of_ne sameSecond] at isSecond
      exact owned.apart isFirst isSecond
  · rcases cases found with ⟨-, rfl⟩ | ⟨rfl, rfl⟩ | ⟨different, -, before⟩
    · exact .inl rfl
    · exact .inr ⟨rfl, container, type, Function.update_self ..⟩
    · refine (owned.accounted before).imp_right fun ⟨alive, place, kind, full⟩ =>
        ⟨alive, place, kind, ?_⟩
      have elsewhere : place ≠ container := by
        rintro rfl
        exact different (fullTask_inj (Option.some.inj (full.symm.trans isFull))).2
      rw [Function.update_of_ne elsewhere, full]
  · intro firstCarries secondCarries
    rcases cases isFirst with ⟨-, rfl⟩ | ⟨rfl, rfl⟩ | ⟨differentFirst, -, beforeFirst⟩
    · cases firstCarries
    · rcases cases isSecond with ⟨-, rfl⟩ | ⟨rfl, rfl⟩ | ⟨different, -, before⟩
      · cases secondCarries
      · rfl
      · cases firstCarries
        exact absurd (owned.unique before live secondCarries rfl) different
    · rcases cases isSecond with ⟨-, rfl⟩ | ⟨rfl, rfl⟩ | ⟨-, -, before⟩
      · cases secondCarries
      · cases secondCarries
        exact absurd (owned.unique beforeFirst live firstCarries rfl) differentFirst
      · exact owned.unique beforeFirst before firstCarries secondCarries
  · obtain ⟨held, value, found, carries⟩ := owned.known number few
    by_cases same : held = object
    · subst same
      cases live.symm.trans found
      cases carries
      exact ⟨heap.made, _, isNew, rfl⟩
    · exact ⟨held, value, keeps found same, carries⟩
  · rcases cases found with ⟨-, rfl⟩ | ⟨-, rfl⟩ | ⟨-, -, before⟩
    · cases carries
    · cases carries
      exact owned.numbered live rfl
    · exact owned.numbered before carries
  · have notMade : held ≠ heap.made := by
      rintro rfl
      exact absurd beyond (Nat.not_succ_le_self _)
    have none := owned.fresh held (Nat.le_of_succ_le beyond)
    have notObject : held ≠ object := by
      rintro rfl
      cases live.symm.trans none
    exact (Function.update_of_ne notObject ..).trans
      ((Function.update_of_ne notMade ..).trans none)

/-- `moveFrom(other)` into an empty container. -/
theorem move (owned : Owned containers heap slots callables) {storage : TaskStorage} {other : Nat}
    {source : MoveOnlyTask} (isEmpty : containers container = some ⟨storage, none, none⟩)
    (found : containers other = some source) (different : container ≠ other)
    {held : Option Nat} (isHeld : slots other = some held) :
    let moved := MoveOnlyTask.moveFrom ⟨storage, none, none⟩ source heap
    Owned (Function.update (Function.update containers container (some moved.2.1)) other
        (some moved.2.2)) moved.1
      (Function.update (Function.update slots container (some held)) other (some none))
      callables := by
  have agrees := owned.slot other
  have target := owned.slot container
  rw [found, isHeld] at agrees
  rw [isEmpty] at target
  generalize isSlot : slots container = slot at target
  cases agrees with
  | @empty left =>
      -- Nothing moves, and both containers stay as they are.
      have same : MoveOnlyTask.moveFrom ⟨storage, none, none⟩ ⟨left, none, none⟩ heap =
          (heap, ⟨storage, none, none⟩, ⟨left, none, none⟩) := rfl
      have targetSlot : slot = some none := by
        generalize isTask : (⟨storage, none, none⟩ : MoveOnlyTask) = task at target
        cases target with
        | empty => rfl
        | full => cases isTask
      simp only [same]
      rw [← isEmpty, Function.update_eq_self, ← found, Function.update_eq_self, ← targetSlot,
        ← isSlot, Function.update_eq_self, isSlot, targetSlot, ← isHeld, Function.update_eq_self]
      exact owned
  | @full type object callable live =>
      cases isInline : type.isInline with
      | false =>
          have moved : MoveOnlyTask.moveFrom ⟨storage, none, none⟩ (fullTask type object) heap =
              (heap, fullTask type object, ⟨.pointer none, none, none⟩) := by
            simp [MoveOnlyTask.moveFrom, fullTask, placed, MoveOnlyTask.managerMove, isInline]
          rw [moved]
          exact owned.handOver _ isEmpty found live
      | true =>
          have old : object ≠ heap.made := by
            rintro rfl
            cases (owned.fresh _ le_rfl).symm.trans live
          have moved : MoveOnlyTask.moveFrom ⟨storage, none, none⟩ (fullTask type object) heap =
              (heap.moveConstruct type object, fullTask type heap.made,
                ⟨placed type object, none, none⟩) := by
            simp [MoveOnlyTask.moveFrom, fullTask, placed, MoveOnlyTask.managerMove, isInline]
          rw [moved, moveConstruct_of_live live]
          -- The object is constructed anew in its place, and then handed over.
          have constructed := owned.reconstruct found live
          have handed := constructed.handOver (placed type object)
            ((Function.update_of_ne different ..).trans isEmpty) (Function.update_self ..)
            ((Function.update_of_ne old.symm ..).trans (Function.update_self ..))
          rw [Function.update_comm different.symm, Function.update_idem] at handed
          exact handed

/-- `invoke()`. -/
theorem invoke (owned : Owned containers heap slots callables) {task : MoveOnlyTask}
    (found : containers container = some task) {held : Option Nat}
    (isHeld : slots container = some held) :
    task.invoke heap = { heap with invoked := held.toList.map some ++ heap.invoked } := by
  have agrees := owned.slot container
  rw [found, isHeld] at agrees
  cases agrees with
  | empty => rfl
  | @full type object callable live =>
      simp only [MoveOnlyTask.invoke, fullTask, placed]
      cases type.isInline <;> simp [CallableHeap.run, access_of_live live]

/-- The record of the calls is no part of it. -/
theorem record (owned : Owned containers heap slots callables) (invoked : List (Option Nat)) :
    Owned containers { heap with invoked } slots callables := by
  refine ⟨owned.defined, fun place => ?_, owned.apart, owned.accounted, owned.unique, owned.known,
    owned.numbered, owned.fresh⟩
  have agrees := owned.slot place
  generalize containers place = task at agrees
  generalize slots place = slot at agrees
  cases agrees with
  | gone => exact .gone
  | empty => exact .empty
  | full live => exact .full live

theorem slot_of_some (owned : Owned containers heap slots callables) {task : MoveOnlyTask}
    (found : containers container = some task) : ∃ held, slots container = some held := by
  have agrees := owned.slot container
  rw [found] at agrees
  generalize slots container = slot at agrees
  cases agrees with
  | empty => exact ⟨_, rfl⟩
  | full => exact ⟨_, rfl⟩

theorem slot_of_none (owned : Owned containers heap slots callables)
    (gone : containers container = none) : slots container = none := by
  have agrees := owned.slot container
  rw [gone] at agrees
  generalize slots container = slot at agrees
  cases agrees
  rfl

end Owned

/-! ## Runs -/

section Invoked

variable (task other : MoveOnlyTask) (heap : CallableHeap)

/-- Only `invoke` runs callables. -/
theorem reset_invoked : (task.reset heap).1.invoked = heap.invoked := by
  unfold MoveOnlyTask.reset
  split
  · rfl
  · unfold MoveOnlyTask.managerDestroy
    split <;> rfl

theorem moveFrom_invoked : (task.moveFrom other heap).1.invoked = heap.invoked := by
  have moveConstruct (type : ClosureType) (object : Nat) :
      (heap.moveConstruct type object).invoked = heap.invoked := by
    unfold CallableHeap.moveConstruct
    split <;> rfl
  unfold MoveOnlyTask.moveFrom
  split
  · rfl
  · simp only [MoveOnlyTask.managerMove]
    split
    · exact moveConstruct ..
    · rfl
    · rfl

end Invoked

/-- The system does what the operations mean. -/
structure Agrees (system : TaskSystem) (holders : Holders) : Prop where
  owned : Owned system.containers system.heap holders.containers holders.callables
  callables : system.callables = holders.callables
  invoked : system.heap.invoked = holders.invoked.map some

theorem Agrees.start : Agrees {} {} :=
  ⟨⟨rfl, fun _ => .gone, nofun, nofun, nofun, nofun, nofun, fun _ _ => rfl⟩, rfl, rfl⟩

/-- Each operation does what it means. -/
theorem Agrees.perform {system : TaskSystem} {holders : Holders} (agrees : Agrees system holders)
    {call : TaskCall} {next : TaskSystem} (performed : system.perform call = some next) :
    ∃ nextHolders, holders.perform call = some nextHolders ∧ Agrees next nextHolders := by
  obtain ⟨owned, callables, invoked⟩ := agrees
  cases call with
  | construct container type =>
      simp only [TaskSystem.perform, Option.ite_none_right_eq_some] at performed
      obtain ⟨gone, performed⟩ := performed
      cases performed
      refine ⟨{ holders.put container (some (some holders.callables)) with
        callables := holders.callables + 1 },
        by simp only [Holders.perform, owned.slot_of_none gone, ↓reduceIte], ?_,
        congrArg (· + 1) callables, invoked⟩
      rw [callables]
      exact owned.construct gone type
  | default container =>
      simp only [TaskSystem.perform, Option.ite_none_right_eq_some] at performed
      obtain ⟨gone, performed⟩ := performed
      cases performed
      refine ⟨holders.put container (some none),
        by simp only [Holders.perform, owned.slot_of_none gone, ↓reduceIte], ?_, callables,
        invoked⟩
      exact owned.put_empty (fun type object isFull => by cases gone.symm.trans isFull) .empty
        empty_ne_full
  | moveConstruct container other =>
      simp only [TaskSystem.perform, Option.ite_none_right_eq_some] at performed
      obtain ⟨gone, performed⟩ := performed
      obtain ⟨source, found, rfl⟩ := Option.map_eq_some_iff.mp performed
      obtain ⟨held, isHeld⟩ := owned.slot_of_some found
      have different : container ≠ other := by
        rintro rfl
        cases gone.symm.trans found
      -- The new container begins empty.
      have opened : Owned (Function.update system.containers container (some {})) system.heap
          (Function.update holders.containers container (some none)) holders.callables :=
        owned.put_empty (fun type object isFull => by cases gone.symm.trans isFull) .empty
          empty_ne_full
      have moved := opened.move (Function.update_self ..)
        ((Function.update_of_ne different.symm ..).trans found) different
        ((Function.update_of_ne different.symm ..).trans isHeld)
      simp only [Function.update_idem] at moved
      refine ⟨(holders.put container (some held)).put other (some none),
        by simp only [Holders.perform, owned.slot_of_none gone, ↓reduceIte, isHeld,
          Option.map_some], moved, callables, ?_⟩
      exact (moveFrom_invoked ..).trans invoked
  | moveAssign container other =>
      obtain ⟨task, found, performed⟩ := Option.bind_eq_some_iff.mp performed
      obtain ⟨source, foundOther, rfl⟩ := Option.map_eq_some_iff.mp performed
      obtain ⟨dropped, isDropped⟩ := owned.slot_of_some found
      obtain ⟨held, isHeld⟩ := owned.slot_of_some foundOther
      by_cases isSelf : container = other
      · refine ⟨holders, by simp only [Holders.perform, isHeld, Option.bind_some, Option.map_some,
          isSelf, ↓reduceIte], ?_⟩
        rw [if_pos isSelf]
        exact ⟨owned, callables, invoked⟩
      · obtain ⟨emptied, storage, isEmpty⟩ := owned.reset found
        rw [isEmpty] at emptied
        have moved := emptied.move (Function.update_self ..)
          ((Function.update_of_ne (Ne.symm isSelf) ..).trans foundOther) isSelf
          ((Function.update_of_ne (Ne.symm isSelf) ..).trans isHeld)
        simp only [Function.update_idem] at moved
        refine ⟨(holders.put container (some held)).put other (some none),
          by simp only [Holders.perform, isDropped, isHeld, Option.bind_some, Option.map_some,
            isSelf, ↓reduceIte], ?_⟩
        rw [if_neg isSelf, isEmpty]
        refine ⟨?_, callables, ?_⟩
        · simpa only [TaskSystem.move, TaskSystem.reset, TaskSystem.put, Holders.put,
            Function.update_idem] using moved
        · exact (moveFrom_invoked ..).trans ((reset_invoked ..).trans invoked)
  | invoke container =>
      obtain ⟨task, found, rfl⟩ := Option.map_eq_some_iff.mp performed
      obtain ⟨held, isHeld⟩ := owned.slot_of_some found
      refine ⟨{ holders with invoked := held.toList ++ holders.invoked },
        by simp only [Holders.perform, isHeld, Option.map_some], ?_⟩
      rw [owned.invoke found isHeld]
      exact ⟨owned.record _, callables, by simp [invoked]⟩
  | reset container =>
      obtain ⟨task, found, rfl⟩ := Option.map_eq_some_iff.mp performed
      obtain ⟨held, isHeld⟩ := owned.slot_of_some found
      exact ⟨holders.put container (some none),
        by simp only [Holders.perform, isHeld, Option.map_some], (owned.reset found).1, callables,
        (reset_invoked ..).trans invoked⟩
  | destroy container =>
      obtain ⟨task, found, rfl⟩ := Option.map_eq_some_iff.mp performed
      obtain ⟨held, isHeld⟩ := owned.slot_of_some found
      obtain ⟨emptied, storage, isEmpty⟩ := owned.reset found
      have gone := emptied.put_empty (fun type object isFull => by
        rw [Function.update_self, isEmpty] at isFull
        cases isFull) .gone nofun
      rw [Function.update_idem] at gone
      refine ⟨holders.put container none,
        by simp only [Holders.perform, isHeld, Option.map_some], ?_, callables,
        (reset_invoked ..).trans invoked⟩
      simpa only [TaskSystem.reset, TaskSystem.put, Holders.put, Function.update_idem] using gone

/-- The object that the storage of a container points to. -/
def MoveOnlyTask.object (task : MoveOnlyTask) : Option Nat :=
  task.m_manager.bind fun type =>
    match type.isInline, task.m_storage with
    | true, .inPlace object => some object
    | false, .pointer object => object
    | _, _ => none

/-- The callable in the object of a container. -/
def TaskSystem.callableIn (system : TaskSystem) (container : Nat) : Option Nat :=
  (system.containers container).bind fun task =>
    task.object.bind fun object => (system.heap.objects object).bind (·.callable)

/-- The object that carries the callable was destroyed. -/
def TaskSystem.Destroyed (system : TaskSystem) (callable : Nat) : Prop :=
  ∃ object value, system.heap.objects object = some value ∧ value.callable = some callable ∧
    value.destroyed ≠ 0

namespace Agrees

variable {system : TaskSystem} {holders : Holders}

theorem object_fullTask (type : ClosureType) (object : Nat) :
    (fullTask type object).object = some object := by
  simp only [MoveOnlyTask.object, fullTask, placed, Option.bind_some]
  cases type.isInline <;> rfl

theorem callableIn_eq (agrees : Agrees system holders) (container : Nat) :
    system.callableIn container = holders.held container := by
  have slot := agrees.owned.slot container
  simp only [TaskSystem.callableIn, Holders.held]
  generalize system.containers container = task at slot ⊢
  generalize holders.containers container = held at slot ⊢
  cases slot with
  | gone => rfl
  | empty => rfl
  | full live => simp [object_fullTask, live]

theorem valid_eq (agrees : Agrees system holders) {container : Nat} {task : MoveOnlyTask}
    (found : system.containers container = some task) :
    task.valid = (holders.held container).isSome := by
  have slot := agrees.owned.slot container
  rw [found] at slot
  simp only [Holders.held]
  generalize holders.containers container = held at slot ⊢
  cases slot with
  | empty => rfl
  | full live => rfl

/-- A callable in a container is in one that points to its live object. -/
theorem full_of_callableIn (agrees : Agrees system holders) {container callable : Nat}
    (isHeld : system.callableIn container = some callable) : ∃ type object,
      system.containers container = some (fullTask type object) ∧
        system.heap.objects object = some ⟨type, some callable, 0⟩ := by
  have slot := agrees.owned.slot container
  simp only [TaskSystem.callableIn] at isHeld
  generalize system.containers container = task at slot isHeld ⊢
  generalize holders.containers container = held at slot
  cases slot with
  | gone => cases isHeld
  | empty => cases isHeld
  | @full type object number live =>
      simp only [Option.bind_some, object_fullTask, live] at isHeld
      cases isHeld
      exact ⟨type, object, rfl, live⟩

/-- A callable that was not destroyed is in exactly one container. -/
theorem existsUnique_container (agrees : Agrees system holders) {callable : Nat}
    (put : callable < system.callables) (alive : ¬ system.Destroyed callable) :
    ∃! container, system.callableIn container = some callable := by
  have owned := agrees.owned
  rw [agrees.callables] at put
  obtain ⟨object, value, found, carries⟩ := owned.known callable put
  rcases owned.accounted found with once | ⟨-, container, type, isFull⟩
  · exact absurd ⟨object, value, found, carries, by rw [once]; exact Nat.one_ne_zero⟩ alive
  · refine ⟨container, ?_, fun other isHeld => ?_⟩
    · simp only [TaskSystem.callableIn, isFull, Option.bind_some, object_fullTask, found, carries]
    · obtain ⟨kind, held, isOther, live⟩ := agrees.full_of_callableIn isHeld
      obtain rfl := owned.unique live found rfl carries
      exact owned.apart isOther isFull

/-- A callable in a container was put in and is not destroyed. -/
theorem alive_of_callableIn (agrees : Agrees system holders) {container callable : Nat}
    (isHeld : system.callableIn container = some callable) :
    callable < system.callables ∧ ¬ system.Destroyed callable := by
  have owned := agrees.owned
  obtain ⟨type, object, -, live⟩ := agrees.full_of_callableIn isHeld
  refine ⟨?_, fun ⟨other, value, found, carries, gone⟩ => ?_⟩
  · rw [agrees.callables]
    exact owned.numbered live rfl
  · obtain rfl := owned.unique found live carries rfl
    cases live.symm.trans found
    exact gone rfl

end Agrees

/-- Each run of operations does what they mean. -/
theorem Agrees.performed {start system : TaskSystem} {holders : Holders}
    (agrees : Agrees start holders) {calls : List TaskCall}
    (performed : calls.foldlM TaskSystem.perform start = some system) :
    ∃ final, calls.foldlM Holders.perform holders = some final ∧ Agrees system final := by
  induction calls generalizing start holders with
  | nil =>
      cases performed
      exact ⟨holders, rfl, agrees⟩
  | cons call calls ih =>
      rw [List.foldlM_cons] at performed
      obtain ⟨next, first, rest⟩ := Option.bind_eq_some_iff.mp performed
      obtain ⟨nextHolders, meant, nextAgrees⟩ := agrees.perform first
      obtain ⟨final, onward, inTheEnd⟩ := ih nextAgrees rest
      exact ⟨final, by rw [List.foldlM_cons, meant]; exact onward, inTheEnd⟩

/-- After any operations, a container is valid exactly when it holds a callable, and it holds the
one that was put in it or moved to it; each callable that is not destroyed is held by exactly
one container; no object is destroyed twice, and every object is destroyed when all containers
are gone; and the invocations ran what their containers held. -/
theorem tasks_own_linearly {calls : List TaskCall} {system : TaskSystem}
    (performed : calls.foldlM TaskSystem.perform {} = some system) :
    ∃ holders, calls.foldlM Holders.perform {} = some holders ∧
      system.heap.undefined = false ∧
      (∀ container task, system.containers container = some task →
        task.valid = (system.callableIn container).isSome) ∧
      (∀ container, system.callableIn container = holders.held container) ∧
      (∀ callable < system.callables, ¬ system.Destroyed callable →
        ∃! container, system.callableIn container = some callable) ∧
      (∀ container callable, system.callableIn container = some callable →
        callable < system.callables ∧ ¬ system.Destroyed callable) ∧
      (∀ object value, system.heap.objects object = some value → value.destroyed ≤ 1) ∧
      ((∀ container, system.containers container = none) →
        ∀ object value, system.heap.objects object = some value → value.destroyed = 1) ∧
      system.heap.invoked = holders.invoked.map some := by
  obtain ⟨holders, meant, agrees⟩ := Agrees.start.performed performed
  refine ⟨holders, meant, agrees.owned.defined, fun container task found => ?_,
    agrees.callableIn_eq, fun callable => agrees.existsUnique_container,
    fun container callable => agrees.alive_of_callableIn, fun object value found => ?_,
    fun gone object value found => ?_, agrees.invoked⟩
  · rw [agrees.callableIn_eq]
    exact agrees.valid_eq found
  · rcases agrees.owned.accounted found with once | ⟨never, -⟩ <;> omega
  · rcases agrees.owned.accounted found with once | ⟨-, container, type, isFull⟩
    · exact once
    · cases (gone container).symm.trans isFull

/-- A small and a large callable, moved, invoked and assigned over. -/
theorem tasks_own_linearly_run : ∃ system,
    [TaskCall.construct 0 ⟨0, 16, 8⟩, .construct 1 ⟨1, 128, 16⟩, .moveConstruct 2 0, .invoke 2,
      .moveAssign 1 2, .invoke 1, .invoke 0, .destroy 0, .destroy 1, .destroy 2].foldlM
        TaskSystem.perform {} = some system ∧
      system.heap.undefined = false ∧ system.heap.invoked = [some 0, some 0] ∧
      ∀ object value, system.heap.objects object = some value → value.destroyed ≤ 1 := by
  have performed : ∃ system,
      [TaskCall.construct 0 ⟨0, 16, 8⟩, .construct 1 ⟨1, 128, 16⟩, .moveConstruct 2 0, .invoke 2,
        .moveAssign 1 2, .invoke 1, .invoke 0, .destroy 0, .destroy 1, .destroy 2].foldlM
          TaskSystem.perform {} = some system ∧ system.heap.invoked = [some 0, some 0] :=
    ⟨_, rfl, by decide +kernel⟩
  obtain ⟨system, performed, invoked⟩ := performed
  obtain ⟨holders, -, defined, -, -, -, -, once, -, -⟩ := tasks_own_linearly performed
  exact ⟨system, performed, defined, invoked, once⟩

end LightFlow
