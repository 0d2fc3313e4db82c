import LightFlow.Lib.Areas
import Mathlib.Data.List.Forall2
import Mathlib.Data.Option.Basic

/-!
# Objects in memory

Objects of several types lie in one memory, each at the address of its first byte.  An object that
is written ends those whose bytes it takes; an object that is apart from it stays.
-/

namespace LightFlow

universe u v

/-- Values that take up bytes. -/
class Sized (Value : Type u) where
  bytes : Value → Nat
  positive : ∀ value, 0 < bytes value

/-- The objects that live in memory, by their addresses. -/
abbrev Objects (Value : Type u) := Nat → Option Value

namespace Objects

variable {Value : Type u} {α β : Type v}

/-- Read objects of one type at the indices of an array, beginning with one of them. -/
def readEach (view : Value → Option α) (data stride : Nat) (objects : Objects Value) :
    Nat → Nat → Option (List α)
  | _, 0 => some []
  | index, count + 1 => ((objects (data + index * stride)).bind view).bind fun value =>
      (readEach view data stride objects (index + 1) count).map (value :: ·)

/-- A shorter row reads as the first objects. -/
theorem readEach_take {view : Value → Option α} {data stride index count : Nat}
    {objects : Objects Value} {read : List α}
    (isRead : readEach view data stride objects index count = some read)
    {fewer : Nat} (within : fewer ≤ count) :
    readEach view data stride objects index fewer = some (read.take fewer) := by
  induction fewer generalizing index count read with
  | zero => rw [List.take_zero]; rfl
  | succ fewer ih =>
      obtain ⟨count, rfl⟩ := Nat.exists_eq_succ_of_ne_zero
        (Nat.ne_of_gt (Nat.lt_of_lt_of_le (Nat.succ_pos fewer) within))
      obtain ⟨first, isFirst, rest⟩ := Option.bind_eq_some_iff.mp isRead
      obtain ⟨others, isRest, rfl⟩ := Option.map_eq_some_iff.mp rest
      rw [readEach, isFirst, Option.bind_some, ih isRest (Nat.le_of_succ_le_succ within)]
      rfl

/-- What was read can be read on. -/
theorem readEach_bind {view : Value → Option α} {onward : α → Option β}
    {data stride index count : Nat} {objects : Objects Value} {read : List α} {others : List β}
    (isRead : readEach view data stride objects index count = some read)
    (each : List.Forall₂ (fun item other => onward item = some other) read others) :
    readEach (fun value => (view value).bind onward) data stride objects index count =
      some others := by
  induction count generalizing index read others with
  | zero =>
      obtain rfl := Option.some.inj isRead
      obtain rfl := List.forall₂_nil_left_iff.mp each
      rfl
  | succ count ih =>
      obtain ⟨first, isFirst, rest⟩ := Option.bind_eq_some_iff.mp isRead
      obtain ⟨items, isRest, rfl⟩ := Option.map_eq_some_iff.mp rest
      obtain ⟨other, others, isOther, eachRest, rfl⟩ := List.forall₂_cons_left_iff.mp each
      obtain ⟨value, found, isView⟩ := Option.bind_eq_some_iff.mp isFirst
      rw [readEach, found, Option.bind_some, isView, Option.bind_some, isOther, Option.bind_some,
        ih isRest eachRest]
      rfl

variable [Sized Value]

/-- The bytes of an object. -/
def place (address : Nat) (value : Value) : Area := ⟨address, Sized.bytes value⟩

/-- Construct an object. -/
def write (objects : Objects Value) (address : Nat) (value : Value) : Objects Value :=
  fun other =>
    if other = address then some value
    else (objects other).filter fun old => (place other old).Apart (place address value)

/-- Construct objects at the indices of an array, beginning with one of them; the index behind the
last one is returned. -/
def writeEach (data stride : Nat) : Objects Value → Nat → List Value → Objects Value × Nat
  | objects, index, [] => (objects, index)
  | objects, index, value :: values =>
      writeEach data stride (objects.write (data + index * stride) value) (index + 1) values

/-- What is apart from some areas is still there. -/
def Keeps (areas : List Area) (before after : Objects Value) : Prop :=
  ∀ address value, before address = some value →
    (∀ area ∈ areas, (place address value).Apart area) → after address = some value

/-- The bytes of an array from an index on. -/
abbrev row (data stride index count : Nat) : Area := ⟨data + index * stride, count * stride⟩

section Keeps

variable {areas others : List Area} {before middle after : Objects Value}

theorem Keeps.refl (objects : Objects Value) : Keeps areas objects objects :=
  fun _ _ found _ => found

theorem Keeps.trans (first : Keeps areas before middle) (second : Keeps areas middle after) :
    Keeps areas before after :=
  fun address value found apart => second address value (first address value found apart) apart

/-- The areas may grow. -/
theorem Keeps.within (keeps : Keeps areas before after)
    (within : ∀ area ∈ areas, ∃ outer ∈ others, area.Within outer) : Keeps others before after := by
  intro address value found apart
  refine keeps address value found fun area member => ?_
  obtain ⟨outer, isOuter, inOuter⟩ := within area member
  exact (apart outer isOuter).within (.refl _) inOuter

theorem Keeps.within_one {area outer : Area} (keeps : Keeps [area] before after)
    (within : area.Within outer) : Keeps [outer] before after :=
  keeps.within fun other member => ⟨outer, List.mem_singleton_self _, by
    rwa [List.mem_singleton.mp member]⟩

theorem Keeps.mono (keeps : Keeps areas before after) (subset : areas ⊆ others) :
    Keeps others before after :=
  keeps.within fun area member => ⟨area, subset member, .refl _⟩

/-- Two objects at one address are never apart. -/
theorem not_apart_of_address (address : Nat) (one other : Value) :
    ¬ (place address one).Apart (place address other) := by
  have onePositive := Sized.positive one
  have otherPositive := Sized.positive other
  rintro (before | behind)
  · have : address + Sized.bytes one ≤ address := before
    omega
  · have : address + Sized.bytes other ≤ address := behind
    omega

theorem write_keeps (objects : Objects Value) (address : Nat) (value : Value) :
    Keeps [place address value] objects (objects.write address value) := by
  intro other old found apart
  have apart := apart _ (List.mem_singleton_self _)
  have different : other ≠ address := by
    rintro rfl
    exact not_apart_of_address _ _ _ apart
  rw [write, if_neg different, found, Option.filter_some, if_pos (decide_eq_true apart)]

theorem write_self (objects : Objects Value) (address : Nat) (value : Value) :
    objects.write address value address = some value := if_pos rfl

end Keeps

section Arrays

variable {data stride index count : Nat} {objects after : Objects Value} {values : List Value}

theorem row_first (data stride index count : Nat) :
    (row data stride index 1).Within (row data stride index (count + 1)) := by
  refine ⟨Nat.le_refl _, ?_⟩
  show _ + 1 * stride ≤ _ + (count + 1) * stride
  exact Nat.add_le_add_left (Nat.mul_le_mul_right _ (Nat.succ_le_succ (Nat.zero_le _))) _

theorem row_rest (data stride index count : Nat) :
    (row data stride (index + 1) count).Within (row data stride index (count + 1)) := by
  constructor
  · show data + index * stride ≤ data + (index + 1) * stride
    exact Nat.add_le_add_left (Nat.mul_le_mul_right _ (Nat.le_succ _)) _
  · show data + (index + 1) * stride + count * stride ≤ data + index * stride + (count + 1) * stride
    rw [Nat.add_mul, Nat.add_mul]
    omega

/-- The first element of a row is apart from the others. -/
theorem row_apart (data stride index count : Nat) :
    (row data stride index 1).Apart (row data stride (index + 1) count) := by
  left
  show data + index * stride + 1 * stride ≤ data + (index + 1) * stride
  exact Nat.le_of_eq (by rw [Nat.add_mul, Nat.add_assoc])

theorem place_eq_row {value : Value} (sized : Sized.bytes value = stride) (data index : Nat) :
    place (data + index * stride) value = row data stride index 1 := by
  rw [place, row, sized, Nat.one_mul]

theorem writeEach_append (data stride : Nat) (objects : Objects Value) (index : Nat)
    (values others : List Value) :
    writeEach data stride objects index (values ++ others) =
      writeEach data stride (writeEach data stride objects index values).1
        (writeEach data stride objects index values).2 others := by
  induction values generalizing objects index with
  | nil => rfl
  | cons value values ih => exact ih _ _

/-- Writing a row leaves alone what is apart from it. -/
theorem writeEach_keeps (sized : ∀ value ∈ values, Sized.bytes value = stride)
    (objects : Objects Value) (index : Nat) :
    Keeps [row data stride index values.length] objects
      (writeEach data stride objects index values).1 := by
  induction values generalizing objects index with
  | nil => exact .refl _
  | cons value values ih =>
      have first := write_keeps objects (data + index * stride) value
      rw [place_eq_row (sized value List.mem_cons_self)] at first
      have rest := ih (fun other member => sized other (List.mem_cons_of_mem _ member))
        (objects.write (data + index * stride) value) (index + 1)
      exact (first.within_one (row_first ..)).trans (rest.within_one (row_rest ..))

variable {view : Value → Option α} {read : List α}

/-- What was read from a row can still be read after a change that is apart from it. -/
theorem readEach_of_keeps {areas : List Area} (keeps : Keeps areas objects after)
    (sized : ∀ value, (view value).isSome → Sized.bytes value = stride)
    (apart : ∀ area ∈ areas, (row data stride index count).Apart area)
    (isRead : readEach view data stride objects index count = some read) :
    readEach view data stride after index count = some read := by
  induction count generalizing index read with
  | zero => exact isRead
  | succ count ih =>
      obtain ⟨first, isFirst, rest⟩ := Option.bind_eq_some_iff.mp isRead
      obtain ⟨others, isRest, rfl⟩ := Option.map_eq_some_iff.mp rest
      obtain ⟨value, found, isView⟩ := Option.bind_eq_some_iff.mp isFirst
      have isSized : Sized.bytes value = stride := sized value (by rw [isView]; rfl)
      have kept : after (data + index * stride) = some value := by
        refine keeps _ value found fun area member => ?_
        rw [place_eq_row isSized]
        exact (apart area member).within (row_first ..) (.refl _)
      rw [readEach, kept, Option.bind_some, isView, Option.bind_some,
        ih (fun area member => (apart area member).within (row_rest ..) (.refl _)) isRest]
      rfl

/-- What was written can be read. -/
theorem readEach_writeEach {inject : α → Value} (views : ∀ item, view (inject item) = some item)
    (sized : ∀ value, (view value).isSome → Sized.bytes value = stride) (items : List α)
    (objects : Objects Value) (index : Nat) :
    readEach view data stride (writeEach data stride objects index (items.map inject)).1 index
      items.length = some items := by
  induction items generalizing objects index with
  | nil => rfl
  | cons item items ih =>
      have isSized (item : α) : Sized.bytes (inject item) = stride :=
        sized _ (by rw [views]; rfl)
      have keeps := @writeEach_keeps _ _ data stride (items.map inject) (by
        intro value member
        obtain ⟨item, -, rfl⟩ := List.mem_map.mp member
        exact isSized item) (objects.write (data + index * stride) (inject item)) (index + 1)
      have first := keeps (data + index * stride) (inject item) (write_self ..) (by
        intro area member
        rw [List.mem_singleton.mp member, place_eq_row (isSized item)]
        exact row_apart ..)
      have rest := ih (objects.write (data + index * stride) (inject item)) (index + 1)
      generalize isWritten : writeEach data stride
        (objects.write (data + index * stride) (inject item)) (index + 1) (items.map inject) =
          written at first rest
      have same : writeEach data stride objects index ((item :: items).map inject) = written :=
        isWritten
      rw [same, List.length_cons, readEach, first, Option.bind_some, views, Option.bind_some, rest]
      rfl

end Arrays

end Objects

end LightFlow
