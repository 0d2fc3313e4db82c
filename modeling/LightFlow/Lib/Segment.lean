import Mathlib.Data.List.Nodup

/-!
# Linked lists in a store

A store of cells with a `next` pointer holds a linked list: from a pointer, the cells can be
listed.  The list is determined by the pointer, and it stays as long as the `next` pointers
of its own cells stay.
-/

namespace LightFlow

universe u

/-- From `start`, the pointers lead through `cells` to the end. -/
inductive Segment {Cell : Type u} (next : Cell → Option Cell) : Option Cell → List Cell → Prop where
  | nil : Segment next none []
  | cons {cell : Cell} {cells : List Cell} :
      Segment next (next cell) cells → Segment next (some cell) (cell :: cells)

namespace Segment

variable {Cell : Type u} {next : Cell → Option Cell} {start : Option Cell} {cells : List Cell}

theorem unique {other : List Cell} (segment : Segment next start cells)
    (same : Segment next start other) : cells = other := by
  induction segment generalizing other with
  | nil =>
      cases same
      rfl
  | cons _ ih =>
      cases same with
      | cons rest => rw [ih rest]

/-- Only the pointers of the listed cells matter. -/
theorem congr {moved : Cell → Option Cell} (segment : Segment next start cells)
    (kept : ∀ cell ∈ cells, moved cell = next cell) : Segment moved start cells := by
  induction segment with
  | nil => exact .nil
  | cons _ ih =>
      refine .cons ?_
      rw [kept _ (List.mem_cons_self ..)]
      exact ih fun cell member => kept cell (List.mem_cons_of_mem _ member)

theorem of_some {cell : Cell} (segment : Segment next (some cell) cells) :
    ∃ rest, cells = cell :: rest ∧ Segment next (next cell) rest := by
  cases segment with
  | cons rest => exact ⟨_, rfl, rest⟩

/-- A list with an element starts somewhere. -/
theorem start_of_mem {cell : Cell} (segment : Segment next start cells) (member : cell ∈ cells) :
    ∃ first, start = some first := by
  cases segment with
  | nil => cases member
  | cons _ => exact ⟨_, rfl⟩

/-- The list from one of its elements on. -/
theorem from_mem {cell : Cell} (segment : Segment next start cells) (member : cell ∈ cells) :
    ∃ ahead, Segment next (some cell) (cell :: ahead) := by
  induction segment with
  | nil => cases member
  | cons rest ih =>
      rcases List.mem_cons.mp member with rfl | member
      · exact ⟨_, .cons rest⟩
      · exact ih member

/-- The list after one of its elements. -/
theorem after_mem {cell : Cell} (segment : Segment next start cells) (member : cell ∈ cells) :
    ∃ before ahead, cells = before ++ cell :: ahead ∧ Segment next (next cell) ahead := by
  induction segment with
  | nil => cases member
  | @cons first cells rest ih =>
      rcases List.mem_cons.mp member with rfl | member
      · exact ⟨[], cells, rfl, rest⟩
      · obtain ⟨before, ahead, split, onward⟩ := ih member
        exact ⟨first :: before, ahead, by rw [split, List.cons_append], onward⟩

/-- A list comes to no cell twice. -/
theorem nodup (segment : Segment next start cells) : cells.Nodup := by
  induction segment with
  | nil => exact .nil
  | @cons cell cells rest ih =>
      refine List.nodup_cons.mpr ⟨fun again => ?_, ih⟩
      obtain ⟨before, ahead, split, onward⟩ := rest.after_mem again
      have shorter := congrArg List.length split
      rw [rest.unique onward, List.length_append, List.length_cons] at shorter
      omega

end Segment

end LightFlow
