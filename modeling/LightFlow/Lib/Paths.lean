import Mathlib.Data.List.Lex
import Mathlib.Order.Basic

/-!
# Paths in a tree

Positions in a tree are lists of branch numbers.  Two positions diverge when neither is
above the other; the one on the lower branch, with everything below it, comes first.
-/

namespace LightFlow

/-- The first path leaves the second one to a lower branch. -/
def Diverges : List Nat → List Nat → Prop
  | first :: firsts, second :: seconds =>
      first < second ∨ first = second ∧ Diverges firsts seconds
  | _, _ => False

namespace Diverges

theorem below_left {first second : List Nat} (diverges : Diverges first second)
    (further : List Nat) : Diverges (first ++ further) second := by
  induction first generalizing second with
  | nil => exact diverges.elim
  | cons head tail ih =>
      cases second with
      | nil => exact diverges.elim
      | cons head' tail' => exact diverges.imp_right fun rest => ⟨rest.1, ih rest.2⟩

theorem of_common (common : List Nat) {first second : List Nat}
    (diverges : Diverges first second) : Diverges (common ++ first) (common ++ second) := by
  induction common with
  | nil => exact diverges
  | cons head tail ih => exact .inr ⟨rfl, ih⟩

/-- Two branches of one node. -/
theorem of_branches (common : List Nat) {first second : Nat} (lower : first < second) :
    Diverges (common ++ [first]) (common ++ [second]) :=
  of_common common (.inl lower)

theorem lt {first second : List Nat} (diverges : Diverges first second) : first < second := by
  induction first generalizing second with
  | nil => exact diverges.elim
  | cons head tail ih =>
      cases second with
      | nil => exact diverges.elim
      | cons head' tail' =>
          rw [List.cons_lt_cons_iff]
          exact diverges.imp_right fun rest => ⟨rest.1, ih rest.2⟩

end Diverges

/-- A position comes before the ones below it. -/
theorem lt_append_singleton (path : List Nat) (branch : Nat) : path < path ++ [branch] := by
  induction path with
  | nil => exact List.nil_lt_cons ..
  | cons head tail ih => exact List.cons_lt_cons_iff.mpr (.inr ⟨rfl, ih⟩)

end LightFlow
