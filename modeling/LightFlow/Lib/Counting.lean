import Mathlib.Algebra.Order.BigOperators.Group.Finset
import Mathlib.Algebra.Order.BigOperators.Group.List
import Mathlib.Tactic.Ring

/-!
# Counting laws

Sums over a list or over a finite family of parties, and how they change when one
summand does.  All laws are stated without subtraction, so that linear arithmetic
can combine them.
-/

namespace LightFlow

universe u v w

namespace Counting

/-- Two sums over a list differ only by the summand that differs. -/
theorem sum_map_replace {α : Type u} [DecidableEq α] (items : List α) (item : α)
    {before after : α → Nat}
    (same : ∀ other ∈ items, other ≠ item → after other = before other) :
    (items.map after).sum + items.count item * before item =
      (items.map before).sum + items.count item * after item := by
  induction items with
  | nil => simp
  | cons head tail ih =>
      have rest := ih fun other member => same other (List.mem_cons_of_mem _ member)
      simp only [List.map_cons, List.sum_cons, List.count_cons, beq_iff_eq]
      by_cases isItem : head = item
      · subst isItem
        simp only [↓reduceIte, Nat.add_mul, Nat.one_mul]
        omega
      · rw [same head (List.mem_cons_self ..) isItem]
        simp only [isItem, ↓reduceIte, Nat.add_zero]
        omega

/-- A sum over a list after one place of it was overwritten. -/
theorem sum_map_set {α : Type u} {items : List α} {index : Nat} {item : α}
    (found : items[index]? = some item) (value : α → Nat) (written : α) :
    ((items.set index written).map value).sum + value item =
      (items.map value).sum + value written := by
  induction items generalizing index with
  | nil => simp at found
  | cons head tail ih =>
      cases index with
      | zero =>
          cases found
          simp only [List.set_cons_zero, List.map_cons, List.sum_cons]
          omega
      | succ index =>
          have rest := @ih index (by simpa using found)
          simp only [List.set_cons_succ, List.map_cons, List.sum_cons]
          omega

/-- A weight counted at one element of a list without repetition. -/
theorem sum_map_single {α : Type u} [DecidableEq α] {items : List α} {item : α}
    (distinct : items.Nodup) (member : item ∈ items) (value : α → Nat) :
    (items.map fun other => if item = other then value other else 0).sum = value item := by
  have replaced := sum_map_replace items item
    (fun other _ different => if_neg (Ne.symm different) :
      ∀ other ∈ items, other ≠ item → (if item = other then value other else 0) = 0)
  rw [List.count_eq_one_of_mem distinct member] at replaced
  simpa using replaced

/-- Every element of a list is counted at its place in another one. -/
theorem sum_count {α : Type u} [DecidableEq α] {items counted : List α} (distinct : items.Nodup)
    (listed : ∀ item ∈ counted, item ∈ items) :
    (items.map fun item => counted.count item).sum = counted.length := by
  induction counted with
  | nil => simp
  | cons head tail ih =>
      have rest := ih fun item member => listed item (List.mem_cons_of_mem _ member)
      have single := sum_map_single distinct (listed head (List.mem_cons_self ..)) fun _ => 1
      simp only [List.count_cons, List.sum_map_add, rest, List.length_cons, beq_iff_eq, single]

theorem sum_map_congr {α : Type u} {items : List α} {left right : α → Nat}
    (same : ∀ item ∈ items, left item = right item) :
    (items.map left).sum = (items.map right).sum := by
  rw [List.map_congr_left same]

theorem sum_map_eq_zero {α : Type u} {items : List α} {value : α → Nat}
    (zero : ∀ item ∈ items, value item = 0) : (items.map value).sum = 0 := by
  induction items with
  | nil => rfl
  | cons head tail ih =>
      rw [List.map_cons, List.sum_cons, zero head (by simp),
        ih fun item member => zero item (List.mem_cons_of_mem _ member)]

theorem sum_map_indicator {α : Type u} (items : List α) (holds : α → Prop)
    [DecidablePred holds] :
    (items.map fun item => if holds item then 1 else 0).sum = items.countP (holds ·) := by
  induction items with
  | nil => rfl
  | cons head tail ih =>
      simp only [List.map_cons, List.sum_cons, ih, List.countP_cons, decide_eq_true_eq]
      omega

theorem sum_map_pos {α : Type u} {items : List α} {value : α → Nat} :
    0 < (items.map value).sum ↔ ∃ item ∈ items, 0 < value item := by
  induction items with
  | nil => simp
  | cons head tail ih =>
      simp only [List.map_cons, List.sum_cons, List.exists_mem_cons_iff, ← ih]
      omega

theorem le_sum_map {α : Type u} {items : List α} {item : α} (member : item ∈ items)
    (value : α → Nat) : value item ≤ (items.map value).sum :=
  List.single_le_sum (fun _ _ => Nat.zero_le _) _ (List.mem_map_of_mem member)

theorem add_le_sum_map {α : Type u} {items : List α} {left right : α} (inLeft : left ∈ items)
    (inRight : right ∈ items) (different : left ≠ right) (value : α → Nat) :
    value left + value right ≤ (items.map value).sum := by
  induction items with
  | nil => cases inLeft
  | cons head tail ih =>
      rw [List.map_cons, List.sum_cons]
      rcases List.mem_cons.mp inLeft with rfl | leftTail
      · have part := le_sum_map (List.mem_of_ne_of_mem different.symm inRight) value
        omega
      · rcases List.mem_cons.mp inRight with rfl | rightTail
        · have part := le_sum_map leftTail value
          omega
        · have both := ih leftTail rightTail
          omega

/-- Elements of a list, seen through a partial function that is injective at one of them. -/
theorem count_filterMap {α : Type u} {β : Type v} [DecidableEq α] [DecidableEq β]
    {part : α → Option β} {item : α} {value : β}
    (injective : ∀ other, part other = some value ↔ other = item) (items : List α) :
    (items.filterMap part).count value = items.count item := by
  rw [List.count_filterMap]
  exact List.countP_congr fun other _ => by simp [injective]

variable {Party : Type u} [Fintype Party] {Local : Type v}

/-- Sum of a weight over the local states of all parties. -/
def total (weight : Local → Nat) (locals : Party → Local) : Nat :=
  ∑ party, weight (locals party)

/-- A sum over all parties splits into one party and a rest that survives any move of
that party. -/
theorem exists_rest {Amount : Type w} [AddCommMonoid Amount] [DecidableEq Party]
    (weight : Local → Amount) (locals : Party → Local) (party : Party) :
    ∃ rest, ∑ other, weight (locals other) = weight (locals party) + rest ∧
      ∀ moved, ∑ other, weight (Function.update locals party moved other) =
        weight moved + rest := by
  refine ⟨∑ other ∈ Finset.univ.erase party, weight (locals other), ?_, ?_⟩
  · exact (Finset.add_sum_erase Finset.univ (fun other => weight (locals other))
      (Finset.mem_univ party)).symm
  · intro moved
    have split := Finset.add_sum_erase Finset.univ
      (fun other => weight (Function.update locals party moved other)) (Finset.mem_univ party)
    rw [Function.update_self] at split
    rw [← split]
    congr 1
    refine Finset.sum_congr rfl fun other member => ?_
    rw [Function.update_of_ne (Finset.ne_of_mem_erase member)]

/-- Items of all parties, weighed together or party by party. -/
theorem sum_map_lists {Item : Type w} (weight : Item → Nat) (lists : Party → List Item) :
    ((∑ party, (↑(lists party) : Multiset Item)).map weight).sum =
      ∑ party, ((lists party).map weight).sum := by
  have spread := map_sum (Multiset.mapAddMonoidHom weight)
    (fun party => (↑(lists party) : Multiset Item)) Finset.univ
  rw [← Multiset.coe_mapAddMonoidHom, spread, ← Multiset.coe_sumAddMonoidHom, map_sum]
  simp

/-- Moving one party changes a total by that party's weight. -/
theorem total_update [DecidableEq Party] (weight : Local → Nat) (locals : Party → Local)
    (party : Party) (moved : Local) :
    total weight (Function.update locals party moved) + weight (locals party) =
      total weight locals + weight moved := by
  obtain ⟨rest, before, after⟩ := exists_rest weight locals party
  rw [total, total, before, after]
  omega

theorem total_eq_zero {weight : Local → Nat} {locals : Party → Local} :
    total weight locals = 0 ↔ ∀ party, weight (locals party) = 0 := by
  simp [total]

theorem total_pos {weight : Local → Nat} {locals : Party → Local} :
    0 < total weight locals ↔ ∃ party, 0 < weight (locals party) := by
  rw [Nat.pos_iff_ne_zero, Ne, total_eq_zero]
  push Not
  simp [Nat.pos_iff_ne_zero]

theorem le_total (weight : Local → Nat) (locals : Party → Local) (party : Party) :
    weight (locals party) ≤ total weight locals := by
  classical
  obtain ⟨rest, split, -⟩ := exists_rest weight locals party
  rw [total, split]
  exact Nat.le_add_right _ _

theorem add_le_total [DecidableEq Party] (weight : Local → Nat) (locals : Party → Local)
    {left right : Party} (different : left ≠ right) :
    weight (locals left) + weight (locals right) ≤ total weight locals := by
  calc weight (locals left) + weight (locals right) =
        ∑ party ∈ {left, right}, weight (locals party) := by rw [Finset.sum_pair different]
    _ ≤ total weight locals := Finset.sum_le_univ_sum_of_nonneg fun _ => Nat.zero_le _

end Counting

end LightFlow
