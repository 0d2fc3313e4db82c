import Mathlib.Data.Finset.Card
import Mathlib.Data.Finset.Max
import Mathlib.Logic.Relation

/-!
# Finite acyclic relations

A relation without directed cycles ranks a finite set of elements: along every edge
that leaves an element of the set the rank grows.
-/

namespace LightFlow

universe u v

/-- No element reaches itself. -/
def Cycleless {Element : Type u} (relation : Element → Element → Prop) : Prop :=
  ∀ element, ¬ Relation.TransGen relation element element

namespace Cycleless

variable {Element : Type u} {relation : Element → Element → Prop}

/-- A number that grows along every edge excludes cycles. -/
theorem of_increasing {Order : Type v} [Preorder Order] {value : Element → Order}
    (increases : ∀ source target, relation source target → value source < value target) :
    Cycleless relation := by
  have along {source target : Element} (path : Relation.TransGen relation source target) :
      value source < value target := by
    induction path with
    | single related => exact increases _ _ related
    | tail _ related ih => exact ih.trans (increases _ _ related)
  exact fun element path => lt_irrefl _ (along path)

/-- A part of a relation without cycles has none. -/
theorem mono {part : Element → Element → Prop} (cycleless : Cycleless relation)
    (isPart : ∀ source target, part source target → relation source target) :
    Cycleless part := fun element cycle =>
  cycleless element (Relation.TransGen.mono isPart element element cycle)

open Classical in
/-- Number of listed elements from which `element` can be reached. -/
noncomputable def rank (relation : Element → Element → Prop) (items : Finset Element)
    (element : Element) : Nat :=
  (items.filter fun item => Relation.TransGen relation item element).card

theorem rank_lt (cycleless : Cycleless relation) {items : Finset Element}
    {source target : Element} (member : source ∈ items) (related : relation source target) :
    rank relation items source < rank relation items target := by
  classical
  refine Finset.card_lt_card ?_
  rw [Finset.ssubset_iff_of_subset]
  · refine ⟨source, ?_, ?_⟩
    · exact Finset.mem_filter.mpr ⟨member, .single related⟩
    · intro reachesItself
      exact cycleless source (Finset.mem_filter.mp reachesItself).2
  · intro item before
    obtain ⟨inItems, path⟩ := Finset.mem_filter.mp before
    exact Finset.mem_filter.mpr ⟨inItems, path.tail related⟩

theorem rank_le (relation : Element → Element → Prop) (items : Finset Element)
    (element : Element) : rank relation items element ≤ items.card := by
  classical
  exact Finset.card_filter_le _ _

/-- A nonempty finite set has an element without edges into the set. -/
theorem exists_sink (cycleless : Cycleless relation) {items : Finset Element}
    (nonempty : items.Nonempty) :
    ∃ sink ∈ items, ∀ item ∈ items, ¬ relation sink item := by
  obtain ⟨sink, member, highest⟩ :=
    items.exists_max_image (rank relation items) nonempty
  refine ⟨sink, member, fun item inItems related => ?_⟩
  have higher := cycleless.rank_lt member related
  have lower := highest item inItems
  omega

/-- A nonempty finite set has an element without edges from the set. -/
theorem exists_source (cycleless : Cycleless relation) {items : Finset Element}
    (nonempty : items.Nonempty) :
    ∃ source ∈ items, ∀ item ∈ items, ¬ relation item source := by
  obtain ⟨source, member, lowest⟩ :=
    items.exists_min_image (rank relation items) nonempty
  refine ⟨source, member, fun item inItems related => ?_⟩
  have higher := cycleless.rank_lt inItems related
  have lower := lowest item inItems
  omega

/-- Induction along the edges within a finite set. -/
theorem induction_on (cycleless : Cycleless relation) (items : Finset Element)
    {motive : Element → Prop}
    (step : ∀ item ∈ items, (∀ source ∈ items, relation source item → motive source) →
      motive item) : ∀ item ∈ items, motive item := by
  intro item member
  induction size : rank relation items item using Nat.strong_induction_on generalizing item with
  | _ size ih =>
      refine step item member fun source inItems related => ?_
      exact ih _ (size ▸ cycleless.rank_lt inItems related) source inItems rfl

end Cycleless

end LightFlow
