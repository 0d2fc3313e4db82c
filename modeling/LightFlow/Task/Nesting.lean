import LightFlow.Lib.Paths
import LightFlow.Task.Barrier

/-!
# The order of nested nodes

The nodes of a run form a tree: children and exit below their subflow node.  Successor
edges join neighbours of that tree, or leave it upwards through exits, so the nodes of
all subflows together are as acyclic as the graphs they come from.
-/

namespace LightFlow

section Nesting

variable (graph : TaskGraph) (callables : Callables)

/-- An edge of the node as construction or `splice` leaves it. -/
def Leads (source target : NodeId) : Prop :=
  ∃ edge ∈ (declared graph callables source).successors, edge.target = target

/-- A child edge. -/
def ChildGraph.Joins (children : ChildGraph) (source target : Nat) : Prop :=
  ∃ edge ∈ children.edges, edge.source = source ∧ edge.target = target

/-- Position of a node in the tree of subflows; along the edges positions go up. -/
noncomputable def NodeId.path : NodeId → List Nat
  | .node id => [Cycleless.rank (Precedes graph.node) graph.order.toFinset (.node id)]
  | .child parent index =>
      let children := callables.subflow parent
      parent.path ++ [Cycleless.rank children.Joins (Finset.range children.nodes.length) index]
  | .exit parent => parent.path ++ [(callables.subflow parent).nodes.length + 1]

/-- Children and exits below a subflow node, at any depth. -/
inductive NodeId.Under (parent : NodeId) : NodeId → Prop where
  | child (index : Nat) : Under parent (.child parent index)
  | exit : Under parent (.exit parent)
  | childOf {inner : NodeId} (index : Nat) : Under parent inner → Under parent (.child inner index)
  | exitOf {inner : NodeId} : Under parent inner → Under parent (.exit inner)

variable {graph callables}

theorem Leads.diverges (sound : graph.Sound)
    (childSound : ∀ parent, (callables.subflow parent).Sound)
    {source target : NodeId} (leads : Leads graph callables source target) :
    Diverges (source.path graph callables) (target.path graph callables) := by
  obtain ⟨edge, member, rfl⟩ := leads
  induction source with
  | node id =>
      have inEdges : edge ∈ (graph.node (.node id)).successors := member
      have inOrder : .node id ∈ graph.order := by
        by_contra stray
        simp [sound.strays _ stray] at inEdges
      obtain ⟨other, isNode⟩ := sound.named _ (sound.targets _ inOrder edge inEdges)
      rw [isNode]
      exact Diverges.of_branches [] (Cycleless.rank_lt sound.acyclic
        (List.mem_toFinset.mpr inOrder) ⟨edge, inEdges, isNode⟩)
  | child parent index _ =>
      have sound := childSound parent
      simp only [declared, ChildGraph.childSuccessors] at member
      split at member
      next sink =>
        rw [List.mem_singleton.mp member]
        refine Diverges.of_branches _ ?_
        have low := Cycleless.rank_le (callables.subflow parent).Joins
          (Finset.range (callables.subflow parent).nodes.length) index
        rw [Finset.card_range] at low
        omega
      next inner =>
        obtain ⟨childEdge, isEdge, rfl⟩ := List.mem_map.mp member
        rw [List.mem_reverse, List.mem_filter] at isEdge
        have isSource : childEdge.source = index := of_decide_eq_true isEdge.2
        refine Diverges.of_branches _ (Cycleless.rank_lt sound.acyclic ?_
          ⟨childEdge, isEdge.1, isSource, rfl⟩)
        exact Finset.mem_range.mpr (isSource ▸ (sound.valid childEdge isEdge.1).1)
  | exit parent ih =>
      simp only [declared] at member
      split at member
      · simp at member
      · exact (ih member).below_left _

/-- Edges and nesting together are acyclic. -/
theorem nesting_cycleless (sound : graph.Sound)
    (childSound : ∀ parent, (callables.subflow parent).Sound) :
    Cycleless fun source target => Leads graph callables source target ∨
      (∃ index, target = .child source index) ∨ target = .exit source := by
  refine Cycleless.of_increasing (fun source target related =>
    (?_ : source.path graph callables < target.path graph callables))
  rcases related with leads | ⟨index, rfl⟩ | rfl
  · exact (leads.diverges sound childSound).lt
  · exact lt_append_singleton _ _
  · exact lt_append_singleton _ _

/-- Edges into a subflow come from the same subflow. -/
theorem Leads.under (sound : graph.Sound) {parent source target : NodeId}
    (leads : Leads graph callables source target) (under : parent.Under target) :
    parent.Under source := by
  obtain ⟨edge, member, rfl⟩ := leads
  induction source with
  | node id =>
      have inEdges : edge ∈ (graph.node (.node id)).successors := member
      have inOrder : .node id ∈ graph.order := by
        by_contra stray
        simp [sound.strays _ stray] at inEdges
      obtain ⟨other, isNode⟩ := sound.named _ (sound.targets _ inOrder edge inEdges)
      rw [isNode] at under
      cases under
  | child other index _ =>
      have inside : (∃ index, edge.target = .child other index) ∨ edge.target = .exit other := by
        simp only [declared, ChildGraph.childSuccessors] at member
        split at member
        · exact .inr (by rw [List.mem_singleton.mp member])
        · obtain ⟨childEdge, -, rfl⟩ := List.mem_map.mp member
          exact .inl ⟨childEdge.target, rfl⟩
      have above : parent = other ∨ parent.Under other := by
        rcases inside with ⟨targetIndex, equal⟩ | equal
        · rw [equal] at under
          cases under with
          | child => exact .inl rfl
          | childOf _ inner => exact .inr inner
        · rw [equal] at under
          cases under with
          | exit => exact .inl rfl
          | exitOf inner => exact .inr inner
      rcases above with rfl | inner
      · exact .child index
      · exact .childOf index inner
  | exit other ih =>
      simp only [declared] at member
      split at member
      · simp at member
      · exact .exitOf (ih member)

end Nesting

end LightFlow
