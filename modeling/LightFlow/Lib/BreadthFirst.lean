import Mathlib.Data.List.TakeWhile
import Mathlib.Logic.Relation

/-!
# Breadth-first order

The order in which an unbounded breadth-first search comes to the nodes of a graph whose edges
are given by successor lists: every reachable node once.
-/

namespace LightFlow

universe u

variable {Node : Type u} [DecidableEq Node]

/-- Append the nodes that are not listed yet, in their order. -/
def discover (visited : List Node) : List Node → List Node
  | [] => visited
  | node :: nodes =>
      if node ∈ visited then discover visited nodes else discover (visited ++ [node]) nodes

/-- The nodes that a search from `start` has come to when it has expanded so many of them. -/
def breadthFirst (next : Node → List Node) (start : Node) : Nat → List Node
  | 0 => [start]
  | expanded + 1 =>
      let visited := breadthFirst next start expanded
      match visited[expanded]? with
      | none => visited
      | some node => discover visited (next node)

theorem prefix_discover (visited nodes : List Node) : visited <+: discover visited nodes := by
  induction nodes generalizing visited with
  | nil => exact List.prefix_rfl
  | cons node nodes ih =>
      simp only [discover]
      split
      next => exact ih visited
      next => exact (List.prefix_append ..).trans (ih _)

theorem mem_discover {visited nodes : List Node} {query : Node} :
    query ∈ discover visited nodes ↔ query ∈ visited ∨ query ∈ nodes := by
  induction nodes generalizing visited with
  | nil => simp [discover]
  | cons node nodes ih =>
      simp only [discover]
      split
      next seen =>
        rw [ih, List.mem_cons]
        by_cases same : query = node
        · simp [same, seen]
        · simp [same]
      next => rw [ih, List.mem_append, List.mem_singleton, List.mem_cons, or_assoc]

/-! ## Prefixes up to a node -/

/-- The nodes before the first occurrence of `target`. -/
def before (target : Node) (nodes : List Node) : List Node :=
  nodes.takeWhile (· ≠ target)

theorem before_of_not_mem {target : Node} {nodes : List Node} (absent : target ∉ nodes) :
    before target nodes = nodes :=
  List.takeWhile_eq_self_iff.mpr fun node member => by
    rw [decide_eq_true_eq]
    rintro rfl
    exact absent member

/-- What comes after the target does not matter. -/
theorem before_of_mem {target : Node} {nodes longer : List Node} (found : target ∈ nodes)
    (isPrefix : nodes <+: longer) : before target longer = before target nodes := by
  obtain ⟨rest, rfl⟩ := isPrefix
  induction nodes with
  | nil => cases found
  | cons node nodes ih =>
      by_cases same : node = target
      · simp [before, same]
      · have inRest := List.mem_of_ne_of_mem (Ne.symm same) found
        have onward := ih inRest
        simp only [before, ne_eq, List.cons_append, same, not_false_eq_true, decide_true,
          List.takeWhile_cons_of_pos] at onward ⊢
        rw [onward]

theorem length_before_le {target : Node} {nodes longer : List Node}
    (isPrefix : nodes <+: longer) :
    (before target nodes).length ≤ (before target longer).length := by
  by_cases found : target ∈ nodes
  · rw [before_of_mem found isPrefix]
  · obtain ⟨rest, rfl⟩ := isPrefix
    rw [before_of_not_mem found, before, List.takeWhile_append_of_pos fun node member => by
      rw [decide_eq_true_eq]
      rintro rfl
      exact found member]
    rw [List.length_append]
    exact Nat.le_add_right ..

/-! ## The order of the search -/

variable {next : Node → List Node} {start : Node}

theorem breadthFirst_succ {expanded : Nat} {node : Node}
    (lookup : (breadthFirst next start expanded)[expanded]? = some node) :
    breadthFirst next start (expanded + 1) =
      discover (breadthFirst next start expanded) (next node) := by
  simp only [breadthFirst, lookup]

theorem breadthFirst_grows {fewer more : Nat} (ordered : fewer ≤ more) :
    breadthFirst next start fewer <+: breadthFirst next start more := by
  induction ordered with
  | refl => exact List.prefix_rfl
  | @step more _ ih =>
      refine ih.trans ?_
      simp only [breadthFirst]
      split
      next => exact List.prefix_rfl
      next => exact prefix_discover ..

/-- A search that has expanded all it came to is over. -/
theorem breadthFirst_done {expanded more : Nat} (ordered : expanded ≤ more)
    (done : (breadthFirst next start expanded)[expanded]? = none) :
    breadthFirst next start more = breadthFirst next start expanded := by
  induction ordered with
  | refl => rfl
  | @step more ordered ih =>
      have noMore : (breadthFirst next start expanded)[more]? = none := by
        rw [List.getElem?_eq_none_iff] at done ⊢
        exact Nat.le_trans done ordered
      simp only [breadthFirst, ih, noMore]

theorem breadthFirst_sound {expanded : Nat} {node : Node}
    (member : node ∈ breadthFirst next start expanded) :
    Relation.ReflTransGen (fun source target => target ∈ next source) start node := by
  induction expanded generalizing node with
  | zero => exact List.mem_singleton.mp member ▸ .refl
  | succ expanded ih =>
      simp only [breadthFirst] at member
      split at member
      next => exact ih member
      next source lookup =>
        rcases mem_discover.mp member with old | isNext
        · exact ih old
        · exact (ih (List.mem_of_getElem? lookup)).tail isNext

/-- A node that was found is expanded when its turn comes. -/
theorem breadthFirst_complete {node : Node}
    (path : Relation.ReflTransGen (fun source target => target ∈ next source) start node) :
    ∃ expanded, node ∈ breadthFirst next start expanded := by
  induction path with
  | refl => exact ⟨0, List.mem_singleton_self start⟩
  | @tail source target _ isNext ih =>
      obtain ⟨expanded, found⟩ := ih
      obtain ⟨index, inside, rfl⟩ := List.mem_iff_getElem.mp found
      cases lookup : (breadthFirst next start index)[index]? with
      | none =>
          -- the search was over before it could come to the node
          have short := List.getElem?_eq_none_iff.mp lookup
          have longer : (breadthFirst next start expanded).length ≤
              (breadthFirst next start index).length := by
            rcases Nat.le_total expanded index with fewer | more
            · exact (breadthFirst_grows fewer).length_le
            · rw [breadthFirst_done more lookup]
          omega
      | some node =>
          have same : (breadthFirst next start expanded)[index] = node := by
            obtain ⟨short, rfl⟩ := List.getElem?_eq_some_iff.mp lookup
            rcases Nat.le_total expanded index with fewer | more
            · exact (breadthFirst_grows fewer).getElem inside
            · exact ((breadthFirst_grows more).getElem short).symm
          refine ⟨index + 1, ?_⟩
          rw [breadthFirst_succ lookup, mem_discover]
          exact .inr (same ▸ isNext)

end LightFlow
