import LightFlow.Task.Node
import Mathlib.Logic.Relation

/-!
# Bounded reachability

`reaches` is a breadth-first search over successor edges with room for
`MAX_VISITED` nodes; nodes that no longer fit are dropped.  It drives the
loop-back classification of `addEdge` and, in `unblockSuccessors`, the collection
of the nodes of a cycle.
-/

namespace LightFlow

/-- `MAX_VISITED` of `reaches`. -/
def maxVisited : Nat := 128

/-- `MAX_CYCLE` of `unblockSuccessors`. -/
def maxCycle : Nat := 64

/-- The loop over the successors of one dequeued node.  `none` stands for the
early `return true`. -/
def scanSuccessors (target : NodeId) :
    List SuccessorEdge → List NodeId → Option (List NodeId)
  | [], visited => some visited
  | edge :: edges, visited =>
      if edge.target = target then none
      else if edge.target ∈ visited then scanSuccessors target edges visited
      else if visited.length < maxVisited then
        scanSuccessors target edges (visited ++ [edge.target])
      else scanSuccessors target edges visited

/-- The `while (head < tail)` loop.  The queue and the visited array receive the
same nodes in the same order, so one list serves both; `head` never exceeds
`MAX_VISITED`, which bounds the iterations by the fuel. -/
def reachesLoop (store : NodeStore) (target : NodeId) :
    (fuel : Nat) → (head : Nat) → (visited : List NodeId) → Bool
  | 0, _, _ => false
  | fuel + 1, head, visited =>
      match visited[head]? with
      | none => false
      | some curr =>
          if curr = target then true
          else
            match scanSuccessors target (store curr).successors visited with
            | none => true
            | some visited => reachesLoop store target fuel (head + 1) visited

/-- `reaches(start, target)`. -/
def reaches (store : NodeStore) (start target : NodeId) : Bool :=
  if start = target then true
  else reachesLoop store target maxVisited 0 [start]

/-- One successor edge, of any branch. -/
def Precedes (store : NodeStore) (source target : NodeId) : Prop :=
  ∃ edge ∈ (store source).successors, edge.target = target

theorem scanSuccessors_sound {store : NodeStore} {start : NodeId} (target : NodeId)
    {edges : List SuccessorEdge} {visited : List NodeId}
    (edgesReached : ∀ edge ∈ edges, Relation.ReflTransGen (Precedes store) start edge.target)
    (visitedReached : ∀ node ∈ visited, Relation.ReflTransGen (Precedes store) start node) :
    match scanSuccessors target edges visited with
    | none => Relation.ReflTransGen (Precedes store) start target
    | some grown => ∀ node ∈ grown, Relation.ReflTransGen (Precedes store) start node := by
  induction edges generalizing visited with
  | nil => exact visitedReached
  | cons edge edges ih =>
      have headReached := edgesReached edge (by simp)
      have tailReached := fun other (member : other ∈ edges) =>
        edgesReached other (List.mem_cons_of_mem _ member)
      by_cases isTarget : edge.target = target
      · simpa [scanSuccessors, isTarget] using headReached
      · by_cases seen : edge.target ∈ visited
        · simpa only [scanSuccessors, isTarget, seen, ↓reduceIte] using
            ih tailReached visitedReached
        · by_cases room : visited.length < maxVisited
          · simp only [scanSuccessors, isTarget, seen, room, ↓reduceIte]
            refine ih tailReached ?_
            intro node member
            rcases List.mem_append.mp member with old | new
            · exact visitedReached node old
            · rw [List.mem_singleton.mp new]
              exact headReached
          · simpa only [scanSuccessors, isTarget, seen, room, ↓reduceIte] using
              ih tailReached visitedReached

theorem reachesLoop_sound {store : NodeStore} {start target : NodeId} {fuel head : Nat}
    {visited : List NodeId}
    (visitedReached : ∀ node ∈ visited, Relation.ReflTransGen (Precedes store) start node)
    (found : reachesLoop store target fuel head visited = true) :
    Relation.ReflTransGen (Precedes store) start target := by
  induction fuel generalizing head visited with
  | zero => simp [reachesLoop] at found
  | succ fuel ih =>
      simp only [reachesLoop] at found
      split at found
      next => simp at found
      next curr lookup =>
        have currReached := visitedReached curr (List.mem_of_getElem? lookup)
        split at found
        next equal => exact equal ▸ currReached
        next =>
          have scanned := scanSuccessors_sound target
            (fun edge member => currReached.tail ⟨edge, member, rfl⟩) visitedReached
          split at found
          next returned => simpa only [returned] using scanned
          next grown returned =>
            simp only [returned] at scanned
            exact ih scanned found

/-- A positive answer of the search comes with a path, at every graph size. -/
theorem reaches_sound {store : NodeStore} {start target : NodeId}
    (found : reaches store start target = true) :
    Relation.ReflTransGen (Precedes store) start target := by
  simp only [reaches] at found
  split at found
  next equal => exact equal ▸ .refl
  next =>
    refine reachesLoop_sound ?_ found
    intro node member
    rw [List.mem_singleton.mp member]

/-- The breadth-first collection of the cycle nodes from a loop-back target to the
condition `self`: successors over edges that are not loop-back and from which
`self` can be reached. -/
def scanCycle (store : NodeStore) (self : NodeId) :
    List SuccessorEdge → List NodeId → List NodeId
  | [], cycle => cycle
  | edge :: edges, cycle =>
      if !edge.isLoopBack && reaches store edge.target self && !cycle.contains edge.target
          && cycle.length < maxCycle then
        scanCycle store self edges (cycle ++ [edge.target])
      else scanCycle store self edges cycle

def collectLoop (store : NodeStore) (self : NodeId) :
    (fuel : Nat) → (head : Nat) → (cycle : List NodeId) → List NodeId
  | 0, _, cycle => cycle
  | fuel + 1, head, cycle =>
      match cycle[head]? with
      | none => cycle
      | some curr =>
          collectLoop store self fuel (head + 1)
            (scanCycle store self (store curr).successors cycle)

/-- `cycleNodes` of `unblockSuccessors`. -/
def cycleNodes (store : NodeStore) (self target : NodeId) : List NodeId :=
  if target = self then [self] else collectLoop store self maxCycle 0 [target]

end LightFlow
