import LightFlow.Lib.BreadthFirst
import LightFlow.Task.Graph

/-!
# Where the bounded search decides reachability

`reaches` with its assertion, which a release build leaves out.  The search comes to the nodes in
breadth-first order, so it decides reachability as long as no more than `MAX_VISITED` nodes come
before the target.
-/

namespace LightFlow

/-- How the loop over the successors of one dequeued node ends. -/
inductive ScanResult where
  /-- `return true`. -/
  | returned
  /-- `LF_ASSERT(tail < MAX_VISITED && visitedCount < MAX_VISITED)` fails. -/
  | assertionFailed
  | visited (visited : List NodeId)
  deriving DecidableEq, Repr

/-- How a search ends. -/
inductive SearchResult where
  | returned (answer : Bool)
  | assertionFailed
  deriving DecidableEq, Repr

/-- The loop over the successors of one dequeued node, with its assertion. -/
def scanAsserting (target : NodeId) : List SuccessorEdge → List NodeId → ScanResult
  | [], visited => .visited visited
  | edge :: edges, visited =>
      if edge.target = target then .returned
      else if edge.target ∈ visited then scanAsserting target edges visited
      else if visited.length < maxVisited then
        scanAsserting target edges (visited ++ [edge.target])
      else .assertionFailed

/-- The `while (head < tail)` loop; `none` stands for a search that is not over when the fuel
is. -/
def searchLoop (store : NodeStore) (target : NodeId) :
    (fuel : Nat) → (head : Nat) → (visited : List NodeId) → Option SearchResult
  | 0, _, _ => none
  | fuel + 1, head, visited =>
      match visited[head]? with
      | none => some (.returned false)
      | some curr =>
          if curr = target then some (.returned true)
          else
            match scanAsserting target (store curr).successors visited with
            | .returned => some (.returned true)
            | .assertionFailed => some .assertionFailed
            | .visited visited => searchLoop store target fuel (head + 1) visited

/-- `reaches(start, target)` in a build with assertions. -/
def search (store : NodeStore) (start target : NodeId) (fuel : Nat) : Option SearchResult :=
  if start = target then some (.returned true) else searchLoop store target fuel 0 [start]

/-- The search ends without a failed assertion, in both builds with the same answer, and the
answer is right. -/
def ReachesDecides (store : NodeStore) (start target : NodeId) : Prop :=
  ∃ answer, (∃ fuel, search store start target fuel = some (.returned answer)) ∧
    reaches store start target = answer ∧
    (answer = true ↔ Relation.ReflTransGen (Precedes store) start target)

/-- The successors of a node, in the order of its list. -/
def successorIds (store : NodeStore) (node : NodeId) : List NodeId :=
  (store node).successors.map (·.target)

/-- In breadth-first order from `start`, at most `MAX_VISITED` nodes come before `target`; or in
all, when it does not come. -/
def FewBefore (store : NodeStore) (start target : NodeId) : Prop :=
  ∀ expanded, (before target (breadthFirst (successorIds store) start expanded)).length ≤ maxVisited

theorem mem_successorIds {store : NodeStore} {source target : NodeId} :
    target ∈ successorIds store source ↔ Precedes store source target :=
  List.mem_map

/-! ## The loop over the successors -/

/-- The scan finds the target, or fails, or discovers the successors. -/
theorem scanAsserting_eq {target : NodeId} (edges : List SuccessorEdge) {visited : List NodeId}
    (absent : target ∉ visited) (room : visited.length ≤ maxVisited) :
    scanAsserting target edges visited =
      let discovered := discover visited (edges.map (·.target))
      if maxVisited < (before target discovered).length then .assertionFailed
      else if target ∈ discovered then .returned
      else .visited discovered := by
  induction edges generalizing visited with
  | nil => simp [scanAsserting, discover, before_of_not_mem absent, absent, Nat.not_lt.mpr room]
  | cons edge edges ih =>
      simp only [scanAsserting, List.map_cons, discover]
      by_cases isTarget : edge.target = target
      · -- nodes that come after the target do not count
        have isPrefix := prefix_discover (visited ++ [target]) (edges.map (·.target))
        have found : target ∈ visited ++ [target] := by simp
        have kept : before target (visited ++ [target]) = visited := by
          rw [before, List.takeWhile_append_of_pos fun node member => by
            rw [decide_eq_true_eq]
            rintro rfl
            exact absent member]
          simp
        rw [isTarget, if_pos rfl, if_neg absent, before_of_mem found isPrefix, kept,
          if_neg (Nat.not_lt.mpr room), if_pos (isPrefix.subset found)]
      · rw [if_neg isTarget]
        by_cases seen : edge.target ∈ visited
        · rw [if_pos seen, if_pos seen]
          exact ih absent room
        · rw [if_neg seen, if_neg seen]
          have stillAbsent : target ∉ visited ++ [edge.target] := by
            simp [absent, Ne.symm isTarget]
          by_cases isRoom : visited.length < maxVisited
          · rw [if_pos isRoom]
            exact ih stillAbsent (by rw [List.length_append]; exact isRoom)
          · -- one node too many comes before the target
            have longer : (before target (visited ++ [edge.target])).length ≤ _ :=
              length_before_le (prefix_discover _ (edges.map (·.target)))
            rw [before_of_not_mem stillAbsent, List.length_append, List.length_singleton] at longer
            rw [if_neg isRoom, if_pos (by omega)]

/-! ## The loop over the queue -/

section Loop

variable {store : NodeStore} {start target : NodeId}

/-- The queue after so many turns, while the target was not found. -/
structure Searching (store : NodeStore) (start target : NodeId) (head : Nat)
    (visited : List NodeId) : Prop where
  order : visited = breadthFirst (successorIds store) start head
  absent : target ∉ visited
  room : visited.length ≤ maxVisited

/-- What the end of a search says about the breadth-first order. -/
def SearchResult.Sound (store : NodeStore) (start target : NodeId) : SearchResult → Prop
  | .returned answer =>
      FewBefore store start target ∧
        (answer = true ↔
          ∃ expanded, target ∈ breadthFirst (successorIds store) start expanded)
  | .assertionFailed => ¬ FewBefore store start target

theorem fewBefore_of_le {expanded : Nat}
    (few : (before target (breadthFirst (successorIds store) start expanded)).length ≤ maxVisited)
    (settled : ∀ more, expanded ≤ more →
      before target (breadthFirst (successorIds store) start more) =
        before target (breadthFirst (successorIds store) start expanded)) :
    FewBefore store start target := by
  intro other
  rcases Nat.le_total other expanded with fewer | more
  · exact (length_before_le (breadthFirst_grows fewer)).trans few
  · rwa [settled other more]

/-- One turn of the loop discovers the successors of the next node. -/
theorem Searching.scanned {head : Nat} {visited : List NodeId} {curr : NodeId}
    (searching : Searching store start target head visited) (lookup : visited[head]? = some curr)
    {discovered : List NodeId}
    (turned : discovered = breadthFirst (successorIds store) start (head + 1)) :
    scanAsserting target (store curr).successors visited =
      if maxVisited < (before target discovered).length then .assertionFailed
      else if target ∈ discovered then .returned
      else .visited discovered := by
  subst turned
  obtain ⟨rfl, absent, room⟩ := searching
  rw [scanAsserting_eq _ absent room, breadthFirst_succ lookup]
  rfl

/-- The search goes on while the target is not discovered and there is room. -/
theorem Searching.next {head : Nat} {visited grown : List NodeId} {curr : NodeId}
    (searching : Searching store start target head visited) (lookup : visited[head]? = some curr)
    (scanned : scanAsserting target (store curr).successors visited = .visited grown) :
    Searching store start target (head + 1) grown := by
  rw [searching.scanned lookup rfl] at scanned
  split at scanned
  next => cases scanned
  next room =>
    split at scanned
    next => cases scanned
    next absent =>
      cases scanned
      rw [before_of_not_mem absent] at room
      exact ⟨rfl, absent, Nat.not_lt.mp room⟩

theorem Searching.ne {head : Nat} {visited : List NodeId} {curr : NodeId}
    (searching : Searching store start target head visited)
    (lookup : visited[head]? = some curr) : curr ≠ target :=
  fun same => searching.absent (same ▸ List.mem_of_getElem? lookup)

theorem Searching.sound {fuel head : Nat} {visited : List NodeId} {result : SearchResult}
    (searching : Searching store start target head visited)
    (ended : searchLoop store target fuel head visited = some result) :
    result.Sound store start target := by
  induction fuel generalizing head visited with
  | zero => cases ended
  | succ fuel ih =>
      simp only [searchLoop] at ended
      split at ended
      next done =>
        -- nothing is left to expand
        cases ended
        obtain ⟨rfl, absent, room⟩ := searching
        have settled := fun more ordered => @breadthFirst_done _ _ _ _ _ more ordered done
        refine ⟨fewBefore_of_le ((before_of_not_mem absent).symm ▸ room)
          fun more ordered => by rw [settled more ordered], by simp, fun ⟨expanded, found⟩ => ?_⟩
        rcases Nat.le_total expanded head with fewer | more
        · exact absurd ((breadthFirst_grows fewer).subset found) absent
        · exact absurd (settled expanded more ▸ found) absent
      next curr lookup =>
        rw [if_neg (searching.ne lookup)] at ended
        have scanned := searching.scanned lookup rfl
        split at ended
        next returned =>
          cases ended
          rw [returned] at scanned
          split at scanned
          next => cases scanned
          next room =>
            split at scanned
            next found =>
              exact ⟨fewBefore_of_le (Nat.not_lt.mp room) fun more ordered =>
                before_of_mem found (breadthFirst_grows ordered), fun _ => ⟨_, found⟩,
                fun _ => rfl⟩
            next => cases scanned
        next failed =>
          cases ended
          rw [failed] at scanned
          split at scanned
          next overflows => exact fun few => absurd (few (head + 1)) (Nat.not_le.mpr overflows)
          next => split at scanned <;> cases scanned
        next grown goesOn => exact ih (searching.next lookup goesOn) ended

/-- Every turn dequeues a node, and there are at most `MAX_VISITED` of them. -/
theorem Searching.ends {fuel head : Nat} {visited : List NodeId}
    (searching : Searching store start target head visited) (enough : maxVisited < fuel + head)
    (started : head ≤ maxVisited) :
    ∃ result, searchLoop store target fuel head visited = some result := by
  induction fuel generalizing head visited with
  | zero => omega
  | succ fuel ih =>
      simp only [searchLoop]
      split
      next => exact ⟨_, rfl⟩
      next curr lookup =>
        have inside := (List.getElem?_eq_some_iff.mp lookup).1
        have room := searching.room
        rw [if_neg (searching.ne lookup)]
        split
        next => exact ⟨_, rfl⟩
        next => exact ⟨_, rfl⟩
        next grown goesOn => exact ih (searching.next lookup goesOn) (by omega) (by omega)

/-- Without assertions the scan goes the same way. -/
theorem scanSuccessors_of_asserting {edges : List SuccessorEdge} {visited : List NodeId} :
    (scanAsserting target edges visited = .returned →
      scanSuccessors target edges visited = none) ∧
    ∀ grown, scanAsserting target edges visited = .visited grown →
      scanSuccessors target edges visited = some grown := by
  induction edges generalizing visited with
  | nil => simp [scanAsserting, scanSuccessors]
  | cons edge edges ih =>
      simp only [scanAsserting, scanSuccessors]
      split
      next => simp
      next =>
        split
        next => exact ih
        next =>
          split
          next => exact ih
          next => simp

/-- Where no assertion fails, a release build gives the same answer. -/
theorem Searching.released {fuel head : Nat} {visited : List NodeId} {answer : Bool}
    (searching : Searching store start target head visited) {left : Nat}
    (enough : left + head = maxVisited)
    (ended : searchLoop store target fuel head visited = some (.returned answer)) :
    reachesLoop store target left head visited = answer := by
  induction fuel generalizing head visited left with
  | zero => cases ended
  | succ fuel ih =>
      simp only [searchLoop] at ended
      cases left with
      | zero =>
          -- the loop of the release build is over
          have done : visited[head]? = none := by
            rw [List.getElem?_eq_none_iff]
            exact searching.room.trans_eq (by omega)
          rw [done] at ended
          cases ended
          rfl
      | succ left =>
          rw [reachesLoop]
          obtain done | ⟨curr, lookup⟩ := Option.eq_none_or_eq_some visited[head]?
          · rw [done] at ended ⊢
            cases ended
            rfl
          · have different := searching.ne lookup
            rw [lookup] at ended ⊢
            simp only [if_neg different] at ended ⊢
            split at ended
            next returned =>
              cases ended
              rw [scanSuccessors_of_asserting.1 returned]
            next => cases ended
            next grown goesOn =>
              rw [scanSuccessors_of_asserting.2 grown goesOn]
              exact ih (searching.next lookup goesOn) (by omega) ended

end Loop

/-! ## The answer -/

section Answer

variable {store : NodeStore} {start target : NodeId}

theorem searching_start (different : start ≠ target) :
    Searching store start target 0 [start] where
  order := rfl
  absent := fun same => different (List.mem_singleton.mp same).symm
  room := Nat.succ_le_of_lt (by decide : 0 < maxVisited)

theorem fewBefore_self (store : NodeStore) (node : NodeId) : FewBefore store node node := by
  intro expanded
  rw [before_of_mem (List.mem_singleton_self node) (breadthFirst_grows (Nat.zero_le expanded))]
  simp [before]

/-- A search ends, with at most `MAX_VISITED` turns. -/
theorem search_ends (store : NodeStore) (start target : NodeId) :
    ∃ result, search store start target (maxVisited + 1) = some result := by
  rw [search]
  split
  next => exact ⟨_, rfl⟩
  next different => exact (searching_start different).ends (by omega) (Nat.zero_le _)

theorem search_sound {fuel : Nat} {result : SearchResult}
    (ended : search store start target fuel = some result) : result.Sound store start target := by
  rw [search] at ended
  split at ended
  next same =>
    subst same
    cases ended
    exact ⟨fewBefore_self store start, fun _ => ⟨0, List.mem_singleton_self start⟩, fun _ => rfl⟩
  next different => exact (searching_start different).sound ended

theorem reaches_of_search {fuel : Nat} {answer : Bool}
    (ended : search store start target fuel = some (.returned answer)) :
    reaches store start target = answer := by
  rw [search] at ended
  rw [reaches]
  split at ended
  next same =>
    cases ended
    rw [if_pos same]
  next different =>
    rw [if_neg different]
    exact (searching_start different).released rfl ended

/-- The breadth-first order comes to what can be reached. -/
theorem discovered_iff :
    (∃ expanded, target ∈ breadthFirst (successorIds store) start expanded) ↔
      Relation.ReflTransGen (Precedes store) start target := by
  have steps : (fun source target => target ∈ successorIds store source) = Precedes store := by
    funext source target
    exact propext mem_successorIds
  rw [← steps]
  exact ⟨fun ⟨_, found⟩ => breadthFirst_sound found, breadthFirst_complete⟩

/-- The search decides reachability exactly where it has room for the nodes before the target. -/
theorem reachesDecides_iff : ReachesDecides store start target ↔ FewBefore store start target := by
  constructor
  · rintro ⟨answer, ⟨fuel, ended⟩, -, -⟩
    exact (search_sound ended).1
  · intro few
    obtain ⟨result, ended⟩ := search_ends store start target
    have sound := search_sound ended
    cases result with
    | assertionFailed => exact absurd few sound
    | returned answer =>
        exact ⟨answer, ⟨_, ended⟩, reaches_of_search ended, sound.2.trans discovered_iff⟩

end Answer

/-! ## The searches of a graph -/

/-- `addEdge` asks whether the edge closes a loop. -/
def AsksForLoop (store : NodeStore) (source : NodeId) (branch : Int) : Prop :=
  (store source).type = .condition ∨ 0 ≤ branch

/-- `addEdge` sets `isLoopBack` where the edge closes a loop, and no assertion fails. -/
def ClassifiesLoop (store : NodeStore) (source target : NodeId) (branch : Int) : Prop :=
  (AsksForLoop store source branch → ∃ fuel answer,
    search (TaskGraph.linkEdge store source { target, branch }) target source fuel =
      some (.returned answer)) ∧
  (TaskGraph.closesLoop store source target branch = true ↔ AsksForLoop store source branch ∧
    Relation.ReflTransGen (Precedes (TaskGraph.linkEdge store source { target, branch })) target
      source)

/-- The answers that the collection of cycle nodes asks for satisfy the property. -/
def CycleAnswers (holds : NodeStore → NodeId → NodeId → Prop) (store : NodeStore)
    (self target : NodeId) : Prop :=
  ∀ curr ∈ cycleNodes store self target, ∀ edge ∈ (store curr).successors,
    edge.isLoopBack = false → holds store edge.target self

theorem classifiesLoop_iff {store : NodeStore} {source target : NodeId} {branch : Int} :
    ClassifiesLoop store source target branch ↔
      (AsksForLoop store source branch →
        FewBefore (TaskGraph.linkEdge store source { target, branch }) target source) := by
  constructor
  · rintro ⟨ends, -⟩ asks
    obtain ⟨fuel, answer, ended⟩ := ends asks
    exact (search_sound ended).1
  · intro few
    refine ⟨fun asks => ?_, ?_⟩
    · obtain ⟨answer, ⟨fuel, ended⟩, -, -⟩ := reachesDecides_iff.mpr (few asks)
      exact ⟨fuel, answer, ended⟩
    · rw [TaskGraph.closesLoop, Bool.and_eq_true, decide_eq_true_eq]
      refine and_congr_right fun asks => ?_
      obtain ⟨answer, -, released, right⟩ := reachesDecides_iff.mpr (few asks)
      rw [released]
      exact right

/-- `reaches` decides reachability exactly where at most `MAX_VISITED` nodes come before the
target in breadth-first order, and so do its callers `addEdge` and `unblockSuccessors`. -/
theorem reaches_decides (store : NodeStore) (start target : NodeId) :
    (ReachesDecides store start target ↔ FewBefore store start target) ∧
    (∀ branch, ClassifiesLoop store start target branch ↔
      (AsksForLoop store start branch →
        FewBefore (TaskGraph.linkEdge store start { target, branch }) target start)) ∧
    (CycleAnswers ReachesDecides store start target ↔
      CycleAnswers FewBefore store start target) := by
  refine ⟨reachesDecides_iff, fun _ => classifiesLoop_iff, ?_⟩
  simp only [CycleAnswers, reachesDecides_iff]

/-! ## A chain that is too long -/

/-- 130 nodes in a chain; the last is a condition. -/
def longChain : NodeStore
  | .node id =>
      if id < 129 then { successors := [{ target := .node (id + 1) }] } else { type := .condition }
  | _ => {}

theorem longChain_path (id : Nat) (bound : id ≤ 129) :
    Relation.ReflTransGen (Precedes longChain) (.node 0) (.node id) := by
  induction id with
  | zero => exact .refl
  | succ id ih =>
      refine (ih (by omega)).tail ⟨{ target := .node (id + 1) }, ?_, rfl⟩
      simp only [longChain, if_pos (show id < 129 by omega), List.mem_singleton]

/-- The last node of the chain is not found, and the assertion fails; an edge back from it is not
a loop edge. -/
theorem longChain_not_decided :
    ¬ ReachesDecides longChain (.node 0) (.node 129) ∧
      search longChain (.node 0) (.node 129) 129 = some .assertionFailed ∧
      reaches longChain (.node 0) (.node 129) = false ∧
      TaskGraph.closesLoop longChain (.node 129) (.node 0) 0 = false := by
  have missed : reaches longChain (.node 0) (.node 129) = false := by decide +kernel
  refine ⟨?_, by decide +kernel, missed, by decide +kernel⟩
  rintro ⟨answer, -, released, right⟩
  rw [missed] at released
  subst released
  cases right.mpr (longChain_path 129 le_rfl)

end LightFlow
