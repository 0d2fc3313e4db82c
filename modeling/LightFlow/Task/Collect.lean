import LightFlow.Task.Loop

/-!
# The searches find what they look for

As long as its array has room for every node that the search can come to, `reaches` finds a
path whenever there is one; and the collection of a loop finds the body of the loop when
every path back to the condition lies within it.
-/

namespace LightFlow

/-! ## Breadth-first search -/

/-- One dequeued node: the successors are visited afterwards, in a list without repetition
that stays within the region. -/
theorem scanSuccessors_complete {target : NodeId} {region : List NodeId}
    (small : region.length ≤ maxVisited) {edges : List SuccessorEdge} {visited grown : List NodeId}
    (distinct : visited.Nodup) (within : visited ⊆ region)
    (closed : ∀ edge ∈ edges, edge.target = target ∨ edge.target ∈ region)
    (scanned : scanSuccessors target edges visited = some grown) :
    visited <+: grown ∧ grown.Nodup ∧ grown ⊆ region ∧
      ∀ edge ∈ edges, edge.target ≠ target ∧ edge.target ∈ grown := by
  induction edges generalizing visited with
  | nil =>
      cases scanned
      exact ⟨List.prefix_rfl, distinct, within, by simp⟩
  | cons edge edges ih =>
      have rest := fun other (member : other ∈ edges) =>
        closed other (List.mem_cons_of_mem _ member)
      by_cases isTarget : edge.target = target
      · simp [scanSuccessors, isTarget] at scanned
      · have inRegion := (closed edge (List.mem_cons_self ..)).resolve_left isTarget
        by_cases seen : edge.target ∈ visited
        · simp only [scanSuccessors, isTarget, seen, ↓reduceIte] at scanned
          obtain ⟨isPrefix, grownDistinct, grownWithin, found⟩ := ih distinct within rest scanned
          exact ⟨isPrefix, grownDistinct, grownWithin,
            List.forall_mem_cons.mpr ⟨⟨isTarget, isPrefix.subset seen⟩, found⟩⟩
        · have moreDistinct : (visited ++ [edge.target]).Nodup :=
            List.nodup_append.mpr ⟨distinct, by simp, fun node member other isEdge => by
              rintro rfl
              exact seen (List.mem_singleton.mp isEdge ▸ member)⟩
          have moreWithin : visited ++ [edge.target] ⊆ region :=
            List.append_subset.mpr ⟨within, by simpa using inRegion⟩
          have room : visited.length < maxVisited := by
            have atMost := (List.subperm_of_subset moreDistinct moreWithin).length_le
            rw [List.length_append, List.length_singleton] at atMost
            omega
          simp only [scanSuccessors, isTarget, seen, room, ↓reduceIte] at scanned
          obtain ⟨isPrefix, grownDistinct, grownWithin, found⟩ :=
            ih moreDistinct moreWithin rest scanned
          refine ⟨(List.prefix_append ..).trans isPrefix, grownDistinct, grownWithin,
            List.forall_mem_cons.mpr ⟨⟨isTarget, isPrefix.subset (by simp)⟩, found⟩⟩

/-- A set that contains `start` and is closed under successors contains what `start`
reaches. -/
theorem mem_of_closed {Element : Type*} {related : Element → Element → Prop}
    {holds : Element → Prop} {start target : Element} (initial : holds start)
    (closed : ∀ node next, holds node → related node next → holds next)
    (path : Relation.ReflTransGen related start target) : holds target := by
  induction path with
  | refl => exact initial
  | tail _ last ih => exact closed _ _ ih last

theorem reachesLoop_complete {store : NodeStore} {start target : NodeId} {region : List NodeId}
    (small : region.length ≤ maxVisited)
    (closed : ∀ node ∈ region, node ≠ target → ∀ edge ∈ (store node).successors,
      edge.target = target ∨ edge.target ∈ region)
    (path : Relation.ReflTransGen (Precedes store) start target) {fuel head : Nat}
    {visited : List NodeId} (enough : fuel + head = maxVisited) (started : start ∈ visited)
    (distinct : visited.Nodup) (within : visited ⊆ region)
    (expanded : ∀ node ∈ visited.take head, node ≠ target ∧
      ∀ edge ∈ (store node).successors, edge.target ∈ visited) :
    reachesLoop store target fuel head visited = true := by
  -- When all visited nodes are expanded, the target is among them, but none of them is it.
  have inside {head : Nat} {visited : List NodeId} (started : start ∈ visited)
      (expanded : ∀ node ∈ visited.take head, node ≠ target ∧
        ∀ edge ∈ (store node).successors, edge.target ∈ visited) : head < visited.length := by
    by_contra all
    rw [List.take_of_length_le (by omega)] at expanded
    have found : target ∈ visited := by
      refine mem_of_closed started (fun node next member related => ?_) path
      obtain ⟨edge, isEdge, rfl⟩ := related
      exact (expanded node member).2 edge isEdge
    exact (expanded target found).1 rfl
  induction fuel generalizing head visited with
  | zero =>
      have atMost := (List.subperm_of_subset distinct within).length_le
      have left := inside started expanded
      omega
  | succ fuel ih =>
      have inside := inside started expanded
      rw [reachesLoop, List.getElem?_eq_getElem inside]
      dsimp only
      split
      next => rfl
      next notTarget =>
        have member := List.getElem_mem inside
        split
        next => rfl
        next grown scanned =>
          obtain ⟨isPrefix, grownDistinct, grownWithin, found⟩ := scanSuccessors_complete small
            distinct within (closed _ (within member) notTarget) scanned
          have grownExpanded : ∀ node ∈ grown.take (head + 1), node ≠ target ∧
              ∀ edge ∈ (store node).successors, edge.target ∈ grown := by
            intro node isExpanded
            obtain ⟨more, rfl⟩ := isPrefix
            rw [List.take_append_of_le_length (by omega), ← List.take_concat_get' _ _ inside,
              List.mem_append, List.mem_singleton] at isExpanded
            rcases isExpanded with before | rfl
            · exact (expanded node before).imp_right fun all edge isEdge =>
                List.mem_append_left _ (all edge isEdge)
            · exact ⟨notTarget, fun edge isEdge => (found edge isEdge).2⟩
          exact ih (by omega) (isPrefix.subset started) grownDistinct grownWithin grownExpanded

/-- The search finds the target when a region that it cannot leave has room in its array. -/
theorem reaches_complete {store : NodeStore} {start target : NodeId} {region : List NodeId}
    (small : region.length ≤ maxVisited) (starts : start ∈ region)
    (closed : ∀ node ∈ region, node ≠ target → ∀ edge ∈ (store node).successors,
      edge.target = target ∨ edge.target ∈ region)
    (path : Relation.ReflTransGen (Precedes store) start target) :
    reaches store start target = true := by
  rw [reaches]
  split
  · rfl
  · exact reachesLoop_complete small closed path rfl (List.mem_singleton_self start) (by simp)
      (by simpa using starts) (by simp)

/-! ## Collecting a loop -/

/-- One dequeued node: successors that are not collected yet follow, as long as they reach
the condition and there is room. -/
theorem scanCycle_complete {store : NodeStore} {self : NodeId} {body : List NodeId}
    (small : body.length ≤ maxCycle) {edges : List SuccessorEdge} {cycle : List NodeId}
    (distinct : cycle.Nodup) (within : cycle ⊆ body)
    (closed : ∀ edge ∈ edges, edge.isLoopBack = false → reaches store edge.target self = true →
      edge.target ∈ body) :
    cycle <+: scanCycle store self edges cycle ∧ scanCycle store self edges cycle ⊆ body ∧
      ∀ edge ∈ edges, edge.isLoopBack = false → reaches store edge.target self = true →
        edge.target ∈ scanCycle store self edges cycle := by
  induction edges generalizing cycle with
  | nil => exact ⟨List.prefix_rfl, within, by simp⟩
  | cons edge edges ih =>
      have rest := fun other (member : other ∈ edges) =>
        closed other (List.mem_cons_of_mem _ member)
      simp only [scanCycle]
      split
      next found =>
        simp only [Bool.and_eq_true, Bool.not_eq_true', List.contains_eq_mem,
          decide_eq_false_iff_not] at found
        obtain ⟨⟨⟨forward, back⟩, notSeen⟩, -⟩ := found
        have moreDistinct : (cycle ++ [edge.target]).Nodup :=
          List.nodup_append.mpr ⟨distinct, by simp, fun node member other isEdge => by
            rintro rfl
            exact notSeen (List.mem_singleton.mp isEdge ▸ member)⟩
        have moreWithin : cycle ++ [edge.target] ⊆ body :=
          List.append_subset.mpr
            ⟨within, by simpa using closed edge (List.mem_cons_self ..) forward back⟩
        obtain ⟨isPrefix, grownWithin, collected⟩ := ih moreDistinct moreWithin rest
        exact ⟨(List.prefix_append ..).trans isPrefix, grownWithin,
          List.forall_mem_cons.mpr ⟨fun _ _ => isPrefix.subset (by simp), collected⟩⟩
      next notFound =>
        obtain ⟨isPrefix, grownWithin, collected⟩ := ih distinct within rest
        refine ⟨isPrefix, grownWithin,
          List.forall_mem_cons.mpr ⟨fun forward back => isPrefix.subset ?_, collected⟩⟩
        -- There is room, so it was collected before.
        by_contra notSeen
        have moreDistinct : (edge.target :: cycle).Nodup := List.nodup_cons.mpr ⟨notSeen, distinct⟩
        have moreWithin : edge.target :: cycle ⊆ body :=
          List.cons_subset.mpr ⟨closed edge (List.mem_cons_self ..) forward back, within⟩
        have atMost := (List.subperm_of_subset moreDistinct moreWithin).length_le
        rw [List.length_cons] at atMost
        simp [forward, back, notSeen] at notFound
        omega

theorem collectLoop_complete {store : NodeStore} {self : NodeId} {body : List NodeId}
    (small : body.length ≤ maxCycle)
    (closed : ∀ node ∈ body, ∀ edge ∈ (store node).successors, edge.isLoopBack = false →
      reaches store edge.target self = true → edge.target ∈ body)
    {fuel head : Nat} {cycle : List NodeId} (enough : fuel + head = maxCycle)
    (distinct : cycle.Nodup) (within : cycle ⊆ body)
    (expanded : ∀ node ∈ cycle.take head, ∀ edge ∈ (store node).successors,
      edge.isLoopBack = false → reaches store edge.target self = true → edge.target ∈ cycle) :
    collectLoop store self fuel head cycle ⊆ body ∧
      ∀ node ∈ collectLoop store self fuel head cycle, ∀ edge ∈ (store node).successors,
        edge.isLoopBack = false → reaches store edge.target self = true →
          edge.target ∈ collectLoop store self fuel head cycle := by
  induction fuel generalizing head cycle with
  | zero =>
      have atMost := (List.subperm_of_subset distinct within).length_le
      rw [List.take_of_length_le (by omega)] at expanded
      exact ⟨within, expanded⟩
  | succ fuel ih =>
      simp only [collectLoop]
      split
      next all =>
        rw [List.take_of_length_le (List.getElem?_eq_none_iff.mp all)] at expanded
        exact ⟨within, expanded⟩
      next curr lookup =>
        obtain ⟨inside, rfl⟩ := List.getElem?_eq_some_iff.mp lookup
        have member := List.getElem_mem inside
        obtain ⟨isPrefix, grownWithin, collected⟩ :=
          scanCycle_complete small distinct within (closed _ (within member))
        refine ih (by omega) (scanCycle_nodup _ distinct) grownWithin ?_
        intro node isExpanded
        obtain ⟨more, grown⟩ := isPrefix
        rw [← grown] at isExpanded collected ⊢
        rw [List.take_append_of_le_length (by omega), ← List.take_concat_get' _ _ inside,
          List.mem_append, List.mem_singleton] at isExpanded
        rcases isExpanded with before | rfl
        · exact fun edge isEdge forward back =>
            List.mem_append_left _ (expanded node before edge isEdge forward back)
        · exact collected

namespace TaskGraph

variable {graph : TaskGraph} {source target : NodeId}

/-- A condition that goes back to itself is a loop of its own. -/
theorem body_self (acyclic : Cycleless graph.Forward) {node : NodeId} :
    graph.Body source source node ↔ node = source := by
  refine ⟨fun ⟨there, back⟩ => ?_, fun same => same ▸ ⟨.refl, .refl⟩⟩
  obtain same | onward := Relation.reflTransGen_iff_eq_or_transGen.mp there
  · exact same
  · exact absurd (onward.trans_left back) (acyclic source)

theorem collects_self (acyclic : Cycleless graph.Forward) : graph.Collects source source := by
  intro node
  rw [cycleNodes, if_pos rfl, List.mem_singleton, body_self acyclic]

theorem leftAtSource_self (acyclic : Cycleless graph.Forward) :
    graph.LeftAtSource source source := fun _ inBody inside =>
  absurd ((body_self acyclic).mp inBody) inside

theorem enteredAtTarget_self (acyclic : Cycleless graph.Forward) :
    graph.EnteredAtTarget source source := fun _ inBody inside =>
  absurd ((body_self acyclic).mp inBody) inside

/-- A loop is collected when it has room, all of it leads back to the condition as far as
the search can tell, and nothing else that its edges lead to does. -/
theorem collects_of_back (acyclic : Cycleless graph.Forward)
    (path : Relation.ReflTransGen graph.Forward target source) {body : List NodeId}
    (small : body.length ≤ maxCycle) (listed : ∀ node, node ∈ body ↔ graph.Body source target node)
    (leads : ∀ node ∈ body, reaches graph.node node source = true)
    (apart : ∀ node ∈ body, ∀ next, graph.Forward node next →
      reaches graph.node next source = true → next ∈ body) : graph.Collects source target := by
  by_cases same : target = source
  · exact same ▸ collects_self acyclic
  · intro node
    rw [cycleNodes, if_neg same]
    have targetInBody : target ∈ body := (listed target).mpr ⟨.refl, path⟩
    have started : [target] ⊆ body := by simpa using targetInBody
    obtain ⟨within, collected⟩ := collectLoop_complete small
      (fun node member edge isEdge forward back =>
        apart node member _ ⟨edge, isEdge, forward, rfl⟩ back)
      (Nat.add_zero maxCycle) (List.nodup_singleton target) started (by simp)
    refine ⟨fun member => (listed node).mp (within member), ?_⟩
    rintro ⟨there, back⟩
    -- Along the path to the node everything is in the body, and is collected.
    induction there with
    | refl => exact subset_collectLoop _ _ _ (List.mem_singleton_self target)
    | @tail previous last path related ih =>
        obtain ⟨edge, isEdge, forward, rfl⟩ := related
        have lastInBody : edge.target ∈ body :=
          (listed _).mpr ⟨path.tail ⟨edge, isEdge, forward, rfl⟩, back⟩
        have earlier : Relation.ReflTransGen graph.Forward previous source :=
          .head ⟨edge, isEdge, forward, rfl⟩ back
        exact collected previous (ih earlier) edge isEdge forward
          (leads _ lastInBody)

/-- The body of the loop fits the arrays of the searches, and once the condition has left it
nothing leads back. -/
structure Contained (graph : TaskGraph) (source target : NodeId) : Prop where
  path : Relation.ReflTransGen graph.Forward target source
  small : ∃ body : List NodeId, body.length ≤ maxCycle ∧
    ∀ node, graph.Body source target node → node ∈ body
  near : ∃ region : List NodeId, region.length ≤ maxVisited ∧
    (∀ node, graph.Body source target node → node ∈ region) ∧
    ∀ node ∈ region, node ≠ source → ∀ edge ∈ (graph.node node).successors,
      edge.target = source ∨ edge.target ∈ region
  left : graph.LeftAtSource source target
  apart : ∀ next, graph.Forward source next →
    ¬ Relation.ReflTransGen (Precedes graph.node) next source

theorem Contained.collects (contained : graph.Contained source target)
    (acyclic : Cycleless graph.Forward) : graph.Collects source target := by
  classical
  obtain ⟨body, small, listed⟩ := contained.small
  obtain ⟨region, smallRegion, inRegion, closed⟩ := contained.near
  have precedes : ∀ node next, graph.Forward node next → Precedes graph.node node next :=
    fun node next ⟨edge, isEdge, _, isNext⟩ => ⟨edge, isEdge, isNext⟩
  have inBody (node : NodeId) :
      node ∈ body.filter (graph.Body source target ·) ↔ graph.Body source target node := by
    simpa using listed node
  refine collects_of_back acyclic contained.path ((List.length_filter_le _ _).trans small) inBody
    (fun node member => ?_) fun node member next related back => ?_
  · have isInner := (inBody node).mp member
    exact reaches_complete smallRegion (inRegion node isInner) closed
      (Relation.ReflTransGen.mono precedes _ _ isInner.2)
  · rw [inBody] at member ⊢
    by_cases same : node = source
    · exact absurd (reaches_sound back) (contained.apart next (same ▸ related))
    · exact contained.left node member same next related

end TaskGraph

end LightFlow
