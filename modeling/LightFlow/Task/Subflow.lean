import LightFlow.Lib.Acyclic
import LightFlow.Lib.Counting
import LightFlow.Task.Graph
import Mathlib.Data.List.Nodup

/-!
# Subflows

What a subflow callable builds in its `Subflow`, and what `splice` does to the
nodes: child nodes and child edges, the `SubflowExit` barrier, the transfer of the
parent's successor list and the edges from the sinks to the barrier.
-/

namespace LightFlow

/-- `Subflow::emplace`, `emplaceCondition` or `emplaceSubflow`. -/
structure ChildNode where
  type : TaskType := .static
  domain : TaskDomain := .worker
  deriving DecidableEq, Repr

/-- One `Subflow::addEdge` call, by position of the child nodes. -/
structure ChildEdge where
  source : Nat
  target : Nat
  branch : Int := -1
  deriving DecidableEq, Repr

/-- How the callable leaves its `Subflow`: to be spliced, joined or detached. -/
inductive SubflowMode where
  | spliced
  | joined
  | detached
  deriving DecidableEq, Repr

/-- The child graph built by a subflow callable. -/
structure ChildGraph where
  nodes : List ChildNode := []
  edges : List ChildEdge := []
  mode : SubflowMode := .spliced
  deriving DecidableEq, Repr

namespace ChildGraph

/-- Child edges join child nodes. -/
def Valid (children : ChildGraph) : Prop :=
  ∀ edge ∈ children.edges,
    edge.source < children.nodes.length ∧ edge.target < children.nodes.length

/-- The child edges contain no directed cycle. -/
def Acyclic (children : ChildGraph) : Prop :=
  ∀ index, ¬ Relation.TransGen
    (fun source target => ∃ edge ∈ children.edges,
      edge.source = source ∧ edge.target = target) index index

/-- Child nodes in the order of `m_firstNode`. -/
def childIds (children : ChildGraph) (parent : NodeId) : List NodeId :=
  (List.range children.nodes.length).map (.child parent)

/-- The nodes `splice` adds to the run: the children and, unless the subflow is
detached, the exit barrier. -/
def members (children : ChildGraph) (parent : NodeId) : List NodeId :=
  children.childIds parent ++ if children.mode = .detached then [] else [.exit parent]

/-- A child edge as a successor edge. -/
def toEdge (parent : NodeId) (edge : ChildEdge) : SuccessorEdge :=
  { target := .child parent edge.target, branch := edge.branch }

/-- Edges between children that leave the child at `index`, newest first. -/
def ownSuccessors (children : ChildGraph) (parent : NodeId) (index : Nat) :
    List SuccessorEdge :=
  ((children.edges.filter (·.source = index)).reverse).map (toEdge parent)

/-- No child edge leaves the child at `index`. -/
def IsSink (children : ChildGraph) (index : Nat) : Prop :=
  ∀ edge ∈ children.edges, edge.source ≠ index

instance (children : ChildGraph) (index : Nat) : Decidable (children.IsSink index) :=
  inferInstanceAs (Decidable (∀ edge ∈ children.edges, edge.source ≠ index))

/-- Number of child edges into the child at `index`. -/
def childInDegree (children : ChildGraph) (index : Nat) : Nat :=
  children.edges.countP (·.target = index)

/-- Edges of the child at `index` after `splice`: its own, or the one to the exit. -/
def childSuccessors (children : ChildGraph) (parent : NodeId) (index : Nat) :
    List SuccessorEdge :=
  if children.mode ≠ .detached ∧ children.IsSink index then [{ target := .exit parent }]
  else children.ownSuccessors parent index

/-- Number of edges into the exit barrier. -/
def sinkCount (children : ChildGraph) : Nat :=
  (List.range children.nodes.length).countP (children.IsSink ·)

theorem mem_childIds {children : ChildGraph} {parent node : NodeId} :
    node ∈ children.childIds parent ↔
      ∃ index < children.nodes.length, node = .child parent index := by
  simp [childIds, eq_comm]

theorem childIds_nodup (children : ChildGraph) (parent : NodeId) :
    (children.childIds parent).Nodup :=
  List.Nodup.map (fun _ _ equal => (NodeId.child.inj equal).2) List.nodup_range

theorem exit_not_mem_childIds (children : ChildGraph) (parent : NodeId) :
    .exit parent ∉ children.childIds parent := by
  simp [mem_childIds]

theorem mem_members {children : ChildGraph} {parent node : NodeId} :
    node ∈ children.members parent ↔
      (∃ index < children.nodes.length, node = .child parent index) ∨
        (children.mode ≠ .detached ∧ node = .exit parent) := by
  rw [members, List.mem_append, mem_childIds]
  by_cases detached : children.mode = .detached <;> simp [detached]

theorem members_nodup (children : ChildGraph) (parent : NodeId) :
    (children.members parent).Nodup := by
  rw [members, List.nodup_append]
  refine ⟨childIds_nodup children parent, by split <;> simp, ?_⟩
  rintro node isChild other isExit rfl
  split at isExit
  · simp at isExit
  · rw [List.mem_singleton.mp isExit] at isChild
    exact exit_not_mem_childIds children parent isChild

theorem ownSuccessors_eq_nil {children : ChildGraph} {parent : NodeId} {index : Nat} :
    children.ownSuccessors parent index = [] ↔ children.IsSink index := by
  simp [ownSuccessors, IsSink]

/-- What a run relies on in a child graph. -/
structure Sound (children : ChildGraph) : Prop where
  valid : children.Valid
  acyclic : children.Acyclic
  narrow : ∀ index, children.childInDegree index ≤ 2 ^ 16
  narrowExit : children.sinkCount ≤ 2 ^ 16

/-- Dependencies of a member of the subflow. -/
def memberNeed (children : ChildGraph) : NodeId → Nat
  | .child _ index => children.childInDegree index
  | _ => children.sinkCount

theorem edgesInto_ownSuccessors (children : ChildGraph) (parent : NodeId) (index source : Nat) :
    edgesInto (.child parent index) (children.ownSuccessors parent source) =
      children.edges.countP fun edge => edge.source = source ∧ edge.target = index := by
  rw [ownSuccessors, edgesInto, List.countP_map, List.countP_reverse, List.countP_filter]
  refine List.countP_congr fun edge _ => ?_
  simp [toEdge, and_comm]

/-- Summed over all sources, every child edge is counted once. -/
theorem sum_sources {edges : List ChildEdge} {size : Nat}
    (inBounds : ∀ edge ∈ edges, edge.source < size) (index : Nat) :
    ((List.range size).map fun source =>
        edges.countP fun edge => edge.source = source ∧ edge.target = index).sum =
      edges.countP (·.target = index) := by
  induction edges with
  | nil => exact Counting.sum_map_eq_zero fun _ _ => rfl
  | cons edge edges ih =>
      rw [List.forall_mem_cons] at inBounds
      have single := Counting.sum_map_single List.nodup_range (List.mem_range.mpr inBounds.1)
        fun _ => if edge.target = index then 1 else 0
      simp only [List.countP_cons, List.sum_map_add, ih inBounds.2, decide_eq_true_eq]
      rw [← single]
      congr 2
      refine List.map_congr_left fun source _ => ?_
      by_cases isSource : edge.source = source <;> simp [isSource]

/-- A child has the child edges that its own list has, sink or not. -/
theorem edgesInto_childSuccessors (children : ChildGraph) (parent : NodeId)
    (index source : Nat) :
    edgesInto (.child parent index) (children.childSuccessors parent source) =
      edgesInto (.child parent index) (children.ownSuccessors parent source) := by
  simp only [childSuccessors]
  split
  next sink =>
    rw [ownSuccessors_eq_nil.mpr sink.2]
    simp
  next => rfl

theorem edgesInto_exit (children : ChildGraph) (parent : NodeId) (source : Nat) :
    edgesInto (.exit parent) (children.childSuccessors parent source) =
      if children.mode ≠ .detached ∧ children.IsSink source then 1 else 0 := by
  simp only [childSuccessors]
  split
  · simp
  · simp [edgesInto, ownSuccessors, toEdge]

theorem childSuccessors_target {children : ChildGraph} (valid : children.Valid)
    {parent : NodeId} {source : Nat} {edge : SuccessorEdge}
    (member : edge ∈ children.childSuccessors parent source) :
    edge.target ∈ children.members parent := by
  rw [mem_members]
  simp only [childSuccessors] at member
  split at member
  next sink =>
    rw [List.mem_singleton.mp member]
    exact .inr ⟨sink.1, rfl⟩
  next =>
    obtain ⟨childEdge, isEdge, rfl⟩ := List.mem_map.mp member
    rw [List.mem_reverse, List.mem_filter] at isEdge
    exact .inl ⟨childEdge.target, (valid childEdge isEdge.1).2, rfl⟩

/-- Edges into any node from all children together. -/
theorem sum_childSuccessors {children : ChildGraph} (valid : children.Valid)
    (parent target : NodeId) :
    ((List.range children.nodes.length).map fun source =>
        edgesInto target (children.childSuccessors parent source)).sum =
      if target ∈ children.members parent then children.memberNeed target else 0 := by
  split
  next member =>
    rcases mem_members.mp member with ⟨index, -, rfl⟩ | ⟨attached, rfl⟩
    · simp only [edgesInto_childSuccessors, edgesInto_ownSuccessors]
      exact sum_sources (fun edge inEdges => (valid edge inEdges).1) index
    · simp only [edgesInto_exit, attached, ne_eq, not_false_eq_true, true_and, memberNeed,
        sinkCount]
      exact Counting.sum_map_indicator _ _
  next outside =>
    refine Counting.sum_map_eq_zero fun source _ => ?_
    rw [edgesInto, List.countP_eq_zero]
    intro edge member
    have inside := childSuccessors_target valid member
    simp only [decide_eq_true_eq]
    rintro rfl
    exact outside inside

/-- A sound child graph with nodes has a sink. -/
theorem sinkCount_pos {children : ChildGraph} (sound : children.Sound)
    (nonempty : children.nodes ≠ []) : 0 < children.sinkCount := by
  obtain ⟨sink, member, noEdges⟩ := Cycleless.exists_sink sound.acyclic
    (show (Finset.range children.nodes.length).Nonempty from
      Finset.nonempty_range_iff.mpr (by simpa using nonempty))
  rw [sinkCount, List.countP_pos_iff]
  refine ⟨sink, List.mem_range.mpr (Finset.mem_range.mp member), ?_⟩
  simp only [decide_eq_true_eq]
  intro edge inEdges isSource
  exact noEdges edge.target (Finset.mem_range.mpr (sound.valid edge inEdges).2)
    ⟨edge, inEdges, isSource, rfl⟩

end ChildGraph

/-- A node is not one of its own children. -/
theorem NodeId.child_ne (parent : NodeId) (index : Nat) : parent ≠ .child parent index := by
  intro equal
  have sameSize := congrArg sizeOf equal
  simp only [NodeId.child.sizeOf_spec] at sameSize
  omega

theorem NodeId.exit_ne (parent : NodeId) : parent ≠ .exit parent := by
  intro equal
  have sameSize := congrArg sizeOf equal
  simp only [NodeId.exit.sizeOf_spec] at sameSize
  omega

namespace Subflow

/-- The `emplace` calls: fresh child nodes from position `index` on. -/
def emplaceChildren (parent : NodeId) : NodeStore → Nat → List ChildNode → NodeStore
  | store, _, [] => store
  | store, index, child :: rest =>
      emplaceChildren parent
        (store.set (.child parent index) { type := child.type, domain := child.domain })
        (index + 1) rest

/-- `Subflow::addEdge`; it never classifies an edge as loop-back. -/
def addEdge (parent : NodeId) (store : NodeStore) (edge : ChildEdge) : NodeStore :=
  TaskGraph.countEdge
    (TaskGraph.linkEdge store (.child parent edge.source) (ChildGraph.toEdge parent edge))
    (.child parent edge.target)

/-- The loop of `splice` over the children: a child without successors gets an edge
to the exit barrier. -/
def connectSinks (parent : NodeId) : NodeStore → List NodeId → NodeStore
  | store, [] => store
  | store, child :: rest =>
      if (store child).successors = [] then
        connectSinks parent
          (TaskGraph.countEdge (TaskGraph.linkEdge store child { target := .exit parent })
            (.exit parent)) rest
      else
        connectSinks parent store rest

/-- Creation of `subflowExit`; unless the subflow is joined it takes over the
successors of the parent. -/
def createExit (parent : NodeId) (joined : Bool) (store : NodeStore) : NodeStore :=
  let origin := store parent
  if joined then
    store.set (.exit parent) { domain := origin.domain }
  else
    (store.set (.exit parent)
      { domain := origin.domain, successors := origin.successors }).set
        parent { origin with successors := [] }

/-- Everything the callable and `splice` do to nodes before the first child is
scheduled; all of it is private to the executing thread. -/
def spliceStore (store : NodeStore) (parent : NodeId) (children : ChildGraph) : NodeStore :=
  let built := children.edges.foldl (addEdge parent)
    (emplaceChildren parent store 0 children.nodes)
  match children.mode with
  | .detached => built
  | .joined => connectSinks parent (createExit parent true built) (children.childIds parent)
  | .spliced => connectSinks parent (createExit parent false built) (children.childIds parent)

/-! ## Children -/

theorem emplaceChildren_earlier (parent : NodeId) (nodes : List ChildNode) (store : NodeStore)
    (start : Nat) {index : Nat} (earlier : index < start) :
    emplaceChildren parent store start nodes (.child parent index) =
      store (.child parent index) := by
  induction nodes generalizing store start with
  | nil => rfl
  | cons node rest ih =>
      have different : NodeId.child parent index ≠ .child parent start := by
        simp only [ne_eq, NodeId.child.injEq, true_and]
        omega
      rw [emplaceChildren, ih _ _ (by omega), NodeStore.set_of_ne _ _ different]

theorem emplaceChildren_child (parent : NodeId) (nodes : List ChildNode) (store : NodeStore)
    (start index : Nat) (inBounds : index < nodes.length) :
    emplaceChildren parent store start nodes (.child parent (start + index)) =
      { type := nodes[index].type, domain := nodes[index].domain } := by
  induction nodes generalizing store start index with
  | nil => simp at inBounds
  | cons node rest ih =>
      cases index with
      | zero =>
          rw [Nat.add_zero, emplaceChildren, emplaceChildren_earlier _ _ _ _ (by omega)]
          simp
      | succ index =>
          have shifted : start + (index + 1) = start + 1 + index := by omega
          rw [emplaceChildren, shifted, ih _ (start + 1) index (by simpa using inBounds)]
          rfl

theorem emplaceChildren_of_ne (parent : NodeId) (nodes : List ChildNode) (store : NodeStore)
    (start : Nat) {query : NodeId} (other : ∀ index, query ≠ .child parent index) :
    emplaceChildren parent store start nodes query = store query := by
  induction nodes generalizing store start with
  | nil => rfl
  | cons node rest ih =>
      rw [emplaceChildren, ih, NodeStore.set_of_ne _ _ (other start)]

/-! ## Child edges -/

theorem addEdge_of_ne (parent : NodeId) (store : NodeStore) (edge : ChildEdge)
    {query : NodeId} (other : ∀ index, query ≠ .child parent index) :
    addEdge parent store edge query = store query := by
  simp [addEdge, TaskGraph.countEdge, TaskGraph.linkEdge, NodeStore.set_of_ne, other]

theorem addEdges_of_ne (parent : NodeId) (edges : List ChildEdge) (store : NodeStore)
    {query : NodeId} (other : ∀ index, query ≠ .child parent index) :
    edges.foldl (addEdge parent) store query = store query := by
  induction edges generalizing store with
  | nil => rfl
  | cons edge rest ih => rw [List.foldl_cons, ih, addEdge_of_ne _ _ _ other]

/-- One `addEdge` call as a change of the two nodes it touches. -/
theorem addEdge_child (parent : NodeId) (store : NodeStore) (edge : ChildEdge) (index : Nat) :
    addEdge parent store edge (.child parent index) =
      let old := store (.child parent index)
      let degree := u32 (old.initialInDegree + 1)
      { old with
        successors :=
          if edge.source = index then ChildGraph.toEdge parent edge :: old.successors
          else old.successors
        initialInDegree := if edge.target = index then degree else old.initialInDegree
        inDegree := if edge.target = index then degree else old.inDegree } := by
  by_cases isSource : edge.source = index <;> by_cases isTarget : edge.target = index
  · simp [addEdge, TaskGraph.countEdge, TaskGraph.linkEdge, isSource, isTarget]
  · have different : NodeId.child parent index ≠ .child parent edge.target := by
      simpa using Ne.symm isTarget
    simp [addEdge, TaskGraph.countEdge, TaskGraph.linkEdge, NodeStore.set_of_ne, different,
      isSource, isTarget]
  · have different : NodeId.child parent index ≠ .child parent edge.source := by
      simpa using Ne.symm isSource
    simp [addEdge, TaskGraph.countEdge, TaskGraph.linkEdge, NodeStore.set_of_ne, different,
      isSource, isTarget]
  · have fromSource : NodeId.child parent index ≠ .child parent edge.source := by
      simpa using Ne.symm isSource
    have fromTarget : NodeId.child parent index ≠ .child parent edge.target := by
      simpa using Ne.symm isTarget
    simp [addEdge, TaskGraph.countEdge, TaskGraph.linkEdge, NodeStore.set_of_ne, fromSource,
      fromTarget, isSource, isTarget]

/-- A child after all child edges were added to its fresh node. -/
theorem addEdges_child (parent : NodeId) (edges : List ChildEdge) (store : NodeStore)
    (index degree : Nat)
    (counted : (store (.child parent index)).initialInDegree = u32 degree)
    (ready : (store (.child parent index)).inDegree = u32 degree) :
    edges.foldl (addEdge parent) store (.child parent index) =
      let old := store (.child parent index)
      let total := u32 (degree + edges.countP (·.target = index))
      { old with
        successors :=
          ((edges.filter (·.source = index)).reverse).map (ChildGraph.toEdge parent) ++
            old.successors
        initialInDegree := total
        inDegree := total } := by
  induction edges generalizing store degree with
  | nil =>
      cases same : store (.child parent index) with
      | mk domain type state inDegree initialInDegree userData successors =>
          rw [same] at counted ready
          cases counted
          cases ready
          exact same
  | cons edge rest ih =>
      rw [List.foldl_cons]
      have stepped := addEdge_child parent store edge index
      by_cases isTarget : edge.target = index
      · have nextDegree : u32 (u32 degree + 1) = u32 (degree + 1) := by
          simp only [u32]
          omega
        rw [ih _ (degree + 1)
          (by rw [stepped]; simp only [isTarget, ↓reduceIte, counted, nextDegree])
          (by rw [stepped]; simp only [isTarget, ↓reduceIte, counted, nextDegree])]
        rw [stepped]
        by_cases isSource : edge.source = index <;>
          simp [isTarget, isSource, Nat.add_assoc, Nat.add_comm 1]
      · rw [ih _ degree (by rw [stepped]; simpa only [isTarget, ↓reduceIte] using counted)
          (by rw [stepped]; simpa only [isTarget, ↓reduceIte] using ready)]
        rw [stepped]
        by_cases isSource : edge.source = index <;> simp [isTarget, isSource]

/-! ## Sinks -/

theorem connectSinks_of_ne (parent : NodeId) (children : List NodeId) (store : NodeStore)
    {query : NodeId} (other : query ∉ children) (notExit : query ≠ .exit parent) :
    connectSinks parent store children query = store query := by
  induction children generalizing store with
  | nil => rfl
  | cons child rest ih =>
      rw [List.mem_cons, not_or] at other
      simp only [connectSinks]
      split
      · rw [ih _ other.2]
        simp [TaskGraph.countEdge, TaskGraph.linkEdge, NodeStore.set_of_ne, other.1, notExit]
      · exact ih _ other.2

/-- A sink gets its only edge here; the other children keep theirs. -/
theorem connectSinks_child (parent : NodeId) (children : List NodeId) (store : NodeStore)
    (distinct : children.Nodup) (noExit : .exit parent ∉ children) {child : NodeId}
    (member : child ∈ children) :
    connectSinks parent store children child =
      { store child with
        successors :=
          if (store child).successors = [] then [{ target := .exit parent }]
          else (store child).successors } := by
  induction children generalizing store with
  | nil => simp at member
  | cons head rest ih =>
      rw [List.nodup_cons] at distinct
      rw [List.mem_cons, not_or] at noExit
      have notExit : child ≠ .exit parent := by
        rintro rfl
        exact (List.mem_cons.mp member).elim noExit.1 noExit.2
      by_cases isHead : child = head
      · subst isHead
        simp only [connectSinks]
        split
        next sink =>
          rw [connectSinks_of_ne _ _ _ distinct.1 notExit]
          simp [TaskGraph.countEdge, TaskGraph.linkEdge, NodeStore.set_of_ne, notExit, sink]
        next => exact connectSinks_of_ne _ _ _ distinct.1 notExit
      · have inRest := (List.mem_cons.mp member).resolve_left isHead
        simp only [connectSinks]
        split
        · have same : TaskGraph.countEdge
              (TaskGraph.linkEdge store head { target := .exit parent }) (.exit parent) child =
                store child := by
            simp [TaskGraph.countEdge, TaskGraph.linkEdge, NodeStore.set_of_ne, notExit, isHead]
          rw [ih _ distinct.2 noExit.2 inRest, same]
        · exact ih _ distinct.2 noExit.2 inRest

/-- The barrier counts the sinks. -/
theorem connectSinks_exit (parent : NodeId) (children : List NodeId) (store : NodeStore)
    (distinct : children.Nodup) (noExit : .exit parent ∉ children) (degree : Nat)
    (counted : (store (.exit parent)).initialInDegree = u32 degree)
    (ready : (store (.exit parent)).inDegree = u32 degree) :
    connectSinks parent store children (.exit parent) =
      let total := u32 (degree + children.countP fun child => (store child).successors = [])
      { store (.exit parent) with initialInDegree := total, inDegree := total } := by
  induction children generalizing store degree with
  | nil =>
      cases same : store (.exit parent) with
      | mk domain type state inDegree initialInDegree userData successors =>
          rw [same] at counted ready
          cases counted
          cases ready
          exact same
  | cons head rest ih =>
      rw [List.nodup_cons] at distinct
      rw [List.mem_cons, not_or] at noExit
      simp only [connectSinks]
      split
      next sink =>
        have nextDegree : u32 (u32 degree + 1) = u32 (degree + 1) := by
          simp only [u32]
          omega
        have linked : TaskGraph.countEdge
            (TaskGraph.linkEdge store head { target := .exit parent }) (.exit parent)
              (.exit parent) =
            { store (.exit parent) with
              initialInDegree := u32 (degree + 1)
              inDegree := u32 (degree + 1) } := by
          simp [TaskGraph.countEdge, TaskGraph.linkEdge, NodeStore.set_of_ne, noExit.1, counted,
            nextDegree]
        have others : rest.countP (fun child => (TaskGraph.countEdge
              (TaskGraph.linkEdge store head { target := .exit parent }) (.exit parent)
                child).successors = []) =
            rest.countP fun child => (store child).successors = [] := by
          refine List.countP_congr fun child member => ?_
          have notHead : child ≠ head := fun equal => distinct.1 (equal ▸ member)
          have notExit : child ≠ .exit parent := fun equal => noExit.2 (equal ▸ member)
          simp [TaskGraph.countEdge, TaskGraph.linkEdge, NodeStore.set_of_ne, notHead, notExit]
        rw [ih _ distinct.2 noExit.2 (degree + 1) (by rw [linked]) (by rw [linked]), others, linked]
        simp [sink, Nat.add_assoc, Nat.add_comm 1]
      next notSink =>
        rw [ih _ distinct.2 noExit.2 degree counted ready]
        simp [notSink]

/-! ## The whole splice -/

/-- The child nodes and their edges, before `splice` looks at them. -/
theorem build_child (store : NodeStore) (parent : NodeId) (children : ChildGraph) {index : Nat}
    (inBounds : index < children.nodes.length) :
    children.edges.foldl (addEdge parent) (emplaceChildren parent store 0 children.nodes)
        (.child parent index) =
      { type := children.nodes[index].type
        domain := children.nodes[index].domain
        successors := children.ownSuccessors parent index
        initialInDegree := u32 (children.childInDegree index)
        inDegree := u32 (children.childInDegree index) } := by
  have fresh := emplaceChildren_child parent children.nodes store 0 index inBounds
  rw [Nat.zero_add] at fresh
  rw [addEdges_child parent children.edges _ index 0 (by rw [fresh]; rfl) (by rw [fresh]; rfl),
    fresh]
  simp [ChildGraph.ownSuccessors, ChildGraph.childInDegree]

theorem build_of_ne (store : NodeStore) (parent : NodeId) (children : ChildGraph)
    {query : NodeId} (other : ∀ index, query ≠ .child parent index) :
    children.edges.foldl (addEdge parent) (emplaceChildren parent store 0 children.nodes) query =
      store query := by
  rw [addEdges_of_ne _ _ _ other, emplaceChildren_of_ne _ _ _ _ other]

theorem createExit_exit (parent : NodeId) (joined : Bool) (store : NodeStore) :
    createExit parent joined store (.exit parent) =
      { domain := (store parent).domain
        successors := if joined then [] else (store parent).successors } := by
  cases joined with
  | true => simp [createExit]
  | false => simp [createExit, NodeStore.set_of_ne _ _ (NodeId.exit_ne parent).symm]

theorem createExit_parent (parent : NodeId) (joined : Bool) (store : NodeStore) :
    createExit parent joined store parent =
      { store parent with successors := if joined then (store parent).successors else [] } := by
  cases joined with
  | true => simp [createExit, NodeStore.set_of_ne _ _ (NodeId.exit_ne parent)]
  | false => simp [createExit]

theorem createExit_of_ne (parent : NodeId) (joined : Bool) (store : NodeStore)
    {query : NodeId} (notParent : query ≠ parent) (notExit : query ≠ .exit parent) :
    createExit parent joined store query = store query := by
  cases joined <;> simp [createExit, NodeStore.set_of_ne, notParent, notExit]

/-- A child node when the first root is scheduled. -/
theorem spliceStore_child (store : NodeStore) (parent : NodeId) (children : ChildGraph)
    {index : Nat} (inBounds : index < children.nodes.length) :
    spliceStore store parent children (.child parent index) =
      { type := children.nodes[index].type
        domain := children.nodes[index].domain
        successors := children.childSuccessors parent index
        initialInDegree := u32 (children.childInDegree index)
        inDegree := u32 (children.childInDegree index) } := by
  have built := build_child store parent children inBounds
  have connected (joined : Bool) (attached : children.mode ≠ .detached) :
      connectSinks parent (createExit parent joined
          (children.edges.foldl (addEdge parent) (emplaceChildren parent store 0 children.nodes)))
          (children.childIds parent) (.child parent index) =
        { type := children.nodes[index].type
          domain := children.nodes[index].domain
          successors := children.childSuccessors parent index
          initialInDegree := u32 (children.childInDegree index)
          inDegree := u32 (children.childInDegree index) } := by
    rw [connectSinks_child _ _ _ (children.childIds_nodup parent)
        (children.exit_not_mem_childIds parent) (ChildGraph.mem_childIds.mpr ⟨_, inBounds, rfl⟩),
      createExit_of_ne _ _ _ (NodeId.child_ne parent index).symm (by simp), built]
    simp [ChildGraph.childSuccessors, ChildGraph.ownSuccessors_eq_nil, attached]
  cases mode : children.mode with
  | spliced => simpa only [spliceStore, mode] using connected false (by simp [mode])
  | joined => simpa only [spliceStore, mode] using connected true (by simp [mode])
  | detached =>
      simp only [spliceStore, mode, built]
      simp [ChildGraph.childSuccessors, mode]

/-- The exit barrier when the first root is scheduled. -/
theorem spliceStore_exit (store : NodeStore) (parent : NodeId) (children : ChildGraph)
    (attached : children.mode ≠ .detached) :
    spliceStore store parent children (.exit parent) =
      { domain := (store parent).domain
        successors := if children.mode = .joined then [] else (store parent).successors
        initialInDegree := u32 children.sinkCount
        inDegree := u32 children.sinkCount } := by
  have connected (joined : Bool) :
      connectSinks parent (createExit parent joined
          (children.edges.foldl (addEdge parent) (emplaceChildren parent store 0 children.nodes)))
          (children.childIds parent) (.exit parent) =
        { domain := (store parent).domain
          successors := if joined then [] else (store parent).successors
          initialInDegree := u32 children.sinkCount
          inDegree := u32 children.sinkCount } := by
    have sinks : (children.childIds parent).countP (fun child => (createExit parent joined
            (children.edges.foldl (addEdge parent)
              (emplaceChildren parent store 0 children.nodes)) child).successors = []) =
          children.sinkCount := by
      rw [ChildGraph.childIds, List.countP_map, ChildGraph.sinkCount]
      refine List.countP_congr fun index member => ?_
      have inBounds := List.mem_range.mp member
      simp [createExit_of_ne _ _ _ (NodeId.child_ne parent index).symm (by simp),
        build_child store parent children inBounds, ChildGraph.ownSuccessors_eq_nil]
    rw [connectSinks_exit _ _ _ (children.childIds_nodup parent)
        (children.exit_not_mem_childIds parent) 0 (by rw [createExit_exit]; rfl)
        (by rw [createExit_exit]; rfl), createExit_exit,
      build_of_ne _ _ _ (NodeId.child_ne parent), sinks, Nat.zero_add]
  cases mode : children.mode with
  | spliced => simpa [spliceStore, mode] using connected false
  | joined => simpa [spliceStore, mode] using connected true
  | detached => exact absurd mode attached

/-- The subflow node itself: its successors moved to the exit, unless it keeps them. -/
theorem spliceStore_parent (store : NodeStore) (parent : NodeId) (children : ChildGraph) :
    spliceStore store parent children parent =
      { store parent with
        successors := if children.mode = .spliced then [] else (store parent).successors } := by
  have notChild : parent ∉ children.childIds parent := fun member => by
    obtain ⟨index, -, equal⟩ := ChildGraph.mem_childIds.mp member
    exact NodeId.child_ne parent index equal
  have built := build_of_ne store parent children (NodeId.child_ne parent)
  have connected (joined : Bool) :
      connectSinks parent (createExit parent joined
          (children.edges.foldl (addEdge parent) (emplaceChildren parent store 0 children.nodes)))
          (children.childIds parent) parent =
        { store parent with
          successors := if joined then (store parent).successors else [] } := by
    rw [connectSinks_of_ne _ _ _ notChild (NodeId.exit_ne parent), createExit_parent, built]
  cases mode : children.mode with
  | spliced => simpa [spliceStore, mode] using connected false
  | joined => simpa [spliceStore, mode] using connected true
  | detached => simpa [spliceStore, mode] using built

/-- Everything else is left alone. -/
theorem spliceStore_of_ne (store : NodeStore) (parent : NodeId) (children : ChildGraph)
    {query : NodeId} (notParent : query ≠ parent) (notMember : query ∉ children.members parent)
    (notChild : ∀ index, query ≠ .child parent index) :
    spliceStore store parent children query = store query := by
  have notListed : query ∉ children.childIds parent := fun member => by
    obtain ⟨index, -, equal⟩ := ChildGraph.mem_childIds.mp member
    exact notChild index equal
  have built := build_of_ne store parent children notChild
  cases mode : children.mode with
  | detached => simpa only [spliceStore, mode] using built
  | spliced | joined =>
      have notExit : query ≠ .exit parent := by
        rintro rfl
        exact notMember (ChildGraph.mem_members.mpr (.inr ⟨by simp [mode], rfl⟩))
      simp only [spliceStore, mode]
      rw [connectSinks_of_ne _ _ _ notListed notExit, createExit_of_ne _ _ _ notParent notExit,
        built]

end Subflow

end LightFlow
