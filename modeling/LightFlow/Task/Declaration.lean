import LightFlow.Task.Wiring

/-!
# The order of declarations

`addEdge` decides once, from the edges present at that moment, whether its edge closes a
loop.  The first edge between two nodes never does, so only self-loops are classified the
same way in every order.
-/

namespace LightFlow

/-- The arguments of one call of `addEdge`. -/
structure EdgeCall where
  source : NodeId
  target : NodeId
  branch : Int := -1
  deriving DecidableEq, Repr

namespace TaskGraph

/-- Call `addEdge` for each of `calls`, in this order. -/
def declareEdges (graph : TaskGraph) (calls : List EdgeCall) : TaskGraph :=
  calls.foldl (fun graph call => graph.addEdge call.source call.target call.branch) graph

/-- Some call joins the two nodes. -/
def Declares (calls : List EdgeCall) (source target : NodeId) : Prop :=
  ∃ call ∈ calls, call.source = source ∧ call.target = target

/-- A successor edge that is not loop-back. -/
def Forward (graph : TaskGraph) (source target : NodeId) : Prop :=
  ∃ edge ∈ (graph.node source).successors, edge.isLoopBack = false ∧ edge.target = target

/-- Every directed cycle of the calls passes through an edge that leaves a condition. -/
def ConditionsCut (graph : TaskGraph) (calls : List EdgeCall) : Prop :=
  Cycleless fun source target =>
    Declares calls source target ∧ (graph.node source).type ≠ .condition

/-- In every order of the calls the edges are classified alike, in-degrees are the same, and
the edges that are not loop-back contain no cycle. -/
def OrderFree (graph : TaskGraph) (calls : List EdgeCall) : Prop :=
  ∀ first second : List EdgeCall, first.Perm calls → second.Perm calls →
    (∀ node, ((graph.declareEdges first).node node).successors.Perm
      ((graph.declareEdges second).node node).successors) ∧
    (∀ node, ((graph.declareEdges first).node node).initialInDegree =
      ((graph.declareEdges second).node node).initialInDegree) ∧
    Cycleless (graph.declareEdges first).Forward

/-- Two different nodes are joined. -/
def Joins (calls : List EdgeCall) (source target : NodeId) : Prop :=
  source ≠ target ∧ Declares calls source target

theorem addEdge_type (graph : TaskGraph) (source target : NodeId) (branch : Int) (node : NodeId) :
    ((graph.addEdge source target branch).node node).type = (graph.node node).type := by
  have linked (store : NodeStore) (edge : SuccessorEdge) :
      (linkEdge store source edge node).type = (store node).type := by
    by_cases isSource : node = source
    · subst isSource
      simp [linkEdge]
    · simp [linkEdge, NodeStore.set_of_ne, isSource]
  have counted (store : NodeStore) : (countEdge store target node).type = (store node).type := by
    by_cases isTarget : node = target
    · subst isTarget
      simp [countEdge]
    · simp [countEdge, NodeStore.set_of_ne, isTarget]
  simp only [addEdge]
  split
  · exact linked _ _
  · rw [counted, linked]

/-- Steps from a node to itself can be left out of a path. -/
theorem reaches_of_declares {calls : List EdgeCall} {first last : NodeId}
    (path : Relation.ReflTransGen (Declares calls) first last) :
    Relation.ReflTransGen (Joins calls) first last := by
  induction path with
  | refl => exact .refl
  | @tail middle last _ declares ih =>
      by_cases same : middle = last
      · exact same ▸ ih
      · exact ih.tail ⟨same, declares⟩

theorem precedes_addEdge {graph : TaskGraph} {calls : List EdgeCall} {call : EdgeCall}
    (declared : ∀ source target, Precedes graph.node source target → Declares calls source target)
    (member : call ∈ calls) (source target : NodeId)
    (precedes : Precedes (graph.addEdge call.source call.target call.branch).node source target) :
    Declares calls source target := by
  obtain ⟨edge, inEdges, isTarget⟩ := precedes
  rw [addEdge_successors] at inEdges
  split at inEdges
  next isSource =>
    rcases List.mem_cons.mp inEdges with rfl | old
    · exact ⟨call, member, isSource.symm, isTarget⟩
    · exact declared source target ⟨edge, old, isTarget⟩
  next => exact declared source target ⟨edge, inEdges, isTarget⟩

/-- When only self-loops close cycles, exactly these are loop-back. -/
theorem newEdge_isLoopBack {graph : TaskGraph} {calls : List EdgeCall} {call : EdgeCall}
    (cut : graph.ConditionsCut calls) (cycleless : Cycleless (Joins calls))
    (declared : ∀ source target, Precedes graph.node source target → Declares calls source target)
    (member : call ∈ calls) :
    (graph.newEdge call.source call.target call.branch).isLoopBack =
      decide (call.source = call.target) := by
  by_cases same : call.source = call.target
  · have isCondition : (graph.node call.source).type = .condition := by
      by_contra notCondition
      exact cut call.source (.single ⟨⟨call, member, rfl, same.symm⟩, notCondition⟩)
    rw [same] at isCondition
    simp [newEdge, closesLoop, reaches, isCondition, same]
  · rw [decide_eq_false same, Bool.eq_false_iff]
    intro isLoop
    have path := reaches_of_declares (Relation.ReflTransGen.mono
      (precedes_addEdge declared member) _ _ (newEdge_loops isLoop))
    exact cycleless call.source (.head' ⟨same, call, member, rfl, rfl⟩ path)

/-- The edge of a call when exactly self-loops are loop-back. -/
def loopEdge (call : EdgeCall) : SuccessorEdge :=
  { target := call.target
    branch := call.branch
    isLoopBack := decide (call.source = call.target) }

/-- One more edge into a node. -/
def countOne (inDegree : Nat) : Nat := u32 (inDegree + 1)

/-- When only self-loops close cycles, the order of the calls shows in the order of the
successor lists and nowhere else. -/
theorem declareEdges_node {graph : TaskGraph} {calls : List EdgeCall}
    (cut : graph.ConditionsCut calls) (cycleless : Cycleless (Joins calls))
    (declared : ∀ source target, Precedes graph.node source target → Declares calls source target)
    {todo : List EdgeCall} (part : ∀ call ∈ todo, call ∈ calls) (node : NodeId) :
    ((graph.declareEdges todo).node node).successors =
        ((todo.filter fun call => call.source = node).map loopEdge).reverse ++
          (graph.node node).successors ∧
      ((graph.declareEdges todo).node node).initialInDegree =
        countOne^[todo.countP fun call => call.source ≠ call.target ∧ call.target = node]
          (graph.node node).initialInDegree := by
  induction todo generalizing graph with
  | nil => exact ⟨rfl, rfl⟩
  | cons call todo ih =>
      rw [List.forall_mem_cons] at part
      have loops := newEdge_isLoopBack cut cycleless declared part.1
      have isEdge : graph.newEdge call.source call.target call.branch = loopEdge call := by
        rw [newEdge] at loops ⊢
        rw [loopEdge, ← loops]
      have cutNext : (graph.addEdge call.source call.target call.branch).ConditionsCut calls := by
        simpa only [ConditionsCut, addEdge_type] using cut
      obtain ⟨successors, inDegree⟩ := ih cutNext (precedes_addEdge declared part.1) part.2
      refine ⟨successors.trans ?_, inDegree.trans ?_⟩
      · rw [addEdge_successors, isEdge]
        by_cases isSource : call.source = node
        · simp [isSource]
        · simp [isSource, Ne.symm isSource]
      · rw [addEdge_initialInDegree, loops]
        by_cases counts : call.source ≠ call.target ∧ call.target = node
        · obtain ⟨different, rfl⟩ := counts
          rw [if_pos ⟨decide_eq_false different, rfl⟩,
            List.countP_cons_of_pos (by simpa using different), Function.iterate_succ_apply]
          rfl
        · have notCounted : ¬ (decide (call.source = call.target) = false ∧
              node = call.target) := by
            simpa [eq_comm] using counts
          rw [if_neg notCounted, List.countP_cons_of_neg (by simpa using counts)]

/-- Edges are never taken back. -/
theorem mem_declareEdges {graph : TaskGraph} {node : NodeId} {edge : SuccessorEdge}
    (member : edge ∈ (graph.node node).successors) (calls : List EdgeCall) :
    edge ∈ ((graph.declareEdges calls).node node).successors := by
  induction calls generalizing graph with
  | nil => exact member
  | cons call calls ih =>
      refine ih ?_
      rw [addEdge_successors]
      split
      · exact List.mem_cons_of_mem _ member
      · exact member

/-- The first edge of a graph is loop-back only when it is a self-loop. -/
theorem newEdge_first {graph : TaskGraph} (edgeless : ∀ node, (graph.node node).successors = [])
    {source target : NodeId} (different : source ≠ target) (branch : Int) :
    (graph.newEdge source target branch).isLoopBack = false := by
  rw [Bool.eq_false_iff]
  intro isLoop
  rcases (newEdge_loops isLoop).cases_head with same | ⟨next, ⟨edge, inEdges, -⟩, -⟩
  · exact different same.symm
  · rw [addEdge_successors, if_neg (Ne.symm different), edgeless] at inEdges
    simp at inEdges

/-- Whatever the number of nodes and edges: the order of the calls does not matter exactly
when all directed cycles are self-loops. -/
theorem orderFree_iff {graph : TaskGraph} (edgeless : ∀ node, (graph.node node).successors = [])
    {calls : List EdgeCall} (cut : graph.ConditionsCut calls) :
    graph.OrderFree calls ↔ Cycleless (Joins calls) := by
  constructor
  · intro orderFree
    refine (orderFree calls calls (.refl _) (.refl _)).2.2.mono ?_
    rintro source target ⟨different, call, member, rfl, rfl⟩
    have moved : (call :: calls.erase call).Perm calls := (List.perm_cons_erase member).symm
    have first : graph.newEdge call.source call.target call.branch ∈
        ((graph.declareEdges (call :: calls.erase call)).node call.source).successors := by
      have linked : graph.newEdge call.source call.target call.branch ∈
          ((graph.addEdge call.source call.target call.branch).node call.source).successors := by
        rw [addEdge_successors, if_pos rfl]
        exact List.mem_cons_self ..
      exact mem_declareEdges linked (calls.erase call)
    have same := (orderFree _ calls moved (.refl _)).1 call.source
    exact ⟨_, same.mem_iff.mp first, newEdge_first edgeless different _, rfl⟩
  · intro cycleless first second isFirst isSecond
    have declared (source target : NodeId) (precedes : Precedes graph.node source target) :
        Declares calls source target := by
      obtain ⟨edge, inEdges, -⟩ := precedes
      simp [edgeless] at inEdges
    have firstNode := declareEdges_node cut cycleless declared fun call => isFirst.mem_iff.mp
    have secondNode := declareEdges_node cut cycleless declared fun call => isSecond.mem_iff.mp
    have permuted := isFirst.trans isSecond.symm
    refine ⟨fun node => ?_, fun node => ?_, cycleless.mono ?_⟩
    · rw [(firstNode node).1, (secondNode node).1]
      refine List.Perm.append_right _ ?_
      exact ((List.reverse_perm _).trans ((permuted.filter _).map _)).trans
        (List.reverse_perm _).symm
    · rw [(firstNode node).2, (secondNode node).2, permuted.countP_eq]
    · rintro source target ⟨edge, inEdges, isForward, rfl⟩
      rw [(firstNode source).1, edgeless, List.append_nil, List.mem_reverse, List.mem_map]
        at inEdges
      obtain ⟨call, member, rfl⟩ := inEdges
      rw [List.mem_filter, decide_eq_true_eq] at member
      exact ⟨fun same => of_decide_eq_false isForward (member.2.trans same),
        call, isFirst.mem_iff.mp member.1, member.2, rfl⟩

/-! ## Examples -/

/-- A condition and a static node. -/
def conditionAndTask : TaskGraph :=
  (({} : TaskGraph).emplace .condition .worker).emplace .static .worker

theorem conditionAndTask_edgeless (node : NodeId) :
    (conditionAndTask.node node).successors = [] := by
  by_cases first : node = .node 0
  · subst first
    rfl
  · by_cases second : node = .node 1
    · subst second
      rfl
    · simp [conditionAndTask, emplace, createNode, appendNode, NodeStore.set_of_ne, first, second,
        u32]

/-- Branch 0 of the condition leads to the task, and the task back to the condition. -/
def thereAndBack : List EdgeCall :=
  [{ source := .node 0, target := .node 1, branch := 0 }, { source := .node 1, target := .node 0 }]

/-- Closed last, the edge of the condition is loop-back and the task starts.  Declared first
it is not, and both nodes wait for each other. -/
theorem not_orderFree : conditionAndTask.ConditionsCut thereAndBack ∧
    ¬ conditionAndTask.OrderFree thereAndBack := by
  constructor
  · let value (node : NodeId) : Nat := if node = .node 0 then 1 else 0
    refine Cycleless.of_increasing (fun source target related => (?_ : value source < value target))
    obtain ⟨⟨call, member, rfl, rfl⟩, notCondition⟩ := related
    simp only [thereAndBack, List.mem_cons, List.not_mem_nil, or_false] at member
    rcases member with rfl | rfl
    · exact absurd rfl notCondition
    · decide
  · intro orderFree
    have same := (orderFree thereAndBack thereAndBack.reverse (.refl _)
      (List.reverse_perm _)).2.1 (.node 1)
    exact absurd same (by decide)

/-- A condition that may repeat itself before it goes on. -/
theorem orderFree_selfLoop : conditionAndTask.OrderFree
    [{ source := .node 0, target := .node 0, branch := 0 },
      { source := .node 0, target := .node 1, branch := 1 }] := by
  refine (orderFree_iff conditionAndTask_edgeless ?_).mpr ?_
  · rintro node cycle
    obtain ⟨_, ⟨⟨call, member, rfl, -⟩, notCondition⟩, -⟩ := Relation.TransGen.head'_iff.mp cycle
    simp only [List.mem_cons, List.not_mem_nil, or_false] at member
    rcases member with rfl | rfl <;> exact notCondition rfl
  · let value (node : NodeId) : Nat := if node = .node 1 then 1 else 0
    refine Cycleless.of_increasing (fun source target joins => (?_ : value source < value target))
    obtain ⟨different, call, member, rfl, rfl⟩ := joins
    simp only [List.mem_cons, List.not_mem_nil, or_false] at member
    rcases member with rfl | rfl
    · exact absurd rfl different
    · decide

end TaskGraph

end LightFlow
