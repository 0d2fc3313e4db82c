import LightFlow.Task.Declaration
import LightFlow.Task.Straight

/-!
# Loops of a graph

Loop-back edges leave conditions, and the other edges contain no cycle.  The body of a loop
lies on the forward paths from its target to its condition; taking the loop-back edge makes
all of it pending again.
-/

namespace LightFlow

namespace TaskGraph

/-- What a run with loops relies on in its graph. -/
structure Looped (graph : TaskGraph) : Prop where
  acyclic : Cycleless graph.Forward
  plain : ∀ node, (graph.node node).type ≠ .subflow
  distinct : graph.order.Nodup
  count : graph.m_nodeCount = graph.order.length
  bound : graph.m_nodeCount < 2 ^ 32
  strays : ∀ node, node ∉ graph.order → (graph.node node).successors = []
  targets : ∀ node, ∀ edge ∈ (graph.node node).successors, edge.target ∈ graph.order
  conditions : ∀ node, ∀ edge ∈ (graph.node node).successors, edge.isLoopBack = true →
    (graph.node node).type = .condition
  degree : ∀ node, (graph.node node).initialInDegree =
    (graph.order.map fun source => forwardInto node (graph.node source).successors).sum
  narrow : ∀ node, (graph.node node).initialInDegree ≤ 65535

/-- The nodes on forward paths from `target` to `source`. -/
def Body (graph : TaskGraph) (source target node : NodeId) : Prop :=
  Relation.ReflTransGen graph.Forward target node ∧ Relation.ReflTransGen graph.Forward node source

/-- The loop-back edge from `source` to `target` collects the body of its loop. -/
def Collects (graph : TaskGraph) (source target : NodeId) : Prop :=
  ∀ node, node ∈ cycleNodes graph.node source target ↔ graph.Body source target node

/-- Forward edges leave the body of the loop at its condition only. -/
def LeftAtSource (graph : TaskGraph) (source target : NodeId) : Prop :=
  ∀ node, graph.Body source target node → node ≠ source → ∀ next, graph.Forward node next →
    graph.Body source target next

/-- Forward edges enter the body of the loop at its target only. -/
def EnteredAtTarget (graph : TaskGraph) (source target : NodeId) : Prop :=
  ∀ node, graph.Body source target node → node ≠ target → ∀ previous,
    graph.Forward previous node → graph.Body source target previous

theorem forwardInto_pos {graph : TaskGraph} {source target : NodeId} :
    0 < forwardInto target (graph.node source).successors ↔ graph.Forward source target := by
  simp [forwardInto, List.countP_pos_iff, Forward, and_comm]

namespace Looped

variable {graph : TaskGraph} {source target node : NodeId}

/-- An edge leads on, never back. -/
theorem not_forward_back (looped : graph.Looped)
    (path : Relation.ReflTransGen graph.Forward target node) :
    ¬ graph.Forward node target := fun back =>
  looped.acyclic target (Relation.TransGen.tail' path back)

/-- A node of the body other than its target has a forward edge into it. -/
theorem degree_pos (looped : graph.Looped) (inBody : graph.Body source target node)
    (inside : node ≠ target) : 0 < (graph.node node).initialInDegree := by
  obtain same | ⟨previous, path, last⟩ := Relation.ReflTransGen.cases_tail inBody.1
  · exact absurd same inside
  · rw [looped.degree, Counting.sum_map_pos]
    refine ⟨previous, ?_, forwardInto_pos.mpr last⟩
    by_contra stray
    obtain ⟨edge, member, -⟩ := last
    rw [looped.strays previous stray] at member
    simp at member

end Looped

end TaskGraph

/-! ## Collecting a loop -/

theorem reaches_congr {store other : NodeStore}
    (same : ∀ node, (store node).successors = (other node).successors) (start target : NodeId) :
    reaches store start target = reaches other start target := by
  have loop (fuel head : Nat) (visited : List NodeId) :
      reachesLoop store target fuel head visited = reachesLoop other target fuel head visited := by
    induction fuel generalizing head visited with
    | zero => rfl
    | succ fuel ih => simp only [reachesLoop, same, ih]
  simp only [reaches, loop]

theorem cycleNodes_congr {store other : NodeStore}
    (same : ∀ node, (store node).successors = (other node).successors) (source target : NodeId) :
    cycleNodes store source target = cycleNodes other source target := by
  have scan (edges : List SuccessorEdge) (cycle : List NodeId) :
      scanCycle store source edges cycle = scanCycle other source edges cycle := by
    induction edges generalizing cycle with
    | nil => rfl
    | cons edge edges ih => simp only [scanCycle, reaches_congr same, ih]
  have collect (fuel head : Nat) (cycle : List NodeId) :
      collectLoop store source fuel head cycle = collectLoop other source fuel head cycle := by
    induction fuel generalizing head cycle with
    | zero => rfl
    | succ fuel ih => simp only [collectLoop, same, scan, ih]
  simp only [cycleNodes, collect]

theorem scanCycle_nodup {store : NodeStore} {source : NodeId} (edges : List SuccessorEdge)
    {cycle : List NodeId} (distinct : cycle.Nodup) :
    (scanCycle store source edges cycle).Nodup := by
  induction edges generalizing cycle with
  | nil => exact distinct
  | cons edge edges ih =>
      simp only [scanCycle]
      split
      next found =>
        simp only [Bool.and_eq_true, Bool.not_eq_true', List.contains_eq_mem] at found
        refine ih (List.nodup_append.mpr ⟨distinct, by simp, fun node member other isEdge => ?_⟩)
        rintro rfl
        simp_all
      next => exact ih distinct

theorem cycleNodes_nodup (store : NodeStore) (source target : NodeId) :
    (cycleNodes store source target).Nodup := by
  have collect (fuel head : Nat) (cycle : List NodeId) (distinct : cycle.Nodup) :
      (collectLoop store source fuel head cycle).Nodup := by
    induction fuel generalizing head cycle with
    | zero => exact distinct
    | succ fuel ih =>
        simp only [collectLoop]
        split
        next => exact distinct
        next => exact ih _ _ (scanCycle_nodup _ distinct)
  rw [cycleNodes]
  split
  · simp
  · exact collect _ _ _ (by simp)

theorem subset_scanCycle {store : NodeStore} {source : NodeId} (edges : List SuccessorEdge)
    (cycle : List NodeId) : cycle ⊆ scanCycle store source edges cycle := by
  induction edges generalizing cycle with
  | nil => exact fun _ => id
  | cons edge edges ih =>
      simp only [scanCycle]
      split
      next => exact fun _ member => ih _ (List.mem_append_left _ member)
      next => exact ih cycle

theorem subset_collectLoop {store : NodeStore} {source : NodeId} (fuel head : Nat)
    (cycle : List NodeId) : cycle ⊆ collectLoop store source fuel head cycle := by
  induction fuel generalizing head cycle with
  | zero => exact fun _ => id
  | succ fuel ih =>
      simp only [collectLoop]
      split
      next => exact fun _ => id
      next => exact fun _ member => ih _ _ (subset_scanCycle _ _ member)

/-- The target of the loop-back edge is collected first. -/
theorem mem_cycleNodes (store : NodeStore) (source target : NodeId) :
    target ∈ cycleNodes store source target := by
  rw [cycleNodes]
  split
  next same => simp [same]
  next => exact subset_collectLoop _ _ _ (List.mem_singleton_self target)

/-! ## Calls that make a loop pending again -/

/-- Target of the loop-back edge that a completed condition takes. -/
def loopBack (node : TaskNode) : Option NodeId :=
  if node.type = .condition then
    (node.successors.find? fun edge =>
      (edge.branch = -1 ∨ edge.branch = node.userData) && edge.isLoopBack).map (·.target)
  else none

/-- The target belongs to a loop-back edge of the branch that was chosen. -/
theorem exists_loopBack {node : TaskNode} {target : NodeId} (loops : target ∈ loopBack node) :
    node.type = .condition ∧ ∃ edge ∈ node.successors, edge.isLoopBack = true ∧
      (edge.branch = -1 ∨ edge.branch = node.userData) ∧ edge.target = target := by
  simp only [loopBack] at loops
  split at loops
  next isCondition =>
    obtain ⟨edge, found, rfl⟩ := Option.map_eq_some_iff.mp loops
    have taken := List.find?_some found
    simp only [Bool.and_eq_true, decide_eq_true_eq] at taken
    exact ⟨isCondition, edge, List.mem_of_find?_eq_some found, taken.2, taken.1, rfl⟩
  next => simp at loops

theorem unblockSuccessors_of_loopBack {store : NodeStore} {node target : NodeId}
    (loops : loopBack (store node) = some target) :
    unblockSuccessors store node = .resetting node target (cycleNodes store node target)
      (cycleNodes store node target).length := by
  simp only [loopBack] at loops
  split at loops
  next isCondition =>
    obtain ⟨edge, found, rfl⟩ := Option.map_eq_some_iff.mp loops
    simp only [unblockSuccessors, isCondition, found]
  next => simp at loops

theorem not_loopsBack {store : NodeStore} {node : NodeId}
    (conditions : ∀ edge ∈ (store node).successors, edge.isLoopBack = true →
      (store node).type = .condition) (straight : loopBack (store node) = none) :
    ¬ LoopsBack store node := by
  rintro ⟨edge, member, isLoop, taken⟩
  have isCondition := conditions edge member isLoop
  simp only [loopBack, isCondition, ↓reduceIte, Option.map_eq_none_iff, List.find?_eq_none]
    at straight
  refine straight edge member ?_
  simpa [takes, chosenBranch, isCondition, isLoop] using taken

/-- A loop of which `done` is pending again, as far as the stores are concerned. -/
structure Rearming (graph : TaskGraph) (store : NodeStore) (source target : NodeId)
    (done todo : List NodeId) (cycleCount : Nat) : Prop where
  leaves : graph.LeftAtSource source target
  path : Relation.ReflTransGen graph.Forward target source
  distinct : (done ++ todo).Nodup
  body : ∀ node, node ∈ done ++ todo ↔ graph.Body source target node
  count : cycleCount = (done ++ todo).length
  reset : ∀ node ∈ done, node ≠ target →
    (store node).inDegree = (graph.node node).initialInDegree

/-- A call that resets a loop, which is an `allowed` one, has all of its body to reset. -/
def Frame.Rearms (graph : TaskGraph) (allowed : NodeId → NodeId → Prop) (store : NodeStore) :
    Frame → Prop
  | .resetting source target todo cycleCount =>
      allowed source target ∧ ∃ done, Rearming graph store source target done todo cycleCount
  | .resettingState source target curr todo cycleCount =>
      allowed source target ∧ ∃ done,
        Rearming graph store source target (done ++ [curr]) todo cycleCount
  | _ => True

/-! ## A loop is made pending again -/

/-- The nodes of `body` are pending again, `target` with its dependencies satisfied. -/
def Tally.rearm (graph : TaskGraph) (tally : Tally) (target : NodeId) (body : List NodeId) :
    Tally :=
  { tally with
    need := fun node => if node ∈ body ∧ node ≠ target then
      (graph.node node).initialInDegree else tally.need node
    got := fun node => if node ∈ body ∧ node ≠ target then 0 else tally.got node
    closed := fun node => if node ∈ body then 0 else tally.closed node
    rounds := fun node => tally.rounds node + if node ∈ body then 1 else 0
    extra := fun node => if node ∈ body ∧ node ≠ target then
      (graph.order.map fun source => if source ∈ body then 0 else
        TaskGraph.forwardInto node (graph.node source).successors).sum
      else tally.extra node
    chosen := fun source node => if node ∈ body ∧ node ≠ target then 0
      else tally.chosen source node }

/-- Nothing but calls of the graph decrements nodes. -/
def Tally.Own (tally : Tally) : Prop :=
  ∀ node, tally.dropped node = 0 ∧ tally.bonus node = 0

namespace Account

variable {graph : TaskGraph} {callables : Callables} {tally : Tally} {shared : Shared}
  {ready : Multiset NodeId} {rest : Multiset Frame} {source target : NodeId}

/-- Before a node without dependencies everything is released. -/
theorem closed_before {load : Workload} (account : Account graph tally load)
    (looped : graph.Looped) (own : tally.Own) {node previous : NodeId}
    (free : tally.need node = 0) (path : Relation.TransGen graph.Forward previous node) :
    tally.closed previous = 1 ∧ tally.need previous = 0 := by
  -- One edge: the source of an edge into a free node is not open.
  have step {first second : NodeId} (free : tally.need second = 0)
      (edge : graph.Forward first second) : tally.closed first = 1 ∧ tally.need first = 0 := by
    have member : first ∈ graph.order := by
      by_contra stray
      obtain ⟨edge, inEdges, -⟩ := edge
      simp [looped.strays first stray] at inEdges
    have law := account.edges second
    have part := Counting.le_sum_map member fun source => tally.isOpen source *
      TaskGraph.forwardInto second (graph.node source).successors
    have positive := TaskGraph.forwardInto_pos.mpr edge
    have closed : tally.isOpen first = 0 := by
      by_contra isOpen
      have := Nat.mul_pos (Nat.pos_of_ne_zero isOpen) positive
      omega
    have passage := account.passage first
    have single := List.count_eq_one_of_mem looped.distinct member
    simp only [Tally.isOpen, (own first).1] at closed
    split at closed
    · simp at closed
    · exact ⟨by omega, waiting_eq_zero.mp (by omega)⟩
  induction path using Relation.TransGen.head_induction_on with
  | single edge => exact step free edge
  | head edge _ ih => exact step ih.2 edge

/-- Active decrements are decrements. -/
theorem amount_active_le {load : Workload} (account : Account graph tally load) (node : NodeId) :
    load.amount (.active node) ≤ load.amount (.flying node) := by
  refine Nat.add_le_add le_rfl (Multiset.sum_map_le_sum_map _ _ fun frame member => ?_)
  have walks := account.walks frame member
  have walk {branch : Option Int} {todo : List SuccessorEdge} {origin : NodeId}
      (walks : ∀ edge ∈ todo, edge ∈ (graph.node origin).successors ∧
        (edge.isLoopBack = true → takes branch edge = false)) :
      Frame.taken branch node todo ≤ TaskGraph.forwardInto node todo := by
    refine List.countP_mono_left fun edge inTodo taken => ?_
    simp only [Bool.and_eq_true, decide_eq_true_eq] at taken ⊢
    refine ⟨taken.1, ?_⟩
    by_contra isLoop
    simp [(walks edge inTodo).2 (by simpa using isLoop)] at taken
  cases frame with
  | unblocking => exact walk walks
  | handingOver => exact walk walks
  | _ => exact Nat.zero_le _

/-- A condition takes a loop-back edge. -/
theorem looping (account : Account graph tally ⟨shared, ready, .completing source ::ₘ rest⟩)
    (loops : loopBack (shared.node source) = some target) (distinct : graph.order.Nodup) :
    Account graph tally
      (Effect.load
        { shared := ((shared.setState source .completed).record (.completed source)).record
            (.released source)
          frames := [unblockSuccessors shared.node source] } ready rest) := by
  rw [unblockSuccessors_of_loopBack loops]
  refine account.quiet (show _ = [_, _] ++ _ from rfl) (by simp [decrements]) ?_ (by simp) ?_
    (by simp [Frame.Told]) (by simp [Frame.Walks]) (by simp [Effect.amount]) distinct
  · intro quantity
    cases quantity <;> simp [Effect.amount, Frame.runs, Event.passes]
  · simp [Shared.setState_node]

/-- The state of a node does not matter to the account. -/
theorem resettingState {curr : NodeId} {todo : List NodeId} {cycleCount : Nat} {frame : Frame}
    (account : Account graph tally ⟨shared, ready, frame ::ₘ rest⟩)
    (resets : frame = .resetting source target (curr :: todo) cycleCount ∨
      frame = .resettingState source target curr todo cycleCount)
    (distinct : graph.order.Nodup) :
    Account graph tally
      (Effect.load
        { shared := shared.setState curr .pending
          frames := [.resetting source target todo cycleCount] } ready rest) := by
  refine account.quiet (show _ = [] ++ _ from rfl) (by simp [decrements]) ?_ (by simp) ?_
    (by simp [Frame.Told]) (by simp [Frame.Walks]) ?_ distinct
  · intro quantity
    rcases resets with rfl | rfl <;> cases quantity <;> simp [Effect.amount, Frame.runs]
  · simp [Shared.setState_node]
  · rcases resets with rfl | rfl <;> simp [Effect.amount]

theorem resettingDegree {curr : NodeId} {todo : List NodeId} {cycleCount : Nat}
    (account : Account graph tally
      ⟨shared, ready, .resetting source target (curr :: todo) cycleCount ::ₘ rest⟩)
    (free : tally.need curr = 0 ∧ ¬ tally.kept curr) (distinct : graph.order.Nodup) :
    Account graph tally
      (Effect.load
        { shared := shared.setInDegree curr (shared.node curr).initialInDegree
          frames := [.resettingState source target curr todo cycleCount] } ready rest) := by
  refine account.quiet (show _ = [] ++ _ from rfl) (by simp [decrements]) ?_ (by simp) ?_
    (by simp [Frame.Told]) (by simp [Frame.Walks]) (by simp [Effect.amount]) distinct
  · intro quantity
    cases quantity <;> simp [Effect.amount, Frame.runs]
  · intro node
    simp only [Shared.setInDegree_node, true_and]
    refine ⟨fun counts => if_neg fun same => ?_, fun _ => trivial⟩
    rw [same, free.1] at counts
    exact counts.elim (Nat.lt_irrefl 0) free.2

theorem rescheduling (account : Account graph tally
      ⟨shared, ready, .rescheduling source target ::ₘ rest⟩) (distinct : graph.order.Nodup) :
    Account graph tally
      (Effect.load
        { shared := shared.record (.scheduled target true)
          frames := [.finishing source]
          queued := [target] } ready rest) := by
  refine account.quiet (show _ = [_] ++ _ from rfl) (by simp [decrements]) ?_ (by simp) (by simp)
    (by simp [Frame.Told]) (by simp [Frame.Walks]) (by simp [Effect.amount]) distinct
  intro quantity
  cases quantity <;> simp [Effect.amount, Frame.runs, Event.passes, List.count_singleton]

end Account

end LightFlow
