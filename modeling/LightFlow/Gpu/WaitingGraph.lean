import LightFlow.Task.Loop

/-!
# Graphs with wait points

Before the first run `addWaitPoint` only counts one more dependency of its node.  A graph with
wait points therefore has the nodes and edges of one without, and larger degrees.
-/

namespace LightFlow

namespace TaskGraph

/-- What `addWaitPoint(node, …)` does to the graph itself. -/
def addWaitPoint (graph : TaskGraph) (node : NodeId) : TaskGraph :=
  { graph with node := countEdge graph.node node }

/-- Graphs made by the construction interface together with `addWaitPoint`.  The list holds the
nodes of its calls, newest first. -/
inductive BuiltWaiting : TaskGraph → List NodeId → Prop where
  | empty : BuiltWaiting {} []
  | emplace {graph : TaskGraph} {tasks : List NodeId} (type : TaskType) (domain : TaskDomain) :
      BuiltWaiting graph tasks → graph.m_nodeCount + 1 < 2 ^ 32 →
      BuiltWaiting (graph.emplace type domain) tasks
  | parallelFor {graph : TaskGraph} {tasks : List NodeId} (count batchSize : Nat)
      (domain : TaskDomain) : BuiltWaiting graph tasks →
      graph.m_nodeCount + 2 + parallelForChunkCount count batchSize < 2 ^ 32 →
      BuiltWaiting (graph.parallelFor count batchSize domain) tasks
  | addEdge {graph : TaskGraph} {tasks : List NodeId} {source target : NodeId} (branch : Int) :
      BuiltWaiting graph tasks → source ∈ graph.order → target ∈ graph.order →
      BuiltWaiting (graph.addEdge source target branch) tasks
  | addWaitPoint {graph : TaskGraph} {tasks : List NodeId} {node : NodeId} :
      BuiltWaiting graph tasks → node ∈ graph.order →
      BuiltWaiting (graph.addWaitPoint node) (node :: tasks)

/-- `graph` is `plain` with one more dependency of a node for each of `tasks`. -/
structure Raised (plain graph : TaskGraph) (tasks : List NodeId) : Prop where
  order : graph.order = plain.order
  count : graph.m_nodeCount = plain.m_nodeCount
  shape : ∀ node, (graph.node node).type = (plain.node node).type ∧
    (graph.node node).successors = (plain.node node).successors
  degree : ∀ node, (graph.node node).initialInDegree =
    u32 ((plain.node node).initialInDegree + tasks.count node)
  created : ∀ node ∈ tasks, node ∈ plain.ids

namespace Raised

variable {plain graph : TaskGraph} {tasks : List NodeId}

theorem createNode (raised : Raised plain graph tasks) (type : TaskType) (domain : TaskDomain)
    (fresh : plain.m_nodeCount + 1 < 2 ^ 32) :
    (graph.createNode type domain).2 = (plain.createNode type domain).2 ∧
      Raised (plain.createNode type domain).1 (graph.createNode type domain).1 tasks := by
  have same : (graph.createNode type domain).2 = (plain.createNode type domain).2 := by
    simp only [TaskGraph.createNode, raised.count]
  have isNew := plain.createNode_not_mem type domain
  have newNode (other : TaskGraph) (node : NodeId) : (other.createNode type domain).1.node node =
      if node = (other.createNode type domain).2 then { type, domain } else other.node node := rfl
  refine ⟨same, ⟨raised.order, ?_, fun node => ?_, fun node => ?_, fun node member => ?_⟩⟩
  · simp only [TaskGraph.createNode, raised.count]
  · rw [newNode, newNode, same]
    split
    next => exact ⟨rfl, rfl⟩
    next => exact raised.shape node
  · rw [newNode, newNode, same]
    split
    next isId =>
      have none : tasks.count node = 0 := List.count_eq_zero_of_not_mem fun member =>
        isNew (isId ▸ raised.created node member)
      simp [none, u32]
    next => exact raised.degree node
  · rw [createNode_ids type domain fresh]
    exact List.mem_append_left _ (raised.created node member)

theorem appendNode (raised : Raised plain graph tasks) (id : NodeId) :
    Raised (plain.appendNode id) (graph.appendNode id) tasks :=
  ⟨congrArg (· ++ [id]) raised.order, raised.count, raised.shape, raised.degree, raised.created⟩

/-- Whether an edge closes a loop depends on types and edges only. -/
theorem closesLoop (raised : Raised plain graph tasks) (source target : NodeId) (branch : Int) :
    TaskGraph.closesLoop graph.node source target branch =
      TaskGraph.closesLoop plain.node source target branch := by
  have linked (node : NodeId) :
      (linkEdge graph.node source { target, branch } node).successors =
        (linkEdge plain.node source { target, branch } node).successors := by
    simp only [linkEdge_successors, (raised.shape _).2]
  simp only [TaskGraph.closesLoop, (raised.shape source).1, reaches_congr linked]

theorem addEdge (raised : Raised plain graph tasks) (source target : NodeId) (branch : Int) :
    Raised (plain.addEdge source target branch) (graph.addEdge source target branch) tasks := by
  have sameEdge : graph.newEdge source target branch = plain.newEdge source target branch := by
    simp only [newEdge, raised.closesLoop]
  refine ⟨raised.order, raised.count, fun node => ?_, fun node => ?_, raised.created⟩
  · rw [addEdge_type, addEdge_type, addEdge_successors, addEdge_successors, sameEdge,
      (raised.shape node).2]
    exact ⟨(raised.shape node).1, rfl⟩
  · rw [addEdge_initialInDegree, addEdge_initialInDegree, sameEdge, raised.degree]
    split
    next =>
      simp only [u32]
      omega
    next => rfl

theorem addWaitPoint (raised : Raised plain graph tasks) {node : NodeId}
    (created : node ∈ plain.ids) : Raised plain (graph.addWaitPoint node) (node :: tasks) := by
  refine ⟨raised.order, raised.count, fun other => ?_, fun other => ?_, fun other member => ?_⟩
  · refine ⟨?_, (countEdge_successors ..).trans (raised.shape other).2⟩
    rw [← (raised.shape other).1]
    by_cases same : other = node
    · simp [TaskGraph.addWaitPoint, countEdge, same]
    · simp [TaskGraph.addWaitPoint, countEdge, NodeStore.set_of_ne, same]
  · rw [TaskGraph.addWaitPoint, countEdge_initialInDegree, raised.degree, List.count_cons]
    by_cases same : other = node
    · simp only [same, ↓reduceIte, beq_self_eq_true, u32]
      omega
    · simp [same, Ne.symm same]
  · rcases List.mem_cons.mp member with rfl | isOld
    · exact created
    · exact raised.created other isOld

theorem emplace (raised : Raised plain graph tasks) (type : TaskType) (domain : TaskDomain)
    (fresh : plain.m_nodeCount + 1 < 2 ^ 32) :
    Raised (plain.emplace type domain) (graph.emplace type domain) tasks := by
  obtain ⟨same, created⟩ := raised.createNode type domain fresh
  simp only [TaskGraph.emplace]
  rw [same]
  exact created.appendNode _

theorem parallelForChunks (domain : TaskDomain) (entry join : NodeId) (chunks : Nat)
    (raised : Raised plain graph tasks) (fresh : plain.m_nodeCount + chunks < 2 ^ 32) :
    Raised (TaskGraph.parallelForChunks domain entry join plain chunks)
      (TaskGraph.parallelForChunks domain entry join graph chunks) tasks := by
  induction chunks generalizing plain graph with
  | zero => exact raised
  | succ chunks ih =>
      have room : plain.m_nodeCount + 1 < 2 ^ 32 := by omega
      obtain ⟨same, created⟩ := raised.createNode .parallelForChunk domain room
      have count := createNode_count .parallelForChunk domain room
      simp only [TaskGraph.parallelForChunks]
      rw [same]
      refine ih (((created.appendNode _).addEdge _ _ _).addEdge _ _ _) ?_
      change (plain.createNode .parallelForChunk domain).1.m_nodeCount + chunks < 2 ^ 32
      omega

theorem parallelFor (raised : Raised plain graph tasks) (count batchSize : Nat)
    (domain : TaskDomain)
    (fresh : plain.m_nodeCount + 2 + parallelForChunkCount count batchSize < 2 ^ 32) :
    Raised (plain.parallelFor count batchSize domain) (graph.parallelFor count batchSize domain)
      tasks := by
  simp only [TaskGraph.parallelFor]
  split
  next => exact raised.emplace _ _ (by omega)
  next =>
    split
    next => exact raised.emplace _ _ (by omega)
    next =>
      have room : plain.m_nodeCount + 1 < 2 ^ 32 := by omega
      obtain ⟨sameEntry, withEntry⟩ := raised.createNode .static domain room
      have entryCount := createNode_count .static domain room
      have nextRoom : ((plain.createNode .static domain).1.appendNode
          (plain.createNode .static domain).2).m_nodeCount + 1 < 2 ^ 32 := by
        change (plain.createNode .static domain).1.m_nodeCount + 1 < 2 ^ 32
        omega
      have joinCount := createNode_count .static domain nextRoom
      rw [sameEntry]
      obtain ⟨sameJoin, withJoin⟩ := (withEntry.appendNode _).createNode .static domain nextRoom
      rw [sameJoin]
      refine (Raised.parallelForChunks _ _ _ _ withJoin ?_).appendNode _
      change _ = (plain.createNode .static domain).1.m_nodeCount + 1 at joinCount
      omega

/-- Wait points close no cycle. -/
theorem acyclic_iff (raised : Raised plain graph tasks) : graph.Acyclic ↔ plain.Acyclic := by
  have same : Precedes graph.node = Precedes plain.node := by
    funext source target
    simp only [Precedes, (raised.shape source).2]
  rw [Acyclic, Acyclic, same]

end Raised

/-- Every graph with wait points was built from one without. -/
theorem BuiltWaiting.exists_plain {graph : TaskGraph} {tasks : List NodeId}
    (built : graph.BuiltWaiting tasks) :
    ∃ plain : TaskGraph, plain.Built ∧ Raised plain graph tasks := by
  induction built with
  | empty => exact ⟨{}, .empty, ⟨rfl, rfl, fun _ => ⟨rfl, rfl⟩, fun _ => rfl, by simp⟩⟩
  | emplace type domain _ fresh ih =>
      obtain ⟨plain, isBuilt, raised⟩ := ih
      rw [raised.count] at fresh
      exact ⟨_, .emplace type domain isBuilt fresh, raised.emplace type domain fresh⟩
  | parallelFor count batchSize domain _ fresh ih =>
      obtain ⟨plain, isBuilt, raised⟩ := ih
      rw [raised.count] at fresh
      exact ⟨_, .parallelFor count batchSize domain isBuilt fresh,
        raised.parallelFor count batchSize domain fresh⟩
  | addEdge branch _ isSource isTarget ih =>
      obtain ⟨plain, isBuilt, raised⟩ := ih
      rw [raised.order] at isSource isTarget
      exact ⟨_, .addEdge branch isBuilt isSource isTarget, raised.addEdge _ _ branch⟩
  | addWaitPoint _ member ih =>
      obtain ⟨plain, isBuilt, raised⟩ := ih
      rw [raised.order] at member
      exact ⟨plain, isBuilt, raised.addWaitPoint (isBuilt.wired.2.mem_iff.mp member)⟩

theorem BuiltWaiting.acyclic_of_increasing {graph : TaskGraph} {tasks : List NodeId}
    (built : graph.BuiltWaiting tasks) (value : NodeId → Nat)
    (increases : ∀ source ∈ graph.order, ∀ edge ∈ (graph.node source).successors,
      value source < value edge.target) : graph.Acyclic := by
  obtain ⟨plain, isBuilt, raised⟩ := built.exists_plain
  refine raised.acyclic_iff.mpr (isBuilt.acyclic_of_increasing value ?_)
  intro source member edge isEdge
  rw [← raised.order] at member
  rw [← (raised.shape source).2] at isEdge
  exact increases source member edge isEdge

/-! ## What a run relies on -/

/-- An acyclic graph without subflows, whose nodes wait for their edges and for `tasks`. -/
structure Waiting (graph : TaskGraph) (tasks : List NodeId) : Prop where
  plain : ∀ node, (graph.node node).type ≠ .subflow
  distinct : graph.order.Nodup
  count : graph.m_nodeCount = graph.order.length
  bound : graph.m_nodeCount < 2 ^ 32
  strays : ∀ node, node ∉ graph.order → (graph.node node).successors = []
  targets : ∀ node, ∀ edge ∈ (graph.node node).successors, edge.target ∈ graph.order
  forward : ∀ node, ∀ edge ∈ (graph.node node).successors, edge.isLoopBack = false
  tasks_mem : ∀ node ∈ tasks, node ∈ graph.order
  degree : ∀ node, (graph.node node).initialInDegree =
    (graph.order.map fun source => forwardInto node (graph.node source).successors).sum +
      tasks.count node
  narrow : ∀ node, (graph.node node).initialInDegree ≤ 65535

theorem BuiltWaiting.waiting {graph : TaskGraph} {tasks : List NodeId}
    (built : graph.BuiltWaiting tasks) (acyclic : graph.Acyclic)
    (plain : ∀ node ∈ graph.order, (graph.node node).type ≠ .subflow)
    (narrow : ∀ node, incoming graph.node graph.order node + tasks.count node ≤ 65535) :
    graph.Waiting tasks := by
  obtain ⟨base, isBuilt, raised⟩ := built.exists_plain
  obtain ⟨wired, ordered⟩ := isBuilt.wired
  have sameEdges (node : NodeId) : (graph.node node).successors = (base.node node).successors :=
    (raised.shape node).2
  have baseAcyclic : base.Acyclic := raised.acyclic_iff.mp acyclic
  have forward := wired.forward_of_acyclic baseAcyclic
  have sameIncoming (node : NodeId) : incoming graph.node graph.order node =
      incoming base.node base.order node := by
    simp only [incoming, sameEdges, raised.order]
  have sound := isBuilt.sound baseAcyclic fun node => by
    have few := narrow node
    rw [sameIncoming] at few
    omega
  have degree (node : NodeId) : (graph.node node).initialInDegree =
      incoming graph.node graph.order node + tasks.count node := by
    have few := narrow node
    rw [sameIncoming] at few ⊢
    rw [raised.degree, sound.degree, u32_of_lt (by omega : incoming base.node base.order node < _),
      u32_of_lt (by omega)]
  refine
    { plain := fun node => ?_
      distinct := raised.order ▸ sound.distinct
      count := by rw [raised.count, raised.order, sound.count]
      bound := raised.count ▸ wired.bound
      strays := fun node stray => ?_
      targets := fun node edge member => ?_
      forward := fun node edge member => forward node edge (sameEdges node ▸ member)
      tasks_mem := fun node member =>
        raised.order ▸ ordered.mem_iff.mpr (raised.created node member)
      degree := fun node => ?_
      narrow := fun node => (degree node).trans_le (narrow node) }
  · rw [(raised.shape node).1]
    refine isBuilt.not_subflow (fun other member => ?_) node
    rw [← (raised.shape other).1]
    exact plain other (raised.order ▸ member)
  · rw [sameEdges]
    exact sound.strays node (raised.order ▸ stray)
  · rw [sameEdges] at member
    rw [raised.order]
    exact ordered.mem_iff.mpr (wired.targets node edge member)
  · rw [degree, incoming]
    congr 1
    refine Counting.sum_map_congr fun source _ => List.countP_congr fun edge member => ?_
    rw [sameEdges] at member
    simp [forward source edge member]

end TaskGraph

end LightFlow
