import LightFlow.Lib.Acyclic
import LightFlow.Lib.Counting
import LightFlow.Task.Graph

/-!
# Built graphs are wired

Every construction call keeps successor lists and in-degrees in step: an edge joins
two created nodes, `initialInDegree` counts the incoming edges that are not
loop-back, and an edge is marked loop-back only when it closes a cycle.
-/

namespace LightFlow

namespace TaskGraph

/-- The nodes created so far, in the order of their ids. -/
def ids (graph : TaskGraph) : List NodeId :=
  (List.range graph.m_nodeCount).map .node

theorem mem_ids {graph : TaskGraph} {node : NodeId} :
    node ∈ graph.ids ↔ ∃ id < graph.m_nodeCount, node = .node id := by
  simp [ids, eq_comm]

theorem ids_nodup (graph : TaskGraph) : graph.ids.Nodup :=
  List.Nodup.map (fun _ _ equal => NodeId.node.inj equal) List.nodup_range

/-- Edges into `target` that `addEdge` did not mark loop-back. -/
def forwardInto (target : NodeId) (edges : List SuccessorEdge) : Nat :=
  edges.countP fun edge => edge.target = target ∧ edge.isLoopBack = false

@[simp] theorem forwardInto_nil (target : NodeId) : forwardInto target [] = 0 := rfl

@[simp] theorem forwardInto_cons (target : NodeId) (edge : SuccessorEdge)
    (edges : List SuccessorEdge) :
    forwardInto target (edge :: edges) = forwardInto target edges +
      if edge.target = target ∧ edge.isLoopBack = false then 1 else 0 := by
  simp [forwardInto, List.countP_cons]

/-- Number of forward edges into `target` from the created nodes. -/
def forwardIncoming (graph : TaskGraph) (target : NodeId) : Nat :=
  (graph.ids.map fun source => forwardInto target (graph.node source).successors).sum

/-- What construction guarantees about nodes and edges. -/
structure Wired (graph : TaskGraph) : Prop where
  bound : graph.m_nodeCount < 2 ^ 32
  outside : ∀ node, node ∉ graph.ids → graph.node node = {}
  targets : ∀ node, ∀ edge ∈ (graph.node node).successors, edge.target ∈ graph.ids
  loops : ∀ node, ∀ edge ∈ (graph.node node).successors, edge.isLoopBack = true →
    Relation.ReflTransGen (Precedes graph.node) edge.target node
  degree : ∀ node, (graph.node node).initialInDegree = u32 (graph.forwardIncoming node)

theorem wired_empty : Wired {} where
  bound := by decide
  outside := fun _ _ => rfl
  targets := by simp
  loops := by simp
  degree := by
    intro node
    simp [forwardIncoming, ids, u32]

/-! ## Creating a node -/

theorem createNode_count {graph : TaskGraph} (type : TaskType) (domain : TaskDomain)
    (fresh : graph.m_nodeCount + 1 < 2 ^ 32) :
    (graph.createNode type domain).1.m_nodeCount = graph.m_nodeCount + 1 :=
  u32_of_lt fresh

theorem createNode_ids {graph : TaskGraph} (type : TaskType) (domain : TaskDomain)
    (fresh : graph.m_nodeCount + 1 < 2 ^ 32) :
    (graph.createNode type domain).1.ids = graph.ids ++ [(graph.createNode type domain).2] := by
  simp [ids, createNode, u32_of_lt fresh, List.range_succ]

theorem createNode_not_mem (graph : TaskGraph) (type : TaskType) (domain : TaskDomain) :
    (graph.createNode type domain).2 ∉ graph.ids := by
  simp [mem_ids, createNode]

theorem createNode_successors {graph : TaskGraph} (wired : graph.Wired) (type : TaskType)
    (domain : TaskDomain) (node : NodeId) :
    ((graph.createNode type domain).1.node node).successors =
      (graph.node node).successors := by
  by_cases isNew : node = (graph.createNode type domain).2
  · subst isNew
    rw [wired.outside _ (createNode_not_mem graph type domain)]
    simp [createNode]
  · rw [show (graph.createNode type domain).1.node node = graph.node node from
      NodeStore.set_of_ne _ _ isNew]

theorem Wired.createNode {graph : TaskGraph} (wired : graph.Wired) (type : TaskType)
    (domain : TaskDomain) (fresh : graph.m_nodeCount + 1 < 2 ^ 32) :
    (graph.createNode type domain).1.Wired := by
  have sameEdges := createNode_successors wired type domain
  have newIds := createNode_ids type domain fresh
  have samePrecedes : Precedes (graph.createNode type domain).1.node = Precedes graph.node := by
    funext source target
    simp only [Precedes, sameEdges]
  refine ⟨?_, ?_, ?_, ?_, ?_⟩
  · rw [createNode_count type domain fresh]
    exact fresh
  · intro node outside
    rw [newIds] at outside
    have isOld : node ∉ graph.ids := fun member => outside (List.mem_append_left _ member)
    have isNew : node ≠ (graph.createNode type domain).2 := fun equal =>
      outside (List.mem_append_right _ (by simp [equal]))
    rw [← wired.outside node isOld]
    exact NodeStore.set_of_ne _ _ isNew
  · intro node edge member
    rw [sameEdges] at member
    rw [newIds]
    exact List.mem_append_left _ (wired.targets node edge member)
  · intro node edge member isLoop
    rw [sameEdges] at member
    rw [samePrecedes]
    exact wired.loops node edge member isLoop
  · intro node
    have counted : (graph.createNode type domain).1.forwardIncoming node =
        graph.forwardIncoming node := by
      have noEdges := wired.outside _ (createNode_not_mem graph type domain)
      simp [forwardIncoming, newIds, sameEdges, noEdges]
    rw [counted]
    by_cases isNew : node = (graph.createNode type domain).2
    · have zero : graph.forwardIncoming node = 0 := by
        refine Counting.sum_map_eq_zero fun source _ => ?_
        rw [forwardInto, List.countP_eq_zero]
        intro edge member
        simp only [decide_eq_true_eq, not_and]
        intro isTarget
        rw [isNew] at isTarget
        exact absurd (isTarget ▸ wired.targets source edge member)
          (createNode_not_mem graph type domain)
      rw [zero, isNew]
      simp [TaskGraph.createNode, u32]
    · rw [← wired.degree node]
      exact congrArg TaskNode.initialInDegree (NodeStore.set_of_ne _ _ isNew)

theorem Wired.appendNode {graph : TaskGraph} (wired : graph.Wired) (id : NodeId) :
    (graph.appendNode id).Wired :=
  ⟨wired.bound, wired.outside, wired.targets, wired.loops, wired.degree⟩

/-! ## Adding an edge -/

theorem linkEdge_successors (store : NodeStore) (source : NodeId) (edge : SuccessorEdge)
    (node : NodeId) :
    (linkEdge store source edge node).successors =
      if node = source then edge :: (store node).successors else (store node).successors := by
  by_cases isSource : node = source
  · subst isSource
    simp [linkEdge]
  · simp [linkEdge, NodeStore.set_of_ne, isSource]

theorem linkEdge_initialInDegree (store : NodeStore) (source : NodeId) (edge : SuccessorEdge)
    (node : NodeId) :
    (linkEdge store source edge node).initialInDegree = (store node).initialInDegree := by
  by_cases isSource : node = source
  · subst isSource
    simp [linkEdge]
  · simp [linkEdge, NodeStore.set_of_ne, isSource]

theorem countEdge_successors (store : NodeStore) (target node : NodeId) :
    (countEdge store target node).successors = (store node).successors := by
  by_cases isTarget : node = target
  · subst isTarget
    simp [countEdge]
  · simp [countEdge, NodeStore.set_of_ne, isTarget]

theorem countEdge_initialInDegree (store : NodeStore) (target node : NodeId) :
    (countEdge store target node).initialInDegree =
      if node = target then u32 ((store node).initialInDegree + 1)
      else (store node).initialInDegree := by
  by_cases isTarget : node = target
  · subst isTarget
    simp [countEdge]
  · simp [countEdge, NodeStore.set_of_ne, isTarget]

/-- The edge `addEdge` links in, with its classification. -/
def newEdge (graph : TaskGraph) (source target : NodeId) (branch : Int) : SuccessorEdge :=
  { target, branch, isLoopBack := closesLoop graph.node source target branch }

theorem addEdge_successors (graph : TaskGraph) (source target : NodeId) (branch : Int)
    (node : NodeId) :
    ((graph.addEdge source target branch).node node).successors =
      if node = source then
        graph.newEdge source target branch :: (graph.node node).successors
      else (graph.node node).successors := by
  simp only [addEdge]
  split
  · exact linkEdge_successors _ _ _ _
  · rw [countEdge_successors]
    exact linkEdge_successors _ _ _ _

theorem addEdge_initialInDegree (graph : TaskGraph) (source target : NodeId) (branch : Int)
    (node : NodeId) :
    ((graph.addEdge source target branch).node node).initialInDegree =
      if (graph.newEdge source target branch).isLoopBack = false ∧ node = target then
        u32 ((graph.node node).initialInDegree + 1)
      else (graph.node node).initialInDegree := by
  simp only [addEdge, newEdge]
  split
  next isLoop => simp [isLoop, linkEdge_initialInDegree]
  next isForward =>
    simp [isForward, countEdge_initialInDegree, linkEdge_initialInDegree]

/-- Adding an edge keeps every path. -/
theorem Precedes.addEdge {graph : TaskGraph} {first second : NodeId}
    (path : Relation.ReflTransGen (Precedes graph.node) first second)
    (source target : NodeId) (branch : Int) :
    Relation.ReflTransGen (Precedes (graph.addEdge source target branch).node)
      first second := by
  refine Relation.ReflTransGen.mono ?_ _ _ path
  rintro from_ to_ ⟨edge, member, rfl⟩
  refine ⟨edge, ?_, rfl⟩
  rw [addEdge_successors]
  split
  · exact List.mem_cons_of_mem _ member
  · exact member

/-- A classification as loop-back is witnessed by a path back to the source. -/
theorem newEdge_loops {graph : TaskGraph} {source target : NodeId} {branch : Int}
    (isLoop : (graph.newEdge source target branch).isLoopBack = true) :
    Relation.ReflTransGen (Precedes (graph.addEdge source target branch).node)
      target source := by
  simp only [newEdge, closesLoop, Bool.and_eq_true] at isLoop
  refine Relation.ReflTransGen.mono ?_ _ _ (reaches_sound isLoop.2)
  rintro from_ to_ ⟨edge, member, rfl⟩
  rw [linkEdge_successors] at member
  simp only [Precedes, addEdge_successors]
  split
  next isSource =>
    rw [if_pos isSource] at member
    rcases List.mem_cons.mp member with rfl | old
    · exact ⟨graph.newEdge source target branch, by simp, rfl⟩
    · exact ⟨edge, List.mem_cons_of_mem _ old, rfl⟩
  next isOther =>
    rw [if_neg isOther] at member
    exact ⟨edge, member, rfl⟩

theorem addEdge_forwardIncoming {graph : TaskGraph} {source target : NodeId} {branch : Int}
    (created : source ∈ graph.ids) (node : NodeId) :
    (graph.addEdge source target branch).forwardIncoming node =
      graph.forwardIncoming node +
        if (graph.newEdge source target branch).isLoopBack = false ∧ node = target then 1
        else 0 := by
  have elsewhere (other : NodeId) (different : other ≠ source) :
      forwardInto node ((graph.addEdge source target branch).node other).successors =
        forwardInto node (graph.node other).successors := by
    simp only [addEdge_successors, different, ↓reduceIte]
  have replaced := Counting.sum_map_replace graph.ids source fun other _ => elsewhere other
  rw [List.count_eq_one_of_mem graph.ids_nodup created] at replaced
  simp only [addEdge_successors, ↓reduceIte, forwardInto_cons, Nat.one_mul] at replaced
  have condition : ((graph.newEdge source target branch).target = node ∧
        (graph.newEdge source target branch).isLoopBack = false) ↔
      ((graph.newEdge source target branch).isLoopBack = false ∧ node = target) := by
    simp only [newEdge]
    tauto
  rw [if_congr condition rfl rfl] at replaced
  have sameIds : (graph.addEdge source target branch).ids = graph.ids := rfl
  simp only [forwardIncoming, sameIds, addEdge_successors]
  omega

theorem Wired.addEdge {graph : TaskGraph} (wired : graph.Wired) {source target : NodeId}
    (branch : Int) (sourceCreated : source ∈ graph.ids) (targetCreated : target ∈ graph.ids) :
    (graph.addEdge source target branch).Wired := by
  refine ⟨wired.bound, ?_, ?_, ?_, ?_⟩
  · intro node outside
    have notSource : node ≠ source := fun equal => outside (equal ▸ sourceCreated)
    have notTarget : node ≠ target := fun equal => outside (equal ▸ targetCreated)
    rw [← wired.outside node outside]
    simp only [TaskGraph.addEdge]
    split <;> simp [countEdge, linkEdge, NodeStore.set_of_ne, notSource, notTarget]
  · intro node edge member
    rw [addEdge_successors] at member
    split at member
    · rcases List.mem_cons.mp member with rfl | old
      · exact targetCreated
      · exact wired.targets node edge old
    · exact wired.targets node edge member
  · intro node edge member isLoop
    rw [addEdge_successors] at member
    split at member
    next isSource =>
      rcases List.mem_cons.mp member with rfl | old
      · rw [isSource]
        exact newEdge_loops isLoop
      · exact Precedes.addEdge (wired.loops node edge old isLoop) _ _ _
    next => exact Precedes.addEdge (wired.loops node edge member isLoop) _ _ _
  · intro node
    rw [addEdge_initialInDegree, addEdge_forwardIncoming sourceCreated, wired.degree]
    split
    · simp only [u32]
      omega
    · rfl

/-! ## Whole constructions -/

theorem parallelForChunks_wired (domain : TaskDomain) (entry join : NodeId) (chunks : Nat)
    {graph : TaskGraph} (wired : graph.Wired) (entryCreated : entry ∈ graph.ids)
    (joinCreated : join ∈ graph.ids) (fresh : graph.m_nodeCount + chunks < 2 ^ 32)
    (ordered : (graph.order ++ [join]).Perm graph.ids) :
    let result := parallelForChunks domain entry join graph chunks
    result.Wired ∧ (result.order ++ [join]).Perm result.ids := by
  induction chunks generalizing graph with
  | zero => exact ⟨wired, ordered⟩
  | succ chunks ih =>
      have room : graph.m_nodeCount + 1 < 2 ^ 32 := by omega
      have newIds := createNode_ids .parallelForChunk domain room
      have created := (wired.createNode .parallelForChunk domain room).appendNode
        (graph.createNode .parallelForChunk domain).2
      have keeps {node : NodeId} (member : node ∈ graph.ids) :
          node ∈ (graph.createNode .parallelForChunk domain).1.ids := by
        rw [newIds]
        exact List.mem_append_left _ member
      have chunkCreated : (graph.createNode .parallelForChunk domain).2 ∈
          (graph.createNode .parallelForChunk domain).1.ids := by
        rw [newIds]
        simp
      have edges := (created.addEdge (-1) (keeps entryCreated) chunkCreated).addEdge (-1)
        chunkCreated (keeps joinCreated)
      refine ih edges (keeps entryCreated) (keeps joinCreated) ?_ ?_
      · have count := createNode_count .parallelForChunk domain room
        change (graph.createNode .parallelForChunk domain).1.m_nodeCount + chunks < 2 ^ 32
        omega
      · change ((graph.order ++ [(graph.createNode .parallelForChunk domain).2]) ++ [join]).Perm
          (graph.createNode .parallelForChunk domain).1.ids
        rw [newIds, List.append_assoc]
        exact (List.perm_append_comm.append_left graph.order).trans
          (List.append_assoc .. ▸ ordered.append_right _)

theorem emplace_wired {graph : TaskGraph} (wired : graph.Wired) (type : TaskType)
    (domain : TaskDomain) (fresh : graph.m_nodeCount + 1 < 2 ^ 32)
    (ordered : graph.order.Perm graph.ids) :
    (graph.emplace type domain).Wired ∧
      (graph.emplace type domain).order.Perm (graph.emplace type domain).ids := by
  refine ⟨(wired.createNode type domain fresh).appendNode _, ?_⟩
  change (graph.order ++ [_]).Perm (graph.createNode type domain).1.ids
  rw [createNode_ids type domain fresh]
  exact ordered.append_right _

theorem parallelFor_wired {graph : TaskGraph} (wired : graph.Wired) (count batchSize : Nat)
    (domain : TaskDomain)
    (fresh : graph.m_nodeCount + 2 + parallelForChunkCount count batchSize < 2 ^ 32)
    (ordered : graph.order.Perm graph.ids) :
    (graph.parallelFor count batchSize domain).Wired ∧
      (graph.parallelFor count batchSize domain).order.Perm
        (graph.parallelFor count batchSize domain).ids := by
  simp only [parallelFor]
  split
  · exact emplace_wired wired _ _ (by omega) ordered
  · split
    · exact emplace_wired wired _ _ (by omega) ordered
    · have room : graph.m_nodeCount + 1 < 2 ^ 32 := by omega
      have entryIds := createNode_ids .static domain room
      have withEntry := (wired.createNode .static domain room).appendNode
        (graph.createNode .static domain).2
      have entryCount := createNode_count .static domain room
      set opened := (graph.createNode .static domain).1.appendNode
        (graph.createNode .static domain).2
      have openedCount : opened.m_nodeCount = graph.m_nodeCount + 1 := entryCount
      have openedIds : opened.ids = graph.ids ++ [(graph.createNode .static domain).2] := entryIds
      have openedOrder : opened.order = graph.order ++ [(graph.createNode .static domain).2] := rfl
      have nextRoom : opened.m_nodeCount + 1 < 2 ^ 32 := by omega
      have joinIds := createNode_ids .static domain nextRoom
      have joinCount := createNode_count .static domain nextRoom
      have orderedBoth : ((opened.createNode .static domain).1.order ++
          [(opened.createNode .static domain).2]).Perm
            (opened.createNode .static domain).1.ids := by
        rw [joinIds, openedIds]
        exact (openedOrder ▸ ordered.append_right _).append_right _
      obtain ⟨chunksWired, chunksOrdered⟩ := parallelForChunks_wired domain
        (graph.createNode .static domain).2 (opened.createNode .static domain).2
        (parallelForChunkCount count batchSize)
        (withEntry.createNode .static domain nextRoom)
        (by rw [joinIds, openedIds]; simp) (by rw [joinIds]; simp) (by omega) orderedBoth
      exact ⟨chunksWired.appendNode _, chunksOrdered⟩

/-- Every built graph is wired, and its chain lists every created node once. -/
theorem Built.wired {graph : TaskGraph} (built : graph.Built) :
    graph.Wired ∧ graph.order.Perm graph.ids := by
  induction built with
  | empty => exact ⟨wired_empty, .refl _⟩
  | emplace type domain _ fresh ih => exact emplace_wired ih.1 type domain fresh ih.2
  | parallelFor count batchSize domain _ fresh ih =>
      exact parallelFor_wired ih.1 count batchSize domain fresh ih.2
  | addEdge branch _ sourceMember targetMember ih =>
      exact ⟨ih.1.addEdge branch (ih.2.mem_iff.mp sourceMember) (ih.2.mem_iff.mp targetMember),
        ih.2⟩

/-- Without directed cycles no edge is marked loop-back. -/
theorem Wired.forward_of_acyclic {graph : TaskGraph} (wired : graph.Wired)
    (acyclic : graph.Acyclic) (node : NodeId) :
    ∀ edge ∈ (graph.node node).successors, edge.isLoopBack = false := by
  intro edge member
  by_contra isLoop
  rw [Bool.not_eq_false] at isLoop
  exact acyclic node (Relation.TransGen.head' ⟨edge, member, rfl⟩
    (wired.loops node edge member isLoop))

theorem Wired.degree_of_acyclic {graph : TaskGraph} (wired : graph.Wired)
    (acyclic : graph.Acyclic) (node : NodeId) :
    (graph.node node).initialInDegree = u32 (incoming graph.node graph.ids node) := by
  rw [wired.degree]
  congr 1
  refine Counting.sum_map_congr fun source _ => List.countP_congr fun edge member => ?_
  simp [wired.forward_of_acyclic acyclic source edge member]

/-- What a run relies on in its graph. -/
structure Sound (graph : TaskGraph) : Prop where
  acyclic : graph.Acyclic
  distinct : graph.order.Nodup
  named : ∀ node ∈ graph.order, ∃ id, node = .node id
  count : graph.m_nodeCount = graph.order.length
  targets : ∀ node ∈ graph.order, ∀ edge ∈ (graph.node node).successors,
    edge.target ∈ graph.order
  strays : ∀ node, node ∉ graph.order → (graph.node node).successors = []
  forward : ∀ node, ∀ edge ∈ (graph.node node).successors, edge.isLoopBack = false
  degree : ∀ node,
    (graph.node node).initialInDegree = u32 (incoming graph.node graph.order node)
  narrow : ∀ node, incoming graph.node graph.order node ≤ 2 ^ 16

theorem incoming_perm (store : NodeStore) {first second : List NodeId}
    (permuted : first.Perm second) (target : NodeId) :
    incoming store first target = incoming store second target :=
  (permuted.map _).sum_eq

/-- A built graph without directed cycles is sound when no node has more incoming edges
than its counter can hold. -/
theorem Built.sound {graph : TaskGraph} (built : graph.Built) (acyclic : graph.Acyclic)
    (narrow : ∀ node, incoming graph.node graph.order node ≤ 2 ^ 16) : graph.Sound := by
  obtain ⟨wired, ordered⟩ := built.wired
  refine
    { acyclic
      distinct := ordered.nodup_iff.mpr graph.ids_nodup
      named := fun node member => ?_
      count := ?_
      targets := fun node _ edge inEdges => ordered.mem_iff.mpr (wired.targets node edge inEdges)
      strays := fun node stray => by
        rw [wired.outside node fun created => stray (ordered.mem_iff.mpr created)]
      forward := wired.forward_of_acyclic acyclic
      degree := fun node => ?_
      narrow }
  · obtain ⟨id, -, equal⟩ := mem_ids.mp (ordered.mem_iff.mp member)
    exact ⟨id, equal⟩
  · rw [ordered.length_eq]
    simp [ids]
  · rw [incoming_perm graph.node ordered]
    exact wired.degree_of_acyclic acyclic node

/-! ## Checking a concrete graph -/

/-- Nodes that were not created have no edges and no kind of their own. -/
theorem Built.not_subflow {graph : TaskGraph} (built : graph.Built)
    (listed : ∀ node ∈ graph.order, (graph.node node).type ≠ .subflow) (node : NodeId) :
    (graph.node node).type ≠ .subflow := by
  obtain ⟨wired, ordered⟩ := built.wired
  by_cases created : node ∈ graph.ids
  · exact listed node (ordered.mem_iff.mpr created)
  · simp [wired.outside node created]

theorem Built.acyclic_of_increasing {graph : TaskGraph} (built : graph.Built)
    (value : NodeId → Nat)
    (increases : ∀ source ∈ graph.order, ∀ edge ∈ (graph.node source).successors,
      value source < value edge.target) : graph.Acyclic := by
  obtain ⟨wired, ordered⟩ := built.wired
  refine Cycleless.of_increasing fun source target related => (?_ : value source < value target)
  obtain ⟨edge, member, rfl⟩ := related
  refine increases source ?_ edge member
  by_contra notListed
  rw [wired.outside source fun created => notListed (ordered.mem_iff.mpr created)] at member
  simp at member

theorem incoming_le (store : NodeStore) (sources : List NodeId) (target : NodeId) :
    incoming store sources target ≤
      (sources.map fun source => (store source).successors.length).sum :=
  List.sum_le_sum fun _ _ => List.countP_le_length

end TaskGraph

end LightFlow
