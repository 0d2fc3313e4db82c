import LightFlow.Gpu.Sweeps
import LightFlow.Task.Run
import LightFlow.Task.Wiring

/-!
# Wait points of a graph over its runs

`addWaitPoint` counts a wait point in `initialInDegree` for ever.  Before the first run it
puts the wait node on the chain of the graph, which every `prepareRun` registers; once a
scheduler is attached it registers the node itself, and the next `reset` forgets it.
-/

namespace LightFlow

namespace TimelineReactor

/-- The wait node belongs to the node. -/
def waitsFor (reactor : TimelineReactor) (node : NodeId) (wait : WaitId) : Bool :=
  (reactor.wait wait).task = some node

/-- The wait node belongs to the node and is unsatisfied. -/
def blocks (reactor : TimelineReactor) (node : NodeId) (wait : WaitId) : Bool :=
  reactor.waitsFor node wait && !(reactor.wait wait).satisfied

theorem countP_waitsFor {before after : TimelineReactor} {nodes : List WaitId}
    (same : ∀ wait ∈ nodes, (after.wait wait).task = (before.wait wait).task) (node : NodeId) :
    nodes.countP (after.waitsFor node) = nodes.countP (before.waitsFor node) :=
  List.countP_congr fun wait member => by simp only [waitsFor, same wait member]

end TimelineReactor

/-- A graph with wait points, and the reactor of the scheduler it is run on. -/
structure WaitPointState where
  graph : TaskGraph := {}
  /-- The chain from `m_firstWaitNode` through `nextInGraph`. -/
  m_firstWaitNode : List WaitId := []
  /-- `m_scheduler` is set. -/
  m_scheduler : Bool := false
  reactor : TimelineReactor
  /-- A call of `runAndWait` is in `helpUntil`. -/
  waiting : Bool := false
  /-- The wait nodes that `addWaitPoint` itself registered since the last run, newest first. -/
  direct : List WaitId := []
  /-- The tasks of all calls of `addWaitPoint`, newest first. -/
  added : List NodeId := []

/-- The public calls other than sweeps. -/
inductive WaitPointCall where
  | emplace (type : TaskType) (domain : TaskDomain)
  | addEdge (source target : NodeId) (branch : Int)
  /-- `addWaitPoint`, with the address of the new node and the time of the call. -/
  | addWaitPoint (node : NodeId) (syncPoint : TimelineSyncPoint) (wait : WaitId) (now : Int)
  /-- `runAndWait` up to its `helpUntil`. -/
  | runAndWait (now : Int)
  /-- `runAndWait` after its `helpUntil`. -/
  | finish
  deriving DecidableEq, Repr

namespace WaitPointState

/-- `addWaitPoint(node, syncPoint)`. -/
def addWaitPoint (state : WaitPointState) (node : NodeId) (syncPoint : TimelineSyncPoint)
    (wait : WaitId) (now : Int) : WaitPointState :=
  let counted := { state.graph with node := TaskGraph.countEdge state.graph.node node }
  let created := state.reactor.setWait wait { task := some node, syncPoint }
  let added := node :: state.added
  if state.m_scheduler then
    let timed := created.setWait wait { task := some node, syncPoint, registeredTime := now }
    { state with
      graph := counted
      reactor := timed.registerWait wait
      direct := wait :: state.direct
      added }
  else
    { state with
      graph := counted
      reactor := created
      m_firstWaitNode := wait :: state.m_firstWaitNode
      added }

/-- `prepareRun`, without the scheduling of the roots. -/
def prepareRun (state : WaitPointState) (now : Int) : WaitPointState :=
  if state.graph.m_nodeCount = 0 then { state with m_scheduler := true }
  else
    { state with
      m_scheduler := true
      graph :=
        { state.graph with node := RunState.resetNodes state.graph.order state.graph.node }
      reactor := state.reactor.registerWaits now state.m_firstWaitNode }

/-- One public call. -/
def call (state : WaitPointState) : WaitPointCall → Option WaitPointState
  | .emplace type domain =>
      if state.waiting = false ∧ state.graph.m_nodeCount + 1 < 2 ^ 32 then
        some { state with graph := state.graph.emplace type domain }
      else none
  | .addEdge source target branch =>
      if state.waiting = false ∧ source ∈ state.graph.order ∧ target ∈ state.graph.order then
        some { state with graph := state.graph.addEdge source target branch }
      else none
  | .addWaitPoint node syncPoint wait now =>
      if state.waiting = false ∧ node ∈ state.graph.order ∧
          wait ∉ state.m_firstWaitNode ∧ wait ∉ state.direct then
        some (state.addWaitPoint node syncPoint wait now)
      else none
  | .runAndWait now =>
      if state.waiting then none
      else
        some
          { { state with reactor := state.reactor.resetTimeout }.prepareRun now with
            waiting := true }
  | .finish =>
      if state.waiting then
        some { state with reactor := state.reactor.reset, waiting := false, direct := [] }
      else none

/-- A graph that was just constructed, on a scheduler nothing is registered with. -/
def Fresh (state : WaitPointState) : Prop :=
  state.graph.m_nodeCount = 0 ∧ state.graph.order = [] ∧ (∀ node, state.graph.node node = {}) ∧
    state.m_firstWaitNode = [] ∧ state.m_scheduler = false ∧ state.reactor.m_head = none ∧
    state.waiting = false ∧ state.direct = [] ∧ state.added = []

/-- Every dependency that `initialInDegree` counts is an edge, or a wait node that is in the
list of the reactor and unsatisfied. -/
def Counted (state : WaitPointState) : Prop :=
  ∃ nodes, Segment state.reactor.next state.reactor.m_head nodes ∧
    ∀ node ∈ state.graph.ids, (state.graph.node node).initialInDegree =
      state.graph.forwardIncoming node + nodes.countP (state.reactor.blocks node)

/-- The wait points of a node that the next `prepareRun` registers, or that wait in the
reactor. -/
def kept (state : WaitPointState) (node : NodeId) : Nat :=
  state.m_firstWaitNode.countP (state.reactor.waitsFor node) +
    state.direct.countP (state.reactor.blocks node)

/-- The wait points of a node that were registered before an earlier run, or satisfied outside
of any run. -/
def lost (state : WaitPointState) (node : NodeId) : Nat :=
  state.added.count node - state.kept node

end WaitPointState

/-- The calls one after the other, and sweeps by any number of threads. -/
def waitPointProgram : Program WaitPointState ReactorCall WaitPointCall SweepChoice where
  solo := WaitPointState.call
  fire := fun state call choice =>
    (state.reactor.fireSweep call choice).map fun (reactor, moved) =>
      ({ state with reactor }, moved)

abbrev waitPointMachine (threads : Nat) :
    Machine (Program.State WaitPointState ReactorCall threads)
      (Program.Action WaitPointCall SweepChoice threads) :=
  waitPointProgram.machine WaitPointState.Fresh .idle threads

/-- Degrees count forward edges and, beyond them, `extra` dependencies. -/
structure DegreeLaw (graph : TaskGraph) (extra : NodeId → Nat) : Prop where
  outside : ∀ node, node ∉ graph.ids → graph.node node = {} ∧ extra node = 0
  targets : ∀ node, ∀ edge ∈ (graph.node node).successors, edge.target ∈ graph.ids
  degree : ∀ node,
    (graph.node node).initialInDegree = u32 (graph.forwardIncoming node + extra node)
  ordered : ∀ node ∈ graph.order, node ∈ graph.ids

namespace DegreeLaw

variable {graph : TaskGraph} {extra : NodeId → Nat}

theorem emplace (law : DegreeLaw graph extra) {type : TaskType} {domain : TaskDomain}
    (fresh : graph.m_nodeCount + 1 < 2 ^ 32) : DegreeLaw (graph.emplace type domain) extra := by
  have newIds := TaskGraph.createNode_ids type domain fresh
  have isNew := graph.createNode_not_mem type domain
  generalize isId : (graph.createNode type domain).2 = id at newIds isNew
  have newNode (node : NodeId) : (graph.emplace type domain).node node =
      if node = id then { type, domain } else graph.node node := by
    subst isId
    rfl
  have sameEdges (node : NodeId) :
      ((graph.emplace type domain).node node).successors = (graph.node node).successors := by
    rw [newNode]
    split
    next isId => rw [isId, (law.outside id isNew).1]
    next => rfl
  have ids : (graph.emplace type domain).ids = graph.ids ++ [id] := newIds
  have incoming (node : NodeId) :
      (graph.emplace type domain).forwardIncoming node = graph.forwardIncoming node := by
    simp only [TaskGraph.forwardIncoming, ids, sameEdges, List.map_append, List.sum_append]
    simp [(law.outside id isNew).1]
  refine ⟨fun node outside => ?_, fun node edge member => ?_, fun node => ?_,
    fun node member => ?_⟩
  · rw [ids, List.mem_append, not_or, List.mem_singleton] at outside
    rw [newNode, if_neg outside.2]
    exact law.outside node outside.1
  · rw [sameEdges] at member
    rw [ids]
    exact List.mem_append_left _ (law.targets node edge member)
  · rw [incoming, newNode]
    split
    next isId =>
      subst isId
      have degree := law.degree node
      rwa [(law.outside node isNew).1] at degree
    next => exact law.degree node
  · have appended : (graph.emplace type domain).order = graph.order ++ [id] := by
      subst isId
      rfl
    rw [appended, List.mem_append] at member
    rw [ids]
    exact List.mem_append.mpr (member.imp_left (law.ordered node))

theorem addEdge (law : DegreeLaw graph extra) {source target : NodeId} {branch : Int}
    (sourceCreated : source ∈ graph.ids) (targetCreated : target ∈ graph.ids) :
    DegreeLaw (graph.addEdge source target branch) extra := by
  refine ⟨fun node outside => ?_, fun node edge member => ?_, fun node => ?_, law.ordered⟩
  · have notSource : node ≠ source := fun equal => outside (equal ▸ sourceCreated)
    have notTarget : node ≠ target := fun equal => outside (equal ▸ targetCreated)
    rw [← (law.outside node outside).1]
    refine ⟨?_, (law.outside node outside).2⟩
    simp only [TaskGraph.addEdge]
    split <;> simp [TaskGraph.countEdge, TaskGraph.linkEdge, NodeStore.set_of_ne, notSource,
      notTarget]
  · rw [TaskGraph.addEdge_successors] at member
    split at member
    · rcases List.mem_cons.mp member with rfl | old
      · exact targetCreated
      · exact law.targets node edge old
    · exact law.targets node edge member
  · rw [TaskGraph.addEdge_initialInDegree, TaskGraph.addEdge_forwardIncoming sourceCreated,
      law.degree]
    split
    · simp only [u32]
      omega
    · rfl

/-- A wait point is one more dependency of its node. -/
theorem countEdge (law : DegreeLaw graph extra) {node : NodeId} (created : node ∈ graph.ids) :
    DegreeLaw { graph with node := TaskGraph.countEdge graph.node node }
      fun other => extra other + if node = other then 1 else 0 := by
  refine ⟨fun other outside => ?_, fun other edge member => ?_, fun other => ?_, law.ordered⟩
  · have different : other ≠ node := fun equal => outside (equal ▸ created)
    obtain ⟨empty, none⟩ := law.outside other outside
    simp [TaskGraph.countEdge, NodeStore.set_of_ne, different, empty, none, Ne.symm different]
  · rw [TaskGraph.countEdge_successors] at member
    exact law.targets other edge member
  · have incoming : TaskGraph.forwardIncoming
        { graph with node := TaskGraph.countEdge graph.node node } other =
          graph.forwardIncoming other := by
      simp only [TaskGraph.forwardIncoming, TaskGraph.countEdge_successors]
      rfl
    rw [TaskGraph.countEdge_initialInDegree, incoming, law.degree]
    by_cases isNode : other = node
    · simp only [isNode, if_true, u32]
      omega
    · simp [isNode, Ne.symm isNode]

/-- `prepareRun` resets the nodes of a graph. -/
theorem resetNodes (law : DegreeLaw graph extra) :
    DegreeLaw { graph with node := RunState.resetNodes graph.order graph.node } extra := by
  have kept (node : NodeId) :
      (RunState.resetNodes graph.order graph.node node).successors =
          (graph.node node).successors ∧
        (RunState.resetNodes graph.order graph.node node).initialInDegree =
          (graph.node node).initialInDegree := by
    simp only [RunState.resetNodes]
    split <;> exact ⟨rfl, rfl⟩
  refine ⟨fun node outside => ?_, fun node edge member => ?_, fun node => ?_, law.ordered⟩
  · obtain ⟨empty, none⟩ := law.outside node outside
    refine ⟨?_, none⟩
    simp only [RunState.resetNodes]
    rw [if_neg fun member => outside (law.ordered node member)]
    exact empty
  · rw [(kept node).1] at member
    exact law.targets node edge member
  · have incoming : TaskGraph.forwardIncoming
        { graph with node := RunState.resetNodes graph.order graph.node } node =
          graph.forwardIncoming node := by
      simp only [TaskGraph.forwardIncoming, (kept _).1]
      rfl
    rw [incoming, (kept node).2]
    exact law.degree node

end DegreeLaw

/-- What holds between the calls and inside of a run. -/
structure WaitPointLaw (state : WaitPointState) (pool : Multiset ReactorCall) : Prop where
  degrees : DegreeLaw state.graph (state.added.count ·)
  list : Segment state.reactor.next state.reactor.m_head
    ((if state.waiting then state.m_firstWaitNode.reverse else []) ++ state.direct)
  distinct : (state.m_firstWaitNode ++ state.direct).Nodup
  tasks : ∀ wait ∈ state.m_firstWaitNode, ∃ node ∈ state.graph.ids,
    (state.reactor.wait wait).task = some node
  counted : ∀ node, state.m_firstWaitNode.countP (state.reactor.waitsFor node) +
    state.direct.countP (state.reactor.waitsFor node) ≤ state.added.count node
  sweeps : ∀ call ∈ pool, call.isSweep = true

namespace WaitPointLaw

variable {state next : WaitPointState} {pool : Multiset ReactorCall}

theorem fresh (fresh : state.Fresh) (idle : ∀ call ∈ pool, call = .idle) :
    WaitPointLaw state pool := by
  obtain ⟨count, order, empty, chain, -, head, waiting, direct, added⟩ := fresh
  have noIds : state.graph.ids = [] := by simp [TaskGraph.ids, count]
  refine ⟨⟨fun node _ => ⟨empty node, by simp [added]⟩, ?_, ?_, ?_⟩, ?_, ?_, ?_, ?_, ?_⟩
  · simp [empty]
  · simp [empty, added, TaskGraph.forwardIncoming, noIds, u32]
  · simp [order]
  · rw [head, waiting, direct]
    exact .nil
  · simp [chain, direct]
  · simp [chain]
  · simp [chain, direct]
  · intro call member
    rw [idle call member]
    rfl

/-- The graph changes, and the wait nodes do not. -/
theorem build (law : WaitPointLaw state pool) {graph : TaskGraph}
    (degrees : DegreeLaw graph (state.added.count ·))
    (ids : ∀ node ∈ state.graph.ids, node ∈ graph.ids) :
    WaitPointLaw { state with graph } pool where
  degrees
  list := law.list
  distinct := law.distinct
  tasks := fun wait member => by
    obtain ⟨node, created, isTask⟩ := law.tasks wait member
    exact ⟨node, ids node created, isTask⟩
  counted := law.counted
  sweeps := law.sweeps

/-- The reactor changes, but neither its list nor the tasks in it. -/
theorem sweep {reactor : TimelineReactor} {calls : Multiset ReactorCall}
    (law : WaitPointLaw state pool) (head : reactor.m_head = state.reactor.m_head)
    (pointers : reactor.next = state.reactor.next)
    (task : ∀ node, (reactor.wait node).task = (state.reactor.wait node).task)
    (sweeps : ∀ call ∈ calls, call.isSweep = true) :
    WaitPointLaw { state with reactor } calls where
  degrees := law.degrees
  list := by
    rw [head, pointers]
    exact law.list
  distinct := law.distinct
  tasks := fun wait member => by
    rw [task]
    exact law.tasks wait member
  counted := fun node => by
    rw [TimelineReactor.countP_waitsFor fun wait _ => task wait,
      TimelineReactor.countP_waitsFor fun wait _ => task wait]
    exact law.counted node
  sweeps

/-- A wait node whose address is free is created. -/
theorem addWaitPoint (law : WaitPointLaw state pool) (between : state.waiting = false)
    {node : NodeId} {syncPoint : TimelineSyncPoint} {wait : WaitId} {now : Int}
    (created : node ∈ state.graph.ids) (notChained : wait ∉ state.m_firstWaitNode)
    (notDirect : wait ∉ state.direct) :
    WaitPointLaw (state.addWaitPoint node syncPoint wait now) pool := by
  have degrees : DegreeLaw { state.graph with node := TaskGraph.countEdge state.graph.node node }
      ((node :: state.added).count ·) := by
    have counted := law.degrees.countEdge created
    simpa only [List.count_cons, beq_iff_eq] using counted
  have list := law.list
  rw [between, if_neg Bool.false_ne_true, List.nil_append] at list
  have notIn {nodes : List WaitId} {other : WaitId} (free : wait ∉ nodes) (member : other ∈ nodes) :
      other ≠ wait := fun same => free (same ▸ member)
  -- the addresses in use keep what stands there, and the new node belongs to `node`
  have kept (after : TimelineReactor)
      (same : ∀ other, other ≠ wait → after.wait other = state.reactor.wait other)
      (owner : NodeId) :
      state.m_firstWaitNode.countP (after.waitsFor owner) +
          state.direct.countP (after.waitsFor owner) ≤ state.added.count owner := by
    rw [TimelineReactor.countP_waitsFor fun other member =>
        congrArg TimelineWaitNode.task (same other (notIn notChained member)),
      TimelineReactor.countP_waitsFor fun other member =>
        congrArg TimelineWaitNode.task (same other (notIn notDirect member))]
    exact law.counted owner
  have isNew (after : TimelineReactor) (isTask : (after.wait wait).task = some node)
      (owner : NodeId) : (if after.waitsFor owner wait = true then 1 else 0) =
        if node = owner then 1 else 0 := by
    simp [TimelineReactor.waitsFor, isTask]
  simp only [WaitPointState.addWaitPoint]
  split
  next attached =>
    have same (other : WaitId) (different : other ≠ wait) :
        (((state.reactor.setWait wait { task := some node, syncPoint }).setWait wait
          { task := some node, syncPoint, registeredTime := now }).registerWait wait).wait other =
            state.reactor.wait other := by
      simp [TimelineReactor.registerWait, TimelineReactor.setWait, different]
    refine ⟨degrees, ?_, ?_, fun other member => ?_, fun owner => ?_, law.sweeps⟩
    · rw [between, if_neg Bool.false_ne_true, List.nil_append]
      refine TimelineReactor.registerWait_segment (list.congr fun other member => ?_) notDirect
      have different := notIn notDirect member
      simp [TimelineReactor.next, TimelineReactor.setWait, different]
    · rw [List.nodup_middle]
      refine List.nodup_cons.mpr ⟨?_, law.distinct⟩
      rw [List.mem_append]
      exact fun member => member.elim notChained notDirect
    · rw [same other (notIn notChained member)]
      exact law.tasks other member
    · have counts := kept _ same owner
      rw [List.countP_cons, List.count_cons, isNew _ (by
        simp [TimelineReactor.registerWait, TimelineReactor.setWait])]
      simp only [beq_iff_eq]
      omega
  next =>
    have same (other : WaitId) (different : other ≠ wait) :
        (state.reactor.setWait wait { task := some node, syncPoint }).wait other =
          state.reactor.wait other := Function.update_of_ne different ..
    refine ⟨degrees, ?_, ?_, fun other member => ?_, fun owner => ?_, law.sweeps⟩
    · rw [between, if_neg Bool.false_ne_true, List.nil_append]
      exact list.congr fun other member =>
        congrArg TimelineWaitNode.nextInReactor (same other (notIn notDirect member))
    · exact List.nodup_cons.mpr ⟨fun member =>
        (List.mem_append.mp member).elim notChained notDirect, law.distinct⟩
    · rcases List.mem_cons.mp member with rfl | member
      · refine ⟨node, created, ?_⟩
        simp [TimelineReactor.setWait]
      · rw [same other (notIn notChained member)]
        exact law.tasks other member
    · have counts := kept _ same owner
      rw [List.countP_cons, List.count_cons, isNew _ (by simp [TimelineReactor.setWait])]
      simp only [beq_iff_eq]
      omega

/-- A graph without nodes has no wait points. -/
theorem chain_nil (law : WaitPointLaw state pool) (noNodes : state.graph.m_nodeCount = 0) :
    state.m_firstWaitNode = [] := by
  refine List.eq_nil_iff_forall_not_mem.mpr fun wait member => ?_
  obtain ⟨node, created, -⟩ := law.tasks wait member
  simp [TaskGraph.ids, noNodes] at created

/-- What `prepareRun` leaves in the list. -/
theorem prepareRun_list (law : WaitPointLaw state pool) (between : state.waiting = false)
    (now : Int) : Segment (state.prepareRun now).reactor.next (state.prepareRun now).reactor.m_head
      (state.m_firstWaitNode.reverse ++ state.direct) := by
  have list := law.list
  rw [between, if_neg Bool.false_ne_true, List.nil_append] at list
  simp only [WaitPointState.prepareRun]
  split
  next noNodes => simpa [law.chain_nil noNodes] using list
  next =>
    obtain ⟨chainNodup, -, apart⟩ := List.nodup_append.mp law.distinct
    exact TimelineReactor.registerWaits_segment list chainNodup fun wait member direct =>
      apart wait member wait direct rfl

theorem prepareRun_wait (now : Int) (wait : WaitId) :
    ((state.prepareRun now).reactor.wait wait).task = (state.reactor.wait wait).task ∧
      ((state.prepareRun now).reactor.wait wait).satisfied =
        if state.graph.m_nodeCount ≠ 0 ∧ wait ∈ state.m_firstWaitNode then false
        else (state.reactor.wait wait).satisfied := by
  simp only [WaitPointState.prepareRun]
  split
  next noNodes => simp [noNodes]
  next someNodes =>
    obtain ⟨task, satisfied⟩ :=
      @TimelineReactor.registerWaits_wait state.reactor state.m_firstWaitNode now wait
    exact ⟨task, by simpa [someNodes] using satisfied⟩

theorem prepareRun_degrees (law : WaitPointLaw state pool) (now : Int) :
    DegreeLaw (state.prepareRun now).graph (state.added.count ·) := by
  simp only [WaitPointState.prepareRun]
  split
  next => exact law.degrees
  next => exact law.degrees.resetNodes

/-- After `prepareRun` the kept wait points are those that block their node. -/
theorem countP_blocks (law : WaitPointLaw state pool) (now : Int) (node : NodeId) :
    (state.m_firstWaitNode.reverse ++ state.direct).countP
      ((state.prepareRun now).reactor.blocks node) = state.kept node := by
  obtain ⟨chainNodup, -, apart⟩ := List.nodup_append.mp law.distinct
  rw [List.countP_append, List.countP_reverse, WaitPointState.kept]
  congr 1
  · refine List.countP_congr fun wait member => ?_
    have someNodes : state.graph.m_nodeCount ≠ 0 := fun noNodes => by
      rw [law.chain_nil noNodes] at member
      cases member
    simp [TimelineReactor.blocks, TimelineReactor.waitsFor, prepareRun_wait, someNodes, member]
  · refine List.countP_congr fun wait member => ?_
    have notChained : wait ∉ state.m_firstWaitNode := fun chained =>
      apart wait chained wait member rfl
    simp [TimelineReactor.blocks, TimelineReactor.waitsFor, prepareRun_wait, notChained]

theorem runAndWait (law : WaitPointLaw state pool) (between : state.waiting = false) (now : Int) :
    WaitPointLaw { state.prepareRun now with waiting := true } pool := by
  have sameWaits : (state.prepareRun now).m_firstWaitNode = state.m_firstWaitNode ∧
      (state.prepareRun now).direct = state.direct ∧
      (state.prepareRun now).added = state.added ∧
      (state.prepareRun now).graph.ids = state.graph.ids := by
    simp only [WaitPointState.prepareRun]
    split <;> exact ⟨rfl, rfl, rfl, rfl⟩
  obtain ⟨chain, direct, added, ids⟩ := sameWaits
  refine ⟨?_, ?_, ?_, fun wait member => ?_, fun node => ?_, law.sweeps⟩
  · rw [added]
    exact law.prepareRun_degrees now
  · rw [if_pos rfl, chain, direct]
    exact law.prepareRun_list between now
  · rw [chain, direct]
    exact law.distinct
  · rw [chain] at member
    rw [ids, (prepareRun_wait now wait).1]
    exact law.tasks wait member
  · rw [chain, direct, added,
      TimelineReactor.countP_waitsFor fun wait _ => (prepareRun_wait now wait).1,
      TimelineReactor.countP_waitsFor fun wait _ => (prepareRun_wait now wait).1]
    exact law.counted node

theorem finish (law : WaitPointLaw state pool) :
    WaitPointLaw { state with reactor := state.reactor.reset, waiting := false, direct := [] }
      pool where
  degrees := law.degrees
  list := .nil
  distinct := (List.append_nil _).symm ▸ (List.nodup_append.mp law.distinct).1
  tasks := law.tasks
  counted := fun node => by
    have counted := law.counted node
    simp only [List.countP_nil, Nat.add_zero]
    exact Nat.le_trans (Nat.le_add_right ..) counted
  sweeps := law.sweeps

theorem call (law : WaitPointLaw state pool) {call : WaitPointCall}
    (performed : state.call call = some next) : WaitPointLaw next pool := by
  cases call with
  | emplace type domain =>
      simp only [WaitPointState.call] at performed
      split at performed <;> cases performed
      next allowed =>
        refine law.build (law.degrees.emplace allowed.2) fun node created => ?_
        have newIds := TaskGraph.createNode_ids type domain allowed.2
        exact newIds ▸ List.mem_append_left _ created
  | addEdge source target branch =>
      simp only [WaitPointState.call] at performed
      split at performed <;> cases performed
      next allowed =>
        exact law.build (law.degrees.addEdge (law.degrees.ordered _ allowed.2.1)
          (law.degrees.ordered _ allowed.2.2)) fun node created => created
  | addWaitPoint node syncPoint wait now =>
      simp only [WaitPointState.call] at performed
      split at performed <;> cases performed
      next allowed =>
        exact law.addWaitPoint allowed.1 (law.degrees.ordered _ allowed.2.1) allowed.2.2.1
          allowed.2.2.2
  | runAndWait now =>
      simp only [WaitPointState.call] at performed
      split at performed <;> cases performed
      next between =>
        have begun := law.sweep (show state.reactor.resetTimeout.m_head = _ from rfl) rfl
          (fun _ => rfl) law.sweeps
        exact begun.runAndWait (Bool.eq_false_iff.mpr between) now
  | finish =>
      simp only [WaitPointState.call] at performed
      split at performed <;> cases performed
      exact law.finish

end WaitPointLaw

variable {threads : Nat} {state : Program.State WaitPointState ReactorCall threads}

theorem waitPointLaw_of_reachable (reachable : (waitPointMachine threads).Reachable state) :
    WaitPointLaw state.shared state.pool := by
  have allowed : (waitPointMachine threads).ReachableBy
      (Program.Allowed (fun _ _ => True) fun _ _ _ => True) state :=
    reachable.mono fun _ action _ => by cases action <;> trivial
  refine Program.invariant (motive := WaitPointLaw) (fun _ _ => .fresh) ?_ ?_ allowed
  · intro shared pool action next law _ performed
    exact law.call performed
  · intro shared call rest choice next moved law _ fired
    obtain ⟨⟨reactor, after⟩, performed, same⟩ := Option.map_eq_some_iff.mp fired
    cases same
    obtain ⟨sweeps, head, pointers, task⟩ :=
      TimelineReactor.fireSweep_keeps (law.sweeps call (Multiset.mem_cons_self ..)) performed
    refine law.sweep head pointers task fun other member => ?_
    rcases Multiset.mem_cons.mp member with rfl | member
    · exact sweeps
    · exact law.sweeps other (Multiset.mem_cons_of_mem member)

/-- A `prepareRun` counts dependencies that exist exactly if no wait point of a node is lost, up
to a wrap of the 32-bit `initialInDegree`. -/
theorem waits_counted_iff (reachable : (waitPointMachine threads).Reachable state)
    (between : state.shared.waiting = false) (now : Int) :
    (state.shared.prepareRun now).Counted ↔ ∀ node ∈ state.shared.graph.ids,
      state.shared.lost node = 2 ^ 32 * ((state.shared.graph.forwardIncoming node +
        state.shared.added.count node) / 2 ^ 32) := by
  have law := waitPointLaw_of_reachable reachable
  have list := law.prepareRun_list between now
  have degrees := law.prepareRun_degrees now
  have incoming (node : NodeId) : (state.shared.prepareRun now).graph.forwardIncoming node =
      state.shared.graph.forwardIncoming node := by
    simp only [WaitPointState.prepareRun]
    split
    next => rfl
    next =>
      refine congrArg List.sum (List.map_congr_left fun source _ => ?_)
      simp only [RunState.resetNodes]
      split <;> rfl
  have ids : (state.shared.prepareRun now).graph.ids = state.shared.graph.ids := by
    simp only [WaitPointState.prepareRun]
    split <;> rfl
  have keptLe (node : NodeId) : state.shared.kept node ≤ state.shared.added.count node := by
    refine Nat.le_trans (Nat.add_le_add_left ?_ _) (law.counted node)
    refine List.countP_mono_left fun wait _ blocks => ?_
    simp only [TimelineReactor.blocks, Bool.and_eq_true] at blocks
    exact blocks.1
  have count (node : NodeId) :
      ((state.shared.prepareRun now).graph.node node).initialInDegree =
          (state.shared.prepareRun now).graph.forwardIncoming node +
            (state.shared.m_firstWaitNode.reverse ++ state.shared.direct).countP
              ((state.shared.prepareRun now).reactor.blocks node) ↔
        state.shared.lost node = 2 ^ 32 * ((state.shared.graph.forwardIncoming node +
          state.shared.added.count node) / 2 ^ 32) := by
    have le := keptLe node
    rw [degrees.degree, incoming, law.countP_blocks, WaitPointState.lost, u32]
    omega
  constructor
  · rintro ⟨nodes, same, counted⟩ node created
    rw [same.unique list] at counted
    exact (count node).mp (counted node (ids ▸ created))
  · intro noneLost
    exact ⟨_, list, fun node created => (count node).mpr (noneLost node (ids ▸ created))⟩

/-! ## A wait point between two runs -/

section Between

/-- A new graph, on a scheduler that has not run one. -/
def newGraph : Program.State WaitPointState ReactorCall 1 where
  shared :=
    { reactor := { wait := fun _ => { task := none, syncPoint := { handle := 0, value := 0 } } } }
  here := fun _ => .idle

theorem newGraph_initial : (waitPointMachine 1).initial newGraph :=
  ⟨⟨rfl, rfl, fun _ => rfl, rfl, rfl, rfl, rfl, rfl, rfl⟩, fun _ => rfl⟩

/-- The one node waits for the value 3 of the timeline 7. -/
def addPoint : Program.Action WaitPointCall SweepChoice 1 :=
  .solo (.addWaitPoint (.node 0) { handle := 7, value := 3 } 0 0)

/-- A run, in which the value is notified. -/
def notifiedRun : List (Program.Action WaitPointCall SweepChoice 1) :=
  .solo (.runAndWait 0) :: .thread 0 (.sweep (.notifyTimelineAdvanced 7 3)) ::
    List.replicate 6 (.thread 0 (.go {})) ++ [.solo .finish]

/-- A wait point that is added after the first run is released in the second, and nothing can
release it in the third. -/
theorem not_waits_counted : ∃ state : Program.State WaitPointState ReactorCall 1,
    (waitPointMachine 1).Reachable state ∧ state.shared.waiting = false ∧
      (state.shared.prepareRun 0).reactor.m_head = none ∧
      ¬ (state.shared.prepareRun 0).Counted := by
  obtain ⟨state, reachable, between, noList, created, counted⟩ : ∃ state,
      (waitPointMachine 1).Reachable state ∧ state.shared.waiting = false ∧
        (state.shared.prepareRun 0).reactor.m_head = none ∧
        NodeId.node 0 ∈ (state.shared.prepareRun 0).graph.ids ∧
        ((state.shared.prepareRun 0).graph.node (.node 0)).initialInDegree =
          (state.shared.prepareRun 0).graph.forwardIncoming (.node 0) + 1 :=
    Machine.ReachableBy.exists_of_run (.start newGraph_initial)
      (.solo (.emplace .static .worker) :: [.solo (.runAndWait 0), .solo .finish] ++
        addPoint :: notifiedRun) (by decide +kernel)
  refine ⟨state, reachable, between, noList, ?_⟩
  rintro ⟨nodes, list, dependencies⟩
  have degree := dependencies _ created
  rw [noList] at list
  cases list
  simp only [List.countP_nil] at degree
  omega

/-- A wait point that is added before the first run counts in every run. -/
theorem waits_counted_iff_early : ∃ state : Program.State WaitPointState ReactorCall 1,
    (state.shared.prepareRun 0).reactor.m_head = some 0 ∧ (state.shared.prepareRun 0).Counted := by
  obtain ⟨state, reachable, between, isHead, noneLost⟩ : ∃ state,
      (waitPointMachine 1).Reachable state ∧ state.shared.waiting = false ∧
        (state.shared.prepareRun 0).reactor.m_head = some 0 ∧
        ∀ node ∈ state.shared.graph.ids, state.shared.lost node =
          2 ^ 32 * ((state.shared.graph.forwardIncoming node +
            state.shared.added.count node) / 2 ^ 32) :=
    Machine.ReachableBy.exists_of_run (.start newGraph_initial)
      (.solo (.emplace .static .worker) :: addPoint :: notifiedRun) (by decide +kernel)
  exact ⟨state, isHead, (waits_counted_iff reachable between 0).mpr noneLost⟩

end Between

end LightFlow
