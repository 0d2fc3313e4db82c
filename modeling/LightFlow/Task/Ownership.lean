import LightFlow.Task.Execute
import LightFlow.Task.Graph

/-!
# Who destroys a callable

A node owns the object in its storage, or the join node of a `parallelFor` the shared
callable, through `destroyFn`.  `TaskGraph::clear` calls it for the nodes of the chain; the
nodes that a subflow callable creates are not on the chain, and their arena is only reset.
-/

namespace LightFlow

/-- What a node asks of the type of a callable. -/
structure Callable where
  size : Nat
  alignment : Nat
  /-- `std::is_trivially_destructible_v`. -/
  trivial : Bool
  deriving DecidableEq, Repr

/-- The lambda without captures of the library's own nodes. -/
def Callable.empty : Callable := { size := 1, alignment := 1, trivial := true }

/-- A callable object. -/
structure CallableObject where
  id : Nat
  type : Callable
  deriving DecidableEq, Repr

/-- What `destroyFn` destroys. -/
inductive DestroyFn where
  /-- The object in `inlineStorage`. -/
  | inPlace
  /-- The object in the arena that `inlineStorage` points to. -/
  | spilled
  /-- The shared callable that `userData` points to. -/
  | shared
  deriving DecidableEq, Repr

/-- The callable storage of a `TaskNode`. -/
structure CallableNode where
  id : NodeId
  type : TaskType := .static
  /-- The object that stands in `inlineStorage`, or that it points to. -/
  inlineStorage : Option CallableObject := none
  userData : Option CallableObject := none
  destroyFn : Option DestroyFn := none
  /-- `executeFn` is set. -/
  executeFn : Bool := false
  /-- The shared callable that a chunk refers to. -/
  sharedCallable : Option CallableObject := none
  deriving DecidableEq, Repr

/-- The life of callable objects. -/
inductive CallableEvent where
  /-- The object was constructed, in a node of a subflow or elsewhere. -/
  | created (object : CallableObject) (child : Bool)
  | invoked (object : CallableObject)
  /-- The destructor was run. -/
  | destroyed (object : CallableObject)
  deriving DecidableEq, Repr

namespace CallableNode

/-- The object whose destructor `destroyFn` runs. -/
def owned (node : CallableNode) : Option CallableObject :=
  match node.destroyFn with
  | none => none
  | some .inPlace | some .spilled => node.inlineStorage
  | some .shared => node.userData

/-- `destroy`. -/
def destroy (node : CallableNode) : CallableNode × List CallableEvent :=
  ({ node with
      userData := if node.destroyFn = some .shared then none else node.userData
      destroyFn := none
      executeFn := false },
    (node.owned.map .destroyed).toList)

/-- `setCallable` and `setConditionCallable`, which sets the type before. -/
def setCallable (node : CallableNode) (object : CallableObject) (child : Bool) :
    CallableNode × List CallableEvent :=
  let (destroyed, events) := node.destroy
  let fits := object.type.size ≤ 48 ∧ object.type.alignment ≤ 16
  ({ destroyed with
      inlineStorage := some object
      executeFn := true
      destroyFn := some (if fits then .inPlace else .spilled) },
    .created object child :: events)

/-- The objects that `executeFn` invokes. -/
def invokes (node : CallableNode) : List CallableObject :=
  if node.executeFn then node.inlineStorage.toList ++ node.sharedCallable.toList else []

end CallableNode

/-- The user code of a graph: what its callables do, and which callables they emplace. -/
structure UserCode where
  callables : Callables
  /-- The callable that a call of a subflow callable emplaces, by the number of the call and the
  position of the child. -/
  emplaces : NodeId → Nat → Nat → Callable

/-- The callables of a graph and of its subflows, with their history, newest event first. -/
structure OwnershipState where
  /-- The chain from `m_firstNode` through `nextInGraph`. -/
  nodes : List CallableNode := []
  /-- The nodes that subflow callables created in the current run, newest first. -/
  children : List CallableNode := []
  /-- The nodes whose memory `clear` gave back. -/
  stale : List CallableNode := []
  /-- Number of callable objects so far. -/
  objects : Nat := 0
  log : List CallableEvent := []

namespace OwnershipState

/-- A node with a new callable object, and its events. -/
def newNode (state : OwnershipState) (id : NodeId) (type : TaskType) (callable : Callable)
    (child : Bool) : CallableNode × List CallableEvent :=
  CallableNode.setCallable { id, type } ⟨state.objects, callable⟩ child

/-- `emplace` and its variants. -/
def emplace (state : OwnershipState) (id : NodeId) (type : TaskType) (callable : Callable) :
    OwnershipState :=
  let (node, events) := state.newNode id type callable false
  { state with
    nodes := state.nodes ++ [node]
    objects := state.objects + 1
    log := events ++ state.log }

/-- One pass of the chunk loop of `parallelFor`. -/
def emplaceChunk (state : OwnershipState) (id : NodeId) (sharedCallable : CallableObject) :
    OwnershipState :=
  let (node, events) := state.newNode id .parallelForChunk
    { size := 40, alignment := 8, trivial := true } false
  { state with
    nodes := state.nodes ++ [{ node with sharedCallable := some sharedCallable }]
    objects := state.objects + 1
    log := events ++ state.log }

/-- The chunk loop of `parallelFor`. -/
def emplaceChunks (sharedCallable : CallableObject) :
    OwnershipState → Nat → Nat → OwnershipState
  | state, _, 0 => state
  | state, m_nodeCount, chunks + 1 =>
      emplaceChunks sharedCallable (state.emplaceChunk (.node m_nodeCount) sharedCallable)
        (u32 (m_nodeCount + 1)) chunks

/-- `m_arena.create<DecayedF>` for the shared callable. -/
def createShared (state : OwnershipState) (callable : Callable) : OwnershipState :=
  { state with
    objects := state.objects + 1
    log := .created ⟨state.objects, callable⟩ false :: state.log }

/-- The join node of `parallelFor` takes over the shared callable. -/
def join (node : CallableNode) (sharedCallable : CallableObject) : CallableNode :=
  { node with
    userData := some sharedCallable
    destroyFn := if sharedCallable.type.trivial then node.destroyFn else some .shared }

/-- `parallelFor(count, batchSize, callable)` of a graph with so many nodes. -/
def parallelFor (state : OwnershipState) (m_nodeCount count batchSize : Nat)
    (callable : Callable) : OwnershipState :=
  if count = 0 then state.emplace (.node m_nodeCount) .parallelForChunk .empty
  else
    let numChunks := TaskGraph.parallelForChunkCount count batchSize
    if numChunks = 1 then state.emplace (.node m_nodeCount) .parallelForChunk callable
    else
      let sharedCallable : CallableObject := ⟨state.objects, callable⟩
      let entered := (state.createShared callable).emplace (.node m_nodeCount) .static .empty
      let (node, events) := entered.newNode (.node (u32 (m_nodeCount + 1))) .static .empty false
      let prepared := { entered with objects := entered.objects + 1, log := events ++ entered.log }
      let chunked := emplaceChunks sharedCallable prepared (u32 (u32 (m_nodeCount + 1) + 1))
        numChunks
      { chunked with nodes := chunked.nodes ++ [join node sharedCallable] }

/-- The node that a pointer leads to. -/
def find (state : OwnershipState) (id : NodeId) : Option CallableNode :=
  (state.nodes ++ (state.children ++ state.stale)).find? (·.id = id)

/-- `executeFn(this)` up to the calls of the user. -/
def invoke (state : OwnershipState) (id : NodeId) : OwnershipState :=
  match state.find id with
  | none => state
  | some node => { state with log := node.invokes.map .invoked ++ state.log }

/-- A node in the arena of a subflow. -/
def emplaceChild (state : OwnershipState) (id : NodeId) (type : TaskType) (callable : Callable) :
    OwnershipState :=
  let (node, events) := state.newNode id type callable true
  { state with
    children := node :: state.children
    objects := state.objects + 1
    log := events ++ state.log }

/-- The callable of a subflow emplaces its children. -/
def emplaceChildren (emplaces : Nat → Callable) (parent : NodeId) :
    OwnershipState → Nat → List ChildNode → OwnershipState
  | state, _, [] => state
  | state, index, child :: rest =>
      emplaceChildren emplaces parent
        (state.emplaceChild (.child parent index) child.type (emplaces index)) (index + 1) rest

/-- The lambda of the exit node, which sets `m_isDone` when the subflow is joined. -/
def exitCallable (mode : SubflowMode) : Callable :=
  if mode = .joined then { size := 8, alignment := 8, trivial := true } else .empty

/-- The exit node that `splice` creates. -/
def splice (state : OwnershipState) (parent : NodeId) (children : ChildGraph) : OwnershipState :=
  if u32 children.nodes.length = 0 ∨ children.mode = .detached then state
  else state.emplaceChild (.exit parent) .static (exitCallable children.mode)

/-- `executeFn(this)` of a node, called for the time of the given number. -/
def call (code : UserCode) (state : OwnershipState) (id : NodeId) (type : TaskType) (number : Nat) :
    OwnershipState :=
  let invoked := state.invoke id
  if type = .subflow then
    let children := code.callables.subflow id
    (emplaceChildren (code.emplaces id number) id invoked 0 children.nodes).splice id children
  else invoked

/-- `clear`. -/
def clear (state : OwnershipState) : OwnershipState :=
  { state with
    nodes := []
    stale := state.nodes ++ state.stale
    log := (state.nodes.flatMap fun node => node.destroy.2).reverse ++ state.log }

/-- Every callable object with a destructor had it run exactly once. -/
def DestroyedOnce (state : OwnershipState) : Prop :=
  ∀ object child, .created object child ∈ state.log → object.type.trivial = false →
    state.log.count (.destroyed object) = 1

/-- What a graph has on its chain, and what was on it before `clear`. -/
def chains (state : OwnershipState) : List CallableNode × List CallableNode :=
  (state.nodes, state.stale)

theorem emplaceChunks_stale (sharedCallable : CallableObject) (chunks : Nat)
    (state : OwnershipState) (m_nodeCount : Nat) :
    (emplaceChunks sharedCallable state m_nodeCount chunks).stale = state.stale := by
  induction chunks generalizing state m_nodeCount with
  | zero => rfl
  | succ chunks ih => exact ih (state.emplaceChunk _ sharedCallable) _

theorem parallelFor_stale (state : OwnershipState) (m_nodeCount count batchSize : Nat)
    (callable : Callable) :
    (state.parallelFor m_nodeCount count batchSize callable).stale = state.stale := by
  simp only [parallelFor]
  split
  · rfl
  · split
    · rfl
    · exact emplaceChunks_stale _ _ _ _

theorem invoke_chains (state : OwnershipState) (id : NodeId) :
    (state.invoke id).chains = state.chains := by
  rw [invoke]
  split <;> rfl

theorem emplaceChildren_chains (emplaces : Nat → Callable) (parent : NodeId)
    (children : List ChildNode) (state : OwnershipState) (index : Nat) :
    (emplaceChildren emplaces parent state index children).chains = state.chains := by
  induction children generalizing state index with
  | nil => rfl
  | cons child children ih => exact ih (state.emplaceChild _ _ _) (index + 1)

theorem splice_chains (state : OwnershipState) (parent : NodeId) (children : ChildGraph) :
    (state.splice parent children).chains = state.chains := by
  rw [splice]
  split <;> rfl

/-- A call adds nothing to the chain. -/
theorem call_chains (code : UserCode) (state : OwnershipState) (id : NodeId) (type : TaskType)
    (number : Nat) : (state.call code id type number).chains = state.chains := by
  rw [call]
  split
  · exact (splice_chains _ _ _).trans
      ((emplaceChildren_chains _ _ _ _ _).trans (invoke_chains state id))
  · exact invoke_chains state id

end OwnershipState

/-- No object is invoked after its destructor was run. -/
def NeverInvokedDead (log : List CallableEvent) : Prop :=
  ∀ newer older object, log = newer ++ .invoked object :: older →
    object.type.trivial = false → .destroyed object ∉ older

theorem NeverInvokedDead.cons {log : List CallableEvent} {event : CallableEvent}
    (alive : NeverInvokedDead log) (isAlive : ∀ object, event = .invoked object →
      object.type.trivial = false → .destroyed object ∉ log) : NeverInvokedDead (event :: log) := by
  intro newer older object split
  cases newer with
  | nil =>
      cases split
      exact isAlive object rfl
  | cons head newer =>
      cases split
      exact alive newer older object rfl

/-- Events that are no invocations. -/
theorem NeverInvokedDead.append {log : List CallableEvent} (events : List CallableEvent)
    (alive : NeverInvokedDead log) (none : ∀ object, .invoked object ∉ events) :
    NeverInvokedDead (events ++ log) := by
  induction events with
  | nil => exact alive
  | cons event events ih =>
      refine (ih fun object member => none object (List.mem_cons_of_mem _ member)).cons
        fun object isInvoked => ?_
      exact absurd (isInvoked ▸ List.mem_cons_self ..) (none object)

namespace CallableNode

/-- A node with a new callable owns it. -/
theorem setCallable_new (id : NodeId) (type : TaskType) (object : CallableObject) (child : Bool) :
    ∃ destroyFn, destroyFn ≠ .shared ∧
      setCallable { id, type } object child =
        ({ id, type, inlineStorage := some object, executeFn := true, destroyFn := some destroyFn },
          [.created object child]) := by
  by_cases fits : object.type.size ≤ 48 ∧ object.type.alignment ≤ 16
  · exact ⟨.inPlace, by decide, by simp [setCallable, destroy, owned, fits]⟩
  · exact ⟨.spilled, by decide, by simp [setCallable, destroy, owned, fits]⟩

end CallableNode

/-- How many nodes of the chain would destroy the object. -/
def OwnershipState.owners (state : OwnershipState) (object : CallableObject) : Nat :=
  state.nodes.countP fun node => node.owned = some object

/-- Each object that is created outside of subflows has one owner until its destructor is run;
`held` are the objects that only a call in progress knows. -/
structure OwnershipLaw (state : OwnershipState) (held : List CallableObject) : Prop where
  fresh : ∀ object child, .created object child ∈ state.log → object.id < state.objects
  once : ∀ object, state.log.count (.created object false) +
    state.log.count (.created object true) ≤ 1
  owned : ∀ object, object.type.trivial = false →
    state.owners object + held.count object + state.log.count (.destroyed object) =
      state.log.count (.created object false)
  stored : ∀ node ∈ state.nodes, ∀ object ∈ node.invokes, object.type.trivial = false →
    0 < state.owners object + held.count object
  children : ∀ node ∈ state.children, ∀ object ∈ node.invokes, object.type.trivial = false →
    .created object true ∈ state.log
  alive : NeverInvokedDead state.log

namespace OwnershipLaw

variable {state : OwnershipState} {held : List CallableObject}

theorem initial : OwnershipLaw {} [] where
  fresh := by simp
  once := by simp
  owned := by simp [OwnershipState.owners]
  stored := by simp
  children := by simp
  alive := fun newer older object split => by simp at split

/-- An object that does not exist yet has no history. -/
theorem unborn (law : OwnershipLaw state held) (callable : Callable) :
    .created ⟨state.objects, callable⟩ false ∉ state.log ∧
      .created ⟨state.objects, callable⟩ true ∉ state.log :=
  ⟨fun member => Nat.lt_irrefl _ (law.fresh _ _ member),
    fun member => Nat.lt_irrefl _ (law.fresh _ _ member)⟩

/-- A new object, of a subflow or not. -/
theorem once_created (law : OwnershipLaw state held) (callable : Callable) (child : Bool)
    (object : CallableObject) :
    (.created ⟨state.objects, callable⟩ child :: state.log).count (.created object false) +
      (.created ⟨state.objects, callable⟩ child :: state.log).count (.created object true) ≤ 1 := by
  obtain ⟨unborn, unbornChild⟩ := law.unborn callable
  have once := law.once object
  simp only [List.count_cons, beq_iff_eq, CallableEvent.created.injEq]
  by_cases isNew : (⟨state.objects, callable⟩ : CallableObject) = object
  · rw [← isNew, List.count_eq_zero_of_not_mem unborn, List.count_eq_zero_of_not_mem unbornChild]
    cases child <;> simp
  · simpa [isNew] using once

theorem fresh_created (law : OwnershipLaw state held) {callable : Callable} {child : Bool} :
    ∀ object other, .created object other ∈
      .created ⟨state.objects, callable⟩ child :: state.log → object.id < state.objects + 1 := by
  intro object other member
  rcases List.mem_cons.mp member with isNew | member
  · cases isNew
    exact Nat.lt_succ_self _
  · exact Nat.lt_succ_of_lt (law.fresh object other member)

/-- A new object is created, which a call in progress knows. -/
theorem create (law : OwnershipLaw state held) (callable : Callable) :
    OwnershipLaw (state.createShared callable) (⟨state.objects, callable⟩ :: held) where
  fresh := law.fresh_created
  once := law.once_created callable false
  owned := fun object hasDestructor => by
    have owned := law.owned object hasDestructor
    simp only [OwnershipState.createShared, OwnershipState.owners, List.count_cons, beq_iff_eq,
      CallableEvent.created.injEq, and_true, reduceCtorEq, if_false] at owned ⊢
    omega
  stored := fun node member object isInvoked hasDestructor => by
    have stored := law.stored node member object isInvoked hasDestructor
    simp only [OwnershipState.createShared, OwnershipState.owners, List.count_cons] at stored ⊢
    omega
  children := fun node member object isInvoked hasDestructor =>
    List.mem_cons_of_mem _ (law.children node member object isInvoked hasDestructor)
  alive := law.alive.cons fun _ isInvoked => nomatch isInvoked

/-- A node joins the chain and takes over an object. -/
theorem append {rest : List CallableObject} (law : OwnershipLaw state held) (node : CallableNode)
    (takes : ∀ object : CallableObject, object.type.trivial = false →
      held.count object = rest.count object + if node.owned = some object then 1 else 0)
    (known : ∀ object ∈ node.invokes, object.type.trivial = false →
      0 < state.owners object + held.count object) :
    OwnershipLaw { state with nodes := state.nodes ++ [node] } rest := by
  have owners (object : CallableObject) :
      OwnershipState.owners { state with nodes := state.nodes ++ [node] } object =
        state.owners object + if node.owned = some object then 1 else 0 := by
    simp [OwnershipState.owners, List.countP_append, List.countP_singleton]
  have kept (object : CallableObject) (hasDestructor : object.type.trivial = false) :
      OwnershipState.owners { state with nodes := state.nodes ++ [node] } object +
        rest.count object = state.owners object + held.count object := by
    rw [owners, takes object hasDestructor]
    omega
  refine ⟨law.fresh, law.once, fun object hasDestructor => ?_,
    fun other member object isInvoked hasDestructor => ?_, law.children, law.alive⟩
  · rw [kept object hasDestructor]
    exact law.owned object hasDestructor
  · rw [kept object hasDestructor]
    rcases List.mem_append.mp member with member | isNode
    · exact law.stored other member object isInvoked hasDestructor
    · rw [List.mem_singleton.mp isNode] at isInvoked
      exact known object isInvoked hasDestructor

/-- A node of the chain is created with its callable. -/
theorem emplaceNode (law : OwnershipLaw state held) (id : NodeId) (type : TaskType)
    (callable : Callable)
    (sharedCallable : Option CallableObject)
    (known : ∀ object ∈ sharedCallable, object.type.trivial = false →
      0 < state.owners object + held.count object) :
    OwnershipLaw
      { state with
        nodes := state.nodes ++ [{ (state.newNode id type callable false).1 with sharedCallable }]
        objects := state.objects + 1
        log := (state.newNode id type callable false).2 ++ state.log } held := by
  obtain ⟨destroyFn, notShared, isNew⟩ :=
    CallableNode.setCallable_new id type ⟨state.objects, callable⟩ false
  rw [OwnershipState.newNode, isNew]
  refine (law.create callable).append _ (fun object _ => ?_)
    fun object isInvoked hasDestructor => ?_
  · rw [List.count_cons]
    cases destroyFn with
    | inPlace | spilled => simp [CallableNode.owned]
    | shared => exact absurd rfl notShared
  · simp only [CallableNode.invokes, if_true, Option.toList_some, List.singleton_append,
      List.mem_cons, Option.mem_toList] at isInvoked
    rcases isInvoked with rfl | isShared
    · simp
    · have known := known object isShared hasDestructor
      simp only [OwnershipState.createShared, OwnershipState.owners, List.count_cons] at known ⊢
      omega

theorem emplace (law : OwnershipLaw state held) (id : NodeId) (type : TaskType)
    (callable : Callable) : OwnershipLaw (state.emplace id type callable) held := by
  have emplaced := law.emplaceNode id type callable none (by simp)
  obtain ⟨destroyFn, -, isNew⟩ :=
    CallableNode.setCallable_new id type ⟨state.objects, callable⟩ false
  simp only [OwnershipState.emplace, OwnershipState.newNode, isNew] at emplaced ⊢
  exact emplaced

theorem emplaceChunks (m_nodeCount chunks : Nat) {sharedCallable : CallableObject}
    (law : OwnershipLaw state held) (known : sharedCallable ∈ held) :
    OwnershipLaw (OwnershipState.emplaceChunks sharedCallable state m_nodeCount chunks) held := by
  induction chunks generalizing state m_nodeCount with
  | zero => exact law
  | succ chunks ih =>
      refine ih _ (law.emplaceNode _ .parallelForChunk _ _ fun object isShared _ => ?_)
      rw [← Option.some.inj isShared]
      exact Nat.add_pos_right _ (List.count_pos_iff.mpr known)

theorem parallelFor (law : OwnershipLaw state []) (m_nodeCount count batchSize : Nat)
    (callable : Callable) :
    OwnershipLaw (state.parallelFor m_nodeCount count batchSize callable) [] := by
  simp only [OwnershipState.parallelFor]
  split
  · exact law.emplace _ _ _
  · split
    · exact law.emplace _ _ _
    · have entered := (law.create callable).emplace (.node m_nodeCount) .static .empty
      generalize (state.createShared callable).emplace (.node m_nodeCount) .static .empty =
        entering at entered ⊢
      obtain ⟨destroyFn, notShared, isNew⟩ := CallableNode.setCallable_new
        (.node (u32 (m_nodeCount + 1))) .static ⟨entering.objects, .empty⟩ false
      have chunked := emplaceChunks (u32 (u32 (m_nodeCount + 1) + 1))
        (TaskGraph.parallelForChunkCount count batchSize)
        (entered.create .empty) (List.mem_cons_of_mem _ (List.mem_cons_self ..))
      simp only [OwnershipState.newNode, isNew]
      refine chunked.append _ (fun object hasDestructor => ?_)
        fun object isInvoked hasDestructor => ?_
      · -- the object without a destructor is nobody's concern
        have notEmpty : (⟨entering.objects, .empty⟩ : CallableObject) ≠ object := by
          rintro rfl
          cases hasDestructor
        by_cases isTrivial : callable.trivial = true
        · have notHeld : (⟨state.objects, callable⟩ : CallableObject) ≠ object := by
            rintro rfl
            exact absurd hasDestructor (by simp [isTrivial])
          cases destroyFn with
          | inPlace | spilled =>
              simp [OwnershipState.join, CallableNode.owned, isTrivial, notEmpty, notHeld]
          | shared => exact absurd rfl notShared
        · simp [OwnershipState.join, CallableNode.owned, isTrivial, notEmpty, List.count_cons]
      · simp only [OwnershipState.join, CallableNode.invokes, if_true, Option.toList_some,
          Option.toList_none, List.append_nil, List.mem_singleton] at isInvoked
        subst isInvoked
        cases hasDestructor

/-- A node of a subflow is created with its callable. -/
theorem emplaceChild (law : OwnershipLaw state held) (id : NodeId) (type : TaskType)
    (callable : Callable) : OwnershipLaw (state.emplaceChild id type callable) held := by
  obtain ⟨destroyFn, -, isNew⟩ :=
    CallableNode.setCallable_new id type ⟨state.objects, callable⟩ true
  simp only [OwnershipState.emplaceChild, OwnershipState.newNode, isNew]
  refine ⟨law.fresh_created, law.once_created callable true, fun object hasDestructor => ?_,
    law.stored, fun node member object isInvoked hasDestructor => ?_,
    law.alive.cons fun _ isInvoked => nomatch isInvoked⟩
  · have owned := law.owned object hasDestructor
    simpa [OwnershipState.owners, List.count_cons] using owned
  · rcases List.mem_cons.mp member with rfl | member
    · simp only [CallableNode.invokes, if_true, Option.toList_some, Option.toList_none,
        List.append_nil, List.mem_singleton] at isInvoked
      subst isInvoked
      exact List.mem_cons_self ..
    · exact List.mem_cons_of_mem _ (law.children node member object isInvoked hasDestructor)

/-- Nothing that a node on the chain or in a subflow invokes was destroyed. -/
theorem not_destroyed (law : OwnershipLaw state []) {node : CallableNode}
    (member : node ∈ state.nodes ∨ node ∈ state.children) {object : CallableObject}
    (isInvoked : object ∈ node.invokes) (hasDestructor : object.type.trivial = false) :
    .destroyed object ∉ state.log := by
  intro destroyed
  have isDestroyed := List.count_pos_iff.mpr destroyed
  have owned := law.owned object hasDestructor
  have once := law.once object
  rcases member with member | member
  · have stored := law.stored node member object isInvoked hasDestructor
    simp only [List.count_nil] at owned stored
    omega
  · have created := List.count_pos_iff.mpr (law.children node member object isInvoked hasDestructor)
    omega

/-- The callable of a node is called. -/
theorem invokes (law : OwnershipLaw state []) {node : CallableNode}
    (member : node ∈ state.nodes ∨ node ∈ state.children) :
    OwnershipLaw { state with log := node.invokes.map .invoked ++ state.log } [] := by
  have noOther (event : CallableEvent) (notInvoked : ∀ object, event ≠ .invoked object) :
      (node.invokes.map CallableEvent.invoked).count event = 0 := by
    refine List.count_eq_zero_of_not_mem fun isEvent => ?_
    obtain ⟨object, -, rfl⟩ := List.mem_map.mp isEvent
    exact notInvoked object rfl
  refine ⟨fun object child created => ?_, fun object => ?_, fun object hasDestructor => ?_,
    law.stored, fun other isChild object isInvoked hasDestructor =>
      List.mem_append_right _ (law.children other isChild object isInvoked hasDestructor), ?_⟩
  · rcases List.mem_append.mp created with isInvoked | created
    · simp at isInvoked
    · exact law.fresh object child created
  · simpa only [List.count_append, noOther (.created object false) (by simp),
      noOther (.created object true) (by simp), Nat.zero_add] using law.once object
  · simpa only [OwnershipState.owners, List.count_append,
      noOther (.created object false) (by simp), noOther (.destroyed object) (by simp),
      Nat.zero_add] using law.owned object hasDestructor
  · have alive (objects : List CallableObject) (among : ∀ object ∈ objects, object ∈ node.invokes) :
        NeverInvokedDead (objects.map .invoked ++ state.log) := by
      induction objects with
      | nil => exact law.alive
      | cons object objects ih =>
          refine (ih fun other isOther => among other (List.mem_cons_of_mem _ isOther)).cons
            fun other isInvoked hasDestructor destroyed => ?_
          cases isInvoked
          rcases List.mem_append.mp destroyed with isInvoked | destroyed
          · simp at isInvoked
          · exact law.not_destroyed member (among object (List.mem_cons_self ..)) hasDestructor
              destroyed
    exact alive node.invokes fun _ => id

/-- A node is executed before the graph is cleared. -/
theorem invoke (law : OwnershipLaw state []) (noneStale : state.stale = []) (id : NodeId) :
    OwnershipLaw (state.invoke id) [] := by
  rw [OwnershipState.invoke]
  split
  next => exact law
  next node found =>
    have member := List.mem_of_find?_eq_some found
    rw [noneStale, List.append_nil, List.mem_append] at member
    exact law.invokes member

theorem emplaceChildren (emplaces : Nat → Callable) (parent : NodeId) (children : List ChildNode)
    (law : OwnershipLaw state []) (index : Nat) :
    OwnershipLaw (OwnershipState.emplaceChildren emplaces parent state index children) [] := by
  induction children generalizing state index with
  | nil => exact law
  | cons child children ih => exact ih (law.emplaceChild _ _ _) _

theorem splice (law : OwnershipLaw state []) (parent : NodeId) (children : ChildGraph) :
    OwnershipLaw (state.splice parent children) [] := by
  rw [OwnershipState.splice]
  split
  · exact law
  · exact law.emplaceChild _ _ _

/-- A node is called before the graph is cleared. -/
theorem call (law : OwnershipLaw state []) (noneStale : state.stale = []) (code : UserCode)
    (id : NodeId) (type : TaskType) (number : Nat) :
    OwnershipLaw (state.call code id type number) [] := by
  rw [OwnershipState.call]
  split
  · exact ((law.invoke noneStale id).emplaceChildren _ _ _ _).splice _ _
  · exact law.invoke noneStale id

/-- `clear` destroys what the nodes of the chain own. -/
theorem clear (law : OwnershipLaw state []) : OwnershipLaw state.clear [] := by
  have destroys (nodes : List CallableNode) (object : CallableObject) :
      (nodes.flatMap fun node => node.destroy.2).count (.destroyed object) =
        nodes.countP fun node => node.owned = some object := by
    induction nodes with
    | nil => rfl
    | cons node nodes ih =>
        rw [List.flatMap_cons, List.count_append, ih, List.countP_cons, Nat.add_comm]
        congr 1
        cases isOwned : node.owned with
        | none => simp [CallableNode.destroy, isOwned]
        | some other => simp [CallableNode.destroy, isOwned, List.count_singleton]
  have only (event : CallableEvent)
      (member : event ∈ (state.nodes.flatMap fun node => node.destroy.2).reverse) :
      ∃ object, event = .destroyed object := by
    obtain ⟨node, -, isEvent⟩ := List.mem_flatMap.mp (List.mem_reverse.mp member)
    obtain ⟨object, -, rfl⟩ := Option.map_eq_some_iff.mp (Option.mem_toList.mp isEvent)
    exact ⟨object, rfl⟩
  have noOther (event : CallableEvent) (notDestroyed : ∀ object, event ≠ .destroyed object) :
      (state.nodes.flatMap fun node => node.destroy.2).reverse.count event = 0 := by
    refine List.count_eq_zero_of_not_mem fun isEvent => ?_
    obtain ⟨object, rfl⟩ := only event isEvent
    exact notDestroyed object rfl
  refine ⟨fun object child created => ?_, fun object => ?_, fun object hasDestructor => ?_,
    (fun node member => nomatch member), fun node member object isInvoked hasDestructor =>
      List.mem_append_right _ (law.children node member object isInvoked hasDestructor),
    law.alive.append _ fun object isInvoked => ?_⟩
  · rcases List.mem_append.mp created with isDestroyed | created
    · obtain ⟨other, isOther⟩ := only _ isDestroyed
      cases isOther
    · exact law.fresh object child created
  · simpa only [OwnershipState.clear, List.count_append, noOther (.created object false) (by simp),
      noOther (.created object true) (by simp), Nat.zero_add] using law.once object
  · have owned := law.owned object hasDestructor
    simp only [OwnershipState.clear, OwnershipState.owners, List.count_append, List.countP_nil,
      List.count_reverse, destroys, noOther (.created object false) (by simp)] at owned ⊢
    omega
  · obtain ⟨other, isOther⟩ := only _ isInvoked
    cases isOther

/-- Once the chain is empty, every callable was destroyed exactly once if and only if no callable
with a destructor was emplaced in a subflow: those are never destroyed. -/
theorem destroyedOnce_iff (law : OwnershipLaw state []) (cleared : state.nodes = []) :
    state.DestroyedOnce ↔ ∀ object : CallableObject, object.type.trivial = false →
      .created object true ∉ state.log := by
  have counted (object : CallableObject) (hasDestructor : object.type.trivial = false) :
      state.log.count (.destroyed object) = state.log.count (.created object false) := by
    simpa [OwnershipState.owners, cleared] using law.owned object hasDestructor
  constructor
  · intro destroyedOnce object hasDestructor isChild
    have once := law.once object
    have destroyed := destroyedOnce object true isChild hasDestructor
    have created := List.count_pos_iff.mpr isChild
    rw [counted object hasDestructor] at destroyed
    omega
  · intro noChild object child created hasDestructor
    have once := law.once object
    have isCreated := List.count_pos_iff.mpr created
    cases child with
    | true => exact absurd created (noChild object hasDestructor)
    | false =>
        rw [counted object hasDestructor]
        omega

end OwnershipLaw

end LightFlow
