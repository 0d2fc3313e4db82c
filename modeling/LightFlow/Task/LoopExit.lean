import LightFlow.Task.LoopEntry

/-!
# Nodes behind a loop

A node of a loop decrements its successors once an iteration, those outside of the loop
included, which count the edge only once.  Nodes behind a loop are decided once and in time
as long as such a repeated decrement comes to a counter that it cannot decide any more.
-/

namespace LightFlow

variable {graph : TaskGraph} {callables : Callables} {threads : Nat}

namespace TaskGraph

/-- The node is the condition of a loop, its target, or a node between them. -/
def InLoop (graph : TaskGraph) (node : NodeId) : Prop :=
  ∃ source target, graph.LoopEdge source target ∧
    (node = source ∨ node = target ∨ graph.Body source target node)

/-- The node follows `target`, and leads back to `source` along edges of any kind. -/
def Circles (graph : TaskGraph) (source target node : NodeId) : Prop :=
  Relation.ReflTransGen graph.Forward target node ∧
    Relation.ReflTransGen (Precedes graph.node) node source

/-- What taking the loop-back edge resets lies in loops. -/
def ResetsLoops (graph : TaskGraph) (source target : NodeId) : Prop :=
  ∀ node, graph.Circles source target node → graph.InLoop node

theorem scanCycle_circles {source target : NodeId} {edges : List SuccessorEdge}
    {cycle : List NodeId} {node : NodeId} (path : Relation.ReflTransGen graph.Forward target node)
    (isEdge : ∀ edge ∈ edges, edge ∈ (graph.node node).successors)
    (circles : ∀ other ∈ cycle, graph.Circles source target other) :
    ∀ other ∈ scanCycle graph.node source edges cycle, graph.Circles source target other := by
  induction edges generalizing cycle with
  | nil => exact circles
  | cons edge edges ih =>
      have others : ∀ edge ∈ edges, edge ∈ (graph.node node).successors :=
        fun edge member => isEdge edge (List.mem_cons_of_mem _ member)
      simp only [scanCycle]
      split
      next found =>
        simp only [Bool.and_eq_true, Bool.not_eq_true'] at found
        refine ih others fun other member => ?_
        rcases List.mem_append.mp member with isOld | isNew
        · exact circles other isOld
        · rw [List.mem_singleton.mp isNew]
          exact ⟨path.tail ⟨edge, isEdge edge (List.mem_cons_self ..), found.1.1.1, rfl⟩,
            reaches_sound found.1.1.2⟩
      next => exact ih others circles

theorem collectLoop_circles {source target : NodeId} {fuel head : Nat} {cycle : List NodeId}
    (circles : ∀ other ∈ cycle, graph.Circles source target other) :
    ∀ other ∈ collectLoop graph.node source fuel head cycle,
      graph.Circles source target other := by
  induction fuel generalizing head cycle with
  | zero => exact circles
  | succ fuel ih =>
      simp only [collectLoop]
      split
      next => exact circles
      next curr isNext =>
        exact ih (scanCycle_circles (circles curr (List.mem_of_getElem? isNext)).1
          (fun edge => id) circles)

/-- The nodes that a loop-back edge resets circle. -/
theorem circles_of_mem_cycleNodes {source target node : NodeId}
    (back : Relation.ReflTransGen (Precedes graph.node) target source)
    (member : node ∈ cycleNodes graph.node source target) : graph.Circles source target node := by
  rw [cycleNodes] at member
  split at member
  next same =>
    rw [List.mem_singleton.mp member, same]
    exact ⟨.refl, .refl⟩
  next =>
    refine collectLoop_circles (fun other isFirst => ?_) node member
    rw [List.mem_singleton.mp isFirst]
    exact ⟨.refl, back⟩

end TaskGraph

/-! ## Guarded steps -/

/-- The event is an active decrement of the node. -/
def Event.activates (node : NodeId) : Event → Bool
  | .decremented _ target active => target = node && active
  | _ => false

/-- How often the node was actively decremented in this run. -/
def received (node : NodeId) (log : List Event) : Nat :=
  log.countP (·.activates node)

/-- The edges from `source` to `target` have all been decremented in this run. -/
def TaskGraph.Repeats (graph : TaskGraph) (source target : NodeId) (log : List Event) : Prop :=
  forwardInto target (graph.node source).successors ≤ decrements source target log

instance (graph : TaskGraph) (source target : NodeId) (log : List Event) :
    Decidable (graph.Repeats source target log) :=
  inferInstanceAs (Decidable (_ ≤ _))

/-- The frame takes `allowed` loop-back edges only, and comes another time to a node that is
`outside` of the loops only when the node cannot be decided any more, and actively only
when it had been decremented actively. -/
def Frame.Settles (graph : TaskGraph) (allowed : NodeId → NodeId → Prop)
    (outside : NodeId → Prop) (shared : Shared) : Frame → Prop
  | .completing node => ∀ target ∈ loopBack (shared.node node), allowed node target
  | .unblocking node branch (edge :: _) _ =>
      outside edge.target → graph.Repeats node edge.target shared.log →
        AtRest (shared.node edge.target) ∧
          (takes branch edge = true → 0 < received edge.target shared.log)
  | .cascading node (edge :: _) =>
      outside edge.target → graph.Repeats node edge.target shared.log →
        AtRest (shared.node edge.target)
  | _ => True

instance (graph : TaskGraph) (allowed : NodeId → NodeId → Prop) (outside : NodeId → Prop)
    [DecidableRel allowed] [DecidablePred outside] (shared : Shared) :
    (frame : Frame) → Decidable (frame.Settles graph allowed outside shared)
  | .completing _ => inferInstanceAs (Decidable (∀ _ ∈ _, _))
  | .unblocking _ _ (_ :: _) _ => inferInstanceAs (Decidable (_ → _ → _))
  | .cascading _ (_ :: _) => inferInstanceAs (Decidable (_ → _ → _))
  | .unblocking _ _ [] _ | .cascading _ [] | .calling _ | .executing _ | .dispatching _ _
  | .joining _ | .handingOver _ _ _ _ _ | .finishing _ | .skipping _ | .skipped _
  | .scheduling _ | .resetting _ _ _ _ | .resettingState _ _ _ _ _ | .rescheduling _ _ =>
      inferInstanceAs (Decidable True)

/-- The step settles the nodes outside of the loops, and prepares a run when nothing of the
last one is left. -/
def RunState.Settles (graph : TaskGraph) (allowed : NodeId → NodeId → Prop)
    (outside : NodeId → Prop) (state : RunState threads) : RunAction threads → Prop
  | .fire index => ∀ frame ∈ (state.thread index).stack.take 1,
      frame.Settles graph allowed outside state.shared
  | .prepareRun => state.queued = [] ∧ ∀ index, (state.thread index).stack = [] ∧
      (state.thread index).t_nextInlineTask = none
  | _ => True

theorem RunState.Settles.mono {strong weak : NodeId → NodeId → Prop} {more less : NodeId → Prop}
    {state : RunState threads} {action : RunAction threads}
    (settles : state.Settles graph strong more action)
    (weaker : ∀ source target, strong source target → weak source target)
    (fewer : ∀ node, less node → more node) : state.Settles graph weak less action := by
  cases action with
  | fire index =>
      intro frame onTop
      have strongly := settles frame onTop
      cases frame with
      | completing node => exact fun target loops => weaker node target (strongly target loops)
      | unblocking node branch todo count =>
          cases todo with
          | nil => trivial
          | cons edge todo => exact fun outside => strongly (fewer _ outside)
      | cascading node todo =>
          cases todo with
          | nil => trivial
          | cons edge todo => exact fun outside => strongly (fewer _ outside)
      | _ => trivial
  | _ => exact settles

instance (graph : TaskGraph) (allowed : NodeId → NodeId → Prop) (outside : NodeId → Prop)
    [DecidableRel allowed] [DecidablePred outside] (state : RunState threads) :
    (action : RunAction threads) → Decidable (state.Settles graph allowed outside action)
  | .prepareRun => inferInstanceAs (Decidable (_ ∧ ∀ _, _))
  | .fire _ => inferInstanceAs (Decidable (∀ _ ∈ _, _))
  | .dispatchRoot | .setCanInline _ _ | .take _ _ | .takeInline _ =>
      inferInstanceAs (Decidable True)

/-! ## What holds of the nodes outside -/

/-- Edges into the node that have not been decremented in this run. -/
def TaskGraph.missing (graph : TaskGraph) (log : List Event) (node : NodeId) : Nat :=
  (graph.order.map fun source =>
    forwardInto node (graph.node source).successors - decrements source node log).sum

theorem decrements_decremented (source target other node : NodeId) (active : Bool)
    (log : List Event) : decrements other node (.decremented source target active :: log) =
      decrements other node log + if other = source ∧ node = target then 1 else 0 := by
  have same : (Event.decremented source target active = .decremented other node active) =
      (other = source ∧ node = target) := by
    simp [eq_comm]
  cases active <;> simp [decrements, List.count_cons, same] <;> omega

/-- A decrement that repeats no other is one that was missing. -/
theorem TaskGraph.missing_decremented {source target : NodeId} (active : Bool) (log : List Event)
    (distinct : graph.order.Nodup) (member : source ∈ graph.order) (node : NodeId) :
    graph.missing (.decremented source target active :: log) node +
        (if node = target ∧ ¬ graph.Repeats source target log then 1 else 0) =
      graph.missing log node := by
  have others : ∀ other ∈ graph.order, other ≠ source →
      forwardInto node (graph.node other).successors -
          decrements other node (.decremented source target active :: log) =
        forwardInto node (graph.node other).successors - decrements other node log := by
    intro other _ different
    rw [decrements_decremented, if_neg fun both => different both.1, Nat.add_zero]
  have replaced := Counting.sum_map_replace graph.order source others
  rw [List.count_eq_one_of_mem distinct member, decrements_decremented] at replaced
  simp only [true_and, Nat.one_mul] at replaced
  simp only [missing, Repeats]
  by_cases same : node = target
  · subst same
    simp only [↓reduceIte, true_and] at replaced ⊢
    split <;> omega
  · simp only [same, ↓reduceIte, false_and, Nat.add_zero] at replaced ⊢
    omega

namespace Frame

/-- Nodes that the frame is going to make pending again. -/
@[simp] def resets : Frame → List NodeId
  | .resetting _ target todo _ => target :: todo
  | .resettingState _ target curr todo _ => target :: curr :: todo
  | .rescheduling _ target => [target]
  | _ => []

/-- The node whose successors the frame decrements was executed or skipped. -/
@[simp] def Passed (log : List Event) : Frame → Prop
  | .unblocking node _ _ _ | .handingOver node _ _ _ _ | .cascading node _ | .skipped node =>
      .completed node ∈ log ∨ .skipped node ∈ log
  | _ => True

theorem Passed.append {older : List Event} {frame : Frame} (passed : frame.Passed older)
    (newer : List Event) : frame.Passed (newer ++ older) := by
  have grown {node : NodeId} (before : .completed node ∈ older ∨ .skipped node ∈ older) :
      .completed node ∈ newer ++ older ∨ .skipped node ∈ newer ++ older :=
    before.imp (List.mem_append_right _) (List.mem_append_right _)
  cases frame with
  | unblocking | handingOver | cascading | skipped => exact grown passed
  | _ => trivial

end Frame

/-- Nodes outside of the loops wait for edges that were not decremented, and are decided
once. -/
structure LoopExits (graph : TaskGraph) (outside : NodeId → Prop) (load : Workload) : Prop where
  shape : ∀ node, (load.shared.node node).type = (graph.node node).type ∧
    (load.shared.node node).initialInDegree = (graph.node node).initialInDegree ∧
    (load.shared.node node).successors = (graph.node node).successors
  walks : ∀ frame ∈ load.frames, frame.Walks graph
  inside : ∀ frame ∈ load.frames, ∀ node ∈ frame.resets, ¬ outside node
  settled : ∀ frame ∈ load.frames, frame.Passed load.shared.log
  sources : ∀ source target active, .decremented source target active ∈ load.shared.log →
    .completed source ∈ load.shared.log ∨ .skipped source ∈ load.shared.log
  once : ∀ node, outside node → waiting (graph.missing load.shared.log node) +
    load.amount (.uncalled node) + passed .called node load.shared.log = graph.order.count node
  packed : ∀ node, outside node → 0 < graph.missing load.shared.log node →
    Packed (load.shared.node node).inDegree (graph.missing load.shared.log node)
      (received node load.shared.log)
  bounded : ∀ node, outside node → 0 < graph.missing load.shared.log node →
    graph.missing load.shared.log node + received node load.shared.log ≤
      (graph.node node).initialInDegree
  willSkip : ∀ node, outside node →
    0 < load.amount (.skipping node) + load.shared.log.count (.skipped node) →
      graph.missing load.shared.log node = 0 ∧ received node load.shared.log = 0

namespace LoopExits

variable {outside : NodeId → Prop} {shared : Shared} {ready : Multiset NodeId} {frame : Frame}
  {rest : Multiset Frame} {effect : Effect} {events : List Event}

theorem quiet (exits : LoopExits graph outside ⟨shared, ready, frame ::ₘ rest⟩)
    (log : effect.shared.log = events ++ shared.log)
    (silent : ∀ source target active, .decremented source target active ∉ events)
    (tokens : ∀ node, outside node →
      effect.amount (.uncalled node) + passed .called node events =
        frame.uncalled.count node)
    (skips : ∀ node, outside node → effect.amount (.skipping node) ≤ frame.skips.count node ∧
      (.skipped node ∈ events → 0 < frame.skips.count node))
    (nodes : ∀ node, (effect.shared.node node).type = (shared.node node).type ∧
      (effect.shared.node node).initialInDegree = (shared.node node).initialInDegree ∧
      (effect.shared.node node).successors = (shared.node node).successors ∧
      (outside node → (effect.shared.node node).inDegree = (shared.node node).inDegree))
    (frames : ∀ after ∈ effect.frames, after.Walks graph ∧
      (∀ node ∈ after.resets, ¬ outside node) ∧ after.Passed effect.shared.log) :
    LoopExits graph outside (effect.load ready rest) := by
  have sameDecrements (source node : NodeId) :
      decrements source node effect.shared.log = decrements source node shared.log := by
    rw [log, decrements_append, decrements, List.count_eq_zero_of_not_mem (silent source node true),
      List.count_eq_zero_of_not_mem (silent source node false), Nat.add_zero, Nat.zero_add]
  have sameMissing (node : NodeId) :
      graph.missing effect.shared.log node = graph.missing shared.log node := by
    simp only [TaskGraph.missing, sameDecrements]
  have sameReceived (node : NodeId) :
      received node effect.shared.log = received node shared.log := by
    have none : events.countP (·.activates node) = 0 := by
      rw [List.countP_eq_zero]
      intro event member
      cases event with
      | decremented source target active => exact absurd member (silent source target active)
      | _ => simp [Event.activates]
    rw [log, received, List.countP_append, none, Nat.zero_add, received]
  refine
    { shape := fun node => ?shape
      walks := fun after member => ?walks
      inside := fun after member => ?inside
      settled := fun after member => ?settled
      sources := fun source target active member => ?sources
      once := fun node isOutside => ?once
      packed := fun node isOutside waits => ?packed
      bounded := fun node isOutside waits => ?bounded
      willSkip := fun node isOutside some => ?willSkip }
  case shape =>
    obtain ⟨sameType, sameDegree, sameSuccessors, -⟩ := nodes node
    simp only [sameType, sameDegree, sameSuccessors]
    exact exits.shape node
  case walks =>
    rcases Multiset.mem_add.mp member with isNew | isOld
    · exact (frames after isNew).1
    · exact exits.walks after (Multiset.mem_cons_of_mem isOld)
  case inside =>
    rcases Multiset.mem_add.mp member with isNew | isOld
    · exact (frames after isNew).2.1
    · exact exits.inside after (Multiset.mem_cons_of_mem isOld)
  case settled =>
    rcases Multiset.mem_add.mp member with isNew | isOld
    · exact (frames after isNew).2.2
    · rw [log]
      exact (exits.settled after (Multiset.mem_cons_of_mem isOld)).append events
  case sources =>
    rw [log] at member ⊢
    have before := exits.sources source target active
      ((List.mem_append.mp member).resolve_left (silent source target active))
    exact before.imp (List.mem_append_right _) (List.mem_append_right _)
  case once =>
    have before := exits.once node isOutside
    have here := tokens node isOutside
    rw [amount_cons] at before
    rw [sameMissing, log, passed_append, amount_load effect shared]
    simp only [Quantity.ofFrame] at before
    omega
  case packed =>
    rw [sameMissing] at waits ⊢
    rw [sameReceived, (nodes node).2.2.2 isOutside]
    exact exits.packed node isOutside waits
  case bounded =>
    rw [sameMissing] at waits ⊢
    rw [sameReceived]
    exact exits.bounded node isOutside waits
  case willSkip =>
    rw [sameMissing, sameReceived]
    refine exits.willSkip node isOutside ?_
    obtain ⟨fewer, recorded⟩ := skips node isOutside
    rw [amount_load effect shared, log, List.count_append] at some
    rw [amount_cons]
    simp only [Quantity.ofFrame]
    by_cases isNew : .skipped node ∈ events
    · have := recorded isNew
      omega
    · have none := List.count_eq_zero_of_not_mem isNew
      omega

/-- A decrement of a node outside that waits is the first one along its edge, and decides as
it should; any other one decides nothing. -/
theorem decides (exits : LoopExits graph outside ⟨shared, ready, frame ::ₘ rest⟩)
    (narrow : ∀ node, (graph.node node).initialInDegree ≤ 65535) {source target : NodeId}
    (call : Decrement) (isOutside : outside target)
    (rests : graph.Repeats source target shared.log → AtRest (shared.node target))
    (member : source ∈ graph.order) :
    let missing := graph.missing shared.log target
    let got := received target shared.log
    (¬ graph.Repeats source target shared.log ∧ 0 < missing ∧
        Packed (call.apply (shared.node target).inDegree).1 (missing - 1)
          (got + if call = .active then 1 else 0) ∧
        (call.apply (shared.node target).inDegree).2 =
          if missing = 1 then (if 0 < got ∨ call = .active then .run else .skip) else .pending) ∨
      (graph.Repeats source target shared.log ∧ missing = 0 ∧
        (call.apply (shared.node target).inDegree).2 = .pending) := by
  intro missing got
  by_cases repeats : graph.Repeats source target shared.log
  · refine .inr ⟨repeats, ?_, ?_⟩
    · by_contra waits
      have packed := exits.packed target isOutside (Nat.pos_of_ne_zero waits)
      have bounded := exits.bounded target isOutside (Nat.pos_of_ne_zero waits)
      have few := narrow target
      have atRest := rests repeats
      have degree : (shared.node target).initialInDegree = _ := (exits.shape target).2.1
      rw [AtRest, degree] at atRest
      simp only [Packed, u32] at packed
      dsimp only at packed bounded
      omega
    · have notLast : (shared.node target).inDegree % 65536 ≠ 1 := by
        have atRest := rests repeats
        rw [AtRest] at atRest
        omega
      cases call with
      | active => simp [Decrement.apply, decrementActive, lower_eq_mod, notLast]
      | skipped => simp [Decrement.apply, decrementSkipped, lower_eq_mod, notLast]
  · have waits : 0 < missing := by
      have part := Counting.le_sum_map member fun source =>
        TaskGraph.forwardInto target (graph.node source).successors -
          decrements source target shared.log
      rw [TaskGraph.Repeats] at repeats
      change 0 < List.sum _
      omega
    have packed := exits.packed target isOutside waits
    have bounded := exits.bounded target isOutside waits
    have few := narrow target
    obtain ⟨left, isLeft⟩ : ∃ left, missing = left + 1 :=
      ⟨_, (Nat.succ_pred_eq_of_pos waits).symm⟩
    change Packed _ missing got at packed
    change missing + got ≤ _ at bounded
    rw [isLeft] at packed bounded
    obtain ⟨next, decision⟩ := Decrement.apply_packed call packed (by omega)
    refine .inl ⟨repeats, waits, ?_, ?_⟩
    · rwa [isLeft]
    · rw [decision, isLeft]
      simp

theorem decrement {source : NodeId} {edge : SuccessorEdge} (call : Decrement)
    (exits : LoopExits graph outside ⟨shared, ready, frame ::ₘ rest⟩)
    (distinct : graph.order.Nodup) (narrow : ∀ node, (graph.node node).initialInDegree ≤ 65535)
    (member : source ∈ graph.order)
    (log : effect.shared.log = .decremented source edge.target (call = .active) :: shared.log)
    (released : .completed source ∈ shared.log ∨ .skipped source ∈ shared.log)
    (settles : outside edge.target → graph.Repeats source edge.target shared.log →
      AtRest (shared.node edge.target) ∧
        (call = .active → 0 < received edge.target shared.log))
    (tokens : ∀ quantity : Quantity, quantity.isToken = true → effect.amount quantity =
      quantity.ofFrame frame + quantity.ofDecision edge.target
        (call.apply (shared.node edge.target).inDegree).2)
    (inDegree : effect.shared.node = (shared.setInDegree edge.target
      (call.apply (shared.node edge.target).inDegree).1).node)
    (frames : ∀ after ∈ effect.frames, after.Walks graph ∧
      (∀ node ∈ after.resets, ¬ outside node) ∧ after.Passed effect.shared.log) :
    LoopExits graph outside (effect.load ready rest) := by
  have missing (node : NodeId) :
      graph.missing (.decremented source edge.target (call = .active) :: shared.log) node +
          (if node = edge.target ∧ ¬ graph.Repeats source edge.target shared.log then 1 else 0) =
        graph.missing shared.log node :=
    graph.missing_decremented (call = .active) shared.log distinct member node
  have gained (node : NodeId) : received node effect.shared.log = received node shared.log +
      if edge.target = node ∧ call = .active then 1 else 0 := by
    rw [log, received, List.countP_cons, received]
    simp [Event.activates]
  have token (quantity : Quantity) (isToken : quantity.isToken = true) :
      (effect.load ready rest).amount quantity =
        Workload.amount ⟨shared, ready, frame ::ₘ rest⟩ quantity + quantity.ofDecision edge.target
          (call.apply (shared.node edge.target).inDegree).2 := by
    rw [amount_load effect shared, amount_cons, tokens quantity isToken]
    omega
  have decision (isOutside : outside edge.target) := exits.decides narrow call isOutside
    (fun repeats => (settles isOutside repeats).1) member
  have nodes (node : NodeId) : (effect.shared.node node).type = (shared.node node).type ∧
      (effect.shared.node node).initialInDegree = (shared.node node).initialInDegree ∧
      (effect.shared.node node).successors = (shared.node node).successors ∧
      (node ≠ edge.target →
        (effect.shared.node node).inDegree = (shared.node node).inDegree) := by
    rw [inDegree, Shared.setInDegree_node]
    exact ⟨rfl, rfl, rfl, fun other => if_neg other⟩
  rw [← log] at missing
  refine
    { shape := fun node => ?shape
      walks := fun after member => ?walks
      inside := fun after member => ?inside
      settled := fun after member => ?settled
      sources := fun source target active member => ?sources
      once := fun node isOutside => ?once
      packed := fun node isOutside waits => ?packed
      bounded := fun node isOutside waits => ?bounded
      willSkip := fun node isOutside some => ?willSkip }
  case shape =>
    obtain ⟨sameType, sameDegree, sameSuccessors, -⟩ := nodes node
    simp only [sameType, sameDegree, sameSuccessors]
    exact exits.shape node
  case walks =>
    rcases Multiset.mem_add.mp member with isNew | isOld
    · exact (frames after isNew).1
    · exact exits.walks after (Multiset.mem_cons_of_mem isOld)
  case inside =>
    rcases Multiset.mem_add.mp member with isNew | isOld
    · exact (frames after isNew).2.1
    · exact exits.inside after (Multiset.mem_cons_of_mem isOld)
  case settled =>
    rcases Multiset.mem_add.mp member with isNew | isOld
    · exact (frames after isNew).2.2
    · rw [log]
      exact (exits.settled after (Multiset.mem_cons_of_mem isOld)).append [_]
  case sources =>
    rw [log] at member ⊢
    rcases List.mem_cons.mp member with isNew | isOld
    · cases isNew
      exact released.imp (List.mem_cons_of_mem _) (List.mem_cons_of_mem _)
    · exact (exits.sources source target active isOld).imp (List.mem_cons_of_mem _)
        (List.mem_cons_of_mem _)
  case once =>
    have before := exits.once node isOutside
    have change := token (.uncalled node) rfl
    have left := missing node
    rw [change, log, passed_cons]
    simp only [Event.passes, Bool.false_eq_true, ↓reduceIte, Nat.add_zero, Quantity.ofDecision]
    rw [← log]
    dsimp only at before
    by_cases same : edge.target = node
    · subst same
      simp only [true_and] at left ⊢
      rcases decision isOutside with ⟨first, waits, -, decided⟩ | ⟨repeats, none, decided⟩
      · rw [if_pos first] at left
        rw [decided]
        by_cases last : graph.missing shared.log edge.target = 1
        · have resolved : (if 0 < received edge.target shared.log ∨ call = .active then
              Resolution.run else .skip) ≠ .pending := by split <;> simp
          have noneLeft : graph.missing effect.shared.log edge.target = 0 := by omega
          rw [if_pos last, if_pos resolved, noneLeft, waiting_zero]
          rw [last, waiting_of_pos Nat.one_pos] at before
          omega
        · rw [if_neg last, waiting_of_pos (by omega)]
          rw [waiting_of_pos waits] at before
          simpa using before
      · rw [if_neg (not_not_intro repeats), Nat.add_zero] at left
        rw [decided, left]
        simpa using before
    · rw [if_neg fun both => same both.1.symm, Nat.add_zero] at left
      rw [left, if_neg fun both => same both.1]
      exact before
  case packed =>
    have left := missing node
    rw [gained]
    by_cases same : edge.target = node
    · subst same
      simp only [true_and] at left ⊢
      rcases decision isOutside with ⟨first, -, next, -⟩ | ⟨repeats, none, -⟩
      · rw [if_pos first] at left
        rw [inDegree, Shared.setInDegree_node, ← Nat.eq_sub_of_add_eq left] at *
        simpa using next
      · rw [if_neg (not_not_intro repeats), Nat.add_zero, none] at left
        exact absurd (left ▸ waits) (lt_irrefl 0)
    · rw [if_neg fun both => same both.1.symm, Nat.add_zero] at left
      rw [left] at waits ⊢
      rw [(nodes node).2.2.2 (Ne.symm same), if_neg fun both => same both.1, Nat.add_zero]
      exact exits.packed node isOutside waits
  case bounded =>
    have left := missing node
    rw [gained]
    by_cases same : edge.target = node
    · subst same
      have before := exits.bounded edge.target isOutside
      dsimp only at before
      simp only [true_and] at left ⊢
      rcases decision isOutside with ⟨first, needs, -, -⟩ | ⟨repeats, none, -⟩
      · rw [if_pos first] at left
        have := before needs
        split <;> omega
      · rw [if_neg (not_not_intro repeats), Nat.add_zero, none] at left
        exact absurd (left ▸ waits) (lt_irrefl 0)
    · rw [if_neg fun both => same both.1.symm, Nat.add_zero] at left
      rw [left] at waits ⊢
      rw [if_neg fun both => same both.1, Nat.add_zero]
      exact exits.bounded node isOutside waits
  case willSkip =>
    have left := missing node
    have before := exits.willSkip node isOutside
    have change := token (.skipping node) rfl
    rw [change, log, List.count_cons_of_ne (by simp)] at some
    simp only [Quantity.ofDecision] at some
    rw [gained]
    dsimp only at before
    by_cases same : edge.target = node
    · subst same
      simp only [true_and] at left some ⊢
      rcases decision isOutside with ⟨first, needs, -, decided⟩ | ⟨repeats, none, decided⟩
      · rw [if_pos first] at left
        rw [decided] at some
        have notYet : Workload.amount ⟨shared, ready, frame ::ₘ rest⟩ (.skipping edge.target) +
            shared.log.count (.skipped edge.target) = 0 := by
          by_contra already
          have := (before (Nat.pos_of_ne_zero already)).1
          omega
        by_cases last : graph.missing shared.log edge.target = 1
        · rw [if_pos last] at some
          by_cases gains : 0 < received edge.target shared.log ∨ call = .active
          · rw [if_pos gains] at some
            simp only [reduceCtorEq, ↓reduceIte] at some
            omega
          · rw [not_or] at gains
            rw [if_neg gains.2]
            omega
        · rw [if_neg last] at some
          simp only [reduceCtorEq, ↓reduceIte] at some
          omega
      · rw [if_neg (not_not_intro repeats), Nat.add_zero] at left
        rw [decided] at some
        simp only [reduceCtorEq, ↓reduceIte, Nat.add_zero] at some
        obtain ⟨-, received⟩ := before some
        have inactive : call ≠ .active := fun isActive => by
          have := (settles isOutside repeats).2 isActive
          omega
        rw [if_neg inactive]
        omega
    · rw [if_neg fun both => same both.1.symm, Nat.add_zero] at left
      rw [if_neg fun both => same both.1, Nat.add_zero] at some ⊢
      rw [left]
      exact before some

theorem noted (exits : LoopExits graph outside ⟨shared, ready, frame ::ₘ rest⟩)
    (log : effect.shared.log = events ++ shared.log)
    (notes : ∀ event ∈ events, event.isNote = true)
    (uncalled : ∀ node, effect.amount (.uncalled node) = frame.uncalled.count node)
    (skipping : ∀ node, effect.amount (.skipping node) ≤ frame.skips.count node)
    (nodes : ∀ node, (effect.shared.node node).type = (shared.node node).type ∧
      (effect.shared.node node).initialInDegree = (shared.node node).initialInDegree ∧
      (effect.shared.node node).successors = (shared.node node).successors ∧
      (effect.shared.node node).inDegree = (shared.node node).inDegree)
    (frames : ∀ after ∈ effect.frames, after.Walks graph ∧
      (∀ node ∈ after.resets, ¬ outside node) ∧ after.Passed effect.shared.log) :
    LoopExits graph outside (effect.load ready rest) := by
  have noted {event : Event} (real : event.isNote = false) : event ∉ events := fun member => by
    simp [notes event member] at real
  refine exits.quiet log (fun source target active => noted rfl) (fun node _ => ?_)
    (fun node _ => ⟨skipping node, fun member => absurd member (noted rfl)⟩) (fun node => ?_) frames
  · rw [uncalled, Account.passed_of_notes notes, Nat.add_zero]
  · obtain ⟨sameType, sameDegree, sameSuccessors, sameCounter⟩ := nodes node
    exact ⟨sameType, sameDegree, sameSuccessors, fun _ => sameCounter⟩

/-- `decrementSkipped` in either loop; `frames` is how the loop continues. -/
theorem skip {node : NodeId} {edge : SuccessorEdge} (frames : List Frame)
    (exits : LoopExits graph outside ⟨shared, ready, frame ::ₘ rest⟩) (looped : graph.Looped)
    (isEdge : edge ∈ (graph.node node).successors)
    (released : .completed node ∈ shared.log ∨ .skipped node ∈ shared.log)
    (settles : outside edge.target → graph.Repeats node edge.target shared.log →
      AtRest (shared.node edge.target))
    (continues : ∀ quantity : Quantity, quantity.isToken = true →
      (frames.map fun after => quantity.ofFrame after).sum = quantity.ofFrame frame)
    (left : ∀ after ∈ frames, after.Walks graph ∧ (∀ node ∈ after.resets, ¬ outside node) ∧
      after.Passed (.decremented node edge.target false :: shared.log)) :
    LoopExits graph outside ((unblockSkipped shared node edge.target frames).load ready rest) := by
  have member : node ∈ graph.order := by
    by_contra stray
    rw [looped.strays node stray] at isEdge
    simp at isEdge
  obtain ⟨decided, isLeft, count, quiet⟩ : ∃ decided : List Frame,
      (unblockSkipped shared node edge.target frames).frames = decided ++ frames ∧
      (∀ quantity : Quantity, (decided.map fun after => quantity.ofFrame after).sum =
        quantity.ofDecision edge.target
          (Decrement.skipped.apply (shared.node edge.target).inDegree).2) ∧
      ∀ after ∈ decided, after.Walks graph ∧ (∀ node ∈ after.resets, ¬ outside node) ∧
        after.Passed (.decremented node edge.target false :: shared.log) := by
    simp only [unblockSkipped, Decrement.apply]
    cases (decrementSkipped (shared.node edge.target).inDegree).2 with
    | pending =>
        refine ⟨[], rfl, fun quantity => ?_, by simp⟩
        cases quantity <;> simp
    | run =>
        refine ⟨[.scheduling edge.target], rfl, fun quantity => ?_, by simp [Frame.Walks]⟩
        cases quantity <;> simp [Frame.runs, List.count_singleton]
    | skip =>
        refine ⟨[.skipping edge.target], rfl, fun quantity => ?_, by simp [Frame.Walks]⟩
        cases quantity <;> simp [Frame.runs, List.count_singleton]
  refine exits.decrement .skipped looped.distinct looped.narrow member rfl released
    (fun isOutside repeats => ⟨settles isOutside repeats, (by simp)⟩)
    (fun quantity isToken => ?_) rfl
    fun after isNew => ?_
  · rw [Effect.amount_eq rfl rfl isLeft, List.map_append, List.sum_append, count,
      continues quantity isToken]
    omega
  · rw [isLeft] at isNew
    exact (List.mem_append.mp isNew).elim (quiet after) (left after)

/-- Every step that settles the nodes outside keeps what is known of them. -/
theorem fire {allowed : NodeId → NodeId → Prop} {inlineFree : Bool}
    (exits : LoopExits graph outside ⟨shared, ready, frame ::ₘ rest⟩) (looped : graph.Looped)
    (resets : ∀ source target, allowed source target → graph.LoopEdge source target →
      ∀ node ∈ cycleNodes graph.node source target, ¬ outside node)
    (settles : frame.Settles graph allowed outside shared)
    (fired : frame.fire callables inlineFree shared = some effect) :
    LoopExits graph outside (effect.load ready rest) := by
  have walks := exits.walks _ (Multiset.mem_cons_self _ _)
  have inside := exits.inside _ (Multiset.mem_cons_self _ _)
  have settled := exits.settled _ (Multiset.mem_cons_self _ _)
  have listed {node : NodeId} {edge : SuccessorEdge}
      (isEdge : edge ∈ (graph.node node).successors) : node ∈ graph.order := by
    by_contra stray
    rw [looped.strays node stray] at isEdge
    simp at isEdge
  cases frame with
  | executing node =>
      cases fired
      refine exits.quiet (show _ = [] ++ _ from rfl) (by simp) ?_ ?_ ?_ ?_
      all_goals simp [Effect.amount, Shared.setState_node, Frame.Walks]
  | calling node =>
      have noSplice : CallsNoSplice callables shared node := fun isSubflow =>
        absurd ((exits.shape node).1 ▸ isSubflow) (looped.plain node)
      obtain ⟨frames, log, -, nodes⟩ := executeFn_of_callsNoSplice noSplice
      have called : effect = { shared := (executeFn callables shared node).1
                               frames := (executeFn callables shared node).2 } := by
        cases fired
        rfl
      subst called
      refine exits.quiet (show _ = [.executed node] ++ _ from log) (by simp) (fun query _ => ?_)
        (fun query _ => ?_) (fun query => ?_) ?_
      · rw [Effect.amount_eq rfl rfl frames]
        simp [Event.passes, List.count_singleton]
      · rw [Effect.amount_eq rfl rfl frames]
        simp
      · obtain ⟨userData, result, -⟩ := nodes query
        simp [result]
      · simp [frames, Frame.Walks]
  | dispatching node roots => exact absurd walks id
  | joining node => exact absurd walks id
  | completing node =>
      cases fired
      have isWalk : (∀ query, Effect.amount
            { shared := ((shared.setState node .completed).record (.completed node)).record
                (.released node)
              frames := [unblockSuccessors shared.node node] } (.uncalled query) = 0) ∧
          (∀ query, Effect.amount
            { shared := ((shared.setState node .completed).record (.completed node)).record
                (.released node)
              frames := [unblockSuccessors shared.node node] } (.skipping query) = 0) := by
        constructor <;> intro query <;> simp only [Effect.amount, unblockSuccessors] <;>
          split <;> [split; skip; split; skip] <;> simp
      refine exits.quiet (show _ = [.released node, .completed node] ++ _ from rfl) (by simp)
        (fun query _ => ?_) (fun query _ => ?_) (by simp [Shared.setState_node])
        fun after isNext => ?_
      · rw [isWalk.1]
        simp [Event.passes]
      · rw [isWalk.2]
        simp
      · rw [List.mem_singleton] at isNext
        subst isNext
        cases loops : loopBack (shared.node node) with
        | none =>
            have conditions : ∀ edge ∈ (shared.node node).successors, edge.isLoopBack = true →
                (shared.node node).type = .condition := by
              rw [(exits.shape node).1, (exits.shape node).2.2]
              exact looped.conditions node
            have straight := not_loopsBack conditions loops
            rw [unblockSuccessors_of_not_loopsBack straight]
            refine ⟨fun edge isEdge => ?_, by simp, by simp⟩
            refine ⟨(exits.shape node).2.2 ▸ isEdge, fun isLoop => ?_⟩
            by_contra taken
            exact straight ⟨edge, isEdge, isLoop, by simpa using taken⟩
        | some target =>
            rw [unblockSuccessors_of_loopBack loops,
              cycleNodes_congr fun other => (exits.shape other).2.2]
            obtain ⟨-, edge, isEdge, isLoop, -, isTarget⟩ := exists_loopBack loops
            rw [(exits.shape node).2.2] at isEdge
            have loopEdge : graph.LoopEdge node target := ⟨edge, isEdge, isLoop, isTarget⟩
            have inner := resets node target (settles target loops) loopEdge
            refine ⟨trivial, ?_, trivial⟩
            simp only [Frame.resets, List.forall_mem_cons]
            exact ⟨inner target (mem_cycleNodes _ _ _), inner⟩
  | unblocking node branch todo unblockedCount =>
      cases todo with
      | nil =>
          cases fired
          have notes : ∃ events : List Event, (∀ event ∈ events, event.isNote = true) ∧
              (if 0 < unblockedCount then shared.record (.notified unblockedCount)
                else shared).log = events ++ shared.log := by
            split
            · exact ⟨[_], by simp [Event.isNote], rfl⟩
            · exact ⟨[], by simp, rfl⟩
          obtain ⟨events, onlyNotes, log⟩ := notes
          refine exits.noted log onlyNotes (fun query => ?_) (fun query => ?_) (fun query => ?_) ?_
          · simp [Effect.amount]
          · simp [Effect.amount]
          · dsimp only
            split <;> exact ⟨rfl, rfl, rfl, rfl⟩
          · simp [Frame.Walks]
      | cons edge todo =>
          have isEdge := (walks edge (List.mem_cons_self ..)).1
          have walksOn : ∀ other ∈ todo, other ∈ (graph.node node).successors ∧
              (other.isLoopBack = true → takes branch other = false) :=
            fun other isLater => walks other (List.mem_cons_of_mem _ isLater)
          have released := settled.append
          simp only [Frame.fire] at fired
          split at fired
          next taken =>
            cases fired
            refine exits.decrement .active looped.distinct looped.narrow (listed isEdge) rfl settled
              (fun isOutside repeats => ?_) (fun quantity isToken => ?_) rfl fun after isNew => ?_
            · obtain ⟨atRest, reached⟩ := settles isOutside repeats
              exact ⟨atRest, fun _ => reached taken⟩
            · rw [Effect.amount_eq rfl rfl rfl]
              by_cases unblocked : (decrementActive (shared.node edge.target).inDegree).2 = true <;>
                cases quantity <;> simp_all [unblockActive, Decrement.apply, Quantity.isToken,
                  Frame.runs, List.count_singleton]
            · simp only [unblockActive, List.mem_singleton] at isNew
              subst isNew
              split <;> exact ⟨walksOn, by simp, released [_]⟩
          next notTaken =>
            split at fired
            next =>
              cases fired
              refine exits.quiet (show _ = [] ++ _ from rfl) (by simp) ?_ ?_ ?_ ?_
              · simp [Effect.amount]
              · simp [Effect.amount]
              · simp
              · simpa [Frame.Walks] using ⟨walksOn, settled⟩
            next =>
              cases fired
              refine LoopExits.skip [.unblocking node branch todo unblockedCount] exits
                looped isEdge settled (fun isOutside repeats => (settles isOutside repeats).1)
                (fun quantity isToken => ?_) fun after isNew => ?_
              · cases quantity <;> simp_all [Quantity.isToken, Frame.runs]
              · rw [List.mem_singleton.mp isNew]
                exact ⟨walksOn, by simp, released [_]⟩
  | handingOver node branch succ todo unblockedCount =>
      cases fired
      obtain ⟨events, onlyNotes, log, handed, count, frames, nodes⟩ :
          ∃ events : List Event, (∀ event ∈ events, event.isNote = true) ∧
            (handOver shared inlineFree node branch succ todo unblockedCount).shared.log =
              events ++ shared.log ∧
            (handOver shared inlineFree node branch succ todo unblockedCount).staged.toList ++
              (handOver shared inlineFree node branch succ todo unblockedCount).queued = [succ] ∧
            ∃ count, (handOver shared inlineFree node branch succ todo unblockedCount).frames =
              [.unblocking node branch todo count] ∧
            (handOver shared inlineFree node branch succ todo unblockedCount).shared.node =
              shared.node := by
        simp only [handOver]
        split <;> [skip; split <;> [split; skip]]
        · exact ⟨[], by simp, rfl, rfl, _, rfl, rfl⟩
        · exact ⟨[_, _], by simp [Event.isNote], rfl, rfl, _, rfl, rfl⟩
        · exact ⟨[_], by simp [Event.isNote], rfl, rfl, _, rfl, rfl⟩
        · exact ⟨[_], by simp [Event.isNote], rfl, rfl, _, rfl, rfl⟩
      refine exits.noted log onlyNotes (fun query => ?_) (fun query => ?_) (fun query => ?_) ?_
      · simp [Effect.amount, handed, frames, List.count_singleton]
      · simp [Effect.amount, handed, frames]
      · simp [nodes]
      · intro after isNew
        rw [frames, List.mem_singleton] at isNew
        rw [isNew, log]
        exact ⟨walks, by simp, settled.append events⟩
  | finishing node =>
      cases fired
      refine exits.quiet (show _ = [.finished node] ++ _ from rfl) (by simp) ?_ ?_ ?_ ?_
      all_goals simp [Effect.amount, Event.passes]
  | skipping node =>
      cases fired
      refine exits.quiet (show _ = [.skipped node] ++ _ from rfl) (by simp) (fun query _ => ?_)
        (fun query _ => ?_) (by simp [Shared.setState_node]) (by simp [Frame.Walks])
      · simp [Effect.amount, Event.passes, List.count_singleton]
      · refine ⟨by simp [Effect.amount], fun member => ?_⟩
        rw [List.mem_singleton, Event.skipped.injEq] at member
        simp [member]
  | skipped node =>
      cases fired
      have successors := (exits.shape node).2.2
      refine exits.quiet (show _ = [.released node, .finished node] ++ _ from rfl) (by simp)
        (fun query _ => ?_) (fun query _ => ?_) (by simp) fun after isNew => ?_
      · cases isEdges : (shared.node node).successors <;>
          simp [Effect.amount, Event.passes, cascade]
      · cases isEdges : (shared.node node).successors <;>
          simp [Effect.amount, cascade]
      · rw [successors] at isNew
        cases isEdges : (graph.node node).successors with
        | nil => simp [isEdges, cascade] at isNew
        | cons edge edges =>
            simp only [isEdges, cascade, List.mem_singleton] at isNew
            subst isNew
            refine ⟨⟨List.cons_ne_nil _ _, fun edge => isEdges ▸ id⟩, by simp, ?_⟩
            exact settled.append [_, _]
  | cascading node todo =>
      cases todo with
      | nil => exact absurd rfl walks.1
      | cons edge todo =>
          cases fired
          have isEdge := walks.2 edge (List.mem_cons_self ..)
          refine exits.skip _ looped isEdge settled settles (fun quantity isToken => ?_)
            fun after isNew => ?_
          · cases todo <;> cases quantity <;>
              simp_all [cascade, Frame.runs, Quantity.isToken]
          · cases todo with
            | nil => simp [cascade] at isNew
            | cons next todo =>
                simp only [cascade, List.mem_singleton] at isNew
                subst isNew
                refine ⟨⟨List.cons_ne_nil _ _, fun other isLater => ?_⟩, by simp,
                  settled.append [_]⟩
                exact walks.2 other (List.mem_cons_of_mem _ isLater)
  | scheduling node =>
      cases fired
      refine exits.quiet (show _ = [.scheduled node true] ++ _ from rfl) (by simp) ?_ ?_ ?_ ?_
      all_goals simp [Effect.amount, Event.passes, List.count_singleton]
  | resetting node target todo cycleCount =>
      simp only [Frame.resets, List.forall_mem_cons] at inside
      cases todo with
      | nil =>
          cases fired
          refine exits.quiet (show _ = [] ++ _ from rfl) (by simp) (fun query isOutside => ?_)
            (by simp [Effect.amount]) (fun _ => ⟨rfl, rfl, rfl, fun _ => rfl⟩)
            (by simpa [Frame.Walks] using inside.1)
          have other : target ≠ query := fun same => inside.1 (same ▸ isOutside)
          simp [Effect.amount, other]
      | cons curr todo =>
          simp only [List.forall_mem_cons] at inside
          simp only [Frame.fire] at fired
          split at fired
          · cases fired
            refine exits.quiet (show _ = [] ++ _ from rfl) (by simp) (by simp [Effect.amount])
              (by simp [Effect.amount]) (by simp [Shared.setState_node]) ?_
            simpa [Frame.Walks] using ⟨inside.1, inside.2.2⟩
          · cases fired
            refine exits.quiet (show _ = [] ++ _ from rfl) (by simp) (by simp [Effect.amount])
              (by simp [Effect.amount]) (fun query => ?_) (by simpa [Frame.Walks] using inside)
            rw [Shared.setInDegree_node]
            refine ⟨rfl, rfl, rfl, fun isOutside => if_neg ?_⟩
            rintro rfl
            exact inside.2.1 isOutside
  | resettingState node target curr todo cycleCount =>
      cases fired
      simp only [Frame.resets, List.forall_mem_cons] at inside
      refine exits.quiet (show _ = [] ++ _ from rfl) (by simp) (by simp [Effect.amount])
        (by simp [Effect.amount]) (by simp [Shared.setState_node]) ?_
      simpa [Frame.Walks] using ⟨inside.1, inside.2.2⟩
  | rescheduling node target =>
      cases fired
      simp only [Frame.resets, List.mem_singleton, forall_eq] at inside
      refine exits.quiet (show _ = [.scheduled target true] ++ _ from rfl) (by simp)
        (fun query isOutside => ?_) (by simp [Effect.amount]) (by simp) (by simp [Frame.Walks])
      have other : target ≠ query := fun same => inside (same ▸ isOutside)
      simp [Effect.amount, Event.passes, other]

theorem start {node : NodeId} {frames : Multiset Frame}
    (exits : LoopExits graph outside ⟨shared, node ::ₘ ready, frames⟩) :
    LoopExits graph outside ⟨shared, ready, .executing node ::ₘ frames⟩ := by
  have amount (quantity : Quantity) (started : quantity.ofReady node =
        quantity.ofFrame (.executing node)) :
      Workload.amount ⟨shared, ready, .executing node ::ₘ frames⟩ quantity =
        Workload.amount ⟨shared, node ::ₘ ready, frames⟩ quantity := by
    simp only [Workload.amount, Multiset.map_cons, Multiset.sum_cons, started]
    omega
  have old {property : Frame → Prop} (fresh : property (.executing node))
      (kept : ∀ frame ∈ frames, property frame) :
      ∀ frame ∈ Frame.executing node ::ₘ frames, property frame := by
    intro frame member
    rcases Multiset.mem_cons.mp member with rfl | isOld
    · exact fresh
    · exact kept frame isOld
  refine
    { exits with
      walks := old trivial exits.walks
      inside := old (by simp) exits.inside
      settled := old trivial exits.settled
      once := fun query isOutside => ?_
      willSkip := fun query isOutside => ?_ }
  · rw [amount (.uncalled query) (by simp [List.count_singleton])]
    exact exits.once query isOutside
  · rw [amount (.skipping query) rfl]
    exact exits.willSkip query isOutside

theorem note {load : Workload} {event : Event} (exits : LoopExits graph outside load)
    (isNote : event.isNote = true) :
    LoopExits graph outside ⟨load.shared.record event, load.ready, load.frames⟩ := by
  have other {real : Event} (isReal : real.isNote = false) : event ≠ real := by
    rintro rfl
    simp [isNote] at isReal
  have missing (node : NodeId) :
      graph.missing (event :: load.shared.log) node = graph.missing load.shared.log node := by
    refine Counting.sum_map_congr fun source _ => ?_
    rw [decrements, List.count_cons_of_ne (other rfl), List.count_cons_of_ne (other rfl),
      decrements]
  have received (node : NodeId) :
      received node (event :: load.shared.log) = received node load.shared.log := by
    cases event with
    | decremented => simp [Event.isNote] at isNote
    | _ => simp [LightFlow.received, Event.activates]
  have uncalled (node : NodeId) : passed .called node (event :: load.shared.log) =
      passed .called node load.shared.log := by
    rw [passed_cons]
    cases event <;> simp [Event.isNote] at isNote <;> rfl
  refine
    { exits with
      settled := fun frame member => (exits.settled frame member).append [event]
      sources := fun source target active member => ?_
      once := fun node isOutside => ?_
      packed := fun node isOutside => ?_
      bounded := fun node isOutside => ?_
      willSkip := fun node isOutside => ?_ }
  · have before := exits.sources source target active
      ((List.mem_cons.mp member).resolve_left (Ne.symm (other rfl)))
    exact before.imp (List.mem_cons_of_mem _) (List.mem_cons_of_mem _)
  all_goals simp only [Shared.record_log, missing, received, uncalled]
  · exact exits.once node isOutside
  · exact exits.packed node isOutside
  · exact exits.bounded node isOutside
  · rw [List.count_cons_of_ne (other rfl)]
    exact exits.willSkip node isOutside

theorem step {allowed : NodeId → NodeId → Prop} {load after : Workload} (looped : graph.Looped)
    (resets : ∀ source target, allowed source target → graph.LoopEdge source target →
      ∀ node ∈ cycleNodes graph.node source target, ¬ outside node)
    (exits : LoopExits graph outside load)
    (stepped : Workload.Step callables
      (fun shared frame => frame.Settles graph allowed outside shared) load after) :
    LoopExits graph outside after := by
  cases stepped with
  | start => exact exits.start
  | note isNote => exact exits.note isNote
  | fire settles fired => exact exits.fire looped resets settles fired

end LoopExits

/-! ## Chosen exits -/

/-- The latest call of the node goes along the edge, and takes no loop-back edge. -/
def Shared.Chooses (shared : Shared) (source : NodeId) (edge : SuccessorEdge) : Prop :=
  .executed source ∈ shared.log ∧ loopBack (shared.node source) = none ∧
    takes (chosenBranch (shared.node source)) edge = true

/-- The frame is on its way to decrement the target of the edge actively. -/
def Frame.Pursues (source : NodeId) (edge : SuccessorEdge) : Frame → Prop
  | .completing node => node = source
  | .unblocking node branch todo _ | .handingOver node branch _ todo _ =>
      node = source ∧ edge ∈ todo ∧ takes branch edge = true
  | _ => False

/-- A chosen edge is decremented, or going to be. -/
def Pursued (graph : TaskGraph) (load : Workload) : Prop :=
  ∀ source, ∀ edge ∈ (graph.node source).successors, load.shared.Chooses source edge →
    (∃ frame ∈ load.frames, frame.Pursues source edge) ∨
      .decremented source edge.target true ∈ load.shared.log

namespace Pursued

variable {outside : NodeId → Prop} {shared : Shared} {ready : Multiset NodeId} {frame : Frame}
  {rest : Multiset Frame} {effect : Effect}

/-- A pursuing frame goes on to, or makes, the decrement. -/
theorem of_pursues {inlineFree : Bool} {source : NodeId} {edge : SuccessorEdge}
    (straight : loopBack (shared.node source) = none)
    (conditions : ∀ edge ∈ (shared.node source).successors, edge.isLoopBack = true →
      (shared.node source).type = .condition)
    (isEdge : edge ∈ (shared.node source).successors)
    (taken : takes (chosenBranch (shared.node source)) edge = true)
    (pursues : frame.Pursues source edge)
    (fired : frame.fire callables inlineFree shared = some effect) :
    (∃ after ∈ effect.frames, after.Pursues source edge) ∨
      .decremented source edge.target true ∈ effect.shared.log := by
  cases frame with
  | completing node =>
      obtain rfl : node = source := pursues
      cases fired
      rw [unblockSuccessors_of_not_loopsBack (not_loopsBack conditions straight)]
      exact .inl ⟨_, List.mem_singleton_self _, rfl, isEdge, taken⟩
  | unblocking node branch todo unblockedCount =>
      obtain ⟨rfl, inTodo, takesEdge⟩ := pursues
      cases todo with
      | nil => simp at inTodo
      | cons next todo =>
          have goesOn (other : edge ≠ next) : edge ∈ todo :=
            (List.mem_cons.mp inTodo).resolve_left other
          simp only [Frame.fire] at fired
          split at fired
          next =>
            cases fired
            by_cases isNext : edge = next
            · subst isNext
              exact .inr (List.mem_cons_self ..)
            · refine .inl ⟨_, List.mem_singleton_self _, ?_⟩
              split <;> exact ⟨rfl, goesOn isNext, takesEdge⟩
          next notTaken =>
            have other : edge ≠ next := fun isNext => notTaken (isNext ▸ takesEdge)
            split at fired
            · cases fired
              exact .inl ⟨_, List.mem_singleton_self _, rfl, goesOn other, takesEdge⟩
            · cases fired
              refine .inl ⟨.unblocking node branch todo unblockedCount, ?_, rfl, goesOn other,
                takesEdge⟩
              simp only [unblockSkipped]
              split <;> simp
  | handingOver node branch succ todo unblockedCount =>
      cases fired
      simp only [handOver]
      split <;> [skip; split <;> [split; skip]] <;>
        exact .inl ⟨_, List.mem_singleton_self _, pursues⟩
  | _ => exact absurd pursues id

theorem fire {inlineFree : Bool}
    (exits : LoopExits graph outside ⟨shared, ready, frame ::ₘ rest⟩)
    (next : LoopExits graph outside (effect.load ready rest)) (looped : graph.Looped)
    (pursued : Pursued graph ⟨shared, ready, frame ::ₘ rest⟩)
    (fired : frame.fire callables inlineFree shared = some effect) :
    Pursued graph (effect.load ready rest) := by
  intro source edge isEdge chooses
  -- A call of another node, and every other step, leaves the choice as it was.
  have kept (sameType : (effect.shared.node source).type = (shared.node source).type)
      (sameData : (effect.shared.node source).userData = (shared.node source).userData)
      (executed : .executed source ∈ shared.log)
      (grows : ∃ events, effect.shared.log = events ++ shared.log) :
      (∃ after ∈ (effect.load ready rest).frames, after.Pursues source edge) ∨
        .decremented source edge.target true ∈ effect.shared.log := by
    have sameSuccessors : (effect.shared.node source).successors =
        (shared.node source).successors :=
      (next.shape source).2.2.trans (exits.shape source).2.2.symm
    obtain ⟨-, straight, taken⟩ := chooses
    have straightBefore : loopBack (shared.node source) = none := by
      simpa only [Effect.load, loopBack, sameType, sameData, sameSuccessors] using straight
    have takenBefore : takes (chosenBranch (shared.node source)) edge = true := by
      simpa only [Effect.load, chosenBranch, sameType, sameData] using taken
    obtain ⟨events, log⟩ := grows
    rcases pursued source edge isEdge ⟨executed, straightBefore, takenBefore⟩ with
      ⟨other, member, pursues⟩ | done
    · rcases Multiset.mem_cons.mp member with rfl | isOld
      · refine (of_pursues straightBefore ?_ ?_ takenBefore pursues fired).imp_left ?_
        · rw [(exits.shape source).1, (exits.shape source).2.2]
          exact looped.conditions source
        · exact (exits.shape source).2.2.symm ▸ isEdge
        · rintro ⟨after, isNew, pursuesOn⟩
          exact ⟨after, Multiset.mem_add.mpr (.inl isNew), pursuesOn⟩
      · exact .inl ⟨other, Multiset.mem_add.mpr (.inr isOld), pursues⟩
    · exact .inr (log ▸ List.mem_append_right _ done)
  by_cases isCall : ∃ node, frame = .calling node
  · obtain ⟨node, rfl⟩ := isCall
    have noSplice : CallsNoSplice callables shared node := fun isSubflow =>
      absurd ((exits.shape node).1 ▸ isSubflow) (looped.plain node)
    obtain ⟨frames, log, -, nodes⟩ := executeFn_of_callsNoSplice noSplice
    have called : effect = { shared := (executeFn callables shared node).1
                             frames := (executeFn callables shared node).2 } := by
      cases fired
      rfl
    subst called
    by_cases same : source = node
    · subst same
      refine .inl ⟨.completing source, Multiset.mem_add.mpr (.inl ?_), rfl⟩
      simp [frames]
    · obtain ⟨userData, result, others⟩ := nodes source
      have executed : .executed source ∈ shared.log := by
        simpa [Effect.load, log, same] using chooses.1
      refine kept ?_ ?_ executed ⟨[_], log⟩
      · simp [result]
      · simp [result, others same]
  · push Not at isCall
    obtain ⟨-, -, ⟨events, log, quiet⟩, nodes, -⟩ := Frame.fire_keeps isCall fired
    have executed : .executed source ∈ shared.log := by
      have after := chooses.1
      rwa [Effect.load, log, mem_append_of_call (fun event member => (quiet event member).1) rfl]
        at after
    exact kept (nodes source).1 (nodes source).2 executed ⟨events, log⟩

end Pursued

/-! ## All runs -/

/-- What every step of a run keeps. -/
structure Exiting (graph : TaskGraph) (callables : Callables) (outside : NodeId → Prop)
    (load : Workload) : Prop where
  exits : LoopExits graph outside load
  pursued : Pursued graph load
  answered : Answered callables load.shared

theorem Exiting.step {allowed : NodeId → NodeId → Prop} {outside : NodeId → Prop}
    {load after : Workload} (looped : graph.Looped)
    (resets : ∀ source target, allowed source target → graph.LoopEdge source target →
      ∀ node ∈ cycleNodes graph.node source target, ¬ outside node)
    (exiting : Exiting graph callables outside load)
    (stepped : Workload.Step callables
      (fun shared frame => frame.Settles graph allowed outside shared) load after) :
    Exiting graph callables outside after := by
  have exits := exiting.exits.step looped resets stepped
  cases stepped with
  | start =>
      refine ⟨exits, fun source edge isEdge chooses => ?_, exiting.answered⟩
      refine (exiting.pursued source edge isEdge chooses).imp_left ?_
      exact fun ⟨frame, member, pursues⟩ => ⟨frame, Multiset.mem_cons_of_mem member, pursues⟩
  | @note shared ready frames event isNote =>
      have older {real : Event} (isReal : real.isNote = false)
          (member : real ∈ event :: shared.log) :
          real ∈ shared.log := by
        refine (List.mem_cons.mp member).resolve_left ?_
        rintro rfl
        simp [isNote] at isReal
      refine ⟨exits, fun source edge isEdge chooses => ?_, fun node executed => ?_⟩
      · exact (exiting.pursued source edge isEdge ⟨older rfl chooses.1, chooses.2⟩).imp_right
          (List.mem_cons_of_mem _)
      · exact exiting.answered node (older rfl executed)
  | @fire shared ready frame rest inlineFree effect settles fired =>
      refine ⟨exits, exiting.pursued.fire exiting.exits exits looped fired, ?_⟩
      by_cases isCall : ∃ node, frame = .calling node
      · obtain ⟨node, rfl⟩ := isCall
        cases fired
        exact exiting.answered.call_plain fun isSubflow =>
          absurd ((exiting.exits.shape node).1 ▸ isSubflow) (looped.plain node)
      · push Not at isCall
        exact exiting.answered.of_quiet isCall fired

theorem Exiting.prepare {outside : NodeId → Prop} {state : RunState threads}
    (looped : graph.Looped)
    (shape : ∀ node, (state.shared.node node).type = (graph.node node).type ∧
      (state.shared.node node).initialInDegree = (graph.node node).initialInDegree ∧
      (state.shared.node node).successors = (graph.node node).successors)
    (empty : state.load.ready = 0 ∧ state.load.frames = 0) :
    Exiting graph callables outside (state.prepareRun graph).load := by
  have looping : Looping graph callables (fun _ _ => False) _ (state.prepareRun graph).load :=
    Looping.prepare looped shape empty
  have account := looping.account
  have noFrames : (state.prepareRun graph).load.frames = 0 := empty.2
  have noLog : (state.prepareRun graph).load.shared.log = [] := rfl
  have missing (node : NodeId) : graph.missing [] node = (graph.node node).initialInDegree := by
    rw [looped.degree]
    exact Counting.sum_map_congr fun source _ => Nat.sub_zero _
  have none {property : Frame → Prop} :
      ∀ frame ∈ (state.prepareRun graph).load.frames, property frame := by
    simp [noFrames]
  refine
    { exits :=
        { shape := account.shape
          walks := none
          inside := none
          settled := none
          sources := fun source target active member => absurd member List.not_mem_nil
          once := fun node _ => ?_
          packed := fun node _ waits => ?_
          bounded := fun node _ waits => ?_
          willSkip := fun node _ some => ?_ }
      pursued := fun source edge _ chooses => absurd chooses.1 List.not_mem_nil
      answered := looping.answered }
  · have called := account.called node
    rw [noLog, missing] at *
    exact called
  · have packed := account.packed node
    rw [noLog, missing] at *
    exact packed (.inl waits)
  · rw [noLog, missing]
    exact le_rfl
  · simp [noLog, Workload.amount, noFrames] at some

/-- In every state of every run that settles the nodes outside. -/
theorem exiting_of_reachable {allowed : NodeId → NodeId → Prop} {outside : NodeId → Prop}
    (looped : graph.Looped)
    (resets : ∀ source target, allowed source target → graph.LoopEdge source target →
      ∀ node ∈ cycleNodes graph.node source target, ¬ outside node)
    {state : RunState threads} (reachable : (graph.machine callables threads).ReachableBy
      (RunState.Settles graph allowed outside) state) :
    (state.runs = 0 ∧ state.shared.node = graph.node ∧ state.load.ready = 0 ∧
      state.load.frames = 0) ∨
      (0 < state.runs ∧ Exiting graph callables outside state.load) := by
  refine reachable.invariant
    (motive := fun state => (state.runs = 0 ∧ state.shared.node = graph.node ∧
      state.load.ready = 0 ∧ state.load.frames = 0) ∨
        (0 < state.runs ∧ Exiting graph callables outside state.load)) ?_ ?_
  · rintro state rfl
    refine .inl ⟨rfl, rfl, ?_, ?_⟩
    · simp [RunState.load, TaskGraph.initialState, RunState.unscheduled, RunState.slots]
    · simp [RunState.load, TaskGraph.initialState, RunState.calls]
  · intro state action after opened settles stepped
    have permitted (index : Fin threads) (frame : Frame) (stack : List Frame)
        (isFire : action = .fire index) (onTop : (state.thread index).stack = frame :: stack) :
        frame.Settles graph allowed outside state.shared := by
      subst isFire
      exact settles frame (by simp [onTop])
    rcases RunState.load_step permitted stepped with ⟨rfl, ended, rfl⟩ | ⟨sameRuns, steps⟩
    · obtain ⟨queued, idle⟩ : state.queued = [] ∧ ∀ index, (state.thread index).stack = [] ∧
        (state.thread index).t_nextInlineTask = none := settles
      refine .inr ⟨Nat.succ_pos _, .prepare looped ?_ ⟨?_, ?_⟩⟩
      · rcases opened with ⟨-, asBuilt, -⟩ | ⟨-, exiting⟩
        · exact fun node => by simp [asBuilt]
        · exact exiting.exits.shape
      · simp [RunState.load, RunState.unscheduled, RunState.slots, queued, ended.1, idle]
      · simp [RunState.load, RunState.calls, idle]
    · rcases opened with ⟨noRun, asBuilt, empty⟩ | ⟨someRun, exiting⟩
      · obtain ⟨sameNodes, -, stillEmpty⟩ := Workload.steps_of_empty empty steps
        exact .inl ⟨sameRuns ▸ noRun, sameNodes.trans asBuilt, stillEmpty⟩
      · refine .inr ⟨sameRuns ▸ someRun, ?_⟩
        generalize after.load = load at steps
        induction steps with
        | refl => exact exiting
        | tail _ last ih => exact ih.step looped resets last

/-- The latest call of `source` goes along the edge, and along no loop-back edge. -/
def RunState.Leaves (graph : TaskGraph) (callables : Callables) (state : RunState threads)
    (source : NodeId) (edge : SuccessorEdge) : Prop :=
  .executed source ∈ state.shared.log ∧ ((graph.node source).type = .condition →
    (edge.branch = -1 ∨ edge.branch = state.result callables source) ∧
      ∀ other ∈ (graph.node source).successors, other.isLoopBack = true →
        other.branch ≠ -1 ∧ other.branch ≠ state.result callables source)

theorem Exiting.chooses {outside : NodeId → Prop} {state : RunState threads}
    (exiting : Exiting graph callables outside state.load) {source : NodeId} {edge : SuccessorEdge}
    (leaves : state.Leaves graph callables source edge) :
    state.shared.Chooses source edge := by
  obtain ⟨sameType, -, sameSuccessors⟩ := exiting.exits.shape source
  refine ⟨leaves.1, ?_, ?_⟩
  · by_cases isCondition : (graph.node source).type = .condition
    · have answer := exiting.answered source leaves.1 (sameType.trans isCondition)
      refine Option.eq_none_iff_forall_not_mem.mpr fun target loops => ?_
      obtain ⟨-, other, member, isLoop, taken, -⟩ := exists_loopBack loops
      have avoids := (leaves.2 isCondition).2 other (sameSuccessors ▸ member) isLoop
      rcases taken with unlabelled | chosen
      · exact avoids.1 unlabelled
      · exact avoids.2 (chosen.trans answer)
    · have other : (state.shared.node source).type ≠ .condition := fun same =>
        isCondition (sameType.symm.trans same)
      simp [loopBack, other]
  · by_cases isCondition : (graph.node source).type = .condition
    · have here : (state.shared.node source).type = .condition := sameType.trans isCondition
      have answer : (state.shared.node source).userData = state.result callables source :=
        exiting.answered source leaves.1 here
      simpa [chosenBranch, here, takes, answer] using (leaves.2 isCondition).1
    · have other : (state.shared.node source).type ≠ .condition := fun same =>
        isCondition (sameType.symm.trans same)
      simp [chosenBranch, other, takes]

/-- In every run whose steps reset loops only, and decrement nodes outside of the loops anew
only when these cannot be decided any more: such a node is executed or skipped at most once,
and only after all of its predecessors were executed or skipped; and when a condition has
chosen to leave along an edge to it, the node is decremented actively, is not skipped, and
is executed when all of its edges have been decremented. -/
theorem loop_exit (loops : graph.ConditionLoops)
    (narrow : ∀ node, TaskGraph.incoming graph.node graph.order node ≤ 65535)
    {state : RunState threads}
    (reachable : (graph.machine callables threads).ReachableBy
      (RunState.Settles graph graph.ResetsLoops (¬ graph.InLoop ·)) state)
    (running : 0 < state.runs) {node : NodeId} (listed : node ∈ graph.order)
    (outside : ¬ graph.InLoop node) :
    state.resolved node + state.load.amount (.uncalled node) ≤ 1 ∧
      (0 < state.resolved node + state.load.amount (.uncalled node) →
        ∀ previous, graph.Forward previous node →
          .completed previous ∈ state.shared.log ∨ .skipped previous ∈ state.shared.log) ∧
      ∀ source, ∀ edge ∈ (graph.node source).successors, edge.target = node →
        state.Leaves graph callables source edge → ¬ state.Holds source →
          .decremented source node true ∈ state.shared.log ∧
            .skipped node ∉ state.shared.log ∧
            ((∀ previous, graph.Repeats previous node state.shared.log) →
              .executed node ∈ state.shared.log ∨ 0 < state.load.amount (.uncalled node)) := by
  have looped := loops.looped narrow
  have resets : ∀ source target, graph.ResetsLoops source target →
      graph.LoopEdge source target → ∀ node ∈ cycleNodes graph.node source target,
        ¬ ¬ graph.InLoop node := by
    rintro source target inLoops ⟨edge, member, isLoop, rfl⟩ node isReset outside
    exact outside (inLoops node (TaskGraph.circles_of_mem_cycleNodes
      (loops.built.wired.1.loops source edge member isLoop) isReset))
  have exiting : Exiting graph callables (¬ graph.InLoop ·) state.load := by
    rcases exiting_of_reachable looped resets reachable with ⟨noRun, -⟩ | ⟨-, exiting⟩
    · omega
    · exact exiting
  have exits := exiting.exits
  have once := exits.once node outside
  have same : state.load.shared = state.shared := rfl
  rw [List.count_eq_one_of_mem looped.distinct listed, passed_called, same] at once
  refine ⟨by rw [RunState.resolved]; omega, fun started previous related => ?_,
    fun source edge isEdge isTarget leaves notHeld => ?_⟩
  · have none : graph.missing state.shared.log node = 0 := by
      rw [RunState.resolved] at started
      exact waiting_eq_zero.mp (by omega)
    have positive := TaskGraph.forwardInto_pos.mpr related
    obtain ⟨edge, isEdge, -⟩ := related
    have decremented := (List.sum_eq_zero_iff.mp none) _
      (List.mem_map_of_mem (loops.built.source_mem isEdge))
    have some : 0 < decrements previous node state.shared.log := by omega
    rw [decrements] at some
    by_cases active : .decremented previous node true ∈ state.shared.log
    · exact exits.sources previous node true active
    · rw [List.count_eq_zero_of_not_mem active, Nat.zero_add] at some
      exact exits.sources previous node false (List.count_pos_iff.mp some)
  · subst isTarget
    have reached : .decremented source edge.target true ∈ state.shared.log := by
      refine (exiting.pursued source edge isEdge (exiting.chooses leaves)).resolve_left ?_
      rintro ⟨frame, member, pursues⟩
      obtain ⟨index, onStack⟩ := RunState.mem_frames.mp member
      refine notHeld (.inr (.inr (.inr ⟨index, frame, onStack, ?_⟩)))
      cases frame with
      | completing node => exact pursues
      | unblocking node branch todo count => exact pursues.1
      | handingOver node branch succ todo count => exact pursues.1
      | _ => exact absurd pursues id
    have gained : 0 < received edge.target state.shared.log :=
      List.countP_pos_iff.mpr ⟨_, reached, by simp [Event.activates]⟩
    have notSkipped : .skipped edge.target ∉ state.shared.log := by
      intro skipped
      have some := List.count_pos_iff.mpr skipped
      have none := (exits.willSkip edge.target outside (by rw [same]; omega)).2
      rw [same] at none
      omega
    refine ⟨reached, notSkipped, fun repeats => ?_⟩
    have none : graph.missing state.shared.log edge.target = 0 :=
      Counting.sum_map_eq_zero fun previous _ => Nat.sub_eq_zero_of_le (repeats previous)
    rw [none, waiting_zero, List.count_eq_zero_of_not_mem notSkipped] at once
    rcases Nat.eq_zero_or_pos (state.load.amount (.uncalled edge.target)) with called | waits
    · exact .inl (List.count_pos_iff.mp (by omega))
    · exact .inr waits

/-! ## A loop that is left early -/

/-- A task and a condition in a loop, and a task behind the loop that another one precedes. -/
def leftEarly : TaskGraph :=
  let nodes := (((({} : TaskGraph).emplace .static .worker).emplace .condition .worker).emplace
    .static .worker).emplace .static .worker |>.emplace .static .worker
  let body := ((nodes.addEdge (.node 0) (.node 1)).addEdge (.node 0) (.node 2)).addEdge
    (.node 3) (.node 2)
  (body.addEdge (.node 1) (.node 0) 0).addEdge (.node 1) (.node 4) 1

theorem leftEarly_built : leftEarly.Built := by
  refine .addEdge 1 (.addEdge 0 (.addEdge (-1) (.addEdge (-1) (.addEdge (-1)
    (.emplace _ _ (.emplace _ _ (.emplace _ _ (.emplace _ _ (.emplace _ _ .empty ?_) ?_) ?_) ?_) ?_)
      ?_ ?_) ?_ ?_) ?_ ?_) ?_ ?_) ?_ ?_
  all_goals decide

theorem leftEarly_loopEdge {source target : NodeId}
    (isEdge : leftEarly.LoopEdge source target) : source = .node 1 ∧ target = .node 0 := by
  obtain ⟨edge, member, isLoop, rfl⟩ := isEdge
  have oneLoop : ∀ source ∈ leftEarly.order, ∀ edge ∈ (leftEarly.node source).successors,
      edge.isLoopBack = true → source = .node 1 ∧ edge.target = .node 0 := by decide
  exact oneLoop source (leftEarly_built.source_mem member) edge member isLoop

/-- Numbers of the nodes along the edges. -/
def leftEarlyRank (node : NodeId) : Nat :=
  if node = .node 2 ∨ node = .node 4 then 2 else if node = .node 1 then 1 else 0

theorem leftEarly_loops : leftEarly.ConditionLoops where
  built := leftEarly_built
  plain := leftEarly_built.not_subflow (by decide)
  acyclic := Cycleless.of_increasing fun source target related => by
    obtain ⟨edge, member, forward, rfl⟩ := related
    have increases : ∀ source ∈ leftEarly.order, ∀ edge ∈ (leftEarly.node source).successors,
        edge.isLoopBack = false → leftEarlyRank source < leftEarlyRank edge.target := by decide
    exact increases source (leftEarly_built.source_mem member) edge member forward
  conditions := fun source target isEdge => by
    rw [(leftEarly_loopEdge isEdge).1]
    rfl

/-- From the tasks behind the loop nothing leads on. -/
theorem leftEarly_circles {node : NodeId}
    (circles : leftEarly.Circles (.node 1) (.node 0) node) : node = .node 0 ∨ node = .node 1 := by
  obtain ⟨there, back⟩ := circles
  have listed : node ∈ leftEarly.order := by
    obtain same | ⟨previous, -, edge, member, -, rfl⟩ := Relation.ReflTransGen.cases_tail there
    · exact same ▸ by decide
    · exact leftEarly_built.target_mem member
  have notThird : node ≠ .node 3 := by
    rintro rfl
    obtain same | ⟨previous, -, edge, member, -, isTarget⟩ := Relation.ReflTransGen.cases_tail there
    · exact absurd same (by decide)
    · have noEdge : ∀ source ∈ leftEarly.order, ∀ edge ∈ (leftEarly.node source).successors,
          edge.target ≠ .node 3 := by decide
      exact noEdge previous (leftEarly_built.source_mem member) edge member isTarget
  have leadsOn : node = .node 1 ∨ (leftEarly.node node).successors ≠ [] := by
    obtain same | ⟨next, ⟨edge, member, -⟩, -⟩ := Relation.ReflTransGen.cases_head back
    · exact .inl same
    · exact .inr (List.ne_nil_of_mem member)
  have cases : ∀ node ∈ leftEarly.order, node ≠ .node 3 →
      (node = .node 1 ∨ (leftEarly.node node).successors ≠ []) →
        node = .node 0 ∨ node = .node 1 := by decide
  exact cases node listed notThird leadsOn

theorem leftEarly_inLoop {node : NodeId} :
    leftEarly.InLoop node ↔ node = .node 0 ∨ node = .node 1 := by
  have isEdge : leftEarly.LoopEdge (.node 1) (.node 0) :=
    ⟨{ target := .node 0, branch := 0, isLoopBack := true }, by decide, rfl, rfl⟩
  constructor
  · rintro ⟨source, target, loops, inside⟩
    obtain ⟨rfl, rfl⟩ := leftEarly_loopEdge loops
    rcases inside with rfl | rfl | body
    · exact .inr rfl
    · exact .inl rfl
    · refine leftEarly_circles ⟨body.1, Relation.ReflTransGen.mono ?_ _ _ body.2⟩
      exact fun source target ⟨edge, member, _, isTarget⟩ => ⟨edge, member, isTarget⟩
  · rintro (rfl | rfl)
    · exact ⟨_, _, isEdge, .inr (.inl rfl)⟩
    · exact ⟨_, _, isEdge, .inl rfl⟩

/-- Two iterations before `.node 3` is taken. -/
def leftEarlyRun : List (RunAction 1) :=
  List.flatten
    [[.prepareRun, .dispatchRoot, .dispatchRoot, .dispatchRoot], RunAction.work 0 (.node 0) 8,
      RunAction.work 0 (.node 1) 9, RunAction.work 0 (.node 0) 9, RunAction.work 0 (.node 2) 5]

/-- The second iteration decrements `.node 2` for the edge that was counted once: it is
executed although `.node 3` is still in the queue. -/
theorem not_loop_exit : leftEarly.ConditionLoops ∧
    (∀ node, TaskGraph.incoming leftEarly.node leftEarly.order node ≤ 65535) ∧
    ¬ leftEarly.InLoop (.node 2) ∧ leftEarly.Forward (.node 3) (.node 2) ∧
    ∃ state : RunState 1, (leftEarly.machine (backOnce (.node 1)) 1).Reachable state ∧
      state.runs = 1 ∧ .completed (.node 2) ∈ state.shared.log ∧
      .executed (.node 3) ∉ state.shared.log ∧ .skipped (.node 3) ∉ state.shared.log := by
  refine ⟨leftEarly_loops, fun node => (TaskGraph.incoming_le _ _ _).trans (by decide),
    leftEarly_inLoop.not.mpr (by decide),
    ⟨{ target := .node 2, branch := -1 }, by decide, rfl, rfl⟩, ?_⟩
  exact Machine.ReachableBy.exists_of_run (.start rfl) leftEarlyRun (by decide +kernel)

/-- Two iterations after `.node 3` was executed; the second one finds `.node 2` decided. -/
def leftLateRun : List (RunAction 1) :=
  List.flatten
    [[.prepareRun, .dispatchRoot, .dispatchRoot, .dispatchRoot], RunAction.work 0 (.node 3) 6,
      RunAction.work 0 (.node 0) 9, RunAction.work 0 (.node 1) 9, RunAction.work 0 (.node 2) 5,
      RunAction.work 0 (.node 0) 8, RunAction.work 0 (.node 1) 8, RunAction.work 0 (.node 4) 5]

theorem loop_exit_late : ∃ state : RunState 1,
    (leftEarly.machine (backOnce (.node 1)) 1).ReachableBy
      (RunState.Settles leftEarly leftEarly.ResetsLoops (¬ leftEarly.InLoop ·)) state ∧
      state.Ended ∧ state.shared.log.count (.executed (.node 0)) = 2 ∧
      state.resolved (.node 2) + state.load.amount (.uncalled (.node 2)) ≤ 1 := by
  obtain ⟨state, reachable, running, ended, twice⟩ : ∃ state : RunState 1,
      (leftEarly.machine (backOnce (.node 1)) 1).ReachableBy
        (RunState.Settles leftEarly (fun source target => source = .node 1 ∧ target = .node 0)
          fun node => node ≠ .node 0 ∧ node ≠ .node 1) state ∧ 0 < state.runs ∧
        state.Ended ∧ state.shared.log.count (.executed (.node 0)) = 2 :=
    Machine.ReachableBy.exists_of_run (.start rfl) leftLateRun (by decide +kernel)
  have settles := reachable.mono fun state action settles =>
    settles.mono
      (show ∀ source target, source = .node 1 ∧ target = .node 0 →
          leftEarly.ResetsLoops source target by
        rintro _ _ ⟨rfl, rfl⟩ node circles
        exact leftEarly_inLoop.mpr (leftEarly_circles circles))
      (show ∀ node, ¬ leftEarly.InLoop node → node ≠ .node 0 ∧ node ≠ .node 1 from
        fun node outside => not_or.mp (leftEarly_inLoop.not.mp outside))
  have once := (loop_exit leftEarly_loops
    (fun node => (TaskGraph.incoming_le _ _ _).trans (by decide)) settles running
    (show .node 2 ∈ leftEarly.order by decide) (leftEarly_inLoop.not.mpr (by decide))).1
  exact ⟨state, settles, ended, twice, once⟩

end LightFlow
