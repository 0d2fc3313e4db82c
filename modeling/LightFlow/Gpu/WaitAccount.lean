import LightFlow.Gpu.WaitRun
import LightFlow.Task.LoopRun

/-!
# Wait points in the account of a run

A wait point is a dependency that no node of the graph decrements.  Released, it is paid for
like an active decrement; timed out, it keeps its node waiting for ever, and lets the
successors of the node go.
-/

namespace LightFlow

/-- A timeout lets the successors of the node go. -/
def Tally.drop (tally : Tally) (node : NodeId) : Tally :=
  { tally with
    dropped := Function.update tally.dropped node 1
    sends := Function.update tally.sends node (tally.sends node + 1) }

/-- A wait point of the node is released: an active decrement that no node of the graph makes. -/
def Tally.releaseWait (tally : Tally) (node : NodeId) : Tally :=
  tally.decrement node .active (Function.update tally.extra node (tally.extra node - 1))
    (Function.update tally.bonus node (tally.bonus node + 1))

/-- What a walk over skipped successors adds to the amounts. -/
@[simp] def Quantity.ofCascade (node : NodeId) (todo : List SuccessorEdge) : Quantity → Nat
  | .flying target => TaskGraph.forwardInto target todo
  | .sending source target => if node = source then TaskGraph.forwardInto target todo else 0
  | _ => 0

theorem Quantity.sum_cascade (node : NodeId) (todo : List SuccessorEdge) (quantity : Quantity) :
    ((cascade node todo).map fun frame => quantity.ofFrame frame).sum =
      quantity.ofCascade node todo := by
  cases todo <;> cases quantity <;> simp [cascade, Frame.runs, List.count_singleton]

namespace Account

variable {graph : TaskGraph} {tally : Tally} {shared : Shared} {ready : Multiset NodeId}
  {frames : Multiset Frame} {node : NodeId}

/-- What the account does not look at may change in the nodes. -/
theorem restore {after : Shared} (account : Account graph tally ⟨shared, ready, frames⟩)
    (log : after.log = shared.log) (pending : after.m_pendingTasks = shared.m_pendingTasks)
    (nodes : ∀ query, ∃ state, after.node query = { shared.node query with state }) :
    Account graph tally ⟨after, ready, frames⟩ := by
  have same (query : NodeId) : (after.node query).type = (shared.node query).type ∧
      (after.node query).inDegree = (shared.node query).inDegree ∧
      (after.node query).initialInDegree = (shared.node query).initialInDegree ∧
      (after.node query).userData = (shared.node query).userData ∧
      (after.node query).successors = (shared.node query).successors := by
    obtain ⟨state, stored⟩ := nodes query
    rw [stored]
    exact ⟨rfl, rfl, rfl, rfl, rfl⟩
  exact
    { passage := account.passage
      called := log ▸ account.called
      finished := log ▸ account.finished
      settled := log ▸ account.settled
      edges := account.edges
      active := account.active
      packed := fun query known => (same query).2.1 ▸ account.packed query known
      stuck := account.stuck
      bounded := account.bounded
      willRun := log ▸ account.willRun
      willSkip := log ▸ account.willSkip
      told := log ▸ account.told
      chosen := account.chosen
      choice := fun source target closed first => by
        have choice := account.choice source target closed first
        simp only [chosenBranch, (same source).1, (same source).2.2.2.1, log] at choice ⊢
        exact choice
      sent := log ▸ account.sent
      once := account.once
      shape := fun query => by
        rw [(same query).1, (same query).2.2.1, (same query).2.2.2.2]
        exact account.shape query
      walks := account.walks
      pending := pending.trans account.pending }

theorem setState (account : Account graph tally ⟨shared, ready, frames⟩) (state : TaskState) :
    Account graph tally ⟨shared.setState node state, ready, frames⟩ :=
  account.restore rfl rfl fun query => ⟨_, shared.setState_node node query state⟩

/-- A node with a dependency of its own waits, and is open unless it was dropped. -/
theorem of_extra {load : Workload} (account : Account graph tally load)
    (distinct : graph.order.Nodup) (extra : 0 < tally.extra node) :
    0 < tally.need node ∧ node ∈ graph.order ∧ tally.closed node = 0 := by
  have edges := account.edges node
  have passage := account.passage node
  have single := List.nodup_iff_count_le_one.mp distinct node
  have waits : 0 < tally.need node := by omega
  rw [waiting_of_pos waits] at passage
  exact ⟨waits, List.count_pos_iff.mp (by omega), by omega⟩

/-- `handleGpuTimeout` at `onTaskCompleted` drops the node. -/
theorem drop (account : Account graph tally ⟨shared, ready, frames⟩)
    (distinct : graph.order.Nodup) (extra : 0 < tally.extra node)
    (first : tally.dropped node = 0) :
    Account graph (tally.drop node)
      ⟨(shared.onTaskCompleted node).record (.released node), ready,
        ↑(cascade node (shared.node node).successors) + frames⟩ := by
  obtain ⟨waits, member, notClosed⟩ := account.of_extra distinct extra
  have successors : (shared.node node).successors = (graph.node node).successors :=
    (account.shape node).2.2
  rw [successors]
  have amount (quantity : Quantity) : Workload.amount
        ⟨(shared.onTaskCompleted node).record (.released node), ready,
          ↑(cascade node (graph.node node).successors) + frames⟩ quantity =
      Workload.amount ⟨shared, ready, frames⟩ quantity +
        quantity.ofCascade node (graph.node node).successors := by
    simp only [Workload.amount, Multiset.map_add, Multiset.sum_add, Multiset.map_coe,
      Multiset.sum_coe, Quantity.sum_cascade]
    omega
  have log : ((shared.onTaskCompleted node).record (.released node)).log =
      [.released node, .finished node] ++ shared.log := rfl
  have noCall (other : NodeId) :
      passed .called other [.released node, .finished node] = 0 := by
    simp [Event.passes]
  have wasOpen : tally.isOpen node = 1 := by simp [Tally.isOpen, notClosed, first]
  have isClosed : (tally.drop node).isOpen node = 0 := by simp [Tally.isOpen, Tally.drop]
  have others (other : NodeId) (different : other ≠ node) :
      (tally.drop node).isOpen other = tally.isOpen other := by
    simp [Tally.isOpen, Tally.drop, different]
  refine
    { passage := fun other => ?passage
      called := fun other => ?called
      finished := fun other => ?finished
      settled := fun other closed => (account.settled other closed).imp
        (List.mem_append_right [_, _]) (List.mem_append_right [_, _])
      edges := fun target => ?edges
      active := fun target => ?active
      packed := account.packed
      stuck := fun other => ?stuck
      bounded := account.bounded
      willRun := fun other first some => ?willRun
      willSkip := fun other first some => ?willSkip
      told := fun after inFrames => ?told
      chosen := account.chosen
      choice := fun source target closed first => ?choice
      sent := fun source target forward => ?sent
      once := fun other first => ?once
      shape := account.shape
      walks := fun after inFrames => ?walks
      pending := ?pending }
  case passage =>
    rw [amount]
    exact account.passage other
  case called =>
    rw [amount, log, passed_append, noCall, Nat.zero_add]
    exact account.called other
  case finished =>
    have before := account.finished other
    rw [amount, log, passed_append]
    by_cases same : other = node
    · subst same
      simp [Event.passes, Tally.drop, first] at before ⊢
      omega
    · simpa [Event.passes, Tally.drop, same, Ne.symm same] using before
  case edges =>
    have before := account.edges target
    have sum := sum_isOpen (fun source =>
      TaskGraph.forwardInto target (graph.node source).successors) distinct member wasOpen isClosed
      others
    rw [amount]
    change tally.need target = _ + _ + tally.extra target
    simp only [Quantity.ofCascade]
    omega
  case active =>
    rw [amount]
    exact account.active target
  case stuck =>
    have before := account.stuck other
    by_cases same : other = node
    · subst same
      simp only [Tally.drop, Function.update_self]
      exact extra
    · simpa [Tally.drop, same] using before
  case willRun =>
    refine account.willRun other first ?_
    rwa [amount, log, List.count_append, List.count_eq_zero_of_not_mem (by simp), Nat.zero_add]
      at some
  case willSkip =>
    refine account.willSkip other first ?_
    rwa [amount, log, List.count_append, List.count_eq_zero_of_not_mem (by simp), Nat.zero_add]
      at some
  case told =>
    rcases Multiset.mem_add.mp inFrames with isNew | isOld
    · cases cascaded : (graph.node node).successors <;> simp [cascade, cascaded] at isNew
      rw [isNew]
      trivial
    · exact log ▸ (account.told after isOld).append fun _ _ => noCall _
  case choice =>
    rw [log]
    simp only [ran_append shared.log (noCall source)]
    exact account.choice source target closed first
  case sent =>
    have before := account.sent source target forward
    have none : decrements source target [.released node, .finished node] = 0 := by
      simp [decrements]
    rw [amount, log, decrements_append, none]
    by_cases same : node = source
    · subst same
      simp only [Quantity.ofCascade, Tally.drop, Function.update_self, ↓reduceIte,
        Nat.add_mul] at before ⊢
      omega
    · simp only [Quantity.ofCascade, Tally.drop, same, ↓reduceIte,
        Function.update_of_ne (Ne.symm same)] at before ⊢
      omega
  case once =>
    have before := account.once other first
    by_cases same : other = node
    · subst same
      simp_all [Tally.drop]
    · simpa [Tally.drop, same] using before
  case walks =>
    rcases Multiset.mem_add.mp inFrames with isNew | isOld
    · exact cascade_walks (fun _ member => member) after isNew
    · exact account.walks after isOld
  case pending =>
    have before := account.pending
    have sum := sum_isOpen (fun _ => 1) distinct member wasOpen isClosed others
    simp only [Nat.mul_one] at sum
    rw [← sum] at before
    rw [Shared.record_pending, Shared.onTaskCompleted_pending, amount]
    dsimp only at before
    rw [before, show ∀ first second : Nat, first + 1 + second = first + second + 1 by omega,
      u32Sub_u32_succ]
    rfl

/-- `decrementActive`, called for a wait point. -/
theorem releaseWait (account : Account graph tally ⟨shared, ready, frames⟩)
    (distinct : graph.order.Nodup) (narrow : (graph.node node).initialInDegree ≤ 2 ^ 16)
    (extra : tally.dropped node < tally.extra node) {inDegree : Nat} {unblocked : Bool}
    (decremented : decrementActive (shared.node node).inDegree = (inDegree, unblocked)) :
    Account graph (tally.releaseWait node)
      ⟨shared.setInDegree node inDegree, ready,
        ↑(if unblocked then [Frame.scheduling node] else []) + frames⟩ := by
  obtain ⟨waits, -, -⟩ := account.of_extra distinct (by omega : 0 < tally.extra node)
  have decides := account.decides .active waits narrow
  simp only [Decrement.apply] at decides
  rw [decremented] at decides
  have decided : (unblocked = true ∧ decision tally node .active = .run) ∨
      (unblocked = false ∧ decision tally node .active = .pending) := by
    cases unblocked
    · exact .inr ⟨rfl, decides.symm⟩
    · exact .inl ⟨rfl, decides.symm⟩
  refine account.decrement waits narrow (show _ = [] ++ _ from rfl) (by simp) ?_ ?_ ?_ ?_ ?_ ?_ ?_
    rfl distinct
  · intro quantity isToken
    rcases decided with ⟨rfl, run⟩ | ⟨rfl, pending⟩
    · rw [run]
      cases quantity <;> simp [Workload.amount, Quantity.isToken, Frame.runs, List.count_singleton]
        at isToken ⊢ <;> omega
    · rw [pending]
      cases quantity <;> simp [Workload.amount, Quantity.isToken] at isToken ⊢
  · intro other
    have same : Workload.amount ⟨shared.setInDegree node inDegree, ready,
        ↑(if unblocked then [Frame.scheduling node] else []) + frames⟩ (.flying other) =
          Workload.amount ⟨shared, ready, frames⟩ (.flying other) := by
      cases unblocked <;> simp [Workload.amount]
    rw [same]
    by_cases isNode : other = node
    · subst isNode
      simp only [Function.update_self, ↓reduceIte]
      omega
    · simp [isNode]
  · intro other
    have same : Workload.amount ⟨shared.setInDegree node inDegree, ready,
        ↑(if unblocked then [Frame.scheduling node] else []) + frames⟩ (.active other) =
          Workload.amount ⟨shared, ready, frames⟩ (.active other) := by
      cases unblocked <;> simp [Workload.amount]
    rw [same]
    by_cases isNode : other = node
    · subst isNode
      simp only [Function.update_self, and_self, ↓reduceIte]
      omega
    · simp [isNode]
  · intro other
    have before := account.stuck other
    by_cases isNode : other = node
    · subst isNode
      rw [Function.update_self]
      omega
    · rwa [Function.update_of_ne isNode]
  · intro source target _
    cases unblocked <;> simp [Workload.amount, decrements]
  · intro other
    simp only [Shared.setInDegree_node, Decrement.apply, decremented, true_and]
  · intro after member
    rcases Multiset.mem_add.mp member with isNew | isOld
    · refine .inr ?_
      cases unblocked <;> simp at isNew
      rw [isNew]
      exact ⟨trivial, trivial⟩
    · exact .inl isOld

end Account

/-! ## Calls of a run -/

/-- The call belongs to no loop. -/
def Frame.Calm : Frame → Prop
  | .resetting _ _ _ _ | .resettingState _ _ _ _ _ | .rescheduling _ _ => False
  | _ => True

/-- What the calls for tasks leave alone; what is released stays released. -/
structure Tally.Onward (tally next : Tally) : Prop where
  dropped : next.dropped = tally.dropped
  extra : next.extra = tally.extra
  bonus : next.bonus = tally.bonus
  closed : ∀ node, tally.closed node ≤ next.closed node

theorem Tally.Onward.refl (tally : Tally) : tally.Onward tally :=
  ⟨rfl, rfl, rfl, fun _ => le_rfl⟩

theorem Tally.Onward.trans {first second third : Tally} (one : first.Onward second)
    (other : second.Onward third) : first.Onward third :=
  ⟨other.dropped.trans one.dropped, other.extra.trans one.extra, other.bonus.trans one.bonus,
    fun node => (one.closed node).trans (other.closed node)⟩

theorem Tally.Onward.isOpen {tally next : Tally} (onward : tally.Onward next) {node : NodeId}
    (isClosed : tally.isOpen node = 0) : next.isOpen node = 0 := by
  have closed := onward.closed node
  simp only [Tally.isOpen, onward.dropped] at isClosed ⊢
  split at isClosed
  next => simp at isClosed
  next => exact if_neg (by omega)

/-- What holds of all calls for tasks in a run with wait points. -/
structure Resolving (graph : TaskGraph) (callables : Callables) (tally : Tally)
    (load : Workload) : Prop where
  account : Account graph tally load
  first : ∀ node, tally.rounds node = 0
  calm : ∀ frame ∈ load.frames, frame.Calm
  answered : Answered callables load.shared

section

variable {graph : TaskGraph} {callables : Callables} {tasks : List NodeId} {tally : Tally}
  {shared : Shared} {ready : Multiset NodeId} {frame : Frame} {frames rest : Multiset Frame}
  {effect : Effect}

/-- A straight step starts no loop. -/
theorem Frame.fire_calm {inlineFree : Bool} (straight : frame.Straight callables shared)
    (walks : frame.Walks graph) (fired : frame.fire callables inlineFree shared = some effect) :
    ∀ after ∈ effect.frames, after.Calm := by
  cases frame with
  | calling node =>
      have called : effect.frames = (executeFn callables shared node).2 := by
        cases fired
        rfl
      simp [called, (executeFn_of_callsNoSplice straight).1, Frame.Calm]
  | dispatching node roots => exact absurd walks id
  | joining node => exact absurd walks id
  | completing node =>
      cases fired
      simp [unblockSuccessors_of_not_loopsBack straight, Frame.Calm]
  | unblocking node branch todo unblockedCount =>
      cases todo with
      | nil =>
          cases fired
          simp [Frame.Calm]
      | cons edge todo =>
          simp only [Frame.fire] at fired
          split at fired
          next =>
            cases fired
            simp only [unblockActive]
            split <;> simp [Frame.Calm]
          next =>
            split at fired
            next =>
              cases fired
              simp [Frame.Calm]
            next =>
              cases fired
              simp only [unblockSkipped]
              split <;> simp [Frame.Calm]
  | handingOver node branch succ todo unblockedCount =>
      cases fired
      simp only [handOver]
      split
      · simp [Frame.Calm]
      · split <;> [split; skip] <;> simp [Frame.Calm]
  | skipped node =>
      cases fired
      cases successors : (shared.node node).successors <;> simp [cascade, Frame.Calm]
  | cascading node todo =>
      cases todo with
      | nil => exact absurd rfl walks.1
      | cons edge todo =>
          cases fired
          simp only [unblockSkipped]
          split <;> cases todo <;> simp [cascade, Frame.Calm]
  | resetting | resettingState | rescheduling => exact absurd straight id
  | _ =>
      cases fired
      simp [Frame.Calm]

namespace Resolving

/-- Without loops every call goes on straight. -/
theorem straight (resolving : Resolving graph callables tally ⟨shared, ready, frame ::ₘ rest⟩)
    (waiting : graph.Waiting tasks) : frame.Straight callables shared := by
  have calm := resolving.calm frame (Multiset.mem_cons_self _ _)
  have walks := resolving.account.walks frame (Multiset.mem_cons_self _ _)
  have shape := resolving.account.shape
  cases frame with
  | calling node =>
      exact fun isSubflow => absurd ((shape node).1 ▸ isSubflow) (waiting.plain node)
  | completing node =>
      rintro ⟨edge, member, isLoop, -⟩
      rw [(shape node).2.2] at member
      simp [waiting.forward node edge member] at isLoop
  | cascading node todo =>
      cases todo with
      | nil => trivial
      | cons edge todo => exact waiting.forward node edge (walks.2 edge (List.mem_cons_self ..))
  | resetting | resettingState | rescheduling => exact calm
  | _ => trivial

theorem fire {inlineFree : Bool}
    (resolving : Resolving graph callables tally ⟨shared, ready, frame ::ₘ rest⟩)
    (waiting : graph.Waiting tasks)
    (fired : frame.fire callables inlineFree shared = some effect) :
    ∃ next, tally.Onward next ∧ Resolving graph callables next (effect.load ready rest) := by
  have straight := resolving.straight waiting
  have walks := resolving.account.walks frame (Multiset.mem_cons_self _ _)
  obtain ⟨next, follows, account, -⟩ := resolving.account.fire straight
    (fun node => (waiting.narrow node).trans (by decide)) waiting.distinct fired
  refine ⟨next, ⟨follows.dropped, follows.extra, follows.bonus, follows.closed⟩, account, ?_, ?_,
    ?_⟩
  · rw [follows.rounds]
    exact resolving.first
  · intro after member
    rcases Multiset.mem_add.mp member with isNew | isOld
    · exact Frame.fire_calm straight walks fired after isNew
    · exact resolving.calm after (Multiset.mem_cons_of_mem isOld)
  · by_cases isCall : ∃ node, frame = .calling node
    · obtain ⟨node, rfl⟩ := isCall
      cases fired
      exact resolving.answered.call_plain straight
    · push Not at isCall
      exact resolving.answered.of_quiet isCall fired

/-- A step of the workload keeps what holds of its calls. -/
theorem step {load after : Workload} (resolving : Resolving graph callables tally load)
    (waiting : graph.Waiting tasks)
    (stepped : Workload.Step callables (fun _ _ => True) load after) :
    ∃ next, tally.Onward next ∧ Resolving graph callables next after := by
  cases stepped with
  | fire _ fired => exact resolving.fire waiting fired
  | start =>
      refine ⟨tally, .refl tally, resolving.account.start, resolving.first, fun frame member => ?_,
        resolving.answered⟩
      rcases Multiset.mem_cons.mp member with rfl | isOld
      · trivial
      · exact resolving.calm frame isOld
  | note isNote =>
      refine ⟨tally, .refl tally, resolving.account.note isNote, resolving.first, resolving.calm,
        ?_⟩
      intro node executed isCondition
      rcases List.mem_cons.mp executed with rfl | before
      · simp [Event.isNote] at isNote
      · exact resolving.answered node before isCondition

theorem steps {load after : Workload} (resolving : Resolving graph callables tally load)
    (waiting : graph.Waiting tasks)
    (stepped : Relation.ReflTransGen (Workload.Step callables fun _ _ => True) load after) :
    ∃ next, tally.Onward next ∧ Resolving graph callables next after := by
  induction stepped with
  | refl => exact ⟨tally, .refl tally, resolving⟩
  | tail _ last ih =>
      obtain ⟨next, onward, resolved⟩ := ih
      obtain ⟨final, further, kept⟩ := resolved.step waiting last
      exact ⟨final, onward.trans further, kept⟩

/-- `prepareRun` opens the account. -/
theorem prepare {threads : Nat} {state : RunState threads} (waiting : graph.Waiting tasks)
    (shape : ∀ node, (state.shared.node node).type = (graph.node node).type ∧
      (state.shared.node node).initialInDegree = (graph.node node).initialInDegree ∧
      (state.shared.node node).successors = (graph.node node).successors)
    (empty : state.load.ready = 0 ∧ state.load.frames = 0) :
    Resolving graph callables (.opening graph (tasks.count ·)) (state.prepareRun graph).load := by
  have frames : (state.prepareRun graph).load.frames = 0 := empty.2
  have ready : (state.prepareRun graph).load.ready =
      ↑(graph.order.filter fun node => (graph.node node).initialInDegree = 0) := by
    have parts : (↑state.queued : Multiset NodeId) = 0 ∧ RunState.slots state.thread = 0 := by
      have none := empty.1
      simp only [RunState.load, add_eq_zero] at none
      exact ⟨none.1.1, none.2⟩
    have roots : (state.prepareRun graph).unscheduled =
        graph.order.filter fun node => (graph.node node).initialInDegree = 0 := by
      have same : RunState.roots graph.order state.shared.node =
          graph.order.filter fun node => (graph.node node).initialInDegree = 0 :=
        List.filter_congr fun node _ => by rw [(shape node).2.1]
      simp only [RunState.unscheduled, RunState.prepareRun]
      split_ifs with noNodes
      · rw [waiting.count, List.length_eq_zero_iff] at noNodes
        simp [noNodes]
      · exact same
    change ↑state.queued + ↑(state.prepareRun graph).unscheduled + RunState.slots state.thread = _
    rw [roots, parts.1, parts.2, zero_add, add_zero]
  refine ⟨.opening waiting.distinct (waiting.count ▸ waiting.bound) waiting.degree
    (fun node => (waiting.narrow node).trans_lt (by decide)) (fun node positive => ?_)
    (fun node => ?_) (fun node member => ?_) rfl frames ready waiting.count, fun _ => rfl,
    by simp [frames], fun node executed => absurd executed List.not_mem_nil⟩
  · rw [waiting.degree] at positive
    by_cases isTask : node ∈ tasks
    · exact waiting.tasks_mem node isTask
    · rw [List.count_eq_zero_of_not_mem isTask, Nat.add_zero, Counting.sum_map_pos] at positive
      obtain ⟨source, -, some⟩ := positive
      obtain ⟨edge, member, -, rfl⟩ := TaskGraph.forwardInto_pos.mp some
      exact waiting.targets source edge member
  · have reset : ((state.prepareRun graph).load.shared.node node).type =
          (state.shared.node node).type ∧
        ((state.prepareRun graph).load.shared.node node).initialInDegree =
          (state.shared.node node).initialInDegree ∧
        ((state.prepareRun graph).load.shared.node node).successors =
          (state.shared.node node).successors := by
      simp only [RunState.load, RunState.prepareRun, RunState.resetNodes]
      split <;> exact ⟨rfl, rfl, rfl⟩
    rw [reset.1, reset.2.1, reset.2.2]
    exact shape node
  · change (RunState.resetNodes graph.order state.shared.node node).inDegree = _
    rw [resetNodes_of_mem member]
    exact (shape node).2.1

end Resolving

end

end LightFlow
