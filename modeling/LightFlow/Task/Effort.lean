import LightFlow.Task.Progress

/-!
# Runs with joined subflows end

Every node that can come into a run stands for a fixed amount of work, and so does every
call by what it has left to do.  Whatever a thread does next takes some of it away.
-/

namespace LightFlow

section Effort

variable (graph : TaskGraph) (callables : Callables) (all : Finset NodeId)

/-- Only the listed nodes can come into a run: those of the graph, and those of the subflows
of listed nodes.  There is such a list when subflows nest to a finite depth. -/
structure Confined : Prop where
  order : ∀ node ∈ graph.order, node ∈ all
  members : ∀ parent ∈ all, Grows graph callables parent →
    ∀ node ∈ (callables.subflow parent).members parent, node ∈ all

/-- Number of successors a node starts with. -/
def fanOut (node : NodeId) : Nat :=
  (declared graph callables node).successors.length

/-- What a call has left to do.  A node it hands over costs three more, an edge eight. -/
@[simp] def Frame.effort : Frame → Nat
  | .executing _ => 2
  | .calling _ | .finishing _ | .skipping _ => 1
  | .dispatching node roots => 4 * roots.length + 8 * fanOut graph callables node + 6
  | .joining node => 8 * fanOut graph callables node + 5
  | .completing node => 8 * fanOut graph callables node + 4
  | .unblocking _ _ todo _ => 8 * todo.length + 2
  | .handingOver _ _ _ todo _ => 8 * todo.length + 6
  | .skipped node => 8 * fanOut graph callables node + 2
  | .cascading _ todo => 8 * todo.length + 1
  | .scheduling _ => 4
  | .resetting _ _ _ _ | .resettingState _ _ _ _ _ | .rescheduling _ _ => 0

/-- What calling a node brings about. -/
def NodeId.effort (node : NodeId) : Nat :=
  4 * ((callables.subflow node).members node).length + 8 * fanOut graph callables node + 8

/-- The work of the nodes that were not called. -/
def uncalled (log : List Event) : Nat :=
  ∑ node ∈ all, if passed .called node log = 0 then node.effort graph callables else 0

def Workload.effort (load : Workload) : Nat :=
  uncalled graph callables all load.shared.log + 3 * load.ready.card +
    (load.frames.map fun frame => frame.effort graph callables).sum

/-- What a run has left to do. -/
def RunState.effort {threads : Nat} (state : RunState threads) : Nat :=
  state.load.effort graph callables all +
    match state.preparing with
    | none => 0
    | some (roots, _) => roots.length + 1

variable {graph callables all} {need got : NodeId → Nat} {shared : Shared}
  {ready : Multiset NodeId} {rest : Multiset Frame}

theorem uncalled_congr {newer older : List Event}
    (same : ∀ node, passed .called node newer = passed .called node older) :
    uncalled graph callables all newer = uncalled graph callables all older :=
  Finset.sum_congr rfl fun node _ => by rw [same]

theorem uncalled_of_called {newer older : List Event} {node : NodeId} (member : node ∈ all)
    (before : passed .called node older = 0) (after : 0 < passed .called node newer)
    (others : ∀ other ≠ node, passed .called other newer = passed .called other older) :
    uncalled graph callables all newer + node.effort graph callables =
      uncalled graph callables all older := by
  rw [uncalled, uncalled, ← Finset.sum_erase_add _ _ member, ← Finset.sum_erase_add _ _ member,
    if_pos before, if_neg (Nat.ne_of_gt after), Nat.add_zero]
  refine congrArg (· + _) (Finset.sum_congr rfl fun other isOther => ?_)
  rw [others other (Finset.ne_of_mem_erase isOther)]

/-- Only listed nodes are in a run. -/
theorem Confined.mem_of_live (confined : Confined graph callables all) {log : List Event}
    (chronological : Chronological graph callables log)
    (grows : ∀ parent, .spliced parent ∈ log → Grows graph callables parent) :
    (∀ node ∈ live graph callables log, node ∈ all) ∧
      ∀ node, .executed node ∈ log → node ∈ all := by
  induction log with
  | nil => exact ⟨confined.order, by simp⟩
  | cons event older ih =>
      have growsBefore (parent : NodeId) (spliced : .spliced parent ∈ older) :=
        grows parent (List.mem_cons_of_mem _ spliced)
      cases event with
      | executed node =>
          have before := ih chronological.2 growsBefore
          refine ⟨before.1, fun other executed => ?_⟩
          rcases List.mem_cons.mp executed with equal | earlier
          · cases equal
            exact before.1 node chronological.1
          · exact before.2 other earlier
      | spliced parent =>
          have before := ih chronological.2 growsBefore
          refine ⟨fun node inRun => ?_, fun other executed => ?_⟩
          · rcases List.mem_append.mp inRun with isMember | isOld
            · exact confined.members parent (before.2 parent chronological.1)
                (grows parent (List.mem_cons_self ..)) node isMember
            · exact before.1 node isOld
          · exact before.2 other ((List.mem_cons.mp executed).resolve_left nofun)
      | _ =>
          have before := ih chronological growsBefore
          exact ⟨before.1, fun other executed =>
            before.2 other ((List.mem_cons.mp executed).resolve_left nofun)⟩

/-! ## Every access takes work away -/

/-- What one access leaves behind for the scheduler and its own thread. -/
def Effect.effort (graph : TaskGraph) (callables : Callables) (effect : Effect) : Nat :=
  3 * (effect.staged.toList.length + effect.queued.length) +
    (effect.frames.map fun frame => frame.effort graph callables).sum

theorem effort_unblockActive {node succ : NodeId} {branch : Option Int}
    {todo : List SuccessorEdge} {unblockedCount : Nat} :
    (unblockActive shared node branch succ todo unblockedCount).effort graph callables ≤
      8 * todo.length + 6 := by
  simp only [unblockActive, Effect.effort]
  split <;> simp

theorem effort_unblockSkipped {node succ : NodeId} {frames : List Frame} :
    (unblockSkipped shared node succ frames).effort graph callables ≤
      4 + (frames.map fun frame => frame.effort graph callables).sum := by
  simp only [unblockSkipped, Effect.effort]
  split <;> simp

theorem effort_handOver {inlineFree : Bool} {node succ : NodeId} {branch : Option Int}
    {todo : List SuccessorEdge} {unblockedCount : Nat} :
    (handOver shared inlineFree node branch succ todo unblockedCount).effort graph callables ≤
      8 * todo.length + 5 := by
  simp only [handOver, Effect.effort]
  split
  · simp
    omega
  · split <;> [split; skip] <;> simp <;> omega

theorem effort_cascade {node : NodeId} {todo : List SuccessorEdge} :
    ((cascade node todo).map fun frame => frame.effort graph callables).sum ≤
      8 * todo.length + 1 := by
  cases todo <;> simp [cascade]

theorem Ledger.fanOut_ge (ledger : Ledger graph callables need got ⟨shared, ready, rest⟩)
    {node : NodeId} (inRun : node ∈ live graph callables shared.log) :
    (shared.node node).successors.length ≤ fanOut graph callables node := by
  rw [(ledger.shape node inRun).2.2]
  split
  · exact Nat.zero_le _
  · exact Nat.le_refl _

/-- Only a call and the start of a cascade decide what happens to a node. -/
theorem passed_called_of_fire {inlineFree : Bool} {frame : Frame} {effect : Effect}
    (notCalling : ∀ node, frame ≠ .calling node) (notSkipping : ∀ node, frame ≠ .skipping node)
    (fired : frame.fire callables inlineFree shared = some effect) (node : NodeId) :
    passed .called node effect.shared.log = passed .called node shared.log := by
  obtain ⟨-, -, ⟨events, log, quiet⟩, -⟩ := Frame.fire_keeps notCalling fired
  have none : passed .called node events = 0 := by
    refine List.countP_eq_zero.mpr fun event member passes => ?_
    obtain ⟨noCall, skips⟩ := quiet event member
    cases event with
    | executed other => simp [Event.isCall] at noCall
    | skipped other => exact notSkipping other (skips other rfl)
    | _ => simp [Event.passes] at passes
  rw [log, passed_append, none, Nat.zero_add]

/-- An access leaves less to do. -/
theorem Ledger.effort_fire (sound : graph.Sound) {inlineFree : Bool} {frame : Frame}
    {effect : Effect}
    (ledger : Ledger graph callables need got ⟨shared, ready, frame ::ₘ rest⟩)
    (listed : ∀ node ∈ live graph callables shared.log, node ∈ all)
    (admitted : Admits callables shared frame)
    (fired : frame.fire callables inlineFree shared = some effect) :
    uncalled graph callables all effect.shared.log + effect.effort graph callables <
      uncalled graph callables all shared.log + frame.effort graph callables := by
  have forward := ledger.forward _ (Multiset.mem_cons_self _ _)
  have fresh (node : NodeId) (owed : 0 < (frame.owes .called).count node) :
      node ∈ all ∧ passed .called node shared.log = 0 := by
    refine ⟨listed node (ledger.mem_live_of_owes owed), ?_⟩
    by_contra past
    have := ledger.count_owes_eq_zero_of_passed (Nat.pos_of_ne_zero past)
    omega
  have fan (milestone : Milestone) (node : NodeId)
      (owed : 0 < (frame.owes milestone).count node) :
      (shared.node node).successors.length ≤ fanOut graph callables node :=
    ledger.fanOut_ge (ledger.mem_live_of_owes owed)
  by_cases decides : (∃ node, frame = .calling node) ∨ ∃ node, frame = .skipping node
  · rcases decides with ⟨node, rfl⟩ | ⟨node, rfl⟩
    · obtain ⟨member, before⟩ := fresh node (by simp)
      obtain ⟨sameLog, sameFrames, noStaged, noQueued⟩ :
          effect.shared.log = (executeFn callables shared node).1.log ∧
            effect.frames = (executeFn callables shared node).2 ∧
            effect.staged = none ∧ effect.queued = [] := by
        cases fired
        exact ⟨rfl, rfl, rfl, rfl⟩
      have spent : uncalled graph callables all effect.shared.log +
          node.effort graph callables = uncalled graph callables all shared.log := by
        rw [sameLog]
        refine uncalled_of_called member before ?_ fun other different => ?_
        · rcases admitted.call with ⟨-, log⟩ | ⟨-, log⟩ <;> simp [log, Event.passes]
        · rcases admitted.call with ⟨-, log⟩ | ⟨-, log⟩ <;>
            simp [log, Event.passes, Ne.symm different]
      rw [NodeId.effort] at spent
      simp only [Effect.effort, noStaged, noQueued, sameFrames, Frame.effort]
      rcases admitted.call with ⟨frames, -⟩ | ⟨⟨store, frames⟩, -⟩
      · simp [frames]
        omega
      · have fewRoots := length_spliceRoots_le store node (callables.subflow node)
        simp [frames]
        omega
    · obtain ⟨member, before⟩ := fresh node (by simp)
      cases fired
      have spent : uncalled graph callables all (.skipped node :: shared.log) +
          node.effort graph callables = uncalled graph callables all shared.log :=
        uncalled_of_called member before (by simp [Event.passes])
          (fun other different => by simp [Event.passes, Ne.symm different])
      rw [NodeId.effort] at spent
      simp [Effect.effort]
      omega
  rw [not_or] at decides
  push Not at decides
  rw [uncalled_congr (passed_called_of_fire decides.1 decides.2 fired)]
  refine Nat.add_lt_add_left ?_ _
  cases frame with
  | calling node => exact absurd rfl (decides.1 node)
  | skipping node => exact absurd rfl (decides.2 node)
  | executing | finishing | scheduling =>
      cases fired
      simp [Effect.effort]
  | dispatching node roots =>
      cases roots with
      | nil =>
          cases fired
          simp only [Effect.effort]
          split <;> simp
      | cons root roots =>
          cases fired
          simp [Effect.effort]
          omega
  | joining node =>
      simp only [Frame.fire] at fired
      split at fired <;> cases fired
      simp [Effect.effort]
  | completing node =>
      have inRun : node ∈ live graph callables shared.log :=
        ledger.mem_live_of_owes (show 0 < List.count node (Frame.owes .settled _) by simp)
      have size := fan .settled node (by simp)
      cases fired
      simp [Effect.effort, unblockSuccessors_of_forward (ledger.successors_forward sound inRun)]
      omega
  | unblocking node branch todo unblockedCount =>
      cases todo with
      | nil =>
          cases fired
          simp [Effect.effort]
      | cons edge todo =>
          simp only [Frame.Forward, Frame.todo, List.forall_mem_cons] at forward
          simp only [Frame.fire, forward.1] at fired
          split at fired
          · cases fired
            refine effort_unblockActive.trans_lt ?_
            rw [Frame.effort, List.length_cons]
            omega
          · cases fired
            refine effort_unblockSkipped.trans_lt ?_
            simp
            omega
  | handingOver node branch succ todo unblockedCount =>
      cases fired
      exact effort_handOver.trans_lt (Nat.lt_succ_self _)
  | skipped node =>
      cases fired
      have size := fan .released node (by simp)
      refine (Nat.add_le_add_left effort_cascade _).trans_lt ?_
      change 3 * (0 + 0) + (8 * (shared.node node).successors.length + 1) <
        8 * fanOut graph callables node + 2
      omega
  | cascading node todo =>
      cases todo with
      | nil => exact absurd rfl forward.1
      | cons edge todo =>
          cases fired
          refine effort_unblockSkipped.trans_lt ?_
          have cost : ((cascade node todo).map fun frame => frame.effort graph callables).sum ≤ _ :=
            effort_cascade
          rw [Frame.effort, List.length_cons]
          omega
  | resetting | resettingState | rescheduling => exact absurd forward id

variable {threads : Nat} {state next : RunState threads}

/-- Recording what the scheduler was told costs nothing. -/
theorem uncalled_note (log : List Event) {event : Event} (isNote : event.isNote = true) :
    uncalled graph callables all (event :: log) = uncalled graph callables all log :=
  uncalled_congr fun node => by
    cases event <;> simp_all [Event.isNote, Event.passes]

theorem effort_dispatchRoot (stepped : state.dispatchRoot = some next) :
    next.effort graph callables all < state.effort graph callables all := by
  simp only [RunState.dispatchRoot] at stepped
  split at stepped
  next => simp at stepped
  next rootWorkerCount preparing =>
    cases stepped
    have notified : uncalled graph callables all
        (.notified rootWorkerCount :: state.shared.log) = _ := uncalled_note state.shared.log rfl
    simp only [RunState.effort, Workload.effort, RunState.load, RunState.unscheduled, preparing]
    split
    · simp only [Shared.record_log, notified]
      exact Nat.lt_succ_self _
    · exact Nat.lt_succ_self _
  next root roots rootWorkerCount preparing =>
    cases stepped
    have scheduled : uncalled graph callables all
        (.scheduled root false :: state.shared.log) = _ := uncalled_note state.shared.log rfl
    have notified (count : Nat) : uncalled graph callables all
        (.notified count :: .scheduled root false :: state.shared.log) = _ :=
      (uncalled_note _ rfl).trans scheduled
    have sameLog (full : Prop) [Decidable full] (count : Nat) : uncalled graph callables all
        (if full then (state.shared.record (.scheduled root false)).record (.notified count)
          else state.shared.record (.scheduled root false)).log =
        uncalled graph callables all state.shared.log := by
      split
      · exact notified count
      · exact scheduled
    simp only [RunState.effort, Workload.effort, RunState.load, RunState.unscheduled, preparing,
      sameLog, Multiset.card_add, Multiset.coe_card, List.length_append, List.length_cons,
      List.length_nil]
    omega

/-- Taking a node to execute it costs one of the three it stood for. -/
theorem effort_take {node : NodeId} (sameShared : next.load.shared = state.load.shared)
    (taken : state.load.ready = node ::ₘ next.load.ready)
    (called : next.load.frames = .executing node ::ₘ state.load.frames)
    (samePreparing : next.preparing = state.preparing) :
    next.effort graph callables all < state.effort graph callables all := by
  simp only [RunState.effort, Workload.effort, sameShared, taken, called, samePreparing,
    Multiset.map_cons, Multiset.sum_cons, Multiset.card_cons, Frame.effort]
  omega

/-- Whatever carries a run on leaves less to do. -/
theorem effort_step (sound : graph.Sound) (confined : Confined graph callables all)
    (reachable : (graph.machine callables threads).ReachableBy
      (RunState.Proper graph callables) state) (running : 0 < state.runs)
    {action : RunAction threads} (carriesOn : action.carriesOn = true)
    (proper : state.Proper graph callables action)
    (stepped : state.step graph callables action = some next) :
    next.effort graph callables all < state.effort graph callables all := by
  cases action with
  | prepareRun => simp [RunAction.carriesOn] at carriesOn
  | setCanInline => simp [RunAction.carriesOn] at carriesOn
  | dispatchRoot => exact effort_dispatchRoot stepped
  | take index node =>
      obtain ⟨-, sameShared, taken, called⟩ := RunState.load_take stepped
      refine effort_take sameShared taken called ?_
      simp only [RunState.step] at stepped
      split at stepped <;> cases stepped
      rfl
  | takeInline index =>
      obtain ⟨node, -, sameShared, taken, called⟩ := RunState.load_takeInline stepped
      refine effort_take sameShared taken called ?_
      simp only [RunState.step] at stepped
      split at stepped
      · simp at stepped
      · split at stepped <;> cases stepped
        rfl
  | fire index =>
      obtain ⟨frame, stack, rest, effect, onTop, fired, frames, -, after⟩ :=
        RunState.load_fire stepped
      have samePreparing : next.preparing = state.preparing := by
        simp only [RunState.step, RunState.fire] at stepped
        split at stepped
        · simp at stepped
        · rw [Option.map_eq_some_iff] at stepped
          obtain ⟨-, -, rfl⟩ := stepped
          rfl
      rcases balanced_of_reachable sound reachable with ⟨noRun, -⟩ | ⟨-, need, got, ledger⟩
      · omega
      have calls := calls_of_reachable sound reachable running
      have listed := (confined.mem_of_live calls.chronological fun parent spliced =>
        ⟨(ledger.splices parent spliced).2, calls.nonempty parent spliced⟩).1
      have here : Ledger graph callables need got
          ⟨state.shared, state.load.ready, frame ::ₘ rest⟩ :=
        frames ▸ ledger
      have spent := here.effort_fire sound listed (proper frame stack onTop) fired
      simp only [Effect.effort] at spent
      simp only [RunState.effort, Workload.effort, after, frames, samePreparing, Multiset.card_add,
        Multiset.coe_card, Multiset.map_add, Multiset.sum_add, Multiset.map_coe, Multiset.sum_coe,
        Multiset.map_cons, Multiset.sum_cons]
      have sameLog : state.load.shared = state.shared := rfl
      rw [sameLog]
      omega

end Effort

end LightFlow
