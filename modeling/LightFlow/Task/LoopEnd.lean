import LightFlow.Task.LoopRun

/-!
# The end of a run with loops

What `m_pendingTasks` counts when nodes come round again, why a run is never stuck before
its end, and why it comes to the end once no loop-back edge is taken any more.
-/

namespace LightFlow

variable {graph : TaskGraph} {callables : Callables} {allowed : NodeId → NodeId → Prop}
  {tally : Tally} {threads : Nat}

/-! ## What is pending -/

/-- Answers that go back to a loop of the node and have not been acted on. -/
noncomputable def RunState.reviving (graph : TaskGraph) (state : RunState threads)
    (node : NodeId) : Nat :=
  (state.load.frames.map fun frame => frame.revives graph state.shared.node node).sum

/-- Activations of a node in this run: the first one, and one for every time a loop that it
is in was made pending again. -/
noncomputable def RunState.activations (graph : TaskGraph) (callables : Callables)
    (state : RunState threads) (node : NodeId) : Nat :=
  1 + (graph.revivals callables state.shared node - state.reviving graph node)

/-- Activations that have not finished. -/
noncomputable def RunState.outstanding (graph : TaskGraph) (callables : Callables)
    (state : RunState threads) : Nat :=
  (graph.order.map fun node =>
    state.activations graph callables node - state.shared.log.count (.finished node)).sum

namespace Looping

variable {state : RunState threads}

theorem activations_eq (looping : Looping graph callables allowed tally state.load)
    (node : NodeId) : state.activations graph callables node = 1 + tally.rounds node := by
  have revived := looping.revived node
  have same : state.load.shared = state.shared := rfl
  rw [same] at revived
  rw [RunState.activations, RunState.reviving]
  omega

/-- Only nodes of the graph come round. -/
theorem mem_of_rounds {load : Workload} (looping : Looping graph callables allowed tally load)
    (looped : graph.Looped) {node : NodeId} (some : 0 < tally.rounds node) :
    node ∈ graph.order := by
  classical
  have revived := looping.revived node
  have positive : 0 < graph.revivals callables load.shared node := by omega
  rw [TaskGraph.revivals, Counting.sum_map_pos] at positive
  obtain ⟨source, -, returns⟩ := positive
  rw [TaskGraph.returns, List.countP_pos_iff] at returns
  obtain ⟨back, -, goesBack⟩ := returns
  rw [decide_eq_true_eq] at goesBack
  obtain ⟨target, loops, path, -⟩ := goesBack
  have targetInOrder : target ∈ graph.order := by
    obtain ⟨-, edge, member, -, -, rfl⟩ := exists_loopBack loops
    exact looped.targets source edge member
  obtain same | ⟨previous, -, edge, member, -, rfl⟩ := Relation.ReflTransGen.cases_tail path
  · exact same ▸ targetInOrder
  · exact looped.targets previous edge member

theorem late_mem {load : Workload} (looping : Looping graph callables allowed tally load)
    (looped : graph.Looped) {node : NodeId} (late : 0 < load.amount (.late node)) :
    node ∈ graph.order := by
  have finished := looping.account.finished node
  have passage := looping.account.passage node
  rw [(looping.own node).1] at finished
  rcases Nat.eq_zero_or_pos (tally.rounds node) with none | some
  · exact List.count_pos_iff.mp (by omega)
  · exact looping.mem_of_rounds looped some

/-- Late calls, counted by their nodes or all together. -/
theorem sum_late {load : Workload} (looping : Looping graph callables allowed tally load)
    (looped : graph.Looped) :
    (graph.order.map fun node => load.amount (.late node)).sum = load.amount .unfinished := by
  have member : ∀ frame ∈ load.frames, ∀ node ∈ frame.late, node ∈ graph.order := by
    intro frame inFrames node isLate
    obtain ⟨others, split⟩ := Multiset.exists_cons_of_mem inFrames
    refine looping.late_mem looped (?_ : 0 < load.amount (.late node))
    have some := List.count_pos_iff.mpr isLate
    simp only [Workload.amount, split, Multiset.map_cons, Multiset.sum_cons, Quantity.ofFrame]
    omega
  have readyNone : (load.ready.map fun _ => 0).sum = 0 := by simp
  simp only [Workload.amount, Quantity.ofReady, Quantity.ofFrame, readyNone, Nat.zero_add]
  generalize load.frames = frames at member ⊢
  induction frames using Multiset.induction_on with
  | empty => simp
  | cons frame frames ih =>
      have rest := ih fun other isOther => member other (Multiset.mem_cons_of_mem isOther)
      have own : (graph.order.map fun node => frame.late.count node).sum = frame.late.length :=
        Counting.sum_count looped.distinct (member frame (Multiset.mem_cons_self _ _))
      simp only [Multiset.map_cons, Multiset.sum_cons, List.sum_map_add, own, rest]

theorem outstanding_eq (looping : Looping graph callables allowed tally state.load)
    (looped : graph.Looped) : state.outstanding graph callables =
      (graph.order.map tally.isOpen).sum + state.load.amount .unfinished := by
  rw [← looping.sum_late looped, ← List.sum_map_add]
  refine Counting.sum_map_congr fun node member => ?_
  have finished := looping.account.finished node
  have passage := looping.account.passage node
  have single := List.count_eq_one_of_mem looped.distinct member
  have noDrop := (looping.own node).1
  have same : state.load.shared = state.shared := rfl
  rw [count_finished, noDrop, same] at finished
  rw [looping.activations_eq, Tally.isOpen, noDrop]
  split <;> omega

/-- `m_pendingTasks` counts the activations that have not finished. -/
theorem pending_eq (looping : Looping graph callables allowed tally state.load)
    (looped : graph.Looped) :
    state.shared.m_pendingTasks = u32 (state.outstanding graph callables) := by
  rw [looping.outstanding_eq looped]
  exact looping.account.pending

end Looping

/-! ## One late call a thread -/

/-- Calls that `decrementSkipped` makes. -/
def Frame.inCascade : Frame → Bool
  | .skipping _ | .skipped _ | .cascading _ _ | .scheduling _ => true
  | _ => false

/-- Above the first call of a stack there are skip cascades only. -/
def Cascaded (stack : List Frame) : Prop :=
  ∀ frame ∈ stack.dropLast, frame.inCascade = true

theorem late_of_cascaded {stack : List Frame} (cascaded : Cascaded stack) :
    (stack.map fun frame => frame.late.length).sum ≤ 1 := by
  have single (frame : Frame) : frame.late.length ≤ 1 := by
    cases frame <;> simp
  rcases List.eq_nil_or_concat' stack with rfl | ⟨cascades, first, rfl⟩
  · simp
  · rw [Cascaded, List.dropLast_concat] at cascaded
    have none : (cascades.map fun frame => frame.late.length).sum = 0 :=
      Counting.sum_map_eq_zero fun frame member => by
        have inCascade := cascaded frame member
        cases frame <;> simp_all [Frame.inCascade]
    rw [List.map_append, List.sum_append, none]
    simpa using single first

/-- A step of a cascade leaves cascades, any other call leaves one call below them. -/
theorem Frame.fire_cascaded {inlineFree : Bool} {shared : Shared} {frame : Frame} {effect : Effect}
    (fired : frame.fire callables inlineFree shared = some effect) :
    Cascaded effect.frames ∧
      (frame.inCascade = true → ∀ after ∈ effect.frames, after.inCascade = true) := by
  cases frame with
  | calling node =>
      have called : effect = { shared := (executeFn callables shared node).1
                               frames := (executeFn callables shared node).2 } := by
        cases fired
        rfl
      subst called
      refine ⟨?_, by simp [Frame.inCascade]⟩
      rcases executeFn_frames callables shared node with frames | ⟨roots, frames⟩ <;>
        simp [frames, Cascaded]
  | dispatching node roots => cases roots <;> cases fired <;> simp [Cascaded, Frame.inCascade]
  | joining node =>
      simp only [Frame.fire] at fired
      split at fired <;> cases fired
      simp [Cascaded, Frame.inCascade]
  | unblocking node branch todo unblockedCount =>
      refine ⟨?_, by simp [Frame.inCascade]⟩
      cases todo with
      | nil => cases fired; simp [Cascaded]
      | cons edge todo =>
          simp only [Frame.fire] at fired
          split at fired <;> [skip; split at fired] <;> cases fired
          · simp [Cascaded, unblockActive]
          · simp [Cascaded]
          · simp only [Cascaded, unblockSkipped]
            split <;> simp [Frame.inCascade]
  | handingOver node branch succ todo unblockedCount =>
      refine ⟨?_, by simp [Frame.inCascade]⟩
      cases fired
      simp only [handOver]
      split <;> [skip; split <;> [split; skip]] <;> simp [Cascaded]
  | skipped node =>
      cases fired
      cases successors : (shared.node node).successors <;>
        simp [cascade, Cascaded, Frame.inCascade]
  | cascading node todo =>
      cases todo with
      | nil => cases fired; simp [Cascaded]
      | cons edge todo =>
          cases fired
          simp only [Cascaded, unblockSkipped]
          split <;> cases todo <;> simp [cascade, Frame.inCascade]
  | resetting node target todo cycleCount =>
      refine ⟨?_, by simp [Frame.inCascade]⟩
      cases todo with
      | nil => cases fired; simp [Cascaded]
      | cons curr todo =>
          simp only [Frame.fire] at fired
          split at fired <;> cases fired <;> simp [Cascaded]
  | _ => cases fired; simp [Cascaded, Frame.inCascade]

/-- Without joins every stack has one call that is not part of a cascade. -/
theorem cascaded_of_step {state next : RunState threads} {action : RunAction threads}
    (noJoin : ∀ index node, .joining node ∉ (state.thread index).stack)
    (cascaded : ∀ index, Cascaded (state.thread index).stack)
    (stepped : state.step graph callables action = some next) (index : Fin threads) :
    Cascaded (next.thread index).stack := by
  -- Only the stack of the thread that moves changes.
  have moved {mover : Fin threads} {thread : Thread} (fits : Cascaded thread.stack) :
      Cascaded (Function.update state.thread mover thread index).stack := by
    by_cases isMover : index = mover
    · subst isMover
      rwa [Function.update_self]
    · rw [Function.update_of_ne isMover]
      exact cascaded index
  have lookingIdle {mover : Fin threads} (looking : (state.thread mover).looking = true) :
      (state.thread mover).stack = [] := by
    simp only [Thread.looking] at looking
    split at looking
    next idle => exact idle
    next node stack joining => exact absurd (joining ▸ List.mem_cons_self ..) (noJoin mover node)
    next => simp at looking
  cases action with
  | prepareRun =>
      simp only [RunState.step] at stepped
      split at stepped <;> cases stepped
      exact cascaded index
  | dispatchRoot =>
      simp only [RunState.step, RunState.dispatchRoot] at stepped
      split at stepped <;> cases stepped <;> exact cascaded index
  | setCanInline mover canInline =>
      cases stepped
      exact moved (cascaded mover)
  | take mover node =>
      simp only [RunState.step] at stepped
      split at stepped <;> cases stepped
      next enabled =>
        refine moved ?_
        rw [lookingIdle enabled.1]
        simp [Cascaded]
  | takeInline mover =>
      simp only [RunState.step] at stepped
      split at stepped
      · simp at stepped
      · split at stepped <;> cases stepped
        next looking =>
          refine moved ?_
          rw [lookingIdle looking]
          simp [Cascaded]
  | fire mover =>
      simp only [RunState.step, RunState.fire] at stepped
      split at stepped
      · simp at stepped
      next frame stack onTop =>
        rw [Option.map_eq_some_iff] at stepped
        obtain ⟨effect, fired, rfl⟩ := stepped
        obtain ⟨fits, cascades⟩ := Frame.fire_cascaded fired
        have before := cascaded mover
        rw [onTop] at before
        refine moved ?_
        cases stack with
        | nil => simpa using fits
        | cons below stack =>
            rw [Cascaded, List.dropLast_cons_cons] at before
            rw [Cascaded, List.dropLast_append_of_ne_nil (List.cons_ne_nil _ _)]
            intro after member
            rcases List.mem_append.mp member with isNew | isOld
            · exact cascades (before frame (List.mem_cons_self ..)) after isNew
            · exact before after (List.mem_cons_of_mem _ isOld)

/-- Before the first run there are no calls, and later none that joins. -/
theorem Opened.noJoin {keeps : Tally → Multiset Frame → Prop} {state : RunState threads}
    (opened : Opened graph callables allowed keeps state) (index : Fin threads) (node : NodeId) :
    .joining node ∉ (state.thread index).stack := by
  intro member
  have inFrames := RunState.mem_frames.mpr ⟨index, member⟩
  rcases opened with ⟨-, -, -, frames⟩ | ⟨-, tally, looping, -⟩
  · exact Multiset.notMem_zero _ (frames ▸ inFrames)
  · exact looping.account.walks _ inFrames

theorem cascaded_of_reachable {keeps : Tally → Multiset Frame → Prop} (looped : graph.Looped)
    (rearmed : graph.Rearmed allowed) (rule : Tally.Rule graph callables allowed keeps)
    {state : RunState threads} (reachable : (graph.machine callables threads).ReachableBy
      (RunState.Guarded allowed) state) (index : Fin threads) :
    Cascaded (state.thread index).stack := by
  refine reachable.invariant_of_reachable
    (motive := fun state => ∀ index, Cascaded (state.thread index).stack) ?_ ?_ index
  · rintro state rfl index
    simp [TaskGraph.initialState, Cascaded]
  · intro state action next before cascaded _ stepped
    exact cascaded_of_step (looping_of_reachable looped rearmed rule before).noJoin cascaded stepped

/-- How often the node was executed or skipped in this run. -/
def RunState.resolved (state : RunState threads) (node : NodeId) : Nat :=
  state.shared.log.count (.executed node) + state.shared.log.count (.skipped node)

namespace Looping

variable {state : RunState threads}

/-- A node is called once, and once more for every time it was made pending again. -/
theorem resolved_le (looping : Looping graph callables allowed tally state.load)
    (looped : graph.Looped) (node : NodeId) :
    state.resolved node + state.load.amount (.uncalled node) ≤
      1 + graph.revivals callables state.shared node := by
  have called := looping.account.called node
  have revived := looping.revived node
  have single := List.nodup_iff_count_le_one.mp looped.distinct node
  have same : state.load.shared = state.shared := rfl
  rw [passed_called, same] at called
  rw [same] at revived
  rw [RunState.resolved]
  omega

/-- Frames that revive a node carry their own. -/
theorem revives_eq_zero {load : Workload} (none : ∀ node, load.amount (.carried node) = 0)
    (node : NodeId) :
    (load.frames.map fun frame => frame.revives graph load.shared.node node).sum = 0 := by
  refine Multiset.sum_eq_zero fun value member => ?_
  obtain ⟨frame, inFrames, rfl⟩ := Multiset.mem_map.mp member
  obtain ⟨others, split⟩ := Multiset.exists_cons_of_mem inFrames
  have uncarried (source : NodeId) : frame.carries.count source = 0 := by
    have law := none source
    simp only [Workload.amount, split, Multiset.map_cons, Multiset.sum_cons,
      Quantity.ofFrame] at law
    omega
  cases frame with
  | completing source | resetting source | resettingState source =>
      have law := uncarried source
      simp at law
  | _ => rfl

/-- When no activation is outstanding every node was called as often as it was pending. -/
theorem resolved_of_done (looping : Looping graph callables allowed tally state.load)
    (looped : graph.Looped) (done : state.outstanding graph callables = 0) {node : NodeId}
    (member : node ∈ graph.order) :
    state.resolved node = 1 + graph.revivals callables state.shared node := by
  rw [looping.outstanding_eq looped, Nat.add_eq_zero_iff] at done
  have closed (node : NodeId) : waiting (tally.need node) = 0 ∧
      state.load.amount (.carried node) = 0 := by
    have passage := looping.account.passage node
    by_cases inOrder : node ∈ graph.order
    · have isOpen := (List.sum_eq_zero_iff.mp done.1) _ (List.mem_map_of_mem inOrder)
      have single := List.count_eq_one_of_mem looped.distinct inOrder
      simp only [Tally.isOpen, (looping.own node).1] at isOpen
      split at isOpen
      · simp at isOpen
      · omega
    · rw [List.count_eq_zero_of_not_mem inOrder] at passage
      omega
  have called := looping.account.called node
  have revived := looping.revived node
  rw [revives_eq_zero (fun node => (closed node).2), Nat.add_zero] at revived
  have uncalled : state.load.amount (.uncalled node) ≤ state.load.amount (.carried node) :=
    state.load.uncalled_le_carried node
  have same : state.load.shared = state.shared := rfl
  rw [passed_called, same, List.count_eq_one_of_mem looped.distinct member,
    (closed node).1] at called
  rw [(closed node).2] at uncalled
  rw [same] at revived
  rw [RunState.resolved]
  omega

/-- There are no more late calls than threads. -/
theorem outstanding_le (looping : Looping graph callables allowed tally state.load)
    (looped : graph.Looped) (cascaded : ∀ index, Cascaded (state.thread index).stack) :
    state.outstanding graph callables ≤ graph.order.length + threads := by
  have atMost : (graph.order.map tally.isOpen).sum ≤ graph.order.length := tally.sum_isOpen_le _
  have unfinished : state.load.amount .unfinished ≤ threads := by
    have calls : state.load.amount .unfinished =
        ∑ index, ((state.thread index).stack.map fun frame => frame.late.length).sum := by
      have spread := Counting.sum_map_lists (fun frame : Frame => frame.late.length)
        fun index => (state.thread index).stack
      have readyNone : (state.load.ready.map fun _ => 0).sum = 0 := by simp
      simp only [Workload.amount, Quantity.ofReady, Quantity.ofFrame, readyNone, Nat.zero_add]
      exact spread
    rw [calls]
    refine (Finset.sum_le_card_nsmul _ _ 1
      fun index _ => late_of_cascaded (cascaded index)).trans ?_
    simp
  rw [looping.outstanding_eq looped]
  omega

/-! ## Not stuck -/

/-- While activations are outstanding something is left to do: of the nodes that wait, one
that comes first could only wait for an edge somebody is about to decrement. -/
theorem exists_work {load : Workload} (looping : Looping graph callables allowed tally load)
    (looped : graph.Looped) (noExtra : ∀ node, tally.extra node = 0)
    (unfinished : 0 < load.shared.m_pendingTasks) : load.ready ≠ 0 ∨ load.frames ≠ 0 := by
  by_contra nothing
  push Not at nothing
  obtain ⟨noReady, noFrames⟩ := nothing
  have amount (quantity : Quantity) : load.amount quantity = 0 := by
    simp [Workload.amount, noReady, noFrames]
  have waits {node : NodeId} (member : node ∈ graph.order) (isOpen : tally.isOpen node ≠ 0) :
      0 < tally.need node := by
    have passage := looping.account.passage node
    rw [amount, List.count_eq_one_of_mem looped.distinct member] at passage
    by_contra none
    simp only [Tally.isOpen] at isOpen
    simp only [show tally.need node = 0 by omega, waiting_zero] at passage
    split at isOpen <;> omega
  let waiters := graph.order.toFinset.filter fun node => tally.isOpen node ≠ 0
  have nonempty : waiters.Nonempty := by
    have pending := looping.account.pending
    rw [amount, Nat.add_zero] at pending
    have positive : 0 < (graph.order.map tally.isOpen).sum := by
      by_contra none
      rw [show (graph.order.map tally.isOpen).sum = 0 by omega] at pending
      simp [u32] at pending
      omega
    obtain ⟨node, member, isOpen⟩ := Counting.sum_map_pos.mp positive
    exact ⟨node, Finset.mem_filter.mpr ⟨List.mem_toFinset.mpr member, isOpen.ne'⟩⟩
  obtain ⟨first, isWaiter, noneBefore⟩ := looped.acyclic.exists_source nonempty
  obtain ⟨inOrder, isOpen⟩ := Finset.mem_filter.mp isWaiter
  have needs := waits (List.mem_toFinset.mp inOrder) isOpen
  rw [looping.account.edges, amount, noExtra, Nat.add_zero, Counting.sum_map_pos] at needs
  obtain ⟨source, member, positive⟩ := needs
  have parts := Nat.pos_iff_ne_zero.mp positive
  rw [Nat.mul_ne_zero_iff] at parts
  exact noneBefore source (Finset.mem_filter.mpr ⟨List.mem_toFinset.mpr member, parts.1⟩)
    (TaskGraph.forwardInto_pos.mp (Nat.pos_of_ne_zero parts.2))

/-- Before its end a run can be carried on. -/
theorem carries_on (looping : Looping graph callables allowed tally state.load)
    (looped : graph.Looped) (noExtra : ∀ node, tally.extra node = 0) (someThread : 0 < threads) :
    state.Ended ∨
      ∃ action next, action.carriesOn = true ∧ state.step graph callables action = some next := by
  by_cases preparing : state.preparing = none
  · by_cases done : state.shared.m_pendingTasks = 0
    · exact .inl ⟨preparing, done⟩
    · refine .inr (RunState.exists_step someThread (fun index node member => ?_) ?_)
      · exact looping.account.walks _ (RunState.mem_frames.mpr ⟨index, member⟩)
      · exact RunState.holds_iff.mpr
          (looping.exists_work looped noExtra (Nat.pos_of_ne_zero done))
  · obtain ⟨next, stepped⟩ : ∃ next, state.step graph callables .dispatchRoot = some next :=
      RunState.dispatchRoot_of_preparing preparing
    exact .inr ⟨.dispatchRoot, next, rfl, stepped⟩

end Looping

/-! ## Coming to the end -/

/-- The step takes a loop-back edge. -/
def RunState.TakesBack (state : RunState threads) : RunAction threads → Prop
  | .fire index => ∃ frame stack, (state.thread index).stack = frame :: stack ∧
      frame.Jumps state.shared.node
  | _ => False

/-- What a run has left to do before a loop-back edge is taken. -/
def RunState.work (graph : TaskGraph) (tally : Tally) (state : RunState threads) : Nat :=
  state.load.work graph tally +
    match state.preparing with
    | none => 0
    | some (roots, _) => roots.length + 1

section Ends

variable {keeps : Tally → Multiset Frame → Prop} {state next : RunState threads}

/-- Scheduling a root is noted, and shortens the list of roots. -/
theorem Looping.dispatchRoot (looping : Looping graph callables allowed tally state.load)
    (stepped : state.dispatchRoot = some next) :
    Looping graph callables allowed tally next.load ∧ next.load.frames = state.load.frames ∧
      next.work graph tally < state.work graph tally := by
  simp only [RunState.dispatchRoot] at stepped
  split at stepped
  next => simp at stepped
  next rootWorkerCount preparing =>
    cases stepped
    refine ⟨?_, rfl, ?_⟩
    · simp only [RunState.load, RunState.unscheduled, preparing] at looping ⊢
      split
      · exact looping.note rfl
      · exact looping
    · simp only [RunState.work, Workload.work, RunState.load, RunState.unscheduled, preparing]
      exact Nat.lt_succ_self _
  next root roots rootWorkerCount preparing =>
    cases stepped
    have sameReady : (↑state.queued + ↑(root :: roots) : Multiset NodeId) =
        ↑(state.queued ++ [root]) + ↑roots := by
      simp
    refine ⟨?_, rfl, ?_⟩
    · have scheduled := looping.note (show (Event.scheduled root false).isNote = true from rfl)
      simp only [RunState.load, RunState.unscheduled, preparing, sameReady] at scheduled ⊢
      split_ifs <;> first
        | exact scheduled
        | exact scheduled.note rfl
    · simp only [RunState.work, Workload.work, RunState.load, RunState.unscheduled, preparing,
        sameReady, List.length_cons]
      exact Nat.add_lt_add_left (Nat.lt_succ_self _) _

theorem work_take {node : NodeId} (taken : state.load.ready = node ::ₘ next.load.ready)
    (called : next.load.frames = .executing node ::ₘ state.load.frames)
    (samePreparing : next.preparing = state.preparing) (tally : Tally) :
    next.work graph tally < state.work graph tally := by
  simp only [RunState.work, Workload.work, taken, called, samePreparing, Multiset.map_cons,
    Multiset.sum_cons, Frame.work, TaskGraph.readyWork]
  omega

theorem Looping.take {node : NodeId}
    (looping : Looping graph callables allowed tally state.load)
    (sameShared : next.load.shared = state.load.shared)
    (taken : state.load.ready = node ::ₘ next.load.ready)
    (called : next.load.frames = .executing node ::ₘ state.load.frames) :
    Looping graph callables allowed tally next.load := by
  generalize state.load = load at *
  generalize next.load = after at *
  obtain ⟨shared, ready, frames⟩ := load
  obtain ⟨shared', ready', frames'⟩ := after
  dsimp only at sameShared taken called
  subst sameShared taken called
  exact looping.start

/-- A step that prepares no run and takes no loop-back edge carries the run on, or leaves
everything as it was. -/
theorem Looping.advance (looping : Looping graph callables allowed tally state.load)
    (kept : keeps tally state.load.frames) (looped : graph.Looped)
    (rearmed : graph.Rearmed allowed) (rule : Tally.Rule graph callables allowed keeps)
    {action : RunAction threads} (guarded : state.Guarded allowed action)
    (noBack : ¬ state.TakesBack action) (sameRun : action ≠ .prepareRun)
    (stepped : state.step graph callables action = some next) :
    ∃ after, Looping graph callables allowed after next.load ∧ keeps after next.load.frames ∧
      next.work graph after + (if action.carriesOn then 1 else 0) ≤ state.work graph tally := by
  cases action with
  | prepareRun => exact absurd rfl sameRun
  | setCanInline index canInline =>
      simp only [RunState.step, Option.some.injEq] at stepped
      subst stepped
      have same := RunState.load_setCanInline state index canInline
      refine ⟨tally, same ▸ looping, same ▸ kept, ?_⟩
      rw [RunState.work, same]
      exact le_rfl
  | dispatchRoot =>
      obtain ⟨goesOn, frames, less⟩ := looping.dispatchRoot stepped
      exact ⟨tally, goesOn, frames ▸ kept, less⟩
  | take index node =>
      obtain ⟨-, sameShared, taken, called⟩ := RunState.load_take stepped
      have samePreparing : next.preparing = state.preparing := by
        simp only [RunState.step] at stepped
        split at stepped <;> cases stepped
        rfl
      exact ⟨tally, looping.take sameShared taken called, called ▸ rule.start kept,
        work_take taken called samePreparing tally⟩
  | takeInline index =>
      obtain ⟨node, -, sameShared, taken, called⟩ := RunState.load_takeInline stepped
      have samePreparing : next.preparing = state.preparing := by
        simp only [RunState.step] at stepped
        split at stepped
        · simp at stepped
        · split at stepped <;> cases stepped
          rfl
      exact ⟨tally, looping.take sameShared taken called, called ▸ rule.start kept,
        work_take taken called samePreparing tally⟩
  | fire index =>
      obtain ⟨frame, stack, rest, effect, onTop, fired, frames, -, after⟩ :=
        RunState.load_fire stepped
      have samePreparing : next.preparing = state.preparing := by
        simp only [RunState.step, RunState.fire] at stepped
        split at stepped
        · simp at stepped
        · rw [Option.map_eq_some_iff] at stepped
          obtain ⟨-, -, rfl⟩ := stepped
          rfl
      have here : Looping graph callables allowed tally
          ⟨state.shared, state.load.ready, frame ::ₘ rest⟩ := frames ▸ looping
      obtain ⟨later, laps, goesOn, less⟩ :=
        here.fire looped rearmed (guarded.onTop onTop) fired
      have spent := less fun jumps => noBack ⟨frame, stack, onTop, jumps⟩
      refine ⟨later, after ▸ goesOn, after ▸ rule.fire here (frames ▸ kept) laps fired, ?_⟩
      rw [RunState.work, RunState.work, after, samePreparing]
      have split : state.load = ⟨state.shared, state.load.ready, frame ::ₘ rest⟩ := by
        rw [← frames]
        rfl
      rw [← split] at spent
      simp only [RunAction.carriesOn, ↓reduceIte]
      exact Nat.add_lt_add_right spent _

open Classical in
/-- Runs that take no loop-back edge come to their end. -/
theorem Looping.actions_le_work {actions : List (RunAction threads)} {final : RunState threads}
    (looping : Looping graph callables allowed tally state.load)
    (kept : keeps tally state.load.frames) (looped : graph.Looped)
    (rearmed : graph.Rearmed allowed) (rule : Tally.Rule graph callables allowed keeps)
    (sameRun : .prepareRun ∉ actions)
    (performed : (graph.machine callables threads).run
      (fun state action => state.Guarded allowed action ∧ ¬ state.TakesBack action) state actions =
        some final) :
    actions.countP (·.carriesOn) ≤ state.work graph tally := by
  induction actions generalizing state tally with
  | nil => exact Nat.zero_le _
  | cons action actions ih =>
      simp only [Machine.run] at performed
      split at performed
      next permitted =>
        obtain ⟨next, stepped, rest⟩ := Option.bind_eq_some_iff.mp performed
        obtain ⟨after, goesOn, keptOn, less⟩ := looping.advance kept looped rearmed rule permitted.1
          permitted.2 (fun isPrepare => sameRun (isPrepare ▸ List.mem_cons_self ..)) stepped
        have later := ih goesOn keptOn (fun member => sameRun (List.mem_cons_of_mem _ member)) rest
        rw [List.countP_cons]
        omega
      next => simp at performed

end Ends

end LightFlow
