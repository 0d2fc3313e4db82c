import LightFlow.Task.Repeat

/-!
# Runs with joined subflows do not get stuck

A thread that waits in `join` helps with other nodes, so calls pile up on its stack.  The
latest of all waiting calls is on top of its stack, and everything inside its subflow was
called later still: while its exit is not called, somebody can carry on.
-/

namespace LightFlow

/-- Position of the call of a node in the history, counted from the oldest event. -/
def callTime : List Event → NodeId → Nat
  | [], _ => 0
  | event :: older, node => if event = .executed node then older.length else callTime older node

theorem callTime_lt {log : List Event} {node : NodeId} (executed : .executed node ∈ log) :
    callTime log node < log.length := by
  induction log with
  | nil => simp at executed
  | cons event older ih =>
      simp only [callTime, List.length_cons]
      split
      · omega
      next different =>
        have earlier := (List.mem_cons.mp executed).resolve_left (Ne.symm different)
        exact (ih earlier).trans (Nat.lt_succ_self _)

theorem callTime_append {events log : List Event} {node : NodeId}
    (notHere : .executed node ∉ events) : callTime (events ++ log) node = callTime log node := by
  induction events with
  | nil => rfl
  | cons event events ih =>
      rw [List.mem_cons, not_or] at notHere
      rw [List.cons_append, callTime, if_neg (Ne.symm notHere.1), ih notHere.2]

section Progress

variable {graph : TaskGraph} {callables : Callables} {need got : NodeId → Nat}

/-! ## Inner nodes are called later -/

theorem Chronological.executed_of_spliced {log : List Event} {node : NodeId}
    (chronological : Chronological graph callables log) (spliced : .spliced node ∈ log) :
    .executed node ∈ log := by
  induction log with
  | nil => simp at spliced
  | cons event older ih =>
      rw [List.mem_cons] at spliced ⊢
      cases event with
      | executed other => exact .inr (ih chronological.2 (spliced.resolve_left nofun))
      | spliced other =>
          rcases spliced with equal | earlier
          · cases equal
            exact .inr chronological.1
          · exact .inr (ih chronological.2 earlier)
      | _ => exact .inr (ih chronological (spliced.resolve_left nofun))

/-- A child or exit is called after its subflow node. -/
theorem Chronological.made_after (sound : graph.Sound) {log : List Event} {parent node : NodeId}
    (chronological : Chronological graph callables log)
    (once : ∀ node, log.count (.executed node) ≤ 1)
    (made : (∃ index, node = .child parent index) ∨ node = .exit parent)
    (executed : .executed node ∈ log) :
    .executed parent ∈ log ∧ callTime log parent < callTime log node := by
  induction log with
  | nil => simp at executed
  | cons event older ih =>
      have onceBefore (other : NodeId) : older.count (.executed other) ≤ 1 := by
        have := once other
        rw [List.count_cons] at this
        omega
      have chronologicalBefore : Chronological graph callables older := by
        cases event with
        | executed | spliced => exact chronological.2
        | _ => exact chronological
      have newest {other : NodeId} (inOlder : .executed other ∈ older) :
          event ≠ .executed other := by
        rintro rfl
        have := once other
        rw [List.count_cons_self] at this
        have := List.count_pos_iff.mpr inOlder
        omega
      have below : .executed parent ∈ older ∧
          callTime older parent < callTime (event :: older) node := by
        rcases List.mem_cons.mp executed with rfl | earlier
        · have spliced := (spliced_of_mem_live sound chronological.1 made).1
          have parentExecuted := chronologicalBefore.executed_of_spliced spliced
          refine ⟨parentExecuted, ?_⟩
          simpa [callTime] using callTime_lt parentExecuted
        · rw [callTime, if_neg (newest earlier)]
          exact ih chronologicalBefore onceBefore earlier
      refine ⟨List.mem_cons_of_mem _ below.1, ?_⟩
      rw [callTime, if_neg (newest below.1)]
      exact below.2

theorem Chronological.under_after (sound : graph.Sound) {log : List Event} {parent node : NodeId}
    (chronological : Chronological graph callables log)
    (once : ∀ node, log.count (.executed node) ≤ 1) (under : parent.Under node)
    (executed : .executed node ∈ log) :
    .executed parent ∈ log ∧ callTime log parent < callTime log node := by
  induction under with
  | child index => exact chronological.made_after sound once (.inl ⟨index, rfl⟩) executed
  | exit => exact chronological.made_after sound once (.inr rfl) executed
  | childOf index _ ih =>
      have inner := chronological.made_after sound once (.inl ⟨index, rfl⟩) executed
      have outer := ih inner.1
      exact ⟨outer.1, outer.2.trans inner.2⟩
  | exitOf _ ih =>
      have inner := chronological.made_after sound once (.inr rfl) executed
      have outer := ih inner.1
      exact ⟨outer.1, outer.2.trans inner.2⟩

/-! ## Stacks -/

/-- The frame is in the call of a node that a looking thread took. -/
def Frame.isCall : Frame → Bool
  | .executing _ | .calling _ | .dispatching _ _ | .joining _ | .completing _ => true
  | _ => false

/-- Below a call there are only joins that wait, of nodes that were called earlier. -/
def Stacked (log : List Event) : List Frame → Prop
  | [] => True
  | frame :: below =>
      (frame.isCall = true → ∀ waiting ∈ below, ∃ node, waiting = .joining node ∧
        .executed node ∈ log ∧
          (.executed frame.node ∈ log → callTime log node < callTime log frame.node)) ∧
      Stacked log below

theorem Stacked.grow {log newer : List Event} {stack : List Frame}
    (keeps : ∀ node, .executed node ∈ log →
      .executed node ∈ newer ∧ callTime newer node = callTime log node)
    (later : ∀ node, .executed node ∈ newer →
      .executed node ∈ log ∨ log.length ≤ callTime newer node)
    (stacked : Stacked log stack) : Stacked newer stack := by
  induction stack with
  | nil => trivial
  | cons frame below ih =>
      refine ⟨fun isCall waiting member => ?_, ih stacked.2⟩
      obtain ⟨node, isJoin, executed, earlier⟩ := stacked.1 isCall waiting member
      obtain ⟨stillExecuted, sameTime⟩ := keeps node executed
      refine ⟨node, isJoin, stillExecuted, fun nowExecuted => ?_⟩
      rw [sameTime]
      rcases later _ nowExecuted with before | new
      · rw [(keeps _ before).2]
        exact earlier before
      · exact (callTime_lt executed).trans_le new

theorem Stacked.note {log : List Event} {stack : List Frame} (stacked : Stacked log stack)
    (event : Event) (isNote : event.isNote = true) : Stacked (event :: log) stack := by
  have absent (node : NodeId) : .executed node ∉ [event] := fun member => by
    rw [List.mem_singleton] at member
    simp [← member, Event.isNote] at isNote
  refine stacked.grow (fun node executed => ⟨List.mem_cons_of_mem _ executed, ?_⟩)
    fun node executed => .inl ?_
  · exact callTime_append (absent node)
  · exact (List.mem_cons.mp executed).resolve_left fun equal =>
      absent node (List.mem_singleton.mpr equal)

/-- A frame is replaced by frames of the same call, or by frames that are no call. -/
theorem Frame.fire_isCall {inlineFree : Bool} {shared : Shared} {frame : Frame} {effect : Effect}
    (fired : frame.fire callables inlineFree shared = some effect) :
    ∀ after ∈ effect.frames, after.isCall = true →
      frame.isCall = true ∧ after.node = frame.node ∧ effect.frames = [after] := by
  cases frame with
  | calling node =>
      have same : effect.frames = (executeFn callables shared node).2 := by
        cases fired
        rfl
      rcases executeFn_frames callables shared node with frames | ⟨roots, frames⟩
      · simp [same, frames, Frame.isCall, Frame.node]
      · simp [same, frames, Frame.isCall, Frame.node]
  | executing node =>
      cases fired
      simp [Frame.isCall, Frame.node]
  | dispatching node roots =>
      cases roots with
      | nil =>
          cases fired
          split <;> simp [Frame.isCall, Frame.node]
      | cons root roots =>
          cases fired
          simp [Frame.isCall, Frame.node]
  | joining node =>
      simp only [Frame.fire] at fired
      split at fired <;> cases fired
      simp [Frame.isCall, Frame.node]
  | completing node =>
      cases fired
      simp only [unblockSuccessors]
      split <;> [split; skip] <;> simp [Frame.isCall]
  | unblocking node branch todo unblockedCount =>
      cases todo with
      | nil =>
          cases fired
          simp [Frame.isCall]
      | cons edge todo =>
          simp only [Frame.fire] at fired
          split at fired
          · cases fired
            simp only [unblockActive]
            split <;> simp [Frame.isCall]
          · split at fired <;> cases fired
            · simp [Frame.isCall]
            · simp only [unblockSkipped]
              split <;> simp [Frame.isCall]
  | handingOver node branch succ todo unblockedCount =>
      cases fired
      simp only [handOver]
      split
      · simp [Frame.isCall]
      · split <;> [split; skip] <;> simp [Frame.isCall]
  | skipped node =>
      cases fired
      cases successors : (shared.node node).successors <;>
        simp [cascade, Frame.isCall]
  | cascading node todo =>
      cases todo with
      | nil =>
          cases fired
          simp
      | cons edge todo =>
          cases fired
          simp only [unblockSkipped]
          split <;> cases todo <;> simp [cascade, Frame.isCall]
  | resetting node target todo cycleCount =>
      cases todo with
      | nil =>
          cases fired
          simp [Frame.isCall]
      | cons curr todo =>
          simp only [Frame.fire] at fired
          split at fired <;> cases fired <;> simp [Frame.isCall]
  | finishing | skipping | scheduling | resettingState | rescheduling =>
      cases fired
      simp [Frame.isCall]

theorem Stacked.append {log : List Event} {frames below : List Frame}
    (single : ∀ after ∈ frames, after.isCall = true → frames = [after] ∧
      Stacked log (after :: below)) (stacked : Stacked log below) :
    Stacked log (frames ++ below) := by
  by_cases someCall : ∃ after ∈ frames, after.isCall = true
  · obtain ⟨after, member, isCall⟩ := someCall
    obtain ⟨only, whole⟩ := single after member isCall
    exact only ▸ whole
  · push Not at someCall
    clear single
    induction frames with
    | nil => exact stacked
    | cons frame frames ih =>
        refine ⟨fun isCall => absurd isCall (someCall frame (List.mem_cons_self ..)), ih ?_⟩
        exact fun after member => someCall after (List.mem_cons_of_mem _ member)

variable {threads : Nat}

/-- Every stack is ordered by the time of the calls. -/
def Stacks (state : RunState threads) : Prop :=
  ∀ index, Stacked state.shared.log (state.thread index).stack

/-- What one access adds to the log: nothing that is a call, or a call of a new node. -/
theorem log_of_fire {inlineFree : Bool} {shared : Shared} {ready : Multiset NodeId}
    {rest : Multiset Frame} {frame : Frame} {effect : Effect}
    (ledger : Ledger graph callables need got ⟨shared, ready, frame ::ₘ rest⟩)
    (admitted : Admits callables shared frame)
    (fired : frame.fire callables inlineFree shared = some effect) :
    (∀ node, .executed node ∈ shared.log → .executed node ∈ effect.shared.log ∧
        callTime effect.shared.log node = callTime shared.log node) ∧
      ∀ node, .executed node ∈ effect.shared.log →
        .executed node ∈ shared.log ∨ shared.log.length ≤ callTime effect.shared.log node := by
  by_cases isCall : ∃ node, frame = .calling node
  · obtain ⟨node, rfl⟩ := isCall
    have log : effect.shared.log = .executed node :: shared.log ∨
        effect.shared.log = .spliced node :: .executed node :: shared.log := by
      have same : effect.shared.log = (executeFn callables shared node).1.log := by
        cases fired
        rfl
      exact same ▸ admitted.call.imp And.right And.right
    refine ⟨fun other executed => ?_, fun other executed => ?_⟩
    · have different : node ≠ other := fun same => ledger.not_called.1 (same ▸ executed)
      rcases log with log | log <;> simp [log, executed, callTime, different]
    · by_cases same : node = other
      · subst same
        rcases log with log | log <;> simp [log, callTime]
      · rcases log with log | log <;>
          exact .inl (by simpa [log, Ne.symm same] using executed)
  · push Not at isCall
    obtain ⟨-, -, ⟨events, log, quiet⟩, -⟩ := Frame.fire_keeps isCall fired
    have sameMember (node : NodeId) : .executed node ∈ effect.shared.log ↔
        .executed node ∈ shared.log :=
      log ▸ mem_append_of_call (fun event member => (quiet event member).1) rfl
    refine ⟨fun node executed => ⟨(sameMember node).mpr executed, ?_⟩, fun node executed =>
      .inl ((sameMember node).mp executed)⟩
    rw [log]
    exact callTime_append fun member => by
      simpa [Event.isCall] using (quiet _ member).1

/-- A looking thread may take another node. -/
theorem Stacked.take {log : List Event} {thread : Thread} {node : NodeId}
    (stacked : Stacked log thread.stack) (looking : thread.looking = true)
    (joins : ∀ node, .joining node ∈ thread.stack → .executed node ∈ log)
    (notCalled : .executed node ∉ log) : Stacked log (.executing node :: thread.stack) := by
  refine ⟨fun _ waiting member => ?_, stacked⟩
  have isJoin : ∃ node, waiting = .joining node := by
    unfold Thread.looking at looking
    split at looking
    next empty => simp [empty] at member
    next top below onTop =>
      rw [onTop] at member stacked
      rcases List.mem_cons.mp member with rfl | isBelow
      · exact ⟨top, rfl⟩
      · obtain ⟨other, isJoin, -⟩ := stacked.1 rfl waiting isBelow
        exact ⟨other, isJoin⟩
    next => simp at looking
  obtain ⟨other, rfl⟩ := isJoin
  exact ⟨other, rfl, joins other member, fun executed => absurd executed notCalled⟩

theorem RunState.setThread_stack (state : RunState threads) (index other : Fin threads)
    (thread : Thread) : ((state.setThread index thread).thread other).stack =
      if other = index then thread.stack else (state.thread other).stack := by
  by_cases same : other = index
  · subst same
    simp [setThread]
  · simp [setThread, Function.update_of_ne, same]

theorem stacks_of_reachable (sound : graph.Sound) {state : RunState threads}
    (reachable : (graph.machine callables threads).ReachableBy
      (RunState.Proper graph callables) state) : 0 < state.runs → Stacks state := by
  refine reachable.invariant_of_reachable (motive := fun state => 0 < state.runs → Stacks state)
    ?_ ?_
  · rintro state rfl running
    exact absurd running (Nat.lt_irrefl 0)
  · intro state action next before ordered proper stepped running
    have balanced := balanced_of_reachable sound before
    have noFrames (empty : state.load.frames = 0) (index : Fin threads) :
        (state.thread index).stack = [] := by
      refine List.eq_nil_iff_forall_not_mem.mpr fun frame member => ?_
      exact Multiset.notMem_zero frame (empty ▸ RunState.mem_frames.mpr ⟨index, member⟩)
    by_cases prepares : action = .prepareRun
    · subst prepares
      simp only [TaskGraph.machine, RunState.step] at stepped
      split at stepped
      next ended =>
        cases stepped
        have empty : state.load.frames = 0 := by
          rcases balanced with ⟨-, -, -, empty⟩ | ⟨-, need, got, ledger⟩
          · exact empty.2
          · exact (ledger.empty_of_done ended.2).2
        intro index
        change Stacked [] (state.thread index).stack
        rw [noFrames empty index]
        trivial
      next => simp at stepped
    · have sameRuns : next.runs = state.runs := by
        rcases RunState.load_step proper.admits stepped with
          ⟨isPrepare, -⟩ | ⟨sameRuns, -⟩
        · exact absurd isPrepare prepares
        · exact sameRuns
      have someRun : 0 < state.runs := sameRuns ▸ running
      rcases balanced with ⟨noRun, -⟩ | ⟨-, need, got, ledger⟩
      · omega
      have stacked := ordered someRun
      have joins (index : Fin threads) (node : NodeId)
          (member : .joining node ∈ (state.thread index).stack) :
          .executed node ∈ state.shared.log :=
        (ledger.splices node (ledger.within _ (RunState.mem_frames.mpr ⟨index, member⟩)
          node rfl)).1
      have notCalled {node : NodeId} (member : node ∈ state.load.ready) :
          .executed node ∉ state.shared.log := fun executed => by
        have law := ledger.passage .called node
        have single := ledger.count_live_le node
        rw [passed_called] at law
        have waits := Multiset.count_pos.mpr member
        have past : 0 < state.load.shared.log.count (.executed node) :=
          List.count_pos_iff.mpr executed
        simp only [Workload.awaiting] at law
        omega
      cases action with
      | prepareRun => exact absurd rfl prepares
      | dispatchRoot =>
          intro index
          simp only [TaskGraph.machine, RunState.step, RunState.dispatchRoot] at stepped
          split at stepped
          · simp at stepped
          next rootWorkerCount preparing =>
            cases stepped
            dsimp only
            split
            · exact (stacked index).note (.notified rootWorkerCount) rfl
            · exact stacked index
          next root roots rootWorkerCount preparing =>
            cases stepped
            have scheduled := (stacked index).note (.scheduled root false) rfl
            have counted (count : Nat) := scheduled.note (.notified count) rfl
            dsimp only
            split_ifs <;> first | exact scheduled | exact counted _
      | setCanInline index canInline =>
          simp only [TaskGraph.machine, RunState.step, Option.some.injEq] at stepped
          subst stepped
          intro other
          rw [RunState.setThread_stack]
          split
          next same => exact same ▸ stacked index
          next => exact stacked other
      | take index node =>
          simp only [TaskGraph.machine, RunState.step] at stepped
          split at stepped
          next enabled =>
            cases stepped
            intro other
            rw [RunState.setThread_stack]
            split
            next =>
              exact (stacked index).take enabled.1 (joins index)
                (notCalled (RunState.mem_ready.mpr (.inl enabled.2)))
            next => exact stacked other
          next => simp at stepped
      | takeInline index =>
          simp only [TaskGraph.machine, RunState.step] at stepped
          split at stepped
          next => simp at stepped
          next node staged =>
            split at stepped
            next looking =>
              cases stepped
              intro other
              rw [RunState.setThread_stack]
              split
              next =>
                exact (stacked index).take looking (joins index)
                  (notCalled (RunState.mem_ready.mpr (.inr (.inr ⟨index, staged⟩))))
              next => exact stacked other
            next => simp at stepped
      | fire index =>
          simp only [TaskGraph.machine, RunState.step, RunState.fire] at stepped
          split at stepped
          next => simp at stepped
          next frame stack onTop =>
            rw [Option.map_eq_some_iff] at stepped
            obtain ⟨effect, fired, rfl⟩ := stepped
            have member : frame ∈ state.load.frames :=
              RunState.mem_frames.mpr ⟨index, by rw [onTop]; exact List.mem_cons_self ..⟩
            obtain ⟨rest, split⟩ := Multiset.exists_cons_of_mem member
            have here : Ledger graph callables need got
                ⟨state.shared, state.load.ready, frame ::ₘ rest⟩ := split ▸ ledger
            obtain ⟨keeps, later⟩ := log_of_fire here (proper frame stack onTop) fired
            intro other
            rw [RunState.setThread_stack]
            split
            next =>
              have before := (stacked index).grow keeps later
              rw [onTop] at before
              refine Stacked.append (fun after isNew isCall => ?_) before.2
              obtain ⟨wasCall, sameNode, only⟩ := Frame.fire_isCall fired after isNew isCall
              exact ⟨only, sameNode ▸ (fun _ => before.1 wasCall), before.2⟩
            next => exact (stacked other).grow keeps later

/-! ## Somebody can carry on -/

/-- All that is left are waiting joins, each on top of its stack not done. -/
structure AllWait (state : RunState threads) : Prop where
  ready : state.load.ready = 0
  joins : ∀ frame ∈ state.load.frames, ∃ node, frame = .joining node
  latest : ∀ index frame, frame ∈ (state.thread index).stack → ∃ node,
    .joining node ∈ (state.thread index).stack ∧ state.shared.isDone node = false ∧
      (frame = .joining node ∨
        callTime state.shared.log frame.node < callTime state.shared.log node)

/-- If nobody can carry on, only waiting joins are left. -/
theorem allWait_of_stuck {state : RunState threads} (someThread : 0 < threads)
    (stacked : Stacks state)
    (joins : ∀ index node, .joining node ∈ (state.thread index).stack →
      .executed node ∈ state.shared.log)
    (stuck : ∀ action next, action.carriesOn = true →
      state.step graph callables action ≠ some next) : AllWait state := by
  have prepared : state.preparing = none := by
    by_contra preparing
    obtain ⟨next, stepped⟩ : ∃ next, state.step graph callables .dispatchRoot = some next :=
      RunState.dispatchRoot_of_preparing preparing
    exact stuck .dispatchRoot next rfl stepped
  have top (index : Fin threads) : (state.thread index).stack = [] ∨ ∃ node below,
      (state.thread index).stack = .joining node :: below ∧ state.shared.isDone node = false := by
    cases onTop : (state.thread index).stack with
    | nil => exact .inl rfl
    | cons frame below =>
        refine .inr ?_
        by_contra canFire
        push Not at canFire
        obtain ⟨next, fired⟩ : ∃ next, state.step graph callables (.fire index) = some next := by
          refine RunState.fire_of_onTop onTop fun node isJoin => ?_
          simpa using canFire node below (isJoin ▸ rfl)
        exact stuck (.fire index) next rfl fired
  have looking (index : Fin threads) : (state.thread index).looking = true := by
    rcases top index with empty | ⟨node, below, onTop, -⟩
    · simp [Thread.looking, empty]
    · simp [Thread.looking, onTop]
  have ofStack (index : Fin threads) (frame : Frame) (member : frame ∈ (state.thread index).stack) :
      ∃ node, .joining node ∈ (state.thread index).stack ∧ state.shared.isDone node = false ∧
        ((∃ own, frame = .joining own) ∧ (frame = .joining node ∨
          callTime state.shared.log frame.node < callTime state.shared.log node)) := by
    rcases top index with empty | ⟨node, below, onTop, waits⟩
    · simp [empty] at member
    · have atTop : .joining node ∈ (state.thread index).stack :=
        onTop ▸ List.mem_cons_self ..
      refine ⟨node, atTop, waits, ?_⟩
      rw [onTop] at member
      rcases List.mem_cons.mp member with rfl | isBelow
      · exact ⟨⟨node, rfl⟩, .inl rfl⟩
      · have order := stacked index
        rw [onTop] at order
        obtain ⟨other, rfl, -, earlier⟩ := order.1 rfl frame isBelow
        exact ⟨⟨other, rfl⟩, .inr (earlier (joins index node atTop))⟩
  refine ⟨?_, fun frame member => ?_, fun index frame member => ?_⟩
  · refine Multiset.eq_zero_of_forall_notMem fun node member => ?_
    rcases RunState.mem_ready.mp member with queued | unscheduled | ⟨index, staged⟩
    · have enabled : (state.thread ⟨0, someThread⟩).looking = true ∧ node ∈ state.queued :=
        ⟨looking _, queued⟩
      exact stuck (.take ⟨0, someThread⟩ node) _ rfl (if_pos enabled)
    · simp [RunState.unscheduled, prepared] at unscheduled
    · obtain ⟨next, stepped⟩ :
          ∃ next, state.step graph callables (.takeInline index) = some next := by
        simp only [RunState.step, staged, looking, ↓reduceIte]
        exact ⟨_, rfl⟩
      exact stuck (.takeInline index) next rfl stepped
  · obtain ⟨index, onStack⟩ := RunState.mem_frames.mp member
    obtain ⟨-, -, -, isJoin, -⟩ := ofStack index frame onStack
    exact isJoin
  · obtain ⟨node, atTop, waits, -, latest⟩ := ofStack index frame member
    exact ⟨node, atTop, waits, latest⟩

/-- Among waiting joins alone, the one called last finds its subflow done. -/
theorem not_allWait (sound : graph.Sound) (childSound : ∀ parent, (callables.subflow parent).Sound)
    {state : RunState threads} (ledger : Ledger graph callables need got state.load)
    (calls : Calls graph callables state.load) (unfinished : 0 < state.shared.m_pendingTasks) :
    ¬ AllWait state := by
  rintro ⟨noReady, joins, latest⟩
  have cycleless : Cycleless (Leads graph callables) :=
    (nesting_cycleless sound childSound).mono fun _ _ => .inl
  have declaredEdge {source : NodeId} (inRun : source ∈ live graph callables state.shared.log)
      {edge : SuccessorEdge} (inEdges : edge ∈ (state.shared.node source).successors) :
      Leads graph callables source edge.target := by
    have successors := (ledger.shape source inRun).2.2
    by_cases moved : Moved callables state.load.shared.log source
    · rw [if_pos moved] at successors
      exact absurd inEdges (successors ▸ List.not_mem_nil)
    · rw [if_neg moved] at successors
      exact ⟨edge, successors ▸ inEdges, rfl⟩
  have someFrames : state.load.frames ≠ 0 :=
    (ledger.exists_work cycleless (fun source inRun edge inEdges => declaredEdge inRun inEdges)
      unfinished).resolve_left fun some => some noReady
  -- The join that was called last.
  obtain ⟨frame, isFrame, newest⟩ := state.load.frames.toFinset.exists_max_image
    (fun frame => callTime state.shared.log frame.node)
    ((Multiset.exists_mem_of_ne_zero someFrames).imp fun _ => Multiset.mem_toFinset.mpr)
  simp only [Multiset.mem_toFinset] at isFrame newest
  obtain ⟨index, onStack⟩ := RunState.mem_frames.mp isFrame
  obtain ⟨parent, atTop, waits, isLatest⟩ := latest index frame onStack
  have isParent : frame = .joining parent := isLatest.resolve_right fun earlier => by
    have := newest _ (RunState.mem_frames.mpr ⟨index, atTop⟩)
    exact absurd earlier (Nat.not_lt_of_le this)
  subst isParent
  have joined := calls.joining parent isFrame
  have spliced : .spliced parent ∈ state.shared.log := ledger.within _ isFrame parent rfl
  have exitInRun : .exit parent ∈ live graph callables state.shared.log :=
    mem_live_of_spliced spliced (ChildGraph.mem_members.mpr (.inr ⟨by simp [joined], rfl⟩))
  have once : ∀ node, state.shared.log.count (.executed node) ≤ 1 := ledger.count_executed_le
  -- Nothing inside the subflow is in a waiting join: it would have been called later.
  have nobody {milestone : Milestone} {node : NodeId} (under : parent.Under node) :
      state.load.awaiting milestone node = 0 := by
    have owesNone : ∀ frame ∈ state.load.frames, (frame.owes milestone).count node = 0 := by
      intro frame member
      obtain ⟨other, rfl⟩ := joins frame member
      by_contra owed
      have same : other = node := by
        by_contra different
        refine owed ?_
        cases milestone <;> simp [different]
      subst same
      have executed := (ledger.splices other (ledger.within _ member other rfl)).1
      have later := (calls.chronological.under_after sound once under executed).2
      exact absurd later (Nat.not_lt_of_le (newest _ member))
    rw [Workload.awaiting, noReady, Multiset.count_zero, Nat.zero_add]
    refine Multiset.sum_eq_zero fun amount member => ?_
    obtain ⟨frame, isFrame, rfl⟩ := Multiset.mem_map.mp member
    exact owesNone frame isFrame
  have waitsFor {milestone : Milestone} {node : NodeId} (under : parent.Under node)
      (inRun : node ∈ live graph callables state.shared.log)
      (before : passed milestone node state.shared.log = 0) : need node ≠ 0 := by
    have law := ledger.passage milestone node
    rw [nobody under, List.count_eq_one_of_mem ledger.distinct inRun] at law
    intro none
    rw [none, waiting_zero] at law
    change 0 + 0 + passed milestone node state.shared.log = 1 at law
    omega
  have exitWaits : need (.exit parent) ≠ 0 := by
    refine waitsFor .exit exitInRun (?_ : passed .called _ _ = 0)
    have notExecuted : .executed (.exit parent) ∉ state.shared.log := fun executed => by
      exact Bool.false_ne_true (waits.symm.trans
        ((calls.isDone parent spliced joined).mpr executed))
    have notSkipped : .skipped (.exit parent) ∉ state.shared.log := calls.exits parent joined
    rw [passed_called, List.count_eq_zero_of_not_mem notExecuted,
      List.count_eq_zero_of_not_mem notSkipped]
  -- A node inside that waits, but not for another one inside.
  classical
  let waiters := (live graph callables state.shared.log).toFinset.filter fun node =>
    parent.Under node ∧ need node ≠ 0
  have someWaiter : waiters.Nonempty :=
    ⟨.exit parent, Finset.mem_filter.mpr ⟨List.mem_toFinset.mpr exitInRun, .exit, exitWaits⟩⟩
  obtain ⟨first, isWaiter, noneBefore⟩ := cycleless.exists_source someWaiter
  obtain ⟨-, under, needs⟩ := Finset.mem_filter.mp isWaiter
  have sources := ledger.edges first
  have noTodo : (state.load.frames.map fun frame => edgesInto first frame.todo).sum = 0 := by
    refine Multiset.sum_eq_zero fun amount member => ?_
    obtain ⟨frame, isFrame, rfl⟩ := Multiset.mem_map.mp member
    obtain ⟨other, rfl⟩ := joins frame isFrame
    rfl
  have positive : 0 < need first := Nat.pos_of_ne_zero needs
  rw [sources, noTodo, Nat.add_zero, remaining, Counting.sum_map_pos] at positive
  obtain ⟨source, inRun, hasEdge⟩ := positive
  split at hasEdge
  next before =>
    obtain ⟨edge, inEdges, isTarget⟩ := edgesInto_pos.mp hasEdge
    have leads : Leads graph callables source first := isTarget ▸ declaredEdge inRun inEdges
    have sourceUnder := leads.under sound under
    exact noneBefore source (Finset.mem_filter.mpr ⟨List.mem_toFinset.mpr inRun, sourceUnder,
      waitsFor sourceUnder inRun before⟩) leads
  next => simp at hasEdge

/-- While nodes are unfinished, some action carries the run on. -/
theorem exists_step_of_unfinished (sound : graph.Sound)
    (childSound : ∀ parent, (callables.subflow parent).Sound) {state : RunState threads}
    (reachable : (graph.machine callables threads).ReachableBy
      (RunState.Proper graph callables) state) (running : 0 < state.runs)
    (someThread : 0 < threads) (unfinished : 0 < state.shared.m_pendingTasks) :
    ∃ action next, action.carriesOn = true ∧ state.step graph callables action = some next := by
  by_contra stuck
  push Not at stuck
  rcases balanced_of_reachable sound reachable with ⟨noRun, -⟩ | ⟨-, need, got, ledger⟩
  · omega
  refine not_allWait sound childSound ledger (calls_of_reachable sound reachable running) unfinished
    (allWait_of_stuck someThread (stacks_of_reachable sound reachable running)
      (fun index node member => ?_) stuck)
  exact (ledger.splices node (ledger.within _ (RunState.mem_frames.mpr ⟨index, member⟩) node rfl)).1

end Progress

end LightFlow
