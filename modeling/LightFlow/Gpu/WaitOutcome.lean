import LightFlow.Gpu.WaitLaw

/-!
# What a run with wait points comes to

A task is executed, skipped or timed out, exactly one of them and once, whatever the order of
task executions, notifications, polls and timeouts.
-/

namespace LightFlow

variable {graph : TaskGraph} {callables : Callables} {points : List (WaitId × NodeId)}
  {workers : Nat} {state : GpuRun workers} {pool : Multiset Sweeper} {node : NodeId}

/-- How often `handleGpuTimeout` was called for the node in this run. -/
def GpuRun.timeouts (state : GpuRun workers) (node : NodeId) : Nat :=
  (state.expired.map Prod.snd).count node

/-- How often the node was executed, skipped or timed out in this run. -/
def GpuRun.outcomes (state : GpuRun workers) (node : NodeId) : Nat :=
  state.run.shared.log.count (.executed node) + state.run.shared.log.count (.skipped node) +
    state.timeouts node

/-- What the account says about a node, in numbers. -/
structure Standing (graph : TaskGraph) (points : List (WaitId × NodeId)) (state : GpuRun workers)
    (tally : Tally) (load : Workload) (node : NodeId) : Prop where
  called : waiting (tally.need node) + load.amount (.uncalled node) +
    (state.run.shared.log.count (.executed node) + state.run.shared.log.count (.skipped node)) = 1
  carried : load.amount (.uncalled node) ≤ load.amount (.carried node)
  passage : waiting (tally.need node) + load.amount (.carried node) + tally.closed node = 1
  dropped : tally.dropped node ≤ state.timeouts node
  /-- A timed-out node waits for ever. -/
  timeouts : state.timeouts node ≤ waiting (tally.need node)

namespace Tracked

theorem standing {tally : Tally} (waiting : graph.Waiting (points.map Prod.snd))
    (single : (points.map Prod.snd).Nodup)
    (claimed : Claimed points state.reactor state.call state.released state.expired
      (pool.map Sweeper.call))
    (resolving : Resolving graph callables tally (state.load pool))
    (paid : Paid graph points state pool tally) (member : node ∈ graph.order) :
    Standing graph points state tally (state.load pool) node := by
  have account := resolving.account
  have called := account.called node
  have passage := account.passage node
  have edges := account.edges node
  have dropped := paid.dropped node
  have extra := paid.extra node
  have resolved := resolved_le claimed single node
  have one := List.nodup_iff_count_le_one.mp single node
  rw [List.count_eq_one_of_mem waiting.distinct member] at called passage
  rw [resolving.first, passed_called] at called
  refine ⟨called, Workload.uncalled_le_carried _ node, passage, ?_, ?_⟩
  · rw [GpuRun.timeouts]
    omega
  · rw [GpuRun.timeouts]
    rcases Nat.eq_zero_or_pos ((state.expired.map Prod.snd).count node) with none | some
    · omega
    · rw [waiting_of_pos (by omega)]
      omega

/-- In every state of a run. -/
theorem outcomes_le (tracked : Tracked graph callables points state pool)
    (waiting : graph.Waiting (points.map Prod.snd)) (single : (points.map Prod.snd).Nodup)
    (member : node ∈ graph.order) : state.outcomes node ≤ 1 := by
  obtain ⟨tally, resolving, paid⟩ := tracked.paid
  have standing := standing waiting single tracked.claimed resolving paid member
  have called := standing.called
  have timeouts := standing.timeouts
  rw [GpuRun.outcomes]
  omega

/-- Every node is closed or dropped. -/
theorem outcomes_eq {tally : Tally} (waiting : graph.Waiting (points.map Prod.snd))
    (single : (points.map Prod.snd).Nodup)
    (claimed : Claimed points state.reactor state.call state.released state.expired
      (pool.map Sweeper.call))
    (resolving : Resolving graph callables tally (state.load pool))
    (paid : Paid graph points state pool tally) (member : node ∈ graph.order)
    (isClosed : tally.isOpen node = 0) : state.outcomes node = 1 := by
  have standing := standing waiting single claimed resolving paid member
  have called := standing.called
  have carried := standing.carried
  have passage := standing.passage
  have dropped := standing.dropped
  have timeouts := standing.timeouts
  rw [Tally.isOpen] at isClosed
  rw [GpuRun.outcomes]
  split at isClosed
  · simp at isClosed
  · omega

/-- The run has ended for every node when nothing is pending, and when `runAndWait` is about to
return. -/
theorem closed {tally : Tally} (waiting : graph.Waiting (points.map Prod.snd))
    (single : (points.map Prod.snd).Nodup)
    (claimed : Claimed points state.reactor state.call state.released state.expired
      (pool.map Sweeper.call))
    (resolving : Resolving graph callables tally (state.load pool))
    (paid : Paid graph points state pool tally)
    (ended : state.run.shared.m_pendingTasks = 0 ∨ state.call.isOver = true)
    (member : node ∈ graph.order) : tally.isOpen node = 0 := by
  rcases ended with done | atEnd
  · exact (resolving.account.finished_of_done (paid.dropping single resolving claimed) waiting done
      member).1
  · exact paid.atEnd atEnd node member

/-- A timeout was handled when a wait node expired. -/
theorem exists_timeouts (tracked : Tracked graph callables points state pool)
    (waiting : graph.Waiting (points.map Prod.snd)) :
    state.expired ≠ [] ↔ ∃ node ∈ graph.order, 0 < state.timeouts node := by
  constructor
  · intro some
    obtain ⟨point, isFirst⟩ := List.exists_mem_of_ne_nil _ some
    refine ⟨point.2,
      waiting.tasks_mem _ (List.mem_map_of_mem (tracked.claimed.ofExpired _ isFirst)),
      List.count_pos_iff.mpr (List.mem_map_of_mem isFirst)⟩
  · rintro ⟨node, -, some⟩ none
    simp [GpuRun.timeouts, none] at some

end Tracked

/-- For every interleaving of task executions with notifications, polls and timeouts, over all
runs of a graph whose tasks have one wait point each at most. -/
theorem tasks_resolved_once {sweepers : Nat}
    {state : Program.State (GpuRun workers) Sweeper sweepers}
    (built : graph.BuiltWaiting (points.map Prod.snd)) (acyclic : graph.Acyclic)
    (plain : ∀ node ∈ graph.order, (graph.node node).type ≠ .subflow)
    (narrow : ∀ node, TaskGraph.incoming graph.node graph.order node +
      (points.map Prod.snd).count node ≤ 65535)
    (single : (points.map Prod.snd).Nodup)
    (reachable : GpuRunReachable graph callables points state)
    (running : 0 < state.shared.run.runs) :
    (∀ node ∈ graph.order, state.shared.outcomes node ≤ 1 ∧
      state.shared.run.shared.log.count (.finished node) ≤ 1) ∧
    (state.shared.run.shared.m_pendingTasks =
      graph.order.countP fun node => .finished node ∉ state.shared.run.shared.log) ∧
    (state.shared.run.shared.m_pendingTasks = 0 →
      ∀ node ∈ graph.order, state.shared.outcomes node = 1) ∧
    ∀ status, state.shared.call = .helped status →
      (∀ node ∈ graph.order, state.shared.outcomes node = 1) ∧
      (status = .gpuTimeout ↔ ∃ node ∈ graph.order, 0 < state.shared.timeouts node) := by
  have waiting := built.waiting acyclic plain narrow
  obtain ⟨-, untouched | tracked⟩ := tracked_of_reachable waiting single reachable
  · exact absurd untouched.runs (by omega)
  obtain ⟨tally, resolving, paid⟩ := tracked.paid
  have dropping := paid.dropping single resolving tracked.claimed
  have finished (node : NodeId) := resolving.account.finished_or dropping waiting node
  have counted (node : NodeId) : passed .finished node state.shared.run.shared.log =
      state.shared.run.shared.log.count (.finished node) := count_finished node _
  have ended (atEnd : state.shared.run.shared.m_pendingTasks = 0 ∨
      state.shared.call.isOver = true) (node : NodeId) (member : node ∈ graph.order) :
      state.shared.outcomes node = 1 :=
    Tracked.outcomes_eq waiting single tracked.claimed resolving paid member
      (Tracked.closed waiting single tracked.claimed resolving paid atEnd member)
  refine ⟨fun node member => ⟨tracked.outcomes_le waiting single member, ?_⟩, ?_,
    fun done => ended (.inl done), fun status isHelped => ⟨ended (.inr ?_), ?_⟩⟩
  · have one := finished node
    rw [show (state.shared.load state.pool).shared = state.shared.run.shared from rfl, counted]
      at one
    omega
  · refine (resolving.account.pending_eq_countP dropping waiting).trans ?_
    refine List.countP_congr fun node _ => ?_
    rw [show (state.shared.load state.pool).shared = state.shared.run.shared from rfl, counted]
    simp [List.count_eq_zero]
  · rw [isHelped]
    rfl
  · rw [tracked.claimed.told status isHelped, tracked.exists_timeouts waiting]

/-! ## A task that times out -/

section TimedOut

/-- A task with a wait point, and one that depends on it. -/
def waitingPair : TaskGraph :=
  let nodes := (({} : TaskGraph).emplace .static .worker).emplace .static .worker
  (nodes.addEdge (.node 0) (.node 1)).addWaitPoint (.node 0)

theorem waitingPair_built : waitingPair.BuiltWaiting [.node 0] := by
  refine .addWaitPoint (.addEdge (-1) (.emplace _ _ (.emplace _ _ .empty ?_) ?_) ?_ ?_) ?_
  all_goals decide

theorem waitingPair_acyclic : waitingPair.Acyclic :=
  waitingPair_built.acyclic_of_increasing NodeId.index (by decide)

/-- The wait point times out after a millisecond. -/
def waitingStart : Program.State (GpuRun 1) Sweeper 1 where
  shared :=
    { run := waitingPair.initialState 1
      reactor :=
        { wait := fun _ =>
            { task := some (.node 0), syncPoint := { handle := 7, value := 3, timeoutMs := 1 } } } }
  here := fun _ => {}

theorem waitingStart_initial :
    (gpuRunMachine waitingPair chooseFirst [(0, .node 0)] 1 1).initial waitingStart := by
  refine ⟨⟨rfl, rfl, rfl, rfl, rfl, by decide, ?_⟩, fun _ => rfl⟩
  intro point member
  simp only [List.mem_singleton] at member
  subst member
  exact ⟨rfl, rfl⟩

/-- The wait point is registered, and no root is ready; two milliseconds later `checkTimeouts`
cancels the task, which skips the other one. -/
def timedOut : List (Program.Action (GpuRunAction 1) SweepChoice 1) :=
  .solo (.runAndWait 0) :: List.replicate 7 (.solo (.goOn {})) ++
    [.solo (.work .dispatchRoot), .thread 0 (.sweep .checkTimeouts)] ++
      List.replicate 11 (.thread 0 (.go { now := 2000000 })) ++
        List.replicate 2 (.solo (.goOn {}))

/-- The task times out, the other one is skipped, and the run returns the timeout. -/
theorem tasks_resolved_once_pair : ∃ state : Program.State (GpuRun 1) Sweeper 1,
    state.shared.call = .helped .gpuTimeout ∧
      .skipped (.node 1) ∈ state.shared.run.shared.log ∧
      ∀ node ∈ waitingPair.order, state.shared.outcomes node = 1 := by
  obtain ⟨state, reachable, running, isHelped, skipped⟩ :
      ∃ state : Program.State (GpuRun 1) Sweeper 1,
        GpuRunReachable waitingPair chooseFirst [(0, .node 0)] state ∧
          0 < state.shared.run.runs ∧ state.shared.call = .helped .gpuTimeout ∧
            .skipped (.node 1) ∈ state.shared.run.shared.log :=
    Machine.ReachableBy.exists_of_run (.start waitingStart_initial) timedOut (by decide +kernel)
  have resolved := tasks_resolved_once waitingPair_built waitingPair_acyclic (by decide)
    (fun node => (Nat.add_le_add (TaskGraph.incoming_le _ _ _) List.count_le_length).trans
      (by decide)) (by decide) reachable running
  exact ⟨state, isHelped, skipped, (resolved.2.2.2 _ isHelped).1⟩

end TimedOut
end LightFlow
