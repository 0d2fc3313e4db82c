import LightFlow.Gpu.WaitAccount
import LightFlow.Gpu.WaitClaims

/-!
# What holds throughout runs with wait points

The account of all calls for tasks, those of the sweeps included, agrees with what became of the
wait nodes: a released one was paid for, an expired one has let the successors go, and any other
still holds its task back.
-/

namespace LightFlow

variable {graph : TaskGraph} {callables : Callables} {points : List (WaitId × NodeId)}
  {workers : Nat} {state next : GpuRun workers} {pool : Multiset Sweeper} {tally : Tally}

/-- All calls for tasks, of the threads that execute them and of those that sweep. -/
def GpuRun.load (state : GpuRun workers) (pool : Multiset Sweeper) : Workload where
  shared := state.run.shared
  ready := state.run.load.ready
  frames := state.run.load.frames + pool.bind fun sweeper => ↑sweeper.stack

/-- `handleGpuTimeout` is called for the node, and has not come to `onTaskCompleted`. -/
def Sweeper.cancels (node : NodeId) (sweeper : Sweeper) : Nat :=
  if sweeper.cancelling = some node then 1 else 0

/-- The tally says what became of the wait nodes. -/
structure Paid (graph : TaskGraph) (points : List (WaitId × NodeId)) (state : GpuRun workers)
    (pool : Multiset Sweeper) (tally : Tally) : Prop where
  extra : ∀ node, tally.extra node + (state.released.map Prod.snd).count node =
    (points.map Prod.snd).count node
  bonus : ∀ node, tally.bonus node = (state.released.map Prod.snd).count node
  dropped : ∀ node, tally.dropped node + (pool.map (Sweeper.cancels node)).sum =
    (state.expired.map Prod.snd).count node
  atEnd : state.call.isOver = true → ∀ node ∈ graph.order, tally.isOpen node = 0

/-- No run was prepared yet. -/
structure Untouched (graph : TaskGraph) (points : List (WaitId × NodeId))
    (state : GpuRun workers) (pool : Multiset Sweeper) : Prop where
  runs : state.run.runs = 0
  call : state.call = .outside
  nodes : state.run.shared.node = graph.node
  ready : (state.load pool).ready = 0
  frames : (state.load pool).frames = 0
  cancelling : ∀ sweeper ∈ pool, sweeper.cancelling = none
  linked : Linked points ∅ state.reactor .outside (pool.map Sweeper.call)

/-- What holds from the first run on. -/
structure Tracked (graph : TaskGraph) (callables : Callables) (points : List (WaitId × NodeId))
    (state : GpuRun workers) (pool : Multiset Sweeper) : Prop where
  runs : 0 < state.run.runs
  linked : ∃ known, Linked points known state.reactor state.call (pool.map Sweeper.call)
  claimed : Claimed points state.reactor state.call state.released state.expired
    (pool.map Sweeper.call)
  paid : ∃ tally, Resolving graph callables tally (state.load pool) ∧
    Paid graph points state pool tally

/-! ## The calls of all threads -/

/-- More calls change nothing in a step. -/
theorem Workload.Step.add_frames {load after : Workload} (more : Multiset Frame)
    (stepped : Workload.Step callables (fun _ _ => True) load after) :
    Workload.Step callables (fun _ _ => True) { load with frames := load.frames + more }
      { after with frames := after.frames + more } := by
  cases stepped with
  | fire allowed fired =>
      dsimp only
      rw [Multiset.cons_add, add_assoc]
      exact .fire allowed fired
  | start =>
      dsimp only
      rw [Multiset.cons_add]
      exact .start
  | note isNote => exact .note isNote

/-- What the threads that execute tasks do. -/
theorem GpuRun.load_work {action : RunAction workers}
    (stepped : state.work graph callables action = some next) (pool : Multiset Sweeper) :
    (∃ run, next = { state with run }) ∧ next.run.runs = state.run.runs ∧
      Relation.ReflTransGen (Workload.Step callables fun _ _ => True) (state.load pool)
        (next.load pool) := by
  simp only [GpuRun.work] at stepped
  split at stepped
  next => cases stepped
  next other =>
    obtain ⟨run, performed, rfl⟩ := Option.map_eq_some_iff.mp stepped
    rw [not_or] at other
    rcases @RunState.load_step workers graph callables (fun _ _ => True) _ _ _
      (fun _ _ _ _ _ => trivial) performed with ⟨rfl, -, -⟩ | ⟨sameRuns, steps⟩
    · exact absurd rfl other.1
    · refine ⟨⟨run, rfl⟩, sameRuns, ?_⟩
      exact steps.lift (fun load => { load with
        frames := load.frames + pool.bind fun sweeper => ↑sweeper.stack })
        fun _ _ step => step.add_frames _

theorem GpuRun.load_cons (sweeper : Sweeper) (rest : Multiset Sweeper) :
    state.load (sweeper ::ₘ rest) =
      ⟨state.run.shared, (state.load rest).ready, ↑sweeper.stack + (state.load rest).frames⟩ := by
  simp only [GpuRun.load, Multiset.cons_bind, Workload.mk.injEq, true_and]
  abel

/-! ## Points and tasks -/

/-- With one wait point to a task, counting tasks is counting points. -/
theorem count_snd (single : (points.map Prod.snd).Nodup) {listing : List (WaitId × NodeId)}
    (listed : ∀ point ∈ listing, point ∈ points) {point : WaitId × NodeId}
    (member : point ∈ points) :
    (listing.map Prod.snd).count point.2 = listing.count point := by
  rw [List.count, List.countP_map, List.count]
  refine List.countP_congr fun other isOther => ?_
  simp only [Function.comp_apply, beq_iff_eq]
  refine ⟨fun same => ?_, fun same => same ▸ rfl⟩
  exact List.inj_on_of_nodup_map single (listed other isOther) member same

/-- A task without wait points has none in a part of the points. -/
theorem count_snd_eq_zero {listing : List (WaitId × NodeId)}
    (listed : ∀ point ∈ listing, point ∈ points) {node : NodeId}
    (none : (points.map Prod.snd).count node = 0) : (listing.map Prod.snd).count node = 0 := by
  rw [List.count_eq_zero] at none ⊢
  rintro member
  obtain ⟨point, isPoint, rfl⟩ := List.mem_map.mp member
  exact none (List.mem_map_of_mem (listed point isPoint))

namespace Tracked

/-- Of the wait points of a task at most one is resolved, by either of the two. -/
theorem resolved_le {call : RunCall} {reactor : TimelineReactor} {calls : Multiset ReactorCall}
    {released expired : List (WaitId × NodeId)}
    (claimed : Claimed points reactor call released expired calls)
    (single : (points.map Prod.snd).Nodup) (node : NodeId) :
    (released.map Prod.snd).count node + (expired.map Prod.snd).count node ≤
      (points.map Prod.snd).count node := by
  by_cases listed : node ∈ points.map Prod.snd
  · obtain ⟨point, member, rfl⟩ := List.mem_map.mp listed
    rw [count_snd single claimed.ofReleased member, count_snd single claimed.ofExpired member,
      List.count_eq_one_of_mem single listed]
    have once := claimed.once point member
    omega
  · have none := List.count_eq_zero_of_not_mem listed
    rw [count_snd_eq_zero claimed.ofReleased none, count_snd_eq_zero claimed.ofExpired none]
    exact Nat.zero_le _

end Tracked

/-! ## Nodes that are not finished -/

section

variable {load : Workload} {released expired : List (WaitId × NodeId)}

/-- What the account says about a run without loops in which nodes are dropped once at most. -/
structure Tally.Dropping (tally : Tally) : Prop where
  first : ∀ node, tally.rounds node = 0
  dropped : ∀ node, tally.dropped node ≤ 1

variable (account : Account graph tally load) (dropping : tally.Dropping)
  (waiting : graph.Waiting (points.map Prod.snd))

include account dropping waiting

theorem Account.finished_or (node : NodeId) :
    tally.isOpen node + load.amount (.late node) + passed .finished node load.shared.log = 1 := by
  have finished := account.finished node
  have closed := account.closed_le_one waiting.distinct node
  have dropped := dropping.dropped node
  have stuck := account.stuck node
  have apart : 0 < tally.dropped node → tally.closed node = 0 := fun positive =>
    (account.of_extra waiting.distinct (by omega)).2.2
  rw [dropping.first] at finished
  rw [Tally.isOpen]
  split <;> omega

theorem Account.late_mem {node : NodeId} (late : 0 < load.amount (.late node)) :
    node ∈ graph.order := by
  have finished := account.finished node
  have passage := account.passage node
  have stuck := account.stuck node
  rw [dropping.first] at finished
  rcases Nat.eq_zero_or_pos (tally.dropped node) with none | some
  · exact List.count_pos_iff.mp (by omega)
  · exact (account.of_extra waiting.distinct (by omega)).2.1

/-- Late calls, counted by their nodes or all together. -/
theorem Account.sum_late :
    (graph.order.map fun node => load.amount (.late node)).sum = load.amount .unfinished := by
  have member : ∀ frame ∈ load.frames, ∀ node ∈ frame.late, node ∈ graph.order := by
    intro frame inFrames node isLate
    obtain ⟨others, split⟩ := Multiset.exists_cons_of_mem inFrames
    refine account.late_mem dropping waiting (?_ : 0 < load.amount (.late node))
    have some := List.count_pos_iff.mpr isLate
    simp only [Workload.amount, split, Multiset.map_cons, Multiset.sum_cons, Quantity.ofFrame]
    omega
  have readyNone : (load.ready.map fun _ => 0).sum = 0 := by simp
  simp only [Workload.amount, Quantity.ofReady, Quantity.ofFrame, readyNone, Nat.zero_add]
  generalize load.frames = frames at member ⊢
  induction frames using Multiset.induction_on with
  | empty => simp
  | cons frame frames ih =>
      have rest := ih fun other isOther => member other (Multiset.mem_cons_of_mem isOther)
      have own : (graph.order.map fun node => frame.late.count node).sum = frame.late.length :=
        Counting.sum_count waiting.distinct (member frame (Multiset.mem_cons_self _ _))
      simp only [Multiset.map_cons, Multiset.sum_cons, List.sum_map_add, own, rest]

/-- `m_pendingTasks` counts the nodes for which `onTaskCompleted` was not called. -/
theorem Account.pending_eq_countP : load.shared.m_pendingTasks =
    graph.order.countP fun node => passed .finished node load.shared.log = 0 := by
  have each : ∀ node ∈ graph.order, tally.isOpen node + load.amount (.late node) =
      if passed .finished node load.shared.log = 0 then 1 else 0 := fun node _ => by
    have one := account.finished_or dropping waiting node
    split <;> omega
  have atMost : graph.order.countP (fun node => passed .finished node load.shared.log = 0) ≤
      graph.order.length := List.countP_le_length
  have bound := waiting.bound
  rw [waiting.count] at bound
  rw [account.pending, ← account.sum_late dropping waiting, ← List.sum_map_add,
    Counting.sum_map_congr each, Counting.sum_map_indicator, u32_of_lt (by omega)]

/-- When nothing is pending, every node is finished. -/
theorem Account.finished_of_done (done : load.shared.m_pendingTasks = 0) {node : NodeId}
    (member : node ∈ graph.order) : tally.isOpen node = 0 ∧ load.amount (.late node) = 0 ∧
      passed .finished node load.shared.log = 1 := by
  have one := account.finished_or dropping waiting node
  rw [account.pending_eq_countP dropping waiting, List.countP_eq_zero] at done
  have finished := done node member
  rw [decide_eq_true_eq] at finished
  omega

end

/-- What is closed has had its wait points resolved. -/
theorem Paid.resolved (paid : Paid graph points state pool tally) {load : Workload}
    (account : Account graph tally load) (waiting : graph.Waiting (points.map Prod.snd))
    (single : (points.map Prod.snd).Nodup)
    (claimed : Claimed points state.reactor state.call state.released state.expired
      (pool.map Sweeper.call))
    (closed : ∀ node ∈ graph.order, tally.isOpen node = 0) :
    ∀ point ∈ points, state.released.count point + state.expired.count point = 1 := by
  intro point member
  have isTask := List.mem_map_of_mem (f := Prod.snd) member
  have inOrder := waiting.tasks_mem point.2 isTask
  have once := claimed.once point member
  have extra := paid.extra point.2
  have dropped := paid.dropped point.2
  have passage := account.passage point.2
  have edges := account.edges point.2
  have isClosed := closed point.2 inOrder
  have nodup := List.nodup_iff_count_le_one.mp waiting.distinct point.2
  rw [count_snd single claimed.ofReleased member, List.count_eq_one_of_mem single isTask] at extra
  rw [count_snd single claimed.ofExpired member] at dropped
  simp only [Tally.isOpen] at isClosed
  split at isClosed
  next => simp at isClosed
  next some =>
    rcases Nat.eq_zero_or_pos (tally.closed point.2) with none | positive
    · omega
    · -- A closed node waits for nothing, so that its wait point was released.
      have noNeed : tally.need point.2 = 0 := waiting_eq_zero.mp (by omega)
      omega

/-! ## Steps that keep the tally -/

theorem Paid.move {after : GpuRun workers} {moved : Multiset Sweeper} {onward : Tally}
    (paid : Paid graph points state pool tally) (follows : tally.Onward onward)
    (released : after.released = state.released) (expired : after.expired = state.expired)
    (call : after.call = state.call)
    (cancels : moved.map Sweeper.cancelling = pool.map Sweeper.cancelling) :
    Paid graph points after moved onward where
  extra := by simpa only [follows.extra, released] using paid.extra
  bonus := by simpa only [follows.bonus, released] using paid.bonus
  dropped := fun node => by
    have same : (moved.map (Sweeper.cancels node)).sum = (pool.map (Sweeper.cancels node)).sum := by
      have counted (sweepers : Multiset Sweeper) : sweepers.map (Sweeper.cancels node) =
          (sweepers.map Sweeper.cancelling).map fun cancelling =>
            if cancelling = some node then 1 else 0 := by
        rw [Multiset.map_map]
        rfl
      rw [counted, counted, cancels]
    simpa only [follows.dropped, expired, same] using paid.dropped node
  atEnd := fun atEnd node member => follows.isOpen (paid.atEnd (call ▸ atEnd) node member)

theorem Paid.dropping (paid : Paid graph points state pool tally)
    (single : (points.map Prod.snd).Nodup) {load : Workload}
    (resolving : Resolving graph callables tally load)
    (claimed : Claimed points state.reactor state.call state.released state.expired
      (pool.map Sweeper.call)) : tally.Dropping where
  first := resolving.first
  dropped := fun node => by
    have dropped := paid.dropped node
    have resolved := Tracked.resolved_le claimed single node
    have one := List.nodup_iff_count_le_one.mp single node
    omega

/-- The threads that execute tasks go on. -/
theorem Tracked.work {action : RunAction workers}
    (tracked : Tracked graph callables points state pool)
    (waiting : graph.Waiting (points.map Prod.snd))
    (stepped : state.work graph callables action = some next) :
    Tracked graph callables points next pool := by
  obtain ⟨⟨run, rfl⟩, sameRuns, steps⟩ := GpuRun.load_work stepped pool
  obtain ⟨tally, resolving, paid⟩ := tracked.paid
  obtain ⟨onward, follows, resolved⟩ := resolving.steps waiting steps
  exact ⟨sameRuns.symm ▸ tracked.runs, tracked.linked, tracked.claimed, onward, resolved,
    paid.move follows rfl rfl rfl rfl⟩

theorem GpuRun.goOn_keeps {answers : Answers} (stepped : state.goOn answers = some next) :
    next.run = state.run ∧ next.released = state.released ∧ next.expired = state.expired ∧
      (next.call.isOver = true → state.call.isOver = true ∨
        state.call = .helping ∧ state.run.Ended) := by
  simp only [GpuRun.goOn] at stepped
  split at stepped
  next => cases stepped
  next => cases stepped; exact ⟨rfl, rfl, rfl, fun atEnd => by cases atEnd⟩
  next => cases stepped; exact ⟨rfl, rfl, rfl, fun atEnd => by cases atEnd⟩
  next => cases stepped; exact ⟨rfl, rfl, rfl, fun atEnd => by cases atEnd⟩
  next => cases stepped; exact ⟨rfl, rfl, rfl, fun atEnd => by cases atEnd⟩
  next =>
    obtain ⟨effect, -, rfl⟩ := Option.map_eq_some_iff.mp stepped
    exact ⟨rfl, rfl, rfl, fun atEnd => by cases atEnd⟩
  next isHelping =>
    split at stepped <;> cases stepped
    next ended => exact ⟨rfl, rfl, rfl, fun _ => .inr ⟨isHelping, ended⟩⟩
  next isLeaving =>
    cases stepped
    exact ⟨rfl, rfl, rfl, fun _ => .inl (by rw [isLeaving]; rfl)⟩
  next isHelped =>
    cases stepped
    exact ⟨rfl, rfl, rfl, fun _ => .inl (by rw [isHelped]; rfl)⟩

/-- `runAndWait` goes on. -/
theorem Tracked.goOn {answers : Answers} (tracked : Tracked graph callables points state pool)
    (waiting : graph.Waiting (points.map Prod.snd)) (single : (points.map Prod.snd).Nodup)
    (stepped : state.goOn answers = some next) : Tracked graph callables points next pool := by
  obtain ⟨known, linked⟩ := tracked.linked
  obtain ⟨tally, resolving, paid⟩ := tracked.paid
  obtain ⟨sameRun, released, expired, call⟩ := GpuRun.goOn_keeps stepped
  have dropping := paid.dropping single resolving tracked.claimed
  have closed (ended : state.run.Ended) (node : NodeId) (member : node ∈ graph.order) :
      tally.isOpen node = 0 :=
    (resolving.account.finished_of_done dropping waiting ended.2 member).1
  have sameLoad : next.load pool = state.load pool := by rw [GpuRun.load, sameRun, GpuRun.load]
  refine ⟨sameRun.symm ▸ tracked.runs, linked.goOn stepped,
    tracked.claimed.goOn linked stepped fun _ ended => ?_, tally, sameLoad.symm ▸ resolving, ?_⟩
  · exact paid.resolved resolving.account waiting single tracked.claimed (closed ended)
  · refine ⟨released ▸ paid.extra, released ▸ paid.bonus, expired ▸ paid.dropped, fun atEnd => ?_⟩
    rcases call atEnd with before | ⟨-, ended⟩
    · exact paid.atEnd before
    · exact closed ended

/-! ## The start of a run -/

theorem GpuRun.load_of_idle
    (idle : ∀ sweeper ∈ pool, sweeper.cancelling = none ∧ sweeper.stack = []) :
    state.load pool = state.run.load := by
  have none : (pool.bind fun sweeper => (↑sweeper.stack : Multiset Frame)) = 0 := by
    rw [Multiset.bind_congr fun sweeper member =>
      congrArg (Multiset.ofList) (idle sweeper member).2]
    simp
  simp [GpuRun.load, none, RunState.load]

/-- `runAndWait` is called when no call for a task is under way. -/
theorem Tracked.prepare {known : Set WaitId} {call : RunCall} (now : Int)
    (waiting : graph.Waiting (points.map Prod.snd)) (distinct : (points.map Prod.fst).Nodup)
    (idle : ∀ sweeper ∈ pool, sweeper.cancelling = none ∧ sweeper.stack = [])
    (shape : ∀ node, (state.run.shared.node node).type = (graph.node node).type ∧
      (state.run.shared.node node).initialInDegree = (graph.node node).initialInDegree ∧
      (state.run.shared.node node).successors = (graph.node node).successors)
    (empty : state.run.load.ready = 0 ∧ state.run.load.frames = 0)
    (linked : Linked points known state.reactor call (pool.map Sweeper.call))
    (none : ∀ point ∈ points,
      ((pool.map Sweeper.call).map (ReactorCall.claims point.1)).sum = 0)
    (passed : ∀ point ∈ points, point.1 ∈ known →
      (state.reactor.wait point.1).satisfied = true) :
    Tracked graph callables points (state.prepare graph (points.map Prod.fst) now) pool := by
  obtain ⟨todo, linking, looks, registers, running⟩ :
      (state.prepare graph (points.map Prod.fst) now).call.todo = points.map Prod.fst ∧
        (state.prepare graph (points.map Prod.fst) now).call.linking = Option.none ∧
        (state.prepare graph (points.map Prod.fst) now).call.looksAt = Option.none ∧
        (state.prepare graph (points.map Prod.fst) now).call.Registers ∧
        (state.prepare graph (points.map Prod.fst) now).call.isOver = false := by
    simp only [GpuRun.prepare]
    split
    next noNodes =>
      -- Without nodes there are no wait points either.
      rw [waiting.count, List.length_eq_zero_iff] at noNodes
      have noPoints : points = [] := by
        refine List.eq_nil_iff_forall_not_mem.mpr fun point member => ?_
        have inOrder := waiting.tasks_mem point.2 (List.mem_map_of_mem member)
        simp [noNodes] at inOrder
      subst noPoints
      exact ⟨rfl, rfl, rfl, trivial, rfl⟩
    next => exact ⟨rfl, rfl, rfl, trivial, rfl⟩
  refine ⟨Nat.succ_pos _, ⟨known, linked.prepare distinct passed todo linking looks registers⟩,
    .prepare linked none todo running, .opening graph ((points.map Prod.snd).count ·), ?_, ?_⟩
  · rw [GpuRun.load_of_idle idle]
    exact .prepare waiting shape empty
  · have noneCancelled (node : NodeId) : (pool.map (Sweeper.cancels node)).sum = 0 := by
      refine Multiset.sum_eq_zero fun value member => ?_
      obtain ⟨sweeper, isSweeper, rfl⟩ := Multiset.mem_map.mp member
      simp [Sweeper.cancels, (idle sweeper isSweeper).1]
    refine ⟨fun _ => rfl, fun _ => rfl, fun node => ?_, fun atEnd => ?_⟩
    · rw [noneCancelled]
      rfl
    · rw [running] at atEnd
      cases atEnd

/-! ## Steps of the sweeps -/

theorem TimelineReactor.step_of_fireSweep {reactor onward : TimelineReactor}
    {call moved : ReactorCall} {choice : SweepChoice}
    (fired : reactor.fireSweep call choice = some (onward, moved)) :
    ∃ effect, ReactorStep reactor call effect ∧ effect.reactor = onward ∧ effect.call = moved := by
  cases choice with
  | sweep sweep =>
      cases call <;> cases fired
      exact ⟨_, .begin sweep, rfl, rfl⟩
  | go answers =>
      obtain ⟨effect, performed, same, moves⟩ := exists_of_fireSweep fired
      exact ⟨effect, .of_fire performed, same, moves⟩

section

variable {sweeper : Sweeper} {rest : Multiset Sweeper}

/-- `handleGpuTimeout` comes to `onTaskCompleted`. -/
theorem Tracked.cancel {node : NodeId}
    (tracked : Tracked graph callables points state (sweeper ::ₘ rest))
    (waiting : graph.Waiting (points.map Prod.snd)) (single : (points.map Prod.snd).Nodup)
    (cancelling : sweeper.cancelling = some node) :
    Tracked graph callables points
      (state.setShared ((state.run.shared.onTaskCompleted node).record (.released node)))
      ({ sweeper with
          cancelling := none
          stack := cascade node (state.run.shared.node node).successors ++ sweeper.stack } ::ₘ
        rest) := by
  obtain ⟨known, linked⟩ := tracked.linked
  obtain ⟨tally, resolving, paid⟩ := tracked.paid
  have mine : sweeper.cancels node = 1 := by simp [Sweeper.cancels, cancelling]
  have dropped := paid.dropped node
  have extra := paid.extra node
  have resolved := Tracked.resolved_le tracked.claimed single node
  have one := List.nodup_iff_count_le_one.mp single node
  rw [Multiset.map_cons, Multiset.sum_cons, mine] at dropped
  have isExtra : 0 < tally.extra node := by omega
  have first : tally.dropped node = 0 := by omega
  have whole := resolving.account
  rw [GpuRun.load_cons] at whole
  have account := whole.drop waiting.distinct isExtra first
  rw [Multiset.map_cons] at linked
  refine ⟨tracked.runs, ⟨known, ?_⟩, ?_, tally.drop node, ⟨?_, resolving.first, ?_, ?_⟩, ?_⟩
  · rwa [Multiset.map_cons]
  · have claimed := tracked.claimed
    rw [Multiset.map_cons] at claimed
    rwa [Multiset.map_cons]
  · rw [GpuRun.load_cons, ← Multiset.coe_add, add_assoc]
    exact account
  · intro frame member
    rw [GpuRun.load_cons, ← Multiset.coe_add, add_assoc] at member
    rcases Multiset.mem_add.mp member with isNew | isOld
    · cases successors : (state.run.shared.node node).successors <;>
        simp [successors, cascade] at isNew
      rw [isNew]
      trivial
    · refine resolving.calm frame ?_
      rw [GpuRun.load_cons]
      exact isOld
  · intro other executed isCondition
    exact resolving.answered other (by simpa [GpuRun.load, GpuRun.setShared] using executed)
      isCondition
  · refine ⟨paid.extra, paid.bonus, fun other => ?_, fun atEnd other member => ?_⟩
    · have before := paid.dropped other
      rw [Multiset.map_cons, Multiset.sum_cons] at before ⊢
      by_cases same : other = node
      · subst same
        rw [mine, first] at before
        simpa [Sweeper.cancels, Tally.drop, GpuRun.setShared] using before
      · have notMine : sweeper.cancels other = 0 := by
          simp [Sweeper.cancels, cancelling, Ne.symm same]
        rw [notMine] at before
        simpa [Sweeper.cancels, Tally.drop, same, GpuRun.setShared] using before
    · have before := paid.atEnd atEnd other member
      by_cases same : other = node
      · simp [same, Tally.isOpen, Tally.drop]
      · simpa [Tally.isOpen, Tally.drop, same] using before

/-- A call for a task in a sweep goes on. -/
theorem Tracked.goDown {frame : Frame} {stack : List Frame} {effect : Effect}
    (tracked : Tracked graph callables points state (sweeper ::ₘ rest))
    (waiting : graph.Waiting (points.map Prod.snd)) (onTop : sweeper.stack = frame :: stack)
    (fired : frame.fire callables false state.run.shared = some effect) :
    Tracked graph callables points
      { state with
        run :=
          { state.run with
            shared := effect.shared
            queued := state.run.queued ++ effect.queued } }
      ({ sweeper with stack := effect.frames ++ stack } ::ₘ rest) := by
  obtain ⟨known, linked⟩ := tracked.linked
  obtain ⟨tally, resolving, paid⟩ := tracked.paid
  have claimed := tracked.claimed
  rw [Multiset.map_cons] at linked claimed
  have staged : effect.staged = none :=
    (RunState.staged_of_fire fired).resolve_right Bool.false_ne_true
  rw [GpuRun.load_cons, onTop, ← Multiset.cons_coe, Multiset.cons_add] at resolving
  obtain ⟨onward, follows, resolved⟩ := resolving.step waiting (.fire trivial fired)
  refine ⟨tracked.runs, ⟨known, ?_⟩, ?_, onward, ?_, ?_⟩
  · rwa [Multiset.map_cons]
  · rwa [Multiset.map_cons]
  · have sameLoad : GpuRun.load
          { state with
            run :=
              { state.run with
                shared := effect.shared
                queued := state.run.queued ++ effect.queued } }
          ({ sweeper with stack := effect.frames ++ stack } ::ₘ rest) =
        ⟨effect.shared,
          ↑effect.staged.toList + (↑effect.queued + (state.load rest).ready),
          ↑effect.frames + (↑stack + (state.load rest).frames)⟩ := by
      rw [GpuRun.load_cons, ← Multiset.coe_add, add_assoc, staged]
      simp only [GpuRun.load, RunState.load, RunState.unscheduled, Workload.mk.injEq, true_and,
        and_true, ← Multiset.coe_add, Option.toList_none, Multiset.coe_nil]
      abel
    rw [sameLoad]
    exact resolved
  · exact paid.move follows rfl rfl rfl (by simp only [Multiset.map_cons])

/-- A sweep goes on, and does not call the function of a task. -/
theorem Tracked.sweep {choice : SweepChoice} {reactor : TimelineReactor} {moved : ReactorCall}
    (tracked : Tracked graph callables points state (sweeper ::ₘ rest))
    (idle : sweeper.cancelling = none ∧ sweeper.stack = [])
    (before : ∀ kind now curr result, sweeper.call ≠ .calling kind now curr result)
    (fired : state.reactor.fireSweep sweeper.call choice = some (reactor, moved)) :
    Tracked graph callables points { state with reactor }
      (({ call := moved } : Sweeper) ::ₘ rest) := by
  obtain ⟨known, linked⟩ := tracked.linked
  obtain ⟨tally, resolving, paid⟩ := tracked.paid
  have claimed := tracked.claimed
  rw [Multiset.map_cons] at linked claimed
  have sweeps := (linked.sweeps sweeper.call (Multiset.mem_cons_self _ _)).1
  have stays := (TimelineReactor.fireSweep_keeps sweeps fired).1
  obtain ⟨effect, step, rfl, rfl⟩ := TimelineReactor.step_of_fireSweep fired
  refine ⟨tracked.runs, ⟨known, ?_⟩, ?_, tally, ?_, ?_⟩
  · rw [Multiset.map_cons]
    exact linked.swept step stays
  · rw [Multiset.map_cons]
    exact claimed.swept linked step stays before
  · rw [GpuRun.load_cons, idle.2] at resolving
    rw [GpuRun.load_cons]
    exact resolving
  · exact paid.move (.refl tally) rfl rfl rfl (by simp only [Multiset.map_cons, idle.1])

/-- At the call of a task's function, the sweep goes on to the next wait node after it. -/
theorem TimelineReactor.fireSweep_calling {reactor onward : TimelineReactor} {kind : Sweep}
    {now : Int} {curr : WaitId} {result : Nat} {choice : SweepChoice} {moved : ReactorCall}
    {node : NodeId} (task : (reactor.wait curr).task = some node)
    (fired : reactor.fireSweep (.calling kind now curr result) choice = some (onward, moved)) :
    onward = reactor ∧ ∃ further, moved = .visiting kind now (reactor.next curr) further := by
  cases choice with
  | sweep sweep => cases fired
  | go answers =>
      simp only [fireSweep, ReactorCall.fire, task] at fired
      split at fired <;> cases fired <;> exact ⟨rfl, _, rfl⟩

/-- A sweep calls the function of a task. -/
theorem Tracked.resolve {kind : Sweep} {now : Int} {curr : WaitId} {result : Nat}
    {choice : SweepChoice} {reactor : TimelineReactor} {moved : ReactorCall}
    (tracked : Tracked graph callables points state (sweeper ::ₘ rest))
    (waiting : graph.Waiting (points.map Prod.snd)) (distinct : (points.map Prod.fst).Nodup)
    (single : (points.map Prod.snd).Nodup)
    (idle : sweeper.cancelling = none ∧ sweeper.stack = [])
    (isCall : sweeper.call = .calling kind now curr result)
    (fired : state.reactor.fireSweep sweeper.call choice = some (reactor, moved)) :
    Tracked graph callables points ({ state with reactor }.resolve kind curr moved).1
      (({ state with reactor }.resolve kind curr moved).2 ::ₘ rest) := by
  obtain ⟨known, linked⟩ := tracked.linked
  obtain ⟨tally, resolving, paid⟩ := tracked.paid
  have claimed := tracked.claimed
  rw [Multiset.map_cons] at linked claimed
  have stays := (TimelineReactor.fireSweep_keeps
    (linked.sweeps sweeper.call (Multiset.mem_cons_self _ _)).1 fired).1
  obtain ⟨effect, step, rfl, rfl⟩ := TimelineReactor.step_of_fireSweep fired
  have further := linked.swept step stays
  rw [isCall] at fired claimed linked
  obtain ⟨-, node, member, task⟩ := linked.exists_point rfl
  obtain ⟨sameReactor, result', moves⟩ := TimelineReactor.fireSweep_calling task fired
  obtain ⟨notReleased, notExpired, -, -, running⟩ := claimed.of_claims member (by simp)
  have isTask : node ∈ points.map Prod.snd := List.mem_map_of_mem (f := Prod.snd) member
  have extra := paid.extra node
  have dropped := paid.dropped node
  rw [count_snd single claimed.ofReleased member, notReleased,
    List.count_eq_one_of_mem single isTask] at extra
  rw [count_snd single claimed.ofExpired member, notExpired] at dropped
  rw [GpuRun.load_cons, idle.2] at resolving
  simp only [GpuRun.resolve, sameReactor, task]
  split
  next isTimeouts =>
    subst isTimeouts
    refine ⟨tracked.runs, ⟨known, ?_⟩, ?_, tally, ⟨?_, resolving.first, ?_, ?_⟩, ?_⟩
    · rw [Multiset.map_cons]
      exact sameReactor ▸ further
    · rw [Multiset.map_cons, moves]
      exact claimed.expire distinct member
    · rw [GpuRun.load_cons]
      exact resolving.account.setState .timeout
    · rw [GpuRun.load_cons]
      exact resolving.calm
    · intro other executed isCondition
      have stored := state.run.shared.setState_node node other .timeout
      have answered := resolving.answered other executed
      simp only [GpuRun.load, GpuRun.setShared, stored] at isCondition ⊢
      exact answered isCondition
    · refine ⟨paid.extra, paid.bonus, fun other => ?_, fun atEnd =>
        absurd (running.symm.trans atEnd) Bool.false_ne_true⟩
      have before := paid.dropped other
      rw [Multiset.map_cons, Multiset.sum_cons] at before ⊢
      have none : sweeper.cancels other = 0 := by simp [Sweeper.cancels, idle.1]
      rw [none] at before
      simp only [Sweeper.cancels, List.map_cons, List.count_cons, Option.some.injEq]
      by_cases same : node = other
      · simp only [same, ↓reduceIte, beq_self_eq_true]
        omega
      · simp only [same, ↓reduceIte, beq_iff_eq]
        omega
  next other =>
    have narrow := (waiting.narrow node).trans (by decide : 65535 ≤ 2 ^ 16)
    have stuck : tally.dropped node < tally.extra node := by omega
    generalize decremented : decrementActive (state.run.shared.node node).inDegree = result
    obtain ⟨inDegree, unblocked⟩ := result
    have account := resolving.account.releaseWait waiting.distinct narrow stuck decremented
    rw [Multiset.coe_nil, zero_add] at account
    refine ⟨tracked.runs, ⟨known, ?_⟩, ?_, tally.releaseWait node, ⟨?_, resolving.first, ?_, ?_⟩,
      ?_⟩
    · rw [Multiset.map_cons]
      exact sameReactor ▸ further
    · rw [Multiset.map_cons, moves]
      exact claimed.release distinct member other
    · rw [GpuRun.load_cons]
      exact account
    · intro frame inFrames
      rw [GpuRun.load_cons] at inFrames
      rcases Multiset.mem_add.mp inFrames with isNew | isOld
      · cases unblocked <;> simp at isNew
        rw [isNew]
        trivial
      · exact resolving.calm frame (Multiset.mem_add.mpr (.inr isOld))
    · intro query executed isCondition
      have stored := state.run.shared.setInDegree_node node query inDegree
      have answered := resolving.answered query executed
      simp only [GpuRun.load, GpuRun.setShared, stored] at isCondition ⊢
      exact answered isCondition
    · refine ⟨fun query => ?_, fun query => ?_, fun query => ?_, fun atEnd =>
        absurd (running.symm.trans atEnd) Bool.false_ne_true⟩
      · have before := paid.extra query
        simp only [Tally.releaseWait, Tally.decrement, List.map_cons, List.count_cons]
        by_cases same : query = node
        · subst same
          simp only [Function.update_self, beq_self_eq_true, ↓reduceIte]
          omega
        · simpa [same, Ne.symm same] using before
      · have before := paid.bonus query
        simp only [Tally.releaseWait, Tally.decrement, List.map_cons, List.count_cons]
        by_cases same : query = node
        · subst same
          simp only [Function.update_self, beq_self_eq_true, ↓reduceIte]
          omega
        · simpa [same, Ne.symm same] using before
      · have before := paid.dropped query
        rw [Multiset.map_cons, Multiset.sum_cons] at before ⊢
        simpa [Sweeper.cancels, idle.1, Tally.releaseWait, Tally.decrement, GpuRun.setShared]
          using before

/-- Everything a thread that calls the reactor can do. -/
inductive SweeperStep (callables : Callables) (state : GpuRun workers) (sweeper : Sweeper)
    (choice : SweepChoice) : GpuRun workers × Sweeper → Prop where
  | cancel {node : NodeId} (cancelling : sweeper.cancelling = some node) :
      SweeperStep callables state sweeper choice
        (state.setShared ((state.run.shared.onTaskCompleted node).record (.released node)),
          { sweeper with
            cancelling := none
            stack := cascade node (state.run.shared.node node).successors ++ sweeper.stack })
  | goDown {frame : Frame} {stack : List Frame} {effect : Effect}
      (onTop : sweeper.stack = frame :: stack)
      (fired : frame.fire callables false state.run.shared = some effect) :
      SweeperStep callables state sweeper choice
        ({ state with
            run :=
              { state.run with
                shared := effect.shared
                queued := state.run.queued ++ effect.queued } },
          { sweeper with stack := effect.frames ++ stack })
  | sweep {reactor : TimelineReactor} {moved : ReactorCall}
      (idle : sweeper.cancelling = none ∧ sweeper.stack = [])
      (before : ∀ kind now curr result, sweeper.call ≠ .calling kind now curr result)
      (fired : state.reactor.fireSweep sweeper.call choice = some (reactor, moved)) :
      SweeperStep callables state sweeper choice ({ state with reactor }, { call := moved })
  | resolve {reactor : TimelineReactor} {moved : ReactorCall} {kind : Sweep} {now : Int}
      {curr : WaitId} {result : Nat} (idle : sweeper.cancelling = none ∧ sweeper.stack = [])
      (isCall : sweeper.call = .calling kind now curr result)
      (fired : state.reactor.fireSweep sweeper.call choice = some (reactor, moved)) :
      SweeperStep callables state sweeper choice ({ state with reactor }.resolve kind curr moved)

theorem SweeperStep.of_fire {choice : SweepChoice} {after : GpuRun workers × Sweeper}
    (fired : state.fire callables sweeper choice = some after) :
    SweeperStep callables state sweeper choice after := by
  simp only [GpuRun.fire] at fired
  split at fired
  next node cancelling =>
    cases fired
    exact .cancel cancelling
  next frame stack _ onTop =>
    obtain ⟨effect, performed, rfl⟩ := Option.map_eq_some_iff.mp fired
    exact .goDown onTop performed
  next notCancelling empty =>
    obtain ⟨⟨reactor, moved⟩, performed, rfl⟩ := Option.map_eq_some_iff.mp fired
    split
    next kind now curr result isCall => exact .resolve ⟨notCancelling, empty⟩ isCall performed
    next other =>
      exact .sweep ⟨notCancelling, empty⟩ (fun kind now curr result => other kind now curr result)
        performed

/-- A step of a thread that calls the reactor. -/
theorem Tracked.fire {choice : SweepChoice} {after : GpuRun workers × Sweeper}
    (tracked : Tracked graph callables points state (sweeper ::ₘ rest))
    (waiting : graph.Waiting (points.map Prod.snd)) (distinct : (points.map Prod.fst).Nodup)
    (single : (points.map Prod.snd).Nodup)
    (fired : state.fire callables sweeper choice = some after) :
    Tracked graph callables points after.1 (after.2 ::ₘ rest) := by
  cases SweeperStep.of_fire fired with
  | cancel cancelling => exact tracked.cancel waiting single cancelling
  | goDown onTop performed => exact tracked.goDown waiting onTop performed
  | sweep idle before performed => exact tracked.sweep idle before performed
  | resolve idle isCall performed =>
      exact tracked.resolve waiting distinct single idle isCall performed

/-! ## Before the first run -/

theorem Untouched.idle (untouched : Untouched graph points state pool) :
    ∀ sweeper ∈ pool, sweeper.cancelling = none ∧ sweeper.stack = [] := by
  refine fun sweeper member => ⟨untouched.cancelling sweeper member, ?_⟩
  obtain ⟨rest, rfl⟩ := Multiset.exists_cons_of_mem member
  have frames := untouched.frames
  rw [GpuRun.load_cons, add_eq_zero] at frames
  exact Multiset.coe_eq_zero _ |>.mp frames.1

theorem Untouched.fresh (fresh : state.Fresh graph points) (idle : ∀ sweeper ∈ pool, sweeper = {}) :
    (points.map Prod.fst).Nodup ∧ Untouched graph points state pool := by
  obtain ⟨run, head, call, -, -, distinct, waits⟩ := fresh
  have quiet : ∀ sweeper ∈ pool, sweeper.cancelling = none ∧ sweeper.stack = [] :=
    fun sweeper member => by simp [idle sweeper member]
  refine ⟨distinct, ?_, call, ?_, ?_, ?_, fun sweeper member => (quiet sweeper member).1, ?_⟩
  · rw [run, TaskGraph.initialState]
  · rw [run, TaskGraph.initialState]
  · rw [GpuRun.load_of_idle quiet, run]
    simp [RunState.load, TaskGraph.initialState, RunState.unscheduled, RunState.slots]
  · rw [GpuRun.load_of_idle quiet, run]
    simp [RunState.load, TaskGraph.initialState, RunState.calls]
  · exact
      { tasks := fun point member => (waits point member).1
        listed := by simp
        head := by simp [head]
        next := by simp
        sweeps := fun sweep member => by
          obtain ⟨sweeper, isSweeper, rfl⟩ := Multiset.mem_map.mp member
          rw [idle sweeper isSweeper]
          exact ⟨rfl, by simp [ReactorCall.looksAt]⟩
        registers := trivial
        looks := by simp [RunCall.looksAt]
        todo := by simp [RunCall.linking, RunCall.todo]
        distinct := by simp [RunCall.linking, RunCall.todo]
        passed := by simp [RunCall.todo] }

theorem Untouched.work {action : RunAction workers} (untouched : Untouched graph points state pool)
    (stepped : state.work graph callables action = some next) :
    Untouched graph points next pool := by
  obtain ⟨⟨run, rfl⟩, sameRuns, steps⟩ := GpuRun.load_work stepped pool
  obtain ⟨sameNodes, -, stillEmpty⟩ :=
    Workload.steps_of_empty ⟨untouched.ready, untouched.frames⟩ steps
  exact ⟨sameRuns.trans untouched.runs, untouched.call, sameNodes.trans untouched.nodes,
    stillEmpty.1, stillEmpty.2, untouched.cancelling, untouched.linked⟩

theorem Untouched.fire {choice : SweepChoice} {after : GpuRun workers × Sweeper}
    (untouched : Untouched graph points state (sweeper ::ₘ rest))
    (fired : state.fire callables sweeper choice = some after) :
    Untouched graph points after.1 (after.2 ::ₘ rest) := by
  have quiet := untouched.idle sweeper (Multiset.mem_cons_self _ _)
  have linked := untouched.linked
  rw [Multiset.map_cons] at linked
  cases SweeperStep.of_fire fired with
  | cancel cancelling => simp [quiet.1] at cancelling
  | goDown onTop => simp [quiet.2] at onTop
  | resolve idle isCall =>
      rw [isCall] at linked
      exact absurd (linked.exists_point rfl).1 (Set.notMem_empty _)
  | sweep idle before performed =>
      have sweeps := (linked.sweeps sweeper.call (Multiset.mem_cons_self _ _)).1
      have stays := (TimelineReactor.fireSweep_keeps sweeps performed).1
      have ready := untouched.ready
      have frames := untouched.frames
      rw [GpuRun.load_cons] at ready frames
      rw [quiet.2] at frames
      obtain ⟨effect, step, rfl, rfl⟩ := TimelineReactor.step_of_fireSweep performed
      refine ⟨untouched.runs, untouched.call, untouched.nodes, ?_, ?_, fun other member => ?_, ?_⟩
      · rw [GpuRun.load_cons]
        exact ready
      · rw [GpuRun.load_cons]
        exact frames
      · rcases Multiset.mem_cons.mp member with rfl | isOld
        · rfl
        · exact untouched.cancelling other (Multiset.mem_cons_of_mem isOld)
      · rw [Multiset.map_cons]
        exact linked.swept step stays

end

/-! ## All runs -/

/-- A run is prepared before the first one, or when the last one is over. -/
theorem Tracked.again (now : Int) (tracked : Tracked graph callables points state pool)
    (waiting : graph.Waiting (points.map Prod.snd)) (distinct : (points.map Prod.fst).Nodup)
    (outside : state.call = .outside)
    (idle : ∀ sweeper ∈ pool, sweeper.cancelling = none ∧ sweeper.stack = [])
    (frames : state.run.load.frames = 0) :
    Tracked graph callables points (state.prepare graph (points.map Prod.fst) now) pool := by
  obtain ⟨known, linked⟩ := tracked.linked
  obtain ⟨tally, resolving, paid⟩ := tracked.paid
  have atEnd : state.call.isOver = true := by rw [outside]; rfl
  rw [GpuRun.load_of_idle idle] at resolving
  have account := resolving.account
  refine .prepare now waiting distinct idle account.shape ⟨?_, frames⟩ linked
    (fun point member => (tracked.claimed.no_claims atEnd member).2) fun point member _ => ?_
  · refine Multiset.eq_zero_of_forall_notMem fun node member => ?_
    have carried : 0 < state.run.load.amount (.carried node) := by
      obtain ⟨others, split⟩ := Multiset.exists_cons_of_mem member
      simp [Workload.amount, split]
    obtain ⟨inOrder, notClosed, notDropped, -⟩ := account.need_eq_zero carried waiting.distinct
    have isOpen := paid.atEnd atEnd node inOrder
    simp [Tally.isOpen, notClosed, notDropped] at isOpen
  · have free := (tracked.claimed.no_claims atEnd member).1
    rw [isFree] at free
    split at free
    next => simp at free
    next resolved => exact Bool.not_eq_false _ |>.mp fun unsatisfied => resolved (.inr unsatisfied)

/-- From the first run on, in every state of every run, the account agrees with what became of
the wait nodes. -/
theorem tracked_of_reachable (waiting : graph.Waiting (points.map Prod.snd))
    (single : (points.map Prod.snd).Nodup) {sweepers : Nat}
    {state : Program.State (GpuRun workers) Sweeper sweepers}
    (reachable : GpuRunReachable graph callables points state) :
    (points.map Prod.fst).Nodup ∧ (Untouched graph points state.shared state.pool ∨
      Tracked graph callables points state.shared state.pool) := by
  refine Program.invariant_among (motive := fun state pool => (points.map Prod.fst).Nodup ∧
    (Untouched graph points state pool ∨ Tracked graph callables points state pool)) ?_ ?_ ?_
    reachable
  · intro state pool fresh idle
    obtain ⟨distinct, untouched⟩ := Untouched.fresh fresh idle
    exact ⟨distinct, .inl untouched⟩
  · rintro state pool action next ⟨distinct, law⟩ prepared stepped
    refine ⟨distinct, ?_⟩
    cases action with
    | runAndWait now =>
        simp only [gpuRunProgram] at stepped
        split at stepped <;> cases stepped
        next outside =>
          obtain ⟨returned, idle⟩ := prepared
          have frames : state.run.load.frames = 0 := by
            simp [RunState.load, RunState.calls, returned]
          rcases law with untouched | tracked
          · have ready := untouched.ready
            rw [GpuRun.load_of_idle idle] at ready
            have noClaims : ∀ point ∈ points,
                ((pool.map Sweeper.call).map (ReactorCall.claims point.1)).sum = 0 := by
              intro point _
              refine Multiset.sum_eq_zero fun value member => ?_
              obtain ⟨call, isCall, rfl⟩ := Multiset.mem_map.mp member
              by_contra some
              have looks := ReactorCall.looksAt_of_claims (Nat.pos_of_ne_zero some)
              exact (untouched.linked.sweeps call isCall).2 _ looks
            exact .inr (.prepare now waiting distinct idle
              (fun node => by rw [untouched.nodes]; exact ⟨rfl, rfl, rfl⟩) ⟨ready, frames⟩
              untouched.linked noClaims fun _ _ isKnown => absurd isKnown (Set.notMem_empty _))
          · exact .inr (tracked.again now waiting distinct outside idle frames)
    | goOn answers =>
        rcases law with untouched | tracked
        · simp [gpuRunProgram, GpuRun.goOn, untouched.call] at stepped
        · exact .inr (tracked.goOn waiting single stepped)
    | work action =>
        exact law.imp (fun untouched => untouched.work stepped)
          fun tracked => tracked.work waiting stepped
  · rintro state sweeper rest choice next moved ⟨distinct, law⟩ - fired
    exact ⟨distinct, law.imp (fun untouched => untouched.fire fired)
      fun tracked => tracked.fire waiting distinct single fired⟩

end LightFlow
