import LightFlow.Gpu.Sweeps

/-!
# Runs side by side

Calls of `runAndWait` for different graphs, each from a thread of its own, share the reactor,
its timeout flag and the arenas of the workers.  Every run resets all of them when it ends,
and the flag when it begins, whether or not another run still needs them; and it reads the flag
whoever has set it.
-/

namespace LightFlow

/-- `enum class Status`, as far as `runAndWait` returns it. -/
inductive Status where
  | success
  | gpuTimeout
  deriving DecidableEq, Repr

/-- Memory of a worker arena that holds nodes and edges of a subflow. -/
structure ArenaBlock (graphs : Nat) where
  graph : Fin graphs
  address : Nat
  deriving DecidableEq, Repr

/-- The rest of a call of `runAndWait(graph)`. -/
inductive RunPhase where
  /-- No call. -/
  | idle
  /-- At `resetTimeout`. -/
  | resettingTimeout
  /-- In the loop of `prepareRun` over the wait nodes. -/
  | registering (todo : List WaitId)
  /-- In `helpUntil`, up to its read of `hasTimeout`. -/
  | helping
  /-- In `resetWorkerArenas` at the arena of a worker. -/
  | resettingArenas (worker : Nat)
  /-- In `TimelineReactor::reset` at the store of `m_head`. -/
  | resettingHead
  /-- In `TimelineReactor::reset` at the store of `m_pendingCount`. -/
  | resettingCount
  /-- In `TimelineReactor::reset` at the store of `m_hasTimeout`. -/
  | resettingFlag
  deriving DecidableEq, Repr

/-- What happened to the timeout flag and in the arenas, and the results of runs. -/
inductive RunsEvent (graphs workers : Nat) where
  /-- A run of the graph stored false in `m_hasTimeout` at its begin. -/
  | began (graph : Fin graphs)
  /-- `m_hasTimeout` was set for a wait node. -/
  | timedOut (wait : WaitId)
  | allocated (worker : Fin workers) (block : ArenaBlock graphs)
  /-- `helpUntil` returned the status that the run of the graph returns. -/
  | returned (graph : Fin graphs) (status : Status)
  /-- A run of the graph stored false in `m_hasTimeout` at its end. -/
  | ended (graph : Fin graphs)
  deriving DecidableEq, Repr

structure RunsState (graphs workers : Nat) where
  reactor : TimelineReactor
  /-- The chain from `m_firstWaitNode` through `nextInGraph`, for each graph. -/
  m_firstWaitNode : Fin graphs → List WaitId
  /-- What is allocated in the arena of each worker. -/
  arena : Fin workers → List (ArenaBlock graphs) := fun _ => []
  phase : Fin graphs → RunPhase := fun _ => .idle
  /-- The wait nodes registered since `m_head` was last reset, newest first. -/
  linked : List WaitId := []
  /-- Newest event first. -/
  log : List (RunsEvent graphs workers) := []

/-- What the threads that run graphs do, and the workers for them. -/
inductive RunsAction (graphs workers : Nat) where
  /-- `runAndWait` of the graph goes on; `now` is the clock that `prepareRun` reads. -/
  | run (graph : Fin graphs) (now : Int)
  /-- A worker executes a subflow of the graph, which allocates from its arena. -/
  | allocate (worker : Fin workers) (block : ArenaBlock graphs)
  deriving DecidableEq, Repr

namespace RunsState

variable {graphs workers : Nat}

def setPhase (state : RunsState graphs workers) (graph : Fin graphs) (phase : RunPhase) :
    RunsState graphs workers :=
  { state with phase := Function.update state.phase graph phase }

/-- The result of `helpUntil`. -/
def status (state : RunsState graphs workers) : Status :=
  if state.reactor.m_hasTimeout then .gpuTimeout else .success

/-- The next access of `runAndWait(graph)`. -/
def run (state : RunsState graphs workers) (graph : Fin graphs) (now : Int) :
    RunsState graphs workers :=
  match state.phase graph with
  | .idle => state.setPhase graph .resettingTimeout
  | .resettingTimeout =>
      { state with
        reactor := state.reactor.resetTimeout
        log := .began graph :: state.log }.setPhase graph
          (.registering (state.m_firstWaitNode graph))
  | .registering [] => state.setPhase graph .helping
  | .registering (node :: todo) =>
      { state with
        reactor := state.reactor.registerWaits now [node]
        linked := node :: state.linked }.setPhase graph (.registering todo)
  | .helping =>
      { state with
        log := .returned graph state.status :: state.log }.setPhase graph (.resettingArenas 0)
  | .resettingArenas worker =>
      if inRange : worker < workers then
        { state with arena := Function.update state.arena ⟨worker, inRange⟩ [] }.setPhase graph
          (.resettingArenas (worker + 1))
      else state.setPhase graph .resettingHead
  | .resettingHead =>
      { state with
        reactor := { state.reactor with m_head := none }
        linked := [] }.setPhase graph .resettingCount
  | .resettingCount =>
      { state with reactor := { state.reactor with m_pendingCount := 0 } }.setPhase graph
        .resettingFlag
  | .resettingFlag =>
      { state with
        reactor := { state.reactor with m_hasTimeout := false }
        log := .ended graph :: state.log }.setPhase graph .idle

def act (state : RunsState graphs workers) : RunsAction graphs workers →
    Option (RunsState graphs workers)
  | .run graph now => some (state.run graph now)
  | .allocate worker block =>
      if state.phase block.graph = .helping then
        some
          { state with
            arena := Function.update state.arena worker (block :: state.arena worker)
            log := .allocated worker block :: state.log }
      else none

/-- One step of a sweep. -/
def fire (state : RunsState graphs workers) (call : ReactorCall) (choice : SweepChoice) :
    Option (RunsState graphs workers × ReactorCall) :=
  (state.reactor.fireSweep call choice).map fun (reactor, moved) =>
    ({ state with
        reactor
        log :=
          match call with
          | .flagging _ curr => .timedOut curr :: state.log
          | _ => state.log }, moved)

/-- Nothing runs, and a wait node belongs to one graph. -/
def Fresh (state : RunsState graphs workers) : Prop :=
  state.reactor.m_head = none ∧ state.reactor.m_hasTimeout = false ∧
    (∀ graph, (state.m_firstWaitNode graph).Nodup) ∧
    (∀ graph other node, node ∈ state.m_firstWaitNode graph →
      node ∈ state.m_firstWaitNode other → graph = other) ∧
    (∀ worker, state.arena worker = []) ∧ (∀ graph, state.phase graph = .idle) ∧
    state.linked = [] ∧ state.log = []

/-- The wait node is in the list of the reactor. -/
def Lists (state : RunsState graphs workers) (node : WaitId) : Prop :=
  ∃ nodes, Segment state.reactor.next state.reactor.m_head nodes ∧ node ∈ nodes

end RunsState

/-- The wait nodes that timed out since a run last stored false in `m_hasTimeout`. -/
def timedOutSince {graphs workers : Nat} : List (RunsEvent graphs workers) → List WaitId
  | [] => []
  | .began _ :: _ | .ended _ :: _ => []
  | .timedOut node :: older => node :: timedOutSince older
  | .allocated _ _ :: older | .returned _ _ :: older => timedOutSince older

/-- What happened since a run of the graph last began, newest first. -/
def inRun {graphs workers : Nat} (graph : Fin graphs) (log : List (RunsEvent graphs workers)) :
    List (RunsEvent graphs workers) :=
  log.takeWhile (· ≠ .began graph)

/-- One of the wait nodes timed out since a run of the graph last began. -/
def timedOutInRun {graphs workers : Nat} (graph : Fin graphs) (nodes : List WaitId)
    (log : List (RunsEvent graphs workers)) : Prop :=
  ∃ node ∈ nodes, .timedOut node ∈ inRun graph log

instance {graphs workers : Nat} (log : List (RunsEvent graphs workers)) (graph : Fin graphs)
    (nodes : List WaitId) : Decidable (timedOutInRun graph nodes log) :=
  inferInstanceAs (Decidable (∃ _ ∈ _, _))

/-- Any number of graphs that are run side by side, and of threads that sweep. -/
def runsProgram (graphs workers : Nat) :
    Program (RunsState graphs workers) ReactorCall (RunsAction graphs workers) SweepChoice where
  solo := RunsState.act
  fire := RunsState.fire

abbrev runsMachine (graphs workers threads : Nat) :
    Machine (Program.State (RunsState graphs workers) ReactorCall threads)
      (Program.Action (RunsAction graphs workers) SweepChoice threads) :=
  (runsProgram graphs workers).machine RunsState.Fresh .idle threads

/-- The call has reset the flag and not read it. -/
def RunPhase.isRunning : RunPhase → Bool
  | .registering _ | .helping => true
  | _ => false

/-- The next access of the run takes nothing away that another run needs.

* A store of false in `m_hasTimeout`, at the begin and at the end of a run, comes while no other
  run has a wait node that timed out since it began and whose timeout it has still to read.
* The arena of a worker is reset while it holds no memory of another graph.
* `m_head` is reset while the list holds no unsatisfied wait node of another graph. -/
def RunsState.TakesOwn {graphs workers : Nat} (state : RunsState graphs workers)
    (graph : Fin graphs) : RunPhase → Prop
  | .resettingTimeout | .resettingFlag =>
      ∀ other, other ≠ graph → (state.phase other).isRunning = true →
        ¬ timedOutInRun other (state.m_firstWaitNode other) state.log
  | .resettingArenas worker =>
      ∀ inRange : worker < workers, ∀ block ∈ state.arena ⟨worker, inRange⟩, block.graph = graph
  | .resettingHead =>
      ∀ node ∈ state.linked, (state.reactor.wait node).satisfied = false →
        node ∈ state.m_firstWaitNode graph
  | .idle | .registering _ | .helping | .resettingCount => True

instance {graphs workers : Nat} (state : RunsState graphs workers) (graph : Fin graphs) :
    DecidablePred (state.TakesOwn graph)
  | .resettingTimeout | .resettingFlag => inferInstanceAs (Decidable (∀ _, _ → _ → _))
  | .resettingArenas _ => inferInstanceAs (Decidable (∀ _, ∀ _ ∈ _, _))
  | .resettingHead => inferInstanceAs (Decidable (∀ _ ∈ _, _))
  | .idle | .registering _ | .helping | .resettingCount => inferInstanceAs (Decidable True)

/-- Where the run reads `m_hasTimeout`, only its own wait nodes timed out since the flag was last
reset. -/
def RunsState.ReadsOwn {graphs workers : Nat} (state : RunsState graphs workers)
    (graph : Fin graphs) : Prop :=
  state.phase graph = .helping →
    ∀ node ∈ timedOutSince state.log, node ∈ state.m_firstWaitNode graph

instance {graphs workers : Nat} (state : RunsState graphs workers) (graph : Fin graphs) :
    Decidable (state.ReadsOwn graph) :=
  inferInstanceAs (Decidable (_ → ∀ _ ∈ _, _))

/-- The run takes nothing from other graphs at its next access, and reads nothing of theirs. -/
def RunsAction.Undisturbing {graphs workers : Nat} (state : RunsState graphs workers) :
    RunsAction graphs workers → Prop
  | .run graph _ => state.TakesOwn graph (state.phase graph) ∧ state.ReadsOwn graph
  | .allocate _ _ => True

instance {graphs workers : Nat} (state : RunsState graphs workers) :
    DecidablePred (RunsAction.Undisturbing state)
  | .run graph _ => inferInstanceAs (Decidable (state.TakesOwn graph (state.phase graph) ∧ _))
  | .allocate _ _ => inferInstanceAs (Decidable True)

abbrev undisturbing {graphs workers threads : Nat} :
    Program.State (RunsState graphs workers) ReactorCall threads →
      Program.Action (RunsAction graphs workers) SweepChoice threads → Prop :=
  Program.Allowed (fun state action => action.Undisturbing state) fun _ _ _ => True

/-- The runs in `helpUntil` find their unsatisfied wait nodes in the reactor and their blocks
in the arenas, and a run returned `GpuTimeout` exactly if one of its wait nodes timed out. -/
structure RunsState.Undisturbed {graphs workers : Nat} (state : RunsState graphs workers) :
    Prop where
  waits : ∀ graph, state.phase graph = .helping → ∀ node ∈ state.m_firstWaitNode graph,
    (state.reactor.wait node).satisfied = false → state.Lists node
  blocks : ∀ graph, state.phase graph = .helping → ∀ worker block, block.graph = graph →
    .allocated worker block ∈ inRun graph state.log → block ∈ state.arena worker
  statuses : ∀ newer graph status older, state.log = newer ++ .returned graph status :: older →
    (status = .gpuTimeout ↔ timedOutInRun graph (state.m_firstWaitNode graph) older)

/-- The next step of a run takes neither unsatisfied wait nodes nor blocks from other graphs, and
the flag stays set for those whose wait nodes timed out. -/
structure RunsState.LeavesOthers {graphs workers : Nat} (state : RunsState graphs workers)
    (graph : Fin graphs) (next : RunsState graphs workers) : Prop where
  waits : ∀ other, other ≠ graph → ∀ node ∈ state.m_firstWaitNode other,
    (state.reactor.wait node).satisfied = false → state.Lists node → next.Lists node
  blocks : ∀ worker, ∀ block ∈ state.arena worker, block.graph ≠ graph →
    block ∈ next.arena worker
  flag : ∀ other, other ≠ graph → (state.phase other).isRunning = true →
    timedOutInRun other (state.m_firstWaitNode other) state.log →
      next.reactor.m_hasTimeout = true

/-- The wait nodes that the call has not registered, or forgotten again. -/
def RunPhase.pending (nodes : List WaitId) : RunPhase → List WaitId
  | .registering todo => todo
  | .helping | .resettingArenas _ | .resettingHead => []
  | .idle | .resettingTimeout | .resettingCount | .resettingFlag => nodes

/-- The list holds what was registered since `m_head` was last reset, and runs find their wait
nodes and blocks. -/
structure RunsLaw {graphs workers : Nat} (state : RunsState graphs workers)
    (pool : Multiset ReactorCall) : Prop where
  distinct : ∀ graph, (state.m_firstWaitNode graph).Nodup
  disjoint : ∀ graph other node, node ∈ state.m_firstWaitNode graph →
    node ∈ state.m_firstWaitNode other → graph = other
  list : Segment state.reactor.next state.reactor.m_head state.linked
  owned : ∀ node ∈ state.linked, ∃ graph, node ∈ state.m_firstWaitNode graph
  pending : ∀ graph, ((state.phase graph).pending (state.m_firstWaitNode graph)).Nodup ∧
    ∀ node ∈ (state.phase graph).pending (state.m_firstWaitNode graph),
      node ∈ state.m_firstWaitNode graph ∧ node ∉ state.linked
  flag : state.reactor.m_hasTimeout = !(timedOutSince state.log).isEmpty
  /-- No store of false has hidden a timeout that a run has still to read. -/
  unread : ∀ graph, (state.phase graph).isRunning = true → ∀ node ∈ state.m_firstWaitNode graph,
    .timedOut node ∈ inRun graph state.log → node ∈ timedOutSince state.log
  sweeps : ∀ call ∈ pool, call.isSweep = true
  waits : ∀ graph, ∀ node ∈ state.m_firstWaitNode graph,
    node ∈ (state.phase graph).pending (state.m_firstWaitNode graph) ∨
      (state.reactor.wait node).satisfied = true ∨ node ∈ state.linked
  blocks : ∀ graph, (state.phase graph).isRunning = true → ∀ worker block,
    block.graph = graph → .allocated worker block ∈ inRun graph state.log →
      block ∈ state.arena worker
  statuses : ∀ newer graph status older, state.log = newer ++ .returned graph status :: older →
    (status = .gpuTimeout ↔ timedOutInRun graph (state.m_firstWaitNode graph) older)

theorem inRun_cons {graphs workers : Nat} {graph : Fin graphs} {event : RunsEvent graphs workers}
    {log : List (RunsEvent graphs workers)} (other : event ≠ .began graph) :
    inRun graph (event :: log) = event :: inRun graph log := by
  simp [inRun, other]

namespace RunsLaw

variable {graphs workers : Nat} {state : RunsState graphs workers} {pool : Multiset ReactorCall}

theorem fresh (fresh : state.Fresh) (isIdle : ∀ call ∈ pool, call = .idle) :
    RunsLaw state pool := by
  obtain ⟨head, flag, distinct, disjoint, arena, phase, linked, log⟩ := fresh
  refine ⟨distinct, disjoint, ?_, ?_, fun graph => ?_, ?_, fun graph running => ?_,
    fun call member => ?_, fun graph node member => ?_, fun graph running => ?_, ?_⟩
  · rw [head, linked]
    exact .nil
  · simp [linked]
  · simp [phase, RunPhase.pending, linked, distinct graph]
  · rw [flag, log]
    rfl
  · simp [phase, RunPhase.isRunning] at running
  · rw [isIdle call member]
    rfl
  · simp [phase, RunPhase.pending, member]
  · simp [phase, RunPhase.isRunning] at running
  · simp [log]

/-- A call goes on, and has as many wait nodes to register as before. -/
theorem setPhase (law : RunsLaw state pool) {graph : Fin graphs} {phase : RunPhase}
    (pending : phase.pending (state.m_firstWaitNode graph) =
      (state.phase graph).pending (state.m_firstWaitNode graph))
    (runs : phase.isRunning = true →
      (state.phase graph).isRunning = true ∨ inRun graph state.log = []) :
    RunsLaw (state.setPhase graph phase) pool := by
  have same (other : Fin graphs) :
      ((state.setPhase graph phase).phase other).pending (state.m_firstWaitNode other) =
        (state.phase other).pending (state.m_firstWaitNode other) := by
    simp only [RunsState.setPhase, Function.update_apply]
    split
    next isGraph => rw [isGraph, pending]
    next => rfl
  have ran (other : Fin graphs)
      (running : ((state.setPhase graph phase).phase other).isRunning = true) :
      (state.phase other).isRunning = true ∨ inRun other state.log = [] := by
    simp only [RunsState.setPhase, Function.update_apply] at running
    split at running
    next isGraph =>
      subst isGraph
      exact runs running
    next => exact .inl running
  refine ⟨law.distinct, law.disjoint, law.list, law.owned, fun other => ?_, law.flag,
    fun other running node isOwn member => ?_, law.sweeps, fun other node member => ?_,
    fun other running worker block isGraph member => ?_, law.statuses⟩
  · rw [show (state.setPhase graph phase).m_firstWaitNode = state.m_firstWaitNode from rfl, same]
    exact law.pending other
  · rcases ran other running with before | begun
    · exact law.unread other before node isOwn member
    · rw [show (state.setPhase graph phase).log = state.log from rfl, begun] at member
      cases member
  · rw [show (state.setPhase graph phase).m_firstWaitNode = state.m_firstWaitNode from rfl, same]
    exact law.waits other node member
  · rcases ran other running with before | begun
    · exact law.blocks other before worker block isGraph member
    · rw [show (state.setPhase graph phase).log = state.log from rfl, begun] at member
      cases member

/-- An event that is neither a begin nor a return, and leaves the flag as the log says. -/
theorem record (law : RunsLaw state pool) {hasTimeout : Bool} {event : RunsEvent graphs workers}
    (flag : hasTimeout = !(timedOutSince (event :: state.log)).isEmpty)
    (unread : ∀ graph, (state.phase graph).isRunning = true → ∀ node ∈ state.m_firstWaitNode graph,
      .timedOut node ∈ event :: inRun graph state.log → node ∈ timedOutSince (event :: state.log))
    (noBegin : ∀ graph, event ≠ .began graph)
    (noReturn : ∀ graph status, event ≠ .returned graph status)
    (noBlock : ∀ worker block, event ≠ .allocated worker block) :
    RunsLaw
      { state with
        reactor := { state.reactor with m_hasTimeout := hasTimeout }
        log := event :: state.log } pool where
  distinct := law.distinct
  disjoint := law.disjoint
  list := law.list
  owned := law.owned
  pending := law.pending
  flag := flag
  unread := fun graph running node isOwn member => by
    rw [inRun_cons (noBegin graph)] at member
    exact unread graph running node isOwn member
  sweeps := law.sweeps
  waits := law.waits
  blocks := fun graph running worker block isGraph member => by
    rw [inRun_cons (noBegin graph)] at member
    rcases List.mem_cons.mp member with isEvent | member
    · exact absurd isEvent.symm (noBlock worker block)
    · exact law.blocks graph running worker block isGraph member
  statuses := fun newer graph status older split => by
    cases newer with
    | nil => exact absurd (List.cons.inj split).1 (noReturn graph status)
    | cons _ newer => exact law.statuses newer graph status older (List.cons.inj split).2

/-- A wait node times out. -/
theorem timedOut (law : RunsLaw state pool) (curr : WaitId) :
    RunsLaw
      { state with
        reactor := { state.reactor with m_hasTimeout := true }
        log := .timedOut curr :: state.log } pool := by
  refine law.record rfl (fun graph running node isOwn member => ?_) (by simp) (by simp) (by simp)
  rcases List.mem_cons.mp member with isCurr | older
  · cases isCurr
    exact List.mem_cons_self ..
  · exact List.mem_cons_of_mem _ (law.unread graph running node isOwn older)

/-- A run that needs the flag no longer stores false, and no other run needs it. -/
theorem no_unread {graph : Fin graphs} (notRunning : (state.phase graph).isRunning = false)
    (own : ∀ other, other ≠ graph → (state.phase other).isRunning = true →
      ¬ timedOutInRun other (state.m_firstWaitNode other) state.log)
    {other : Fin graphs} (running : (state.phase other).isRunning = true) {node : WaitId}
    (isOwn : node ∈ state.m_firstWaitNode other) : .timedOut node ∉ inRun other state.log := by
  intro timedOut
  refine own other ?_ running ⟨node, isOwn, timedOut⟩
  rintro rfl
  rw [notRunning] at running
  cases running

/-- `reset` stores false at the end of a run. -/
theorem endRun (law : RunsLaw state pool) {graph : Fin graphs}
    (here : state.phase graph = .resettingFlag)
    (own : ∀ other, other ≠ graph → (state.phase other).isRunning = true →
      ¬ timedOutInRun other (state.m_firstWaitNode other) state.log) :
    RunsLaw
      { state with
        reactor := { state.reactor with m_hasTimeout := false }
        log := .ended graph :: state.log } pool := by
  refine law.record rfl (fun other running node isOwn member => ?_) (by simp) (by simp) (by simp)
  rcases List.mem_cons.mp member with isEvent | older
  · cases isEvent
  · exact absurd older (no_unread (by rw [here]; rfl) own running isOwn)

/-- `resetTimeout` at the begin of a run. -/
theorem begin (law : RunsLaw state pool) {graph : Fin graphs}
    (here : state.phase graph = .resettingTimeout)
    (own : ∀ other, other ≠ graph → (state.phase other).isRunning = true →
      ¬ timedOutInRun other (state.m_firstWaitNode other) state.log) :
    RunsLaw
      ({ state with
        reactor := state.reactor.resetTimeout
        log := .began graph :: state.log }.setPhase graph
          (.registering (state.m_firstWaitNode graph))) pool := by
  have different {other : Fin graphs} (running : (state.phase other).isRunning = true) :
      RunsEvent.began graph ≠ (.began other : RunsEvent graphs workers) := by
    rintro same
    cases same
    simp [here, RunPhase.isRunning] at running
  have begun : RunsLaw
      { state with
        reactor := state.reactor.resetTimeout
        log := .began graph :: state.log } pool := by
    refine ⟨law.distinct, law.disjoint, law.list, law.owned, law.pending, rfl,
      fun other running node isOwn member => ?_, law.sweeps, law.waits,
      fun other running worker block isGraph member => ?_, fun newer other status older split => ?_⟩
    · rw [inRun_cons (different running)] at member
      rcases List.mem_cons.mp member with isEvent | older
      · cases isEvent
      · exact absurd older (no_unread (by rw [here]; rfl) own running isOwn)
    · rw [inRun_cons (different running)] at member
      refine law.blocks other running worker block isGraph ?_
      simpa using member
    · cases newer with
      | nil => cases (List.cons.inj split).1
      | cons _ newer => exact law.statuses newer other status older (List.cons.inj split).2
  refine begun.setPhase ?_ fun _ => .inr ?_
  · simp [here, RunPhase.pending]
  · simp [inRun]

/-- The next wait node is registered. -/
theorem register (law : RunsLaw state pool) {graph : Fin graphs} {node : WaitId}
    {todo : List WaitId} (now : Int) (here : state.phase graph = .registering (node :: todo)) :
    RunsLaw
      ({ state with
        reactor := state.reactor.registerWaits now [node]
        linked := node :: state.linked }.setPhase graph (.registering todo)) pool := by
  have pendingHere := law.pending graph
  simp only [here, RunPhase.pending] at pendingHere
  obtain ⟨distinct, fresh⟩ := pendingHere
  obtain ⟨isNew, distinct⟩ := List.nodup_cons.mp distinct
  obtain ⟨isOwn, unlinked⟩ := fresh node (List.mem_cons_self ..)
  have moved (other : Fin graphs) : (Function.update state.phase graph (.registering todo)) other =
      if other = graph then .registering todo else state.phase other := by
    rw [Function.update_apply]
  have ran {other : Fin graphs}
      (running : ((Function.update state.phase graph (.registering todo)) other).isRunning = true) :
      (state.phase other).isRunning = true := by
    rw [moved] at running
    split at running
    next isGraph => simp [isGraph, here, RunPhase.isRunning]
    next => exact running
  refine ⟨law.distinct, law.disjoint, ?_, ?_, fun other => ?_, law.flag,
    fun other running => law.unread other (ran running), law.sweeps,
    fun other wait member => ?_, fun other running => law.blocks other (ran running), law.statuses⟩
  · exact TimelineReactor.registerWaits_segment law.list (List.nodup_singleton node) (by
      simpa using unlinked)
  · rintro wait member
    rcases List.mem_cons.mp member with rfl | member
    · exact ⟨graph, isOwn⟩
    · exact law.owned wait member
  · simp only [RunsState.setPhase, moved, List.mem_cons, not_or]
    by_cases isGraph : other = graph
    · rw [if_pos isGraph]
      subst isGraph
      refine ⟨distinct, fun wait member => ?_⟩
      obtain ⟨own, notLinked⟩ := fresh wait (List.mem_cons_of_mem _ member)
      exact ⟨own, fun equal => isNew (equal ▸ member), notLinked⟩
    · rw [if_neg isGraph]
      refine ⟨(law.pending other).1, fun wait member => ?_⟩
      obtain ⟨own, notLinked⟩ := (law.pending other).2 wait member
      refine ⟨own, fun equal => isGraph ?_, notLinked⟩
      exact law.disjoint other graph wait own (equal ▸ isOwn)
  · simp only [RunsState.setPhase, moved, List.mem_cons]
    rw [(TimelineReactor.registerWaits_wait wait).2]
    by_cases isNode : wait = node
    · exact .inr (.inr (.inl isNode))
    · have before := law.waits other wait member
      simp only [List.mem_singleton, if_neg isNode]
      refine before.imp (fun waiting => ?_) (.imp_right .inr)
      split
      next isGraph =>
        subst isGraph
        rw [here] at waiting
        exact (List.mem_cons.mp waiting).resolve_left isNode
      next => exact waiting

/-- What timed out since the flag was last reset timed out since the run began. -/
theorem mem_inRun_of_since {graph : Fin graphs} {node : WaitId}
    {log : List (RunsEvent graphs workers)} (member : node ∈ timedOutSince log) :
    .timedOut node ∈ inRun graph log := by
  induction log with
  | nil => cases member
  | cons event older ih =>
      cases event with
      | began | ended => cases member
      | timedOut other =>
          rw [inRun_cons (by simp)]
          rcases List.mem_cons.mp member with rfl | member
          · exact List.mem_cons_self ..
          · exact List.mem_cons_of_mem _ (ih member)
      | allocated | returned =>
          rw [inRun_cons (by simp)]
          exact List.mem_cons_of_mem _ (ih member)

/-- The flag is right for a run that no other timeout misleads. -/
theorem status_iff (law : RunsLaw state pool) {graph : Fin graphs}
    (here : state.phase graph = .helping) (own : state.ReadsOwn graph) :
    state.status = .gpuTimeout ↔
      timedOutInRun graph (state.m_firstWaitNode graph) state.log := by
  have isStatus : state.status = .gpuTimeout ↔ timedOutSince state.log ≠ [] := by
    simp only [RunsState.status, law.flag]
    cases timedOutSince state.log <;> simp
  rw [isStatus]
  constructor
  · intro since
    obtain ⟨node, member⟩ := List.exists_mem_of_ne_nil _ since
    exact ⟨node, own here node member, mem_inRun_of_since member⟩
  · rintro ⟨node, isOwn, timedOut⟩
    exact List.ne_nil_of_mem (law.unread graph (by rw [here]; rfl) node isOwn timedOut)

/-- `helpUntil` returns. -/
theorem finish (law : RunsLaw state pool) {graph : Fin graphs}
    (here : state.phase graph = .helping) (own : state.ReadsOwn graph) :
    RunsLaw
      ({ state with
        log := .returned graph state.status :: state.log }.setPhase graph
          (.resettingArenas 0)) pool := by
  have returned : RunsLaw { state with log := .returned graph state.status :: state.log } pool := by
    refine ⟨law.distinct, law.disjoint, law.list, law.owned, law.pending, law.flag,
      fun other running node isOwn member => ?_, law.sweeps, law.waits,
      fun other running worker block isGraph member => ?_, fun newer other status older split => ?_⟩
    · rw [inRun_cons (by simp)] at member
      exact law.unread other running node isOwn (by simpa using member)
    · rw [inRun_cons (by simp)] at member
      exact law.blocks other running worker block isGraph (by simpa using member)
    · cases newer with
      | nil =>
          obtain ⟨isEvent, rfl⟩ := List.cons.inj split
          cases isEvent
          exact law.status_iff here own
      | cons _ newer => exact law.statuses newer other status older (List.cons.inj split).2
  refine returned.setPhase ?_ fun running => by cases running
  simp [here, RunPhase.pending]

/-- An arena without memory of other graphs is reset. -/
theorem resetArena (law : RunsLaw state pool) {graph : Fin graphs} {worker : Fin workers}
    (here : state.phase graph = .resettingArenas worker)
    (own : ∀ block ∈ state.arena worker, block.graph = graph) :
    RunsLaw
      ({ state with arena := Function.update state.arena worker [] }.setPhase graph
        (.resettingArenas (worker + 1))) pool := by
  have freed : RunsLaw { state with arena := Function.update state.arena worker [] } pool := by
    refine ⟨law.distinct, law.disjoint, law.list, law.owned, law.pending, law.flag, law.unread,
      law.sweeps, law.waits, fun other running index block isGraph member => ?_, law.statuses⟩
    have kept := law.blocks other running index block isGraph member
    show block ∈ Function.update state.arena worker [] index
    rw [Function.update_of_ne]
    · exact kept
    · rintro rfl
      have isOwn := own block kept
      rw [isGraph] at isOwn
      subst isOwn
      simp [here, RunPhase.isRunning] at running
  refine freed.setPhase ?_ fun running => by cases running
  simp [here, RunPhase.pending]

/-- A list without unsatisfied wait nodes of other graphs is dropped. -/
theorem resetHead (law : RunsLaw state pool) {graph : Fin graphs}
    (here : state.phase graph = .resettingHead)
    (own : ∀ node ∈ state.linked, (state.reactor.wait node).satisfied = false →
      node ∈ state.m_firstWaitNode graph) :
    RunsLaw
      ({ state with
        reactor := { state.reactor with m_head := none }
        linked := [] }.setPhase graph .resettingCount) pool := by
  have ran {other : Fin graphs}
      (running : ((Function.update state.phase graph .resettingCount) other).isRunning = true) :
      (state.phase other).isRunning = true := by
    rw [Function.update_apply] at running
    split at running
    next => cases running
    next => exact running
  refine ⟨law.distinct, law.disjoint, .nil, by simp [RunsState.setPhase], fun other => ?_, law.flag,
    fun other running => law.unread other (ran running), law.sweeps,
    fun other node member => ?_, fun other running => law.blocks other (ran running), law.statuses⟩
  · simp only [RunsState.setPhase, Function.update_apply, List.not_mem_nil, not_false_eq_true,
      and_true]
    split
    next isGraph =>
      subst isGraph
      exact ⟨law.distinct other, fun _ member => member⟩
    next => exact ⟨(law.pending other).1, fun node member => ((law.pending other).2 node member).1⟩
  · simp only [RunsState.setPhase, Function.update_apply, List.not_mem_nil, or_false]
    split
    next isGraph =>
      subst isGraph
      exact .inl member
    next isOther =>
      refine (law.waits other node member).imp_right fun after => ?_
      rcases after with satisfied | isLinked
      · exact satisfied
      · by_contra unsatisfied
        exact isOther (law.disjoint other graph node member
          (own node isLinked (eq_false_of_ne_true unsatisfied)))

/-- One step of a run. -/
theorem run (law : RunsLaw state pool) {graph : Fin graphs} {now : Int}
    (undisturbing : (RunsAction.run graph now).Undisturbing state) :
    RunsLaw (state.run graph now) pool := by
  obtain ⟨takes, reads⟩ := undisturbing
  simp only [RunsState.run]
  split
  next here => exact law.setPhase (by simp [here, RunPhase.pending]) fun running => by cases running
  next here =>
      simp only [here, RunsState.TakesOwn] at takes
      exact law.begin here takes
  next here =>
      exact law.setPhase (by simp [here, RunPhase.pending]) fun _ =>
        .inl (by simp [here, RunPhase.isRunning])
  next node todo here => exact law.register now here
  next here => exact law.finish here reads
  next worker here =>
      simp only [here, RunsState.TakesOwn] at takes
      split
      next inRange => exact @resetArena _ _ _ _ law _ ⟨worker, inRange⟩ here (takes inRange)
      next =>
        exact law.setPhase (by simp [here, RunPhase.pending]) fun running => by cases running
  next here =>
      simp only [here, RunsState.TakesOwn] at takes
      exact law.resetHead here takes
  next here =>
      have counted : RunsLaw
          { state with reactor := { state.reactor with m_pendingCount := 0 } } pool :=
        ⟨law.distinct, law.disjoint, law.list, law.owned, law.pending, law.flag, law.unread,
          law.sweeps, law.waits, law.blocks, law.statuses⟩
      exact counted.setPhase (by simp [here, RunPhase.pending]) fun running => by cases running
  next here =>
      simp only [here, RunsState.TakesOwn] at takes
      exact (law.endRun here takes).setPhase (by simp [here, RunPhase.pending]) fun running => by
        cases running

/-- A subflow of a running graph allocates. -/
theorem allocate (law : RunsLaw state pool) (worker : Fin workers) (block : ArenaBlock graphs) :
    RunsLaw
      { state with
        arena := Function.update state.arena worker (block :: state.arena worker)
        log := .allocated worker block :: state.log } pool := by
  have grown (index : Fin workers) {other : ArenaBlock graphs}
      (member : other ∈ state.arena index) :
      other ∈ Function.update state.arena worker (block :: state.arena worker) index := by
    rw [Function.update_apply]
    split
    next isWorker => exact List.mem_cons_of_mem _ (isWorker ▸ member)
    next => exact member
  refine ⟨law.distinct, law.disjoint, law.list, law.owned, law.pending, law.flag,
    fun graph running node isOwn member => ?_, law.sweeps, law.waits,
    fun graph running index other isGraph member => ?_, fun newer graph status older split => ?_⟩
  · rw [inRun_cons (by simp)] at member
    exact law.unread graph running node isOwn (by simpa using member)
  · rw [inRun_cons (by simp)] at member
    rcases List.mem_cons.mp member with isNew | member
    · cases isNew
      simp
    · exact grown index (law.blocks graph running index other isGraph member)
  · cases newer with
    | nil => cases (List.cons.inj split).1
    | cons _ newer => exact law.statuses newer graph status older (List.cons.inj split).2

/-- The reactor changes, but neither its list nor its flag, and no wait node becomes
unsatisfied. -/
theorem setReactor (law : RunsLaw state pool) {reactor : TimelineReactor}
    {calls : Multiset ReactorCall} (head : reactor.m_head = state.reactor.m_head)
    (next : reactor.next = state.reactor.next)
    (satisfied : ∀ node, (state.reactor.wait node).satisfied = true →
      (reactor.wait node).satisfied = true)
    (flag : reactor.m_hasTimeout = state.reactor.m_hasTimeout)
    (sweeps : ∀ call ∈ calls, call.isSweep = true) :
    RunsLaw { state with reactor } calls where
  distinct := law.distinct
  disjoint := law.disjoint
  list := by
    rw [head, next]
    exact law.list
  owned := law.owned
  pending := law.pending
  flag := flag.trans law.flag
  unread := law.unread
  sweeps := sweeps
  waits := fun graph node member =>
    (law.waits graph node member).imp_right (.imp_left (satisfied node))
  blocks := law.blocks
  statuses := law.statuses

/-- One step of a sweep. -/
theorem sweep {next : RunsState graphs workers} {call moved : ReactorCall} {choice : SweepChoice}
    {rest : Multiset ReactorCall} (law : RunsLaw state (call ::ₘ rest))
    (fired : state.fire call choice = some (next, moved)) : RunsLaw next (moved ::ₘ rest) := by
  obtain ⟨⟨reactor, after⟩, performed, same⟩ := Option.map_eq_some_iff.mp fired
  cases same
  have isSweep := law.sweeps call (Multiset.mem_cons_self ..)
  obtain ⟨sweeps, head, pointers, -⟩ := TimelineReactor.fireSweep_keeps isSweep performed
  obtain ⟨satisfied, flag⟩ := TimelineReactor.fireSweep_sets isSweep performed
  have others : ∀ other ∈ moved ::ₘ rest, other.isSweep = true := by
    intro other member
    rcases Multiset.mem_cons.mp member with rfl | member
    · exact sweeps
    · exact law.sweeps other (Multiset.mem_cons_of_mem member)
  cases call with
  | flagging now curr =>
      exact (law.timedOut curr).setReactor head pointers satisfied flag others
  | _ => exact law.setReactor head pointers satisfied flag others

end RunsLaw

variable {graphs workers threads : Nat}
  {state : Program.State (RunsState graphs workers) ReactorCall threads}

theorem runsLaw_of_reachable
    (reachable : (runsMachine graphs workers threads).ReachableBy undisturbing state) :
    RunsLaw state.shared state.pool := by
  refine Program.invariant ?_ ?_ ?_ reachable
  · intro shared pool fresh isIdle
    exact .fresh fresh isIdle
  · intro shared pool action next law allowed performed
    cases action with
    | run graph now =>
        cases performed
        exact law.run allowed
    | allocate worker block =>
        simp only [runsProgram, RunsState.act] at performed
        split at performed <;> cases performed
        exact law.allocate worker block
  · intro shared call rest choice next moved law _ fired
    exact law.sweep fired

namespace RunsLaw

variable {state next : RunsState graphs workers} {pool : Multiset ReactorCall}
  {graph : Fin graphs} {now : Int}

theorem lists_iff (law : RunsLaw state pool) {node : WaitId} :
    state.Lists node ↔ node ∈ state.linked := by
  constructor
  · rintro ⟨nodes, list, member⟩
    rwa [law.list.unique list]
  · exact fun member => ⟨_, law.list, member⟩

/-- A timeout that another run has still to read shows in the flag. -/
theorem hasTimeout_of_unread (law : RunsLaw state pool) {other : Fin graphs}
    (running : (state.phase other).isRunning = true)
    (timedOut : timedOutInRun other (state.m_firstWaitNode other) state.log) :
    state.reactor.m_hasTimeout = true := by
  obtain ⟨node, isOwn, inRun⟩ := timedOut
  have since := List.ne_nil_of_mem (law.unread other running node isOwn inRun)
  rw [law.flag]
  simpa using since

/-- Where wait nodes stay linked, arenas stay and the flag stays, nothing is disturbed. -/
theorem leaves (law : RunsLaw state pool) {nodes : List WaitId}
    (list : Segment next.reactor.next next.reactor.m_head nodes)
    (linked : ∀ node ∈ state.linked, node ∈ nodes) (arena : next.arena = state.arena)
    (flag : next.reactor.m_hasTimeout = state.reactor.m_hasTimeout) :
    state.LeavesOthers graph next where
  waits := fun _ _ node _ _ isListed => ⟨nodes, list, linked node (law.lists_iff.mp isListed)⟩
  blocks := fun worker block member _ => by
    rw [arena]
    exact member
  flag := fun _ _ running timedOut => by
    rw [flag]
    exact law.hasTimeout_of_unread running timedOut

/-- A store of false disturbs those who have still to read a timeout. -/
theorem leaves_resetFlag_iff {reactor : TimelineReactor} {log : List (RunsEvent graphs workers)}
    {phase : RunPhase} (head : reactor.m_head = state.reactor.m_head)
    (pointers : reactor.next = state.reactor.next) (isFalse : reactor.m_hasTimeout = false) :
    state.LeavesOthers graph ({ state with reactor, log }.setPhase graph phase) ↔
      ∀ other, other ≠ graph → (state.phase other).isRunning = true →
        ¬ timedOutInRun other (state.m_firstWaitNode other) state.log := by
  constructor
  · intro leaves other different running timedOut
    have isSet := leaves.flag other different running timedOut
    simp only [RunsState.setPhase, isFalse] at isSet
    cases isSet
  · intro own
    refine ⟨fun _ _ node _ _ isListed => ?_, fun _ _ member _ => member,
      fun other different running timedOut => absurd timedOut (own other different running)⟩
    simpa only [RunsState.Lists, RunsState.setPhase, head, pointers] using isListed

theorem leaves_resetArena_iff (law : RunsLaw state pool) {worker : Fin workers} {phase : RunPhase} :
    state.LeavesOthers graph
        ({ state with arena := Function.update state.arena worker [] }.setPhase graph phase) ↔
      ∀ block ∈ state.arena worker, block.graph = graph := by
  constructor
  · intro leaves block member
    by_contra other
    have kept := leaves.blocks worker block member other
    simp [RunsState.setPhase] at kept
  · intro own
    refine ⟨fun _ _ node _ _ isListed => isListed, fun index block member other => ?_,
      fun _ _ => law.hasTimeout_of_unread⟩
    show block ∈ Function.update state.arena worker [] index
    rw [Function.update_of_ne]
    · exact member
    · rintro rfl
      exact other (own block member)

theorem leaves_resetHead_iff (law : RunsLaw state pool) {phase : RunPhase} :
    state.LeavesOthers graph
        ({ state with
          reactor := { state.reactor with m_head := none }
          linked := [] }.setPhase graph phase) ↔
      ∀ node ∈ state.linked, (state.reactor.wait node).satisfied = false →
        node ∈ state.m_firstWaitNode graph := by
  constructor
  · intro leaves node isLinked unsatisfied
    obtain ⟨other, member⟩ := law.owned node isLinked
    by_contra notOwn
    have different : other ≠ graph := by
      rintro rfl
      exact notOwn member
    obtain ⟨nodes, list, isListed⟩ :=
      leaves.waits other different node member unsatisfied (law.lists_iff.mpr isLinked)
    simp only [RunsState.setPhase] at list
    cases list
    cases isListed
  · intro own
    refine ⟨fun other different node member unsatisfied isListed => ?_,
      fun _ _ member _ => member, fun _ _ => law.hasTimeout_of_unread⟩
    exact absurd (law.disjoint other graph node member
      (own node (law.lists_iff.mp isListed) unsatisfied)) different

/-- The next step of a run disturbs no other graph exactly if it takes only its own. -/
theorem leavesOthers_iff (law : RunsLaw state pool) :
    state.LeavesOthers graph (state.run graph now) ↔
      state.TakesOwn graph (state.phase graph) := by
  simp only [RunsState.run]
  split
  next here =>
      simp only [here, RunsState.TakesOwn, iff_true]
      exact law.leaves law.list (fun _ => id) rfl rfl
  next here =>
      simp only [here, RunsState.TakesOwn]
      exact leaves_resetFlag_iff rfl rfl rfl
  next here =>
      simp only [here, RunsState.TakesOwn, iff_true]
      exact law.leaves law.list (fun _ => id) rfl rfl
  next node todo here =>
      have isNew : node ∉ state.linked := ((law.pending graph).2 node (by
        simp [here, RunPhase.pending])).2
      have list := @TimelineReactor.registerWaits_segment _ [node] _ now law.list
        (List.nodup_singleton node) (by simpa using isNew)
      simp only [here, RunsState.TakesOwn, iff_true]
      exact law.leaves list (fun _ member => List.mem_cons_of_mem _ member) rfl rfl
  next here =>
      simp only [here, RunsState.TakesOwn, iff_true]
      exact law.leaves law.list (fun _ => id) rfl rfl
  next worker here =>
      simp only [here, RunsState.TakesOwn]
      split
      next inRange =>
        rw [law.leaves_resetArena_iff]
        exact ⟨fun own _ => own, fun own => own inRange⟩
      next outside =>
        refine iff_of_true ?_ fun inRange => absurd inRange outside
        exact law.leaves law.list (fun _ => id) rfl rfl
  next here =>
      simp only [here, RunsState.TakesOwn]
      exact law.leaves_resetHead_iff
  next here =>
      simp only [here, RunsState.TakesOwn, iff_true]
      exact law.leaves law.list (fun _ => id) rfl rfl
  next here =>
      simp only [here, RunsState.TakesOwn]
      exact leaves_resetFlag_iff rfl rfl rfl

theorem undisturbed (law : RunsLaw state pool) : state.Undisturbed where
  waits := fun graph helping node member unsatisfied => by
    refine law.lists_iff.mpr ?_
    rcases law.waits graph node member with pending | satisfied | isLinked
    · simp [helping, RunPhase.pending] at pending
    · rw [unsatisfied] at satisfied
      cases satisfied
    · exact isLinked
  blocks := fun graph helping => law.blocks graph (by simp [helping, RunPhase.isRunning])
  statuses := law.statuses

end RunsLaw

section Overlap

/-- The first graph has no wait points; the second waits for a value one millisecond, and for
another two seconds. -/
def twoGraphs : Program.State (RunsState 2 1) ReactorCall 1 where
  shared :=
    { reactor :=
        { wait := fun node =>
            { task := some (.node node)
              syncPoint :=
                { handle := 7, value := 3, timeoutMs := if node = 0 then 1 else 2000 } } }
      m_firstWaitNode := fun graph => if graph = 1 then [0, 1] else [] }
  here := fun _ => .idle

theorem twoGraphs_initial : (runsMachine 2 1 1).initial twoGraphs := by
  refine ⟨⟨rfl, rfl, fun graph => ?_, fun graph other node member another => ?_, fun _ => rfl,
    fun _ => rfl, rfl, rfl⟩, fun _ => rfl⟩
  · simp only [twoGraphs]
    split <;> decide
  · simp only [twoGraphs] at member another
    split at member <;> split at another <;> simp_all

/-- The second graph registers its wait points and a subflow of it allocates; the first graph
runs up to its `helpUntil`, and one of the wait points times out. -/
def overlapping : List (Program.Action (RunsAction 2 1) SweepChoice 1) :=
  List.replicate 5 (.solo (.run 1 0)) ++ [.solo (.allocate 0 ⟨1, 0⟩)] ++
    List.replicate 3 (.solo (.run 0 0)) ++ [.thread 0 (.sweep .checkTimeouts)] ++
      List.replicate 9 (.thread 0 (.go { now := 5000000 }))

end Overlap

end LightFlow
