import LightFlow.Gpu.SideBySide
import LightFlow.Gpu.WaitingGraph
import LightFlow.Task.Workload

/-!
# Runs with wait points

One graph with wait points, alone on its scheduler: the call of `runAndWait`, the threads that
execute tasks, and any number of threads that call the reactor.  A sweep that has claimed a wait
node releases or cancels its task before it goes on.
-/

namespace LightFlow

/-- The rest of a call of `runAndWait`.  What comes before the loop over the wait nodes, and the
stores of `reset`, find nothing of an earlier run at work, and are not seen one by one. -/
inductive RunCall where
  /-- No call. -/
  | outside
  /-- `prepareRun` in its loop over the wait nodes, at the store of `satisfied`. -/
  | resetting (now : Int) (todo : List WaitId)
  /-- The same loop at the store of `registeredTime`. -/
  | stamping (now : Int) (wait : WaitId) (todo : List WaitId)
  /-- The same loop in `registerWait`. -/
  | registering (now : Int) (call : ReactorCall) (todo : List WaitId)
  /-- `prepareRun` in its scheduling loop, or `helpUntil` in its loop. -/
  | helping
  /-- `helpUntil` at `hasTimeout`. -/
  | leaving
  /-- `helpUntil` has returned, and `reset` follows. -/
  | helped (status : Status)
  deriving DecidableEq, Repr

/-- What the threads of one run share. -/
structure GpuRun (workers : Nat) where
  run : RunState workers
  reactor : TimelineReactor
  call : RunCall := .outside
  /-- Wait nodes for which `decrementActive` was called in this run, with their tasks. -/
  released : List (WaitId × NodeId) := []
  /-- Wait nodes for which `handleGpuTimeout` was called in this run, with their tasks. -/
  expired : List (WaitId × NodeId) := []

/-- A thread that calls the reactor. -/
structure Sweeper where
  call : ReactorCall := .idle
  /-- `handleGpuTimeout` at `onTaskCompleted`. -/
  cancelling : Option NodeId := none
  /-- What the function of the task has left to do, innermost call first. -/
  stack : List Frame := []
  deriving DecidableEq, Repr

inductive GpuRunAction (workers : Nat) where
  /-- A call of `runAndWait`; `now` is the clock that `prepareRun` reads. -/
  | runAndWait (now : Int)
  /-- `runAndWait` goes on. -/
  | goOn (answers : Answers)
  /-- Tasks are executed, or `prepareRun` schedules the next root. -/
  | work (action : RunAction workers)
  deriving DecidableEq, Repr

namespace GpuRun

variable {workers : Nat}

/-- Replace what the calls of tasks share. -/
def setShared (state : GpuRun workers) (shared : Shared) : GpuRun workers :=
  { state with run := { state.run with shared } }

/-- `runAndWait` up to the loop of `prepareRun` over the wait nodes of the graph. -/
def prepare (graph : TaskGraph) (m_firstWaitNode : List WaitId) (state : GpuRun workers)
    (now : Int) : GpuRun workers where
  run := state.run.prepareRun graph
  reactor := state.reactor.resetTimeout
  call := if graph.m_nodeCount = 0 then .helping else .resetting now m_firstWaitNode

/-- The next access of `runAndWait`. -/
def goOn (state : GpuRun workers) (answers : Answers) : Option (GpuRun workers) :=
  match state.call with
  | .outside => none
  | .resetting _ [] => some { state with call := .helping }
  | .resetting now (wait :: todo) =>
      some
        { state with
          reactor := state.reactor.setWait wait { state.reactor.wait wait with satisfied := false }
          call := .stamping now wait todo }
  | .stamping now wait todo =>
      some
        { state with
          reactor :=
            state.reactor.setWait wait { state.reactor.wait wait with registeredTime := now }
          call := .registering now (.registering wait) todo }
  | .registering now .idle todo => some { state with call := .resetting now todo }
  | .registering now call todo =>
      (call.fire state.reactor answers).map fun effect =>
        { state with
          reactor := effect.reactor
          call := .registering now effect.call todo }
  | .helping => if state.run.Ended then some { state with call := .leaving } else none
  | .leaving =>
      some
        { state with
          call := .helped (if state.reactor.m_hasTimeout then .gpuTimeout else .success) }
  | .helped _ => some { state with reactor := state.reactor.reset, call := .outside }

/-- A thread that executes tasks goes on.  Roots are scheduled after all wait nodes are
registered. -/
def work (graph : TaskGraph) (callables : Callables) (state : GpuRun workers)
    (action : RunAction workers) : Option (GpuRun workers) :=
  if action = .prepareRun ∨ action = .dispatchRoot ∧ state.call ≠ .helping then none
  else (state.run.step graph callables action).map fun run => { state with run }

/-- The call of the task's function for a claimed wait node.  `decrementActive` makes its one
access, and `handleGpuTimeout` its first. -/
def resolve (state : GpuRun workers) (sweep : Sweep) (wait : WaitId) (moved : ReactorCall) :
    GpuRun workers × Sweeper :=
  match (state.reactor.wait wait).task with
  | none => (state, { call := moved })
  | some node =>
      if sweep = .checkTimeouts then
        ({ state.setShared (state.run.shared.setState node .timeout) with
            expired := (wait, node) :: state.expired },
          { call := moved, cancelling := some node })
      else
        let (inDegree, unblocked) := decrementActive (state.run.shared.node node).inDegree
        ({ state.setShared (state.run.shared.setInDegree node inDegree) with
            released := (wait, node) :: state.released },
          { call := moved, stack := if unblocked then [.scheduling node] else [] })

/-- One step of a thread that calls the reactor. -/
def fire (callables : Callables) (state : GpuRun workers) (sweeper : Sweeper)
    (choice : SweepChoice) : Option (GpuRun workers × Sweeper) :=
  match sweeper.cancelling, sweeper.stack with
  | some node, _ =>
      let shared := (state.run.shared.onTaskCompleted node).record (.released node)
      some (state.setShared shared,
        { sweeper with
          cancelling := none
          stack := cascade node (shared.node node).successors ++ sweeper.stack })
  | none, frame :: stack =>
      (frame.fire callables false state.run.shared).map fun effect =>
        ({ state with
            run :=
              { state.run with
                shared := effect.shared
                queued := state.run.queued ++ effect.queued } },
          { sweeper with stack := effect.frames ++ stack })
  | none, [] =>
      (state.reactor.fireSweep sweeper.call choice).map fun (reactor, moved) =>
        match sweeper.call with
        | .calling sweep _ curr _ => { state with reactor }.resolve sweep curr moved
        | _ => ({ state with reactor }, { call := moved })

/-- The graph as built, its wait nodes with their tasks, and nothing registered. -/
def Fresh (graph : TaskGraph) (points : List (WaitId × NodeId)) (state : GpuRun workers) : Prop :=
  state.run = graph.initialState workers ∧ state.reactor.m_head = none ∧
    state.call = .outside ∧ state.released = [] ∧ state.expired = [] ∧
    (points.map Prod.fst).Nodup ∧ ∀ point ∈ points,
      (state.reactor.wait point.1).task = some point.2 ∧
        (state.reactor.wait point.1).satisfied = false

/-- A run is prepared when all calls for tasks of the last one have returned.  Walks over the
list may still be under way. -/
def Prepared (state : GpuRun workers) (pool : Multiset Sweeper) (action : GpuRunAction workers) :
    Prop :=
  match action with
  | .runAndWait _ => (∀ index, (state.run.thread index).stack = []) ∧
      ∀ sweeper ∈ pool, sweeper.cancelling = none ∧ sweeper.stack = []
  | _ => True

instance (state : GpuRun workers) (pool : Multiset Sweeper) :
    (action : GpuRunAction workers) → Decidable (state.Prepared pool action)
  | .runAndWait _ => inferInstanceAs (Decidable (_ ∧ _))
  | .goOn _ | .work _ => inferInstanceAs (Decidable True)

end GpuRun

variable {workers : Nat}

/-- Runs of a graph, with the wait points that `addWaitPoint` put on its chain before them. -/
def gpuRunProgram (graph : TaskGraph) (callables : Callables) (points : List (WaitId × NodeId))
    (workers : Nat) : Program (GpuRun workers) Sweeper (GpuRunAction workers) SweepChoice where
  solo := fun state action =>
    match action with
    | .runAndWait now =>
        if state.call = .outside then some (state.prepare graph (points.map Prod.fst) now) else none
    | .goOn answers => state.goOn answers
    | .work action => state.work graph callables action
  fire := GpuRun.fire callables

abbrev gpuRunMachine (graph : TaskGraph) (callables : Callables)
    (points : List (WaitId × NodeId)) (workers sweepers : Nat) :
    Machine (Program.State (GpuRun workers) Sweeper sweepers)
      (Program.Action (GpuRunAction workers) SweepChoice sweepers) :=
  (gpuRunProgram graph callables points workers).machine (GpuRun.Fresh graph points) {} sweepers

/-- States of runs of which each was prepared after the calls of the one before. -/
abbrev GpuRunReachable (graph : TaskGraph) (callables : Callables)
    (points : List (WaitId × NodeId)) {sweepers : Nat}
    (state : Program.State (GpuRun workers) Sweeper sweepers) : Prop :=
  (gpuRunMachine graph callables points workers sweepers).ReachableBy
    (Program.AllowedAmong GpuRun.Prepared fun _ _ _ => True) state

end LightFlow
