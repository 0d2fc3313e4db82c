import LightFlow.Lib.Machine
import LightFlow.Task.Execute
import Mathlib.Data.Fintype.Basic

/-!
# Runs of a task graph

Any number of threads execute the nodes of one graph.  A thread owns the stack of its
calls and the inline slot `t_nextInlineTask`; scheduled nodes wait in the queues of
the scheduler, from which a looking thread takes them in any order.  A further thread
of control performs `prepareRun`.
-/

namespace LightFlow

/-- One thread: its calls, innermost first, and its thread-local variables. -/
structure Thread where
  stack : List Frame := []
  t_nextInlineTask : Option NodeId := none
  t_canInlineTask : Bool := false

/-- A thread looks for work in its own loop and in the loop of `helpUntil`. -/
def Thread.looking (thread : Thread) : Bool :=
  match thread.stack with
  | [] => true
  | .joining _ :: _ => true
  | _ => false

/-- `t_canInlineTask && t_nextInlineTask == nullptr`. -/
def Thread.inlineFree (thread : Thread) : Bool :=
  thread.t_canInlineTask && thread.t_nextInlineTask.isNone

structure RunState (threads : Nat) where
  shared : Shared
  /-- Nodes in the queues of the scheduler. -/
  queued : List NodeId := []
  thread : Fin threads → Thread := fun _ => {}
  /-- `prepareRun` in its last loop: roots left to schedule and `rootWorkerCount`. -/
  preparing : Option (List NodeId × Nat) := none
  /-- Number of runs prepared so far. -/
  runs : Nat := 0

inductive RunAction (threads : Nat) where
  /-- `prepareRun` up to its scheduling loop. -/
  | prepareRun
  /-- One pass of the scheduling loop of `prepareRun`. -/
  | dispatchRoot
  /-- A thread enters or leaves a loop that may inline tasks. -/
  | setCanInline (thread : Fin threads) (canInline : Bool)
  /-- `findWork` returns a queued node, and `execute` is called on it. -/
  | take (thread : Fin threads) (node : NodeId)
  /-- The node in the inline slot is executed. -/
  | takeInline (thread : Fin threads)
  /-- The innermost call of a thread performs its next access. -/
  | fire (thread : Fin threads)
  deriving DecidableEq, Repr

namespace RunState

variable {threads : Nat}

/-- `inDegree.store(initialInDegree)` and `state.store(Pending)` on every graph node. -/
def resetNodes (order : List NodeId) (store : NodeStore) : NodeStore :=
  fun query =>
    if query ∈ order then
      { store query with inDegree := (store query).initialInDegree, state := .pending }
    else store query

/-- Graph nodes without dependencies, in the order of the node chain. -/
def roots (order : List NodeId) (store : NodeStore) : List NodeId :=
  order.filter fun node => (store node).initialInDegree = 0

/-- `prepareRun` before its scheduling loop.  Nothing of an earlier run is left to
execute then, so its stores are not seen one by one. -/
def prepareRun (graph : TaskGraph) (state : RunState threads) : RunState threads :=
  { state with
    shared :=
      { state.shared with
        m_pendingTasks := graph.m_nodeCount
        node := resetNodes graph.order state.shared.node
        log := [] }
    preparing :=
      if graph.m_nodeCount = 0 then none else some (roots graph.order state.shared.node, 0)
    runs := state.runs + 1 }

/-- One pass of the scheduling loop, and the notification after it. -/
def dispatchRoot (state : RunState threads) : Option (RunState threads) :=
  match state.preparing with
  | none => none
  | some ([], rootWorkerCount) =>
      some
        { state with
          shared :=
            if 0 < rootWorkerCount then state.shared.record (.notified rootWorkerCount)
            else state.shared
          preparing := none }
  | some (root :: roots, rootWorkerCount) =>
      let scheduled := state.shared.record (.scheduled root false)
      let counted :=
        if (state.shared.node root).domain = .worker then rootWorkerCount + 1
        else rootWorkerCount
      let full := (state.shared.node root).domain = .worker ∧ 64 ≤ counted
      some
        { state with
          shared := if full then scheduled.record (.notified counted) else scheduled
          queued := state.queued ++ [root]
          preparing := some (roots, if full then 0 else counted) }

/-- Replace the state of one thread. -/
def setThread (state : RunState threads) (index : Fin threads) (thread : Thread) :
    RunState threads :=
  { state with thread := Function.update state.thread index thread }

/-- The innermost call of a thread performs its next access. -/
def fire (callables : Callables) (state : RunState threads) (index : Fin threads) :
    Option (RunState threads) :=
  let thread := state.thread index
  match thread.stack with
  | [] => none
  | frame :: stack =>
      (frame.fire callables thread.inlineFree state.shared).map fun effect =>
        { state with
          shared := effect.shared
          queued := state.queued ++ effect.queued }.setThread index
            { thread with
              stack := effect.frames ++ stack
              t_nextInlineTask := effect.staged <|> thread.t_nextInlineTask }

/-- A run has ended: `isCompleted()` holds and `prepareRun` has returned. -/
def Ended (state : RunState threads) : Prop :=
  state.preparing = none ∧ state.shared.m_pendingTasks = 0

instance (state : RunState threads) : Decidable state.Ended :=
  inferInstanceAs (Decidable (_ ∧ _))

def step (graph : TaskGraph) (callables : Callables) (state : RunState threads) :
    RunAction threads → Option (RunState threads)
  | .prepareRun => if state.Ended then some (state.prepareRun graph) else none
  | .dispatchRoot => state.dispatchRoot
  | .setCanInline index canInline =>
      some (state.setThread index { state.thread index with t_canInlineTask := canInline })
  | .take index node =>
      let thread := state.thread index
      if thread.looking ∧ node ∈ state.queued then
        some
          ({ state with queued := state.queued.erase node }.setThread index
            { thread with stack := .executing node :: thread.stack })
      else none
  | .takeInline index =>
      let thread := state.thread index
      match thread.t_nextInlineTask with
      | none => none
      | some node =>
          if thread.looking then
            some (state.setThread index
              { thread with
                stack := .executing node :: thread.stack
                t_nextInlineTask := none })
          else none
  | .fire index => state.fire callables index

end RunState

/-- The state before the first run of a graph. -/
def TaskGraph.initialState (graph : TaskGraph) (threads : Nat) : RunState threads :=
  { shared := { node := graph.node } }

/-- All executions of a graph by `threads` threads, over any number of runs. -/
def TaskGraph.machine (graph : TaskGraph) (callables : Callables) (threads : Nat) :
    Machine (RunState threads) (RunAction threads) where
  initial := fun state => state = graph.initialState threads
  step := RunState.step graph callables

end LightFlow
