import LightFlow.Lib.Threads
import LightFlow.Task.Node

/-!
# The timeline reactor

`TimelineReactor` keeps wait nodes in a linked list that only grows, until `reset`.  Calls
from any number of threads walk the list and claim nodes by their `satisfied` flags.  A
local state is the rest of one call, cut at its atomic accesses.
-/

namespace LightFlow

/-- Address of a `TimelineWaitNode`. -/
abbrev WaitId := Nat

structure TimelineSyncPoint where
  handle : Nat
  value : Nat
  timeoutMs : Int := 2000
  deriving DecidableEq, Repr

structure TimelineWaitNode where
  task : Option NodeId
  syncPoint : TimelineSyncPoint
  /-- In the nanoseconds of `steady_clock`. -/
  registeredTime : Int := 0
  satisfied : Bool := false
  nextInReactor : Option WaitId := none
  deriving DecidableEq, Repr

structure TimelineReactor where
  m_head : Option WaitId := none
  m_pendingCount : Nat := 0
  m_hasTimeout : Bool := false
  /-- The wait nodes, which live outside of the reactor. -/
  wait : WaitId → TimelineWaitNode

namespace TimelineReactor

/-- Replace one wait node. -/
def setWait (reactor : TimelineReactor) (node : WaitId) (wait : TimelineWaitNode) :
    TimelineReactor :=
  { reactor with wait := Function.update reactor.wait node wait }

/-- `hasPending`. -/
def hasPending (reactor : TimelineReactor) : Bool :=
  0 < reactor.m_pendingCount

/-- `elapsed >= timeoutMs`, after truncation to milliseconds. -/
def expired (node : TimelineWaitNode) (now : Int) : Bool :=
  node.syncPoint.timeoutMs ≤ (now - node.registeredTime).tdiv 1000000

end TimelineReactor

/-- A call that walks the list. -/
inductive Sweep where
  | notifyTimelineAdvanced (handle completedValue : Nat)
  | pollDevice
  | checkTimeouts
  deriving DecidableEq, Repr

/-- The rest of a call. -/
inductive ReactorCall where
  /-- No call. -/
  | idle
  /-- `registerWait` at `m_head.load`. -/
  | registering (node : WaitId)
  /-- `registerWait` at the compare-exchange. -/
  | pushing (node : WaitId) (oldHead : Option WaitId)
  /-- `registerWait` at `m_pendingCount.fetch_add`. -/
  | counting (node : WaitId)
  /-- A sweep at `hasPending`. -/
  | testing (sweep : Sweep)
  /-- A sweep at `m_head.load`; `now` is the clock read by `checkTimeouts`. -/
  | entering (sweep : Sweep) (now : Int)
  /-- A sweep in its loop at the node `curr`; `result` is `unblocked` or `anyTimeout`. -/
  | visiting (sweep : Sweep) (now : Int) (curr : Option WaitId) (result : Nat)
  /-- `pollDevice` or `checkTimeouts` at the compare-exchange. -/
  | claiming (sweep : Sweep) (now : Int) (curr : WaitId) (result : Nat)
  /-- The node is claimed, at `m_pendingCount.fetch_sub`. -/
  | releasing (sweep : Sweep) (now : Int) (curr : WaitId) (result : Nat)
  /-- `checkTimeouts` at `m_hasTimeout.store`. -/
  | flagging (now : Int) (curr : WaitId)
  /-- At the call of the task's function. -/
  | calling (sweep : Sweep) (now : Int) (curr : WaitId) (result : Nat)
  deriving DecidableEq, Repr

/-- Why a wait node could be claimed. -/
inductive Cause where
  | notified (handle completedValue : Nat)
  | polled (completed : Nat)
  | expired (now : Int)
  deriving DecidableEq, Repr

/-- History of a reactor. -/
inductive ReactorEvent where
  /-- `registerWait(node)` was called. -/
  | requested (node : WaitId)
  /-- `m_head` was exchanged for `node`. -/
  | linked (node : WaitId)
  /-- `registerWait(node)` returned. -/
  | registered (node : WaitId)
  /-- A sweep found waits pending and loaded `m_head`. -/
  | entered (sweep : Sweep)
  /-- `satisfied` was exchanged. -/
  | claimed (node : WaitId) (cause : Cause)
  /-- `decrementActive` was called for the task of `node`. -/
  | decrementActive (node : WaitId)
  /-- `handleGpuTimeout` was called for the task of `node`. -/
  | handleGpuTimeout (node : WaitId)
  /-- A sweep returned a number, or 1 for true. -/
  | returned (sweep : Sweep) (result : Nat)
  deriving DecidableEq, Repr

/-- What the environment decides about one step. -/
structure Answers where
  /-- A weak compare-exchange fails without a reason. -/
  spurious : Bool := false
  /-- Answer of `getCompletedValue`. -/
  completed : Nat := 0
  /-- Answer of `steady_clock::now`. -/
  now : Int := 0
  deriving DecidableEq, Repr

/-- What one step of a call does. -/
structure ReactorEffect where
  reactor : TimelineReactor
  call : ReactorCall
  events : List ReactorEvent := []

namespace ReactorCall

/-- The loop of a sweep goes on behind `curr`. -/
def advance (reactor : TimelineReactor) (sweep : Sweep) (now : Int) (curr : WaitId)
    (result : Nat) (events : List ReactorEvent := []) : ReactorEffect where
  reactor
  call := .visiting sweep now (reactor.wait curr).nextInReactor result
  events

/-- The compare-exchange of `satisfied`. -/
def claim (reactor : TimelineReactor) (sweep : Sweep) (now : Int) (curr : WaitId)
    (result : Nat) (cause : Cause) : ReactorEffect :=
  if (reactor.wait curr).satisfied then advance reactor sweep now curr result
  else
    { reactor := reactor.setWait curr { reactor.wait curr with satisfied := true }
      call := .releasing sweep now curr result
      events := [.claimed curr cause] }

/-- The next step of a call. -/
def fire (reactor : TimelineReactor) (answers : Answers) : ReactorCall → Option ReactorEffect
  | .idle => none
  | .registering node => some { reactor, call := .pushing node reactor.m_head }
  | .pushing node oldHead =>
      let linked := reactor.setWait node { reactor.wait node with nextInReactor := oldHead }
      if reactor.m_head = oldHead ∧ answers.spurious = false then
        some
          { reactor := { linked with m_head := some node }
            call := .counting node
            events := [.linked node] }
      else some { reactor := linked, call := .pushing node reactor.m_head }
  | .counting node =>
      some
        { reactor := { reactor with m_pendingCount := u32 (reactor.m_pendingCount + 1) }
          call := .idle
          events := [.registered node] }
  | .testing sweep =>
      if reactor.hasPending then some { reactor, call := .entering sweep answers.now }
      else some { reactor, call := .idle, events := [.returned sweep 0] }
  | .entering sweep now =>
      some
        { reactor
          call := .visiting sweep now reactor.m_head 0
          events := [.entered sweep] }
  | .visiting sweep _ none result =>
      some { reactor, call := .idle, events := [.returned sweep result] }
  | .visiting sweep now (some curr) result =>
      let node := reactor.wait curr
      match sweep with
      | .notifyTimelineAdvanced handle completedValue =>
          if node.syncPoint.handle = handle ∧ node.syncPoint.value ≤ completedValue then
            some (claim reactor sweep now curr result (.notified handle completedValue))
          else some (advance reactor sweep now curr result)
      | .pollDevice =>
          if node.satisfied then some (advance reactor sweep now curr result)
          else some { reactor, call := .claiming sweep now curr result }
      | .checkTimeouts =>
          if !node.satisfied && TimelineReactor.expired node now then
            some { reactor, call := .claiming sweep now curr result }
          else some (advance reactor sweep now curr result)
  | .claiming sweep now curr result =>
      match sweep with
      | .notifyTimelineAdvanced _ _ => none
      | .checkTimeouts => some (claim reactor sweep now curr result (.expired now))
      | .pollDevice =>
          if (reactor.wait curr).syncPoint.value ≤ answers.completed then
            some (claim reactor sweep now curr result (.polled answers.completed))
          else some (advance reactor sweep now curr result)
  | .releasing sweep now curr result =>
      let counted := { reactor with m_pendingCount := u32Sub reactor.m_pendingCount 1 }
      if sweep = .checkTimeouts then some { reactor := counted, call := .flagging now curr }
      else some { reactor := counted, call := .calling sweep now curr result }
  | .flagging now curr =>
      some
        { reactor := { reactor with m_hasTimeout := true }
          call := .calling .checkTimeouts now curr 1 }
  | .calling sweep now curr result =>
      match (reactor.wait curr).task with
      | none => some (advance reactor sweep now curr result)
      | some _ =>
          if sweep = .checkTimeouts then
            some (advance reactor sweep now curr result [.handleGpuTimeout curr])
          else some (advance reactor sweep now curr (result + 1) [.decrementActive curr])

end ReactorCall

/-! ## All calls together -/

/-- What the calls share, and their history, newest event first. -/
structure ReactorState where
  reactor : TimelineReactor
  log : List ReactorEvent := []

/-- What a thread may do: begin a call, or go on with the one it is in. -/
inductive ReactorChoice where
  | registerWait (node : WaitId)
  | sweep (sweep : Sweep)
  | go (answers : Answers)
  deriving DecidableEq, Repr

/-- One step of one thread. -/
def ReactorState.fire (state : ReactorState) : ReactorCall → ReactorChoice →
    Option (ReactorState × ReactorCall)
  | .idle, .registerWait node =>
      some ({ state with log := .requested node :: state.log }, .registering node)
  | .idle, .sweep sweep => some (state, .testing sweep)
  | call, .go answers =>
      (call.fire state.reactor answers).map fun effect =>
        ({ reactor := effect.reactor, log := effect.events ++ state.log }, effect.call)
  | _, _ => none

/-- Any number of threads call the functions of one reactor. -/
def reactorProgram : Program ReactorState ReactorCall Empty ReactorChoice where
  solo := fun _ action => nomatch action
  fire := ReactorState.fire

/-- A reactor nothing is registered with. -/
def ReactorState.Fresh (state : ReactorState) : Prop :=
  state.reactor.m_head = none ∧ state.reactor.m_pendingCount = 0 ∧
    (∀ node, (state.reactor.wait node).satisfied = false) ∧ state.log = []

end LightFlow
