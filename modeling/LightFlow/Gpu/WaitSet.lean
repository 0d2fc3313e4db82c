import LightFlow.Gpu.Sweeps

/-!
# The wait-set over many runs

Graphs register their wait nodes with the reactor of one scheduler at every `prepareRun`.
Only `runAndWait` drops the list again; after `prepareRun` and `helpUntil` the nodes stay
linked, satisfied or not.
-/

namespace LightFlow

/-- The reactor of a scheduler, and the graphs that are run on it. -/
structure WaitSetState where
  reactor : TimelineReactor
  /-- The chain from `m_firstWaitNode` through `nextInGraph`, for each graph. -/
  m_firstWaitNode : Nat → List WaitId
  /-- A call of `runAndWait` is in `helpUntil`. -/
  waiting : Bool := false
  /-- The wait nodes registered since the last `reset`, newest first. -/
  registered : List WaitId := []

/-- The public calls other than sweeps. -/
inductive WaitSetCall where
  | prepareRun (graph : Nat) (now : Int)
  /-- `helpUntil`, which only sweeps. -/
  | helpUntil (graph : Nat)
  /-- `runAndWait` up to its `helpUntil`. -/
  | runAndWait (graph : Nat) (now : Int)
  /-- `runAndWait` after its `helpUntil`. -/
  | finish
  /-- `clear`; the released memory holds anything afterwards. -/
  | clear (graph : Nat) (released : WaitId → TimelineWaitNode)

namespace WaitSetState

/-- `prepareRun`, as far as it concerns the reactor. -/
def prepareRun (state : WaitSetState) (graph : Nat) (now : Int) : WaitSetState :=
  { state with
    reactor := state.reactor.registerWaits now (state.m_firstWaitNode graph)
    registered := (state.m_firstWaitNode graph).reverse ++ state.registered }

/-- `clear`, as far as it concerns the wait nodes. -/
def clear (state : WaitSetState) (graph : Nat) (released : WaitId → TimelineWaitNode) :
    WaitSetState :=
  { state with
    reactor :=
      { state.reactor with
        wait := fun node =>
          if node ∈ state.m_firstWaitNode graph then released node else state.reactor.wait node }
    m_firstWaitNode := Function.update state.m_firstWaitNode graph [] }

/-- One public call. -/
def call (state : WaitSetState) : WaitSetCall → Option WaitSetState
  | .prepareRun graph now => if state.waiting then none else some (state.prepareRun graph now)
  | .helpUntil _ => if state.waiting then none else some state
  | .runAndWait graph now =>
      if state.waiting then none
      else
        some
          { { state with reactor := state.reactor.resetTimeout }.prepareRun graph now with
            waiting := true }
  | .finish =>
      if state.waiting then
        some { state with reactor := state.reactor.reset, waiting := false, registered := [] }
      else none
  | .clear graph released => if state.waiting then none else some (state.clear graph released)

/-- Nothing was registered yet, and the chain of a graph holds a wait node once. -/
def Fresh (state : WaitSetState) : Prop :=
  state.reactor.m_head = none ∧ state.waiting = false ∧ state.registered = [] ∧
    ∀ graph, (state.m_firstWaitNode graph).Nodup

end WaitSetState

/-- Public calls one after the other, and sweeps by any number of threads. -/
def waitSetProgram : Program WaitSetState ReactorCall WaitSetCall SweepChoice where
  solo := WaitSetState.call
  fire := fun state call choice =>
    (state.reactor.fireSweep call choice).map fun (reactor, moved) =>
      ({ state with reactor }, moved)

abbrev waitSetMachine (threads : Nat) :
    Machine (Program.State WaitSetState ReactorCall threads)
      (Program.Action WaitSetCall SweepChoice threads) :=
  waitSetProgram.machine WaitSetState.Fresh .idle threads

/-- The wait nodes of the graph are not in the list. -/
def WaitSetState.Unlinked (state : WaitSetState) (graph : Nat) : Prop :=
  ∀ node ∈ state.m_firstWaitNode graph, node ∉ state.registered

instance (state : WaitSetState) (graph : Nat) : Decidable (state.Unlinked graph) :=
  inferInstanceAs (Decidable (∀ _ ∈ _, _))

/-- A graph is prepared or cleared only while its wait nodes are not in the list. -/
def WaitSetCall.StartsUnlinked (state : WaitSetState) : WaitSetCall → Prop
  | .prepareRun graph _ | .runAndWait graph _ | .clear graph _ => state.Unlinked graph
  | .helpUntil _ | .finish => True

instance (state : WaitSetState) : DecidablePred (WaitSetCall.StartsUnlinked state)
  | .prepareRun _ _ | .runAndWait _ _ | .clear _ _ => inferInstanceAs (Decidable (state.Unlinked _))
  | .helpUntil _ | .finish => inferInstanceAs (Decidable True)

abbrev startingUnlinked {threads : Nat} : Program.State WaitSetState ReactorCall threads →
    Program.Action WaitSetCall SweepChoice threads → Prop :=
  Program.Allowed (fun state call => call.StartsUnlinked state) fun _ _ _ => True

/-- The list holds what was registered since the last `reset`. -/
structure WaitSetLaw (state : WaitSetState) (pool : Multiset ReactorCall) : Prop where
  list : Segment state.reactor.next state.reactor.m_head state.registered
  distinct : state.registered.Nodup
  chains : ∀ graph, (state.m_firstWaitNode graph).Nodup
  sweeps : ∀ call ∈ pool, call.isSweep = true

namespace WaitSetLaw

variable {state next : WaitSetState} {pool : Multiset ReactorCall}

theorem prepareRun (law : WaitSetLaw state pool) {graph : Nat}
    (unlinked : state.Unlinked graph) (now : Int) :
    WaitSetLaw (state.prepareRun graph now) pool where
  list := TimelineReactor.registerWaits_segment law.list (law.chains graph) unlinked
  distinct := by
    refine List.nodup_append.mpr ⟨List.nodup_reverse.mpr (law.chains graph), law.distinct, ?_⟩
    rintro node member other registered rfl
    exact unlinked node (List.mem_reverse.mp member) registered
  chains := law.chains
  sweeps := law.sweeps

theorem clear (law : WaitSetLaw state pool) {graph : Nat} {released : WaitId → TimelineWaitNode}
    (unlinked : state.Unlinked graph) : WaitSetLaw (state.clear graph released) pool where
  list := law.list.congr fun node registered => by
    simp only [TimelineReactor.next, WaitSetState.clear]
    rw [if_neg fun member => unlinked node member registered]
  distinct := law.distinct
  chains := fun other => by
    by_cases isGraph : other = graph
    · simp [WaitSetState.clear, isGraph]
    · simpa [WaitSetState.clear, isGraph] using law.chains other
  sweeps := law.sweeps

theorem call (law : WaitSetLaw state pool) {call : WaitSetCall}
    (unlinked : call.StartsUnlinked state)
    (performed : state.call call = some next) : WaitSetLaw next pool := by
  cases call with
  | helpUntil graph =>
      simp only [WaitSetState.call] at performed
      split at performed <;> cases performed
      exact law
  | prepareRun graph now =>
      simp only [WaitSetState.call] at performed
      split at performed <;> cases performed
      exact law.prepareRun unlinked _
  | runAndWait graph now =>
      simp only [WaitSetState.call] at performed
      split at performed <;> cases performed
      have begun : WaitSetLaw { state with reactor := state.reactor.resetTimeout } pool :=
        ⟨law.list, law.distinct, law.chains, law.sweeps⟩
      have prepared := prepareRun begun unlinked now
      exact ⟨prepared.list, prepared.distinct, prepared.chains, prepared.sweeps⟩
  | finish =>
      simp only [WaitSetState.call] at performed
      split at performed <;> cases performed
      exact ⟨.nil, List.nodup_nil, law.chains, law.sweeps⟩
  | clear graph released =>
      simp only [WaitSetState.call] at performed
      split at performed <;> cases performed
      exact law.clear unlinked

/-- One step of a sweep. -/
theorem sweep {reactor : TimelineReactor} {call moved : ReactorCall} {choice : SweepChoice}
    {rest : Multiset ReactorCall} (law : WaitSetLaw state (call ::ₘ rest))
    (fired : state.reactor.fireSweep call choice = some (reactor, moved)) :
    WaitSetLaw { state with reactor } (moved ::ₘ rest) := by
  obtain ⟨sweeps, head, next, -⟩ :=
    TimelineReactor.fireSweep_keeps (law.sweeps call (Multiset.mem_cons_self ..)) fired
  refine ⟨?_, law.distinct, law.chains, fun other member => ?_⟩
  · rw [head, next]
    exact law.list
  · rcases Multiset.mem_cons.mp member with rfl | member
    · exact sweeps
    · exact law.sweeps other (Multiset.mem_cons_of_mem member)

end WaitSetLaw

variable {threads : Nat} {state : Program.State WaitSetState ReactorCall threads}

theorem waitSetLaw_of_reachable
    (reachable : (waitSetMachine threads).ReachableBy startingUnlinked state) :
    WaitSetLaw state.shared state.pool := by
  refine Program.invariant (motive := WaitSetLaw) ?_ ?_ ?_ reachable
  · rintro shared pool ⟨head, -, registered, chains⟩ isIdle
    refine ⟨?_, ?_, chains, fun call member => ?_⟩
    · rw [head, registered]
      exact .nil
    · rw [registered]
      exact List.nodup_nil
    · rw [isIdle call member]
      rfl
  · intro shared pool action next law unlinked performed
    exact law.call unlinked performed
  · intro shared call rest choice next moved law _ fired
    obtain ⟨⟨reactor, after⟩, performed, same⟩ := Option.map_eq_some_iff.mp fired
    cases same
    exact law.sweep performed

/-- The list is finite and holds a wait node once. -/
def WaitSetState.Finite (state : WaitSetState) : Prop :=
  ∃ nodes, Segment state.reactor.next state.reactor.m_head nodes ∧ nodes.Nodup

/-- As long as graphs are prepared and cleared only while their wait nodes are not linked, the
list is finite and sweeps return; the next `prepareRun` of a graph keeps it finite exactly if
none of its wait nodes is linked. -/
theorem wait_set_finite
    (reachable : (waitSetMachine threads).ReachableBy startingUnlinked state) :
    state.shared.Finite ∧ (∀ sweep, ReactorCall.Returns state.shared.reactor (.testing sweep)) ∧
      ∀ graph now, (state.shared.prepareRun graph now).Finite ↔ state.shared.Unlinked graph := by
  have law := waitSetLaw_of_reachable reachable
  refine ⟨⟨_, law.list, law.distinct⟩, fun sweep => .of_segment sweep law.list,
    fun graph now => ⟨?_, fun unlinked => ?_⟩⟩
  · rintro ⟨nodes, list, -⟩ node member registered
    exact (TimelineReactor.registerWaits_endless law.list ⟨node, member, registered⟩).not_segment
      ⟨nodes, list⟩
  · have prepared := law.prepareRun unlinked now
    exact ⟨_, prepared.list, prepared.distinct⟩

/-! ## A wait node that is linked twice -/

section Twice

/-- One graph, whose one wait point is the value 3 of the timeline 7. -/
def oneWaitPoint : Program.State WaitSetState ReactorCall 1 where
  shared := { reactor := { wait := fun _ => forThree }, m_firstWaitNode := fun _ => [0] }
  here := fun _ => .idle

theorem oneWaitPoint_initial : (waitSetMachine 1).initial oneWaitPoint :=
  ⟨⟨rfl, rfl, rfl, fun _ => by simp [oneWaitPoint]⟩, fun _ => rfl⟩

/-- The graph is prepared, the value is notified, and `helpUntil` returns. -/
def preparedAndHelped : List (Program.Action WaitSetCall SweepChoice 1) :=
  .solo (.prepareRun 0 0) :: .thread 0 (.sweep (.notifyTimelineAdvanced 7 3)) ::
    List.replicate 6 (.thread 0 (.go {})) ++ [.solo (.helpUntil 0)]

/-- When the only node leads to itself, a notification for another timeline does not return. -/
theorem not_returns {reactor : TimelineReactor} {sweep : Sweep} {now : Int} {result : Nat}
    (loops : reactor.next 0 = some 0) (isNotification : sweep = .notifyTimelineAdvanced 8 1)
    (waits : (reactor.wait 0).syncPoint.handle = 7) :
    ¬ ReactorCall.Returns reactor (.visiting sweep now (some 0) result) := by
  intro returns
  generalize isCall : ReactorCall.visiting sweep now (some 0) result = call at returns
  induction returns with
  | idle => cases isCall
  | @step reactor _ _ _ ih =>
      subst isCall isNotification
      have passed : (ReactorCall.visiting (.notifyTimelineAdvanced 8 1) now (some 0) result).fire
          reactor {} =
            some (ReactorCall.advance reactor (.notifyTimelineAdvanced 8 1) now 0 result) := by
        simp [ReactorCall.fire, waits]
      refine ih {} _ passed loops waits ?_
      simp [ReactorCall.advance, loops]

/-- After a second `prepareRun` the node leads to itself. -/
theorem not_wait_set_finite : ∃ state : Program.State WaitSetState ReactorCall 1,
    (waitSetMachine 1).Reachable state ∧ ¬ state.shared.Finite ∧
      ¬ ∀ sweep, ReactorCall.Returns state.shared.reactor (.testing sweep) := by
  obtain ⟨state, reachable, loops, isHead, pending, waits⟩ : ∃ state,
      (waitSetMachine 1).Reachable state ∧ state.shared.reactor.next 0 = some 0 ∧
        state.shared.reactor.m_head = some 0 ∧ state.shared.reactor.m_pendingCount = 1 ∧
        (state.shared.reactor.wait 0).syncPoint.handle = 7 :=
    Machine.ReachableBy.exists_of_run (.start oneWaitPoint_initial)
      (preparedAndHelped ++ [.solo (.prepareRun 0 0)]) (by decide +kernel)
  refine ⟨state, reachable, ?_, fun returns => ?_⟩
  · rintro ⟨nodes, list, -⟩
    refine TimelineReactor.Endless.not_segment ⟨{0}, ⟨0, rfl, isHead⟩, ?_⟩ ⟨nodes, list⟩
    rintro node rfl
    exact ⟨0, rfl, loops⟩
  · have entered := (returns (.notifyTimelineAdvanced 8 1)).onward
      {} (show _ = some ⟨state.shared.reactor, .entering (.notifyTimelineAdvanced 8 1) 0, []⟩ by
        simp [ReactorCall.fire, TimelineReactor.hasPending, pending])
    have visiting := entered.onward {} rfl
    rw [isHead] at visiting
    exact not_returns loops rfl waits visiting

/-- `runAndWait` drops the list, so that the graph can be prepared again. -/
theorem wait_set_finite_reset : ∃ state : Program.State WaitSetState ReactorCall 1,
    state.shared.reactor.m_head = some 0 ∧ state.shared.Finite := by
  obtain ⟨state, reachable, isHead⟩ : ∃ state,
      (waitSetMachine 1).ReachableBy startingUnlinked state ∧
        state.shared.reactor.m_head = some 0 :=
    Machine.ReachableBy.exists_of_run (.start oneWaitPoint_initial)
      [.solo (.runAndWait 0 0), .solo .finish, .solo (.prepareRun 0 0)] (by decide +kernel)
  exact ⟨state, isHead, (wait_set_finite reachable).1⟩

end Twice

end LightFlow
