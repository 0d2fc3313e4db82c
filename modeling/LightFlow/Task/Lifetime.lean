import LightFlow.Lib.Machine
import LightFlow.Task.InFlight
import LightFlow.Task.Ownership
import LightFlow.Task.Semantics

/-!
# The life of a graph

A graph is built, runs any number of times and is cleared when `runAndWait` has returned, which it
does when `m_pendingTasks` is zero.  The threads of the scheduler do not stop there: a node that was
still in flight would be executed in memory that `clear` gave back.
-/

namespace LightFlow

/-- A graph, its runs and its callables. -/
structure GraphLife (threads : Nat) where
  graph : TaskGraph := {}
  run : RunState threads := TaskGraph.initialState {} threads
  own : OwnershipState := {}
  /-- `clear` was called. -/
  cleared : Bool := false

/-- Calls on a graph, and what the threads do. -/
inductive LifeAction (threads : Nat) where
  /-- `emplace`, `emplaceCondition` and `emplaceSubflow`. -/
  | emplace (type : TaskType) (domain : TaskDomain) (callable : Callable)
  | parallelFor (count batchSize : Nat) (domain : TaskDomain) (callable : Callable)
  | addEdge (source target : NodeId) (branch : Int)
  | run (action : RunAction threads)
  /-- `clear`, or the destructor of the graph. -/
  | clear
  deriving DecidableEq, Repr

namespace GraphLife

variable {threads : Nat}

/-- The graph with its nodes as the runs left them. -/
def built (life : GraphLife threads) : TaskGraph :=
  { life.graph with node := life.run.shared.node }

/-- Nothing runs, and the graph was not cleared. -/
def AtRest (life : GraphLife threads) : Prop :=
  life.run.Ended ∧ life.cleared = false

instance (life : GraphLife threads) : Decidable life.AtRest :=
  inferInstanceAs (Decidable (_ ∧ _))

/-- A building operation. -/
def build (life : GraphLife threads) (graph : TaskGraph) (own : OwnershipState) :
    GraphLife threads :=
  { life with
    graph
    run := { life.run with shared := { life.run.shared with node := graph.node } }
    own }

/-- What a step of the run does with the callables.  `prepareRun` finds the arenas of the workers
reset. -/
def ownAfter (code : UserCode) (life : GraphLife threads) : RunAction threads → OwnershipState
  | .prepareRun => { life.own with children := [] }
  | .fire index =>
      match (life.run.thread index).stack with
      | .calling node :: _ =>
          life.own.call code node (life.run.shared.node node).type (life.run.shared.calls node)
      | _ => life.own
  | _ => life.own

/-- `clear`. -/
def clear (life : GraphLife threads) : GraphLife threads where
  graph := {}
  run := { life.run with shared := { life.run.shared with m_pendingTasks := 0 } }
  own := life.own.clear
  cleared := true

def step (code : UserCode) (life : GraphLife threads) :
    LifeAction threads → Option (GraphLife threads)
  | .emplace type domain callable =>
      if life.AtRest ∧ life.graph.m_nodeCount + 1 < 2 ^ 32 then
        some (life.build (life.built.emplace type domain)
          (life.own.emplace (.node life.graph.m_nodeCount) type callable))
      else none
  | .parallelFor count batchSize domain callable =>
      if life.AtRest ∧
          life.graph.m_nodeCount + 2 + TaskGraph.parallelForChunkCount count batchSize < 2 ^ 32 then
        some (life.build (life.built.parallelFor count batchSize domain)
          (life.own.parallelFor life.graph.m_nodeCount count batchSize callable))
      else none
  | .addEdge source target branch =>
      if life.AtRest ∧ source ∈ life.graph.order ∧ target ∈ life.graph.order then
        some (life.build (life.built.addEdge source target branch) life.own)
      else none
  | .run action =>
      if life.cleared = true ∧ action = .prepareRun then none
      else
        (life.run.step life.graph code.callables action).map fun run =>
          { life with run, own := life.ownAfter code action }
  | .clear => if life.AtRest then some life.clear else none

end GraphLife

/-- A graph over its whole life. -/
def lifeMachine (code : UserCode) (threads : Nat) :
    Machine (GraphLife threads) (LifeAction threads) where
  initial := fun life => life = {}
  step := GraphLife.step code

/-- Every step of a run decides no node too many. -/
def GraphLife.Accounted (code : UserCode) {threads : Nat} (life : GraphLife threads) :
    LifeAction threads → Prop
  | .run action => life.run.Accounted code.callables action
  | _ => True

instance (code : UserCode) {threads : Nat} (life : GraphLife threads) :
    (action : LifeAction threads) → Decidable (life.Accounted code action)
  | .run action => inferInstanceAs (Decidable (life.run.Accounted code.callables action))
  | .emplace _ _ _ | .parallelFor _ _ _ _ | .addEdge _ _ _ | .clear =>
      inferInstanceAs (Decidable True)

/-! ## The chain of nodes -/

namespace TaskGraph

theorem parallelForChunks_counted (domain : TaskDomain) (entry join : NodeId) (chunks : Nat)
    {graph : TaskGraph} (fresh : graph.m_nodeCount + chunks < 2 ^ 32)
    (counted : graph.order.length + 1 = graph.m_nodeCount) :
    (parallelForChunks domain entry join graph chunks).order.length + 1 =
      (parallelForChunks domain entry join graph chunks).m_nodeCount := by
  induction chunks generalizing graph with
  | zero => exact counted
  | succ chunks ih =>
      have count : (graph.createNode .parallelForChunk domain).1.m_nodeCount =
          graph.m_nodeCount + 1 := createNode_count .parallelForChunk domain (by omega)
      refine ih ?_ ?_
      · change (graph.createNode .parallelForChunk domain).1.m_nodeCount + chunks < 2 ^ 32
        omega
      · change (graph.order ++ [_]).length + 1 =
          (graph.createNode .parallelForChunk domain).1.m_nodeCount
        rw [List.length_append, count]
        exact congrArg (· + 1) counted

theorem emplace_counted {graph : TaskGraph} (type : TaskType) (domain : TaskDomain)
    (fresh : graph.m_nodeCount + 1 < 2 ^ 32) (counted : graph.order.length = graph.m_nodeCount) :
    (graph.emplace type domain).order.length = (graph.emplace type domain).m_nodeCount := by
  change (graph.order ++ [_]).length = (graph.createNode type domain).1.m_nodeCount
  rw [createNode_count type domain fresh, List.length_append, counted]
  rfl

theorem parallelFor_counted {graph : TaskGraph} (count batchSize : Nat) (domain : TaskDomain)
    (fresh : graph.m_nodeCount + 2 + parallelForChunkCount count batchSize < 2 ^ 32)
    (counted : graph.order.length = graph.m_nodeCount) :
    (graph.parallelFor count batchSize domain).order.length =
      (graph.parallelFor count batchSize domain).m_nodeCount := by
  simp only [parallelFor]
  split
  · exact emplace_counted _ domain (by omega) counted
  · split
    · exact emplace_counted _ domain (by omega) counted
    · set opened := (graph.createNode .static domain).1.appendNode
        (graph.createNode .static domain).2
      have entryCount : opened.m_nodeCount = graph.m_nodeCount + 1 :=
        createNode_count .static domain (by omega)
      have joinCount : (opened.createNode .static domain).1.m_nodeCount = opened.m_nodeCount + 1 :=
        createNode_count .static domain (by omega)
      have order : (opened.createNode .static domain).1.order.length = graph.order.length + 1 :=
        List.length_append
      rw [appendNode, List.length_append]
      exact parallelForChunks_counted domain _ _ (parallelForChunkCount count batchSize) (by omega)
        (by omega)

end TaskGraph

namespace OwnershipState

/-- The chunks are chained in the order of their creation. -/
theorem emplaceChunks_ids (domain : TaskDomain) (entry join : NodeId) (chunks : Nat)
    (sharedCallable : CallableObject) {own : OwnershipState} {graph : TaskGraph}
    {m_nodeCount : Nat} (sameCount : graph.m_nodeCount = m_nodeCount)
    (chained : own.nodes.map (·.id) = graph.order) :
    (emplaceChunks sharedCallable own m_nodeCount chunks).nodes.map (·.id) =
      (TaskGraph.parallelForChunks domain entry join graph chunks).order := by
  induction chunks generalizing own graph m_nodeCount with
  | zero => exact chained
  | succ chunks ih =>
      subst sameCount
      let chunk := graph.createNode .parallelForChunk domain
      refine @ih _ (((chunk.1.appendNode chunk.2).addEdge entry chunk.2).addEdge chunk.2 join) _ rfl
        ?_
      rw [emplaceChunk, List.map_append, chained]
      rfl

theorem emplace_ids (type : TaskType) (domain : TaskDomain) (callable : Callable)
    {own : OwnershipState} {graph : TaskGraph} (chained : own.nodes.map (·.id) = graph.order) :
    (own.emplace (.node graph.m_nodeCount) type callable).nodes.map (·.id) =
      (graph.emplace type domain).order := by
  rw [emplace, List.map_append, chained]
  rfl

theorem parallelFor_ids (count batchSize : Nat) (domain : TaskDomain) (callable : Callable)
    {own : OwnershipState} {graph : TaskGraph} (chained : own.nodes.map (·.id) = graph.order) :
    (own.parallelFor graph.m_nodeCount count batchSize callable).nodes.map (·.id) =
      (graph.parallelFor count batchSize domain).order := by
  simp only [parallelFor, TaskGraph.parallelFor]
  split
  · exact emplace_ids _ domain _ chained
  · split
    · exact emplace_ids _ domain _ chained
    · rw [List.map_append, TaskGraph.appendNode]
      congr 1
      refine emplaceChunks_ids domain _ _ _ _ rfl ?_
      exact @emplace_ids .static domain .empty (own.createShared callable) graph chained

end OwnershipState

/-! ## What holds in every state -/

/-- The chain holds the nodes of the graph, what is in flight is counted, and callables have their
owners; once the graph is cleared, nothing is in flight. -/
structure LifeLaw {threads : Nat} (life : GraphLife threads) : Prop where
  counted : life.graph.order.length = life.graph.m_nodeCount
  chained : life.own.nodes.map (·.id) = life.graph.order
  covered : life.run.load.Covered
  own : OwnershipLaw life.own []
  fresh : life.cleared = false → life.own.stale = []
  emptied : life.cleared = true → life.own.nodes = [] ∧ life.run.Ended

namespace LifeLaw

variable {threads : Nat} {life next : GraphLife threads} {code : UserCode}

theorem initial (threads : Nat) : LifeLaw ({} : GraphLife threads) where
  counted := rfl
  chained := rfl
  covered := by
    have ready : ((TaskGraph.initialState {} threads).load).ready = 0 := by
      simp [RunState.load, TaskGraph.initialState, RunState.unscheduled, RunState.slots]
    have frames : ((TaskGraph.initialState {} threads).load).frames = 0 := by
      simp [RunState.load, TaskGraph.initialState, RunState.calls]
    refine ⟨?_, ?_⟩
    · rw [Workload.inFlight, ready, frames]
      exact Nat.zero_le _
    · rw [frames]
      exact fun frame member => absurd member (Multiset.notMem_zero frame)
  own := .initial
  fresh := fun _ => rfl
  emptied := fun cleared => by cases cleared

/-- A building operation leaves alone what is in flight. -/
theorem build (law : LifeLaw life) (atRest : life.AtRest) {graph : TaskGraph} {own : OwnershipState}
    (counted : graph.order.length = graph.m_nodeCount)
    (chained : own.nodes.map (·.id) = graph.order) (owned : OwnershipLaw own [])
    (sameStale : own.stale = life.own.stale) : LifeLaw (life.build graph own) where
  counted := counted
  chained := chained
  covered := ⟨law.covered.inFlight, law.covered.resetsSome⟩
  own := owned
  fresh := fun cleared => sameStale.trans (law.fresh cleared)
  emptied := fun cleared => absurd atRest.2 (by simpa [GraphLife.build] using cleared)

/-- `clear` finds nothing in flight. -/
theorem clear (law : LifeLaw life) (atRest : life.AtRest) : LifeLaw life.clear where
  counted := rfl
  chained := rfl
  covered := by
    refine ⟨?_, law.covered.resetsSome⟩
    exact (RunState.inFlight_of_ended law.covered atRest.1).le
  own := law.own.clear
  fresh := fun notCleared => by cases notCleared
  emptied := fun _ => ⟨rfl, atRest.1.1, rfl⟩

/-- A step of the run calls callables whose nodes are not given back. -/
theorem ownAfter (law : LifeLaw life) (action : RunAction threads)
    (held : ∀ index node stack, action = .fire index →
      (life.run.thread index).stack = .calling node :: stack → life.cleared = false) :
    OwnershipLaw (life.ownAfter code action) [] ∧
      (life.ownAfter code action).chains = life.own.chains := by
  have own := law.own
  cases action with
  | prepareRun =>
      exact ⟨⟨own.fresh, own.once, own.owned, own.stored, List.forall_mem_nil _, own.alive⟩, rfl⟩
  | fire index =>
      simp only [GraphLife.ownAfter]
      split
      next node stack onTop =>
        have noneStale := law.fresh (held index node stack rfl onTop)
        exact ⟨own.call noneStale code node _ _, life.own.call_chains code node _ _⟩
      next => exact ⟨own, rfl⟩
  | _ => exact ⟨own, rfl⟩

/-- After `clear` a thread can only finish walks that have nothing left to hand over. -/
theorem ended_step (ended : life.run.Ended) (idle : life.run.Idle) {action : RunAction threads}
    (noRun : action ≠ .prepareRun) {run : RunState threads}
    (stepped : life.run.step life.graph code.callables action = some run) :
    run.Ended ∧ ∀ index node stack, action = .fire index →
      (life.run.thread index).stack ≠ .calling node :: stack := by
  obtain ⟨noneQueued, notPreparing, threadsIdle⟩ := idle
  cases action with
  | prepareRun => exact absurd rfl noRun
  | dispatchRoot => simp [RunState.step, RunState.dispatchRoot, notPreparing] at stepped
  | setCanInline index canInline =>
      cases stepped
      exact ⟨ended, fun _ _ _ isFire => by cases isFire⟩
  | take index node => simp [RunState.step, noneQueued] at stepped
  | takeInline index => simp [RunState.step, (threadsIdle index).1] at stepped
  | fire index =>
      have noneInFlight := (threadsIdle index).2
      simp only [RunState.step, RunState.fire] at stepped
      split at stepped
      next => cases stepped
      next frame stack onTop =>
        obtain ⟨effect, fired, rfl⟩ := Option.map_eq_some_iff.mp stepped
        have topIdle := noneInFlight frame (onTop ▸ List.mem_cons_self ..)
        refine ⟨?_, ?_⟩
        · have samePending : effect.shared.m_pendingTasks = life.run.shared.m_pendingTasks := by
            cases frame with
            | cascading node todo =>
                cases todo with
                | nil => cases fired; rfl
                | cons edge todo => cases fired; rfl
            | _ => cases topIdle
          exact ⟨ended.1, samePending.trans ended.2⟩
        · rintro other node rest isFire isCalling
          cases isFire
          rw [onTop] at isCalling
          cases isCalling
          cases topIdle

/-- What the calls of the graph and the steps of its runs preserve. -/
theorem step (law : LifeLaw life) {action : LifeAction threads}
    (accounted : life.Accounted code action) (stepped : life.step code action = some next) :
    LifeLaw next := by
  cases action with
  | emplace type domain callable =>
      simp only [GraphLife.step, Option.ite_none_right_eq_some, Option.some.injEq] at stepped
      obtain ⟨⟨atRest, fresh⟩, rfl⟩ := stepped
      exact law.build atRest
        (TaskGraph.emplace_counted type domain fresh law.counted)
        (OwnershipState.emplace_ids type domain callable law.chained) (law.own.emplace _ _ _) rfl
  | parallelFor count batchSize domain callable =>
      simp only [GraphLife.step, Option.ite_none_right_eq_some, Option.some.injEq] at stepped
      obtain ⟨⟨atRest, fresh⟩, rfl⟩ := stepped
      exact law.build atRest
        (TaskGraph.parallelFor_counted count batchSize domain fresh law.counted)
        (@OwnershipState.parallelFor_ids count batchSize domain callable life.own life.built
          law.chained)
        (law.own.parallelFor _ _ _ _) (life.own.parallelFor_stale _ _ _ _)
  | addEdge source target branch =>
      simp only [GraphLife.step, Option.ite_none_right_eq_some, Option.some.injEq] at stepped
      obtain ⟨⟨atRest, -⟩, rfl⟩ := stepped
      exact law.build atRest law.counted law.chained law.own rfl
  | clear =>
      simp only [GraphLife.step, Option.ite_none_right_eq_some, Option.some.injEq] at stepped
      obtain ⟨atRest, rfl⟩ := stepped
      exact law.clear atRest
  | run action =>
      simp only [GraphLife.step, Option.ite_none_left_eq_some, Option.map_eq_some_iff] at stepped
      obtain ⟨notAfterClear, run, stepped, rfl⟩ := stepped
      have covered := RunState.covered_step law.counted law.covered accounted stepped
      have after (cleared : life.cleared = true) :
          run.Ended ∧ ∀ index node stack, action = .fire index →
            (life.run.thread index).stack ≠ .calling node :: stack := by
        have ended := (law.emptied cleared).2
        exact ended_step ended (RunState.idle_of_ended law.covered ended)
          (fun isPrepare => notAfterClear ⟨cleared, isPrepare⟩) stepped
      obtain ⟨owned, sameChains⟩ :=
        @law.ownAfter _ _ code action fun index node stack isFire onTop =>
        Bool.eq_false_iff.mpr fun cleared => (after cleared).2 index node stack isFire onTop
      have sameNodes := congrArg Prod.fst sameChains
      have sameStale := congrArg Prod.snd sameChains
      exact
        { counted := law.counted
          chained := (congrArg (List.map (·.id)) sameNodes).trans law.chained
          covered := covered
          own := owned
          fresh := fun notCleared => sameStale.trans (law.fresh notCleared)
          emptied := fun cleared =>
            ⟨sameNodes.trans (law.emptied cleared).1, (after cleared).1⟩ }

end LifeLaw

variable {threads : Nat} {code : UserCode} {life next : GraphLife threads}

theorem lifeLaw_of_reachable
    (reachable : (lifeMachine code threads).ReachableBy (GraphLife.Accounted code) life) :
    LifeLaw life := by
  refine reachable.invariant (fun life initial => ?_) fun life action next law accounted stepped =>
    law.step accounted stepped
  rw [show life = {} from initial]
  exact .initial threads

/-! ## Graphs without cycles -/

/-- What a graph needs for its runs to decide no node too many: no cycles, and counters that hold
the edges. -/
def TaskGraph.Plain (graph : TaskGraph) : Prop :=
  graph.Acyclic ∧ ∀ node, TaskGraph.incoming graph.node graph.order node ≤ 2 ^ 16

/-- A graph is built before the first step of a run, is plain when it runs, and its runs reach none
of the defects that `RunState.Proper` leaves out. -/
def GraphLife.Proper (code : UserCode) (life : GraphLife threads) : LifeAction threads → Prop
  | .run action => life.graph.Plain ∧ life.run.Proper life.graph code.callables action
  | .clear => life.graph.Plain
  | .emplace _ _ _ | .parallelFor _ _ _ _ | .addEdge _ _ _ =>
      life.run = life.graph.initialState threads

/-- The graph that the runs are of, also after `clear`. -/
def RunsOf (code : UserCode) (life : GraphLife threads) (graph : TaskGraph) : Prop :=
  graph.Built ∧
    (graph.machine code.callables threads).ReachableBy (RunState.Proper graph code.callables)
      life.run ∧
    (life.cleared = false → graph = life.graph) ∧ (life.cleared = true → graph.Plain)

/-- The steps of a run, apart from `prepareRun`, and what makes them proper do not ask which graph
is run. -/
theorem RunState.step_of_any (graph other : TaskGraph) (callables : Callables)
    (state : RunState threads) {action : RunAction threads} (noRun : action ≠ .prepareRun) :
    state.step graph callables action = state.step other callables action ∧
      (state.Proper graph callables action ↔ state.Proper other callables action) := by
  cases action with
  | prepareRun => exact absurd rfl noRun
  | _ => exact ⟨rfl, .rfl⟩

theorem RunsOf.run {graph : TaskGraph} (runsOf : RunsOf code life graph)
    {action : RunAction threads} (proper : life.Proper code (.run action))
    (stepped : life.step code (.run action) = some next) :
    life.Accounted code (.run action) ∧ RunsOf code next graph := by
  obtain ⟨built, reachable, current, plain⟩ := runsOf
  simp only [GraphLife.step, Option.ite_none_left_eq_some, Option.map_eq_some_iff] at stepped
  obtain ⟨notAfterClear, run, stepped, rfl⟩ := stepped
  have isPlain : graph.Plain := by
    cases cleared : life.cleared with
    | false => exact current cleared ▸ proper.1
    | true => exact plain cleared
  have same : life.run.step graph code.callables action = some run ∧
      life.run.Proper graph code.callables action := by
    cases cleared : life.cleared with
    | false => exact current cleared ▸ ⟨stepped, proper.2⟩
    | true =>
        obtain ⟨sameStep, sameProper⟩ := life.run.step_of_any graph life.graph code.callables
          fun isPrepare => notAfterClear ⟨cleared, isPrepare⟩
        exact ⟨sameStep.trans stepped, sameProper.mpr proper.2⟩
  exact ⟨accounted_of_proper (built.sound isPlain.1 isPlain.2) reachable same.2,
    built, reachable.step same.2 same.1, current, plain⟩

/-- A building operation of a graph that was not run. -/
theorem RunsOf.build {graph : TaskGraph} (built : graph.Built) (atRest : life.AtRest)
    (notRun : life.run = life.graph.initialState threads) (own : OwnershipState) :
    RunsOf code (life.build graph own) graph := by
  refine ⟨built, .start ?_, fun _ => rfl, fun cleared => ?_⟩
  · change
      ({ life.run with shared := { life.run.shared with node := graph.node } } : RunState threads) =
        graph.initialState threads
    rw [notRun]
    rfl
  · exact absurd atRest.2 (by simpa [GraphLife.build] using cleared)

/-- Proper steps decide no node too many. -/
theorem RunsOf.step (runsOf : ∃ graph, RunsOf code life graph) {action : LifeAction threads}
    (proper : life.Proper code action) (stepped : life.step code action = some next) :
    life.Accounted code action ∧ ∃ graph, RunsOf code next graph := by
  obtain ⟨graph, runsOf⟩ := runsOf
  obtain ⟨built, reachable, current, -⟩ := id runsOf
  have asBuilt (notRun : life.run = life.graph.initialState threads) : life.built = life.graph := by
    rw [GraphLife.built, notRun]
    rfl
  cases action with
  | run action =>
      obtain ⟨accounted, runsOf⟩ := runsOf.run proper stepped
      exact ⟨accounted, graph, runsOf⟩
  | emplace type domain callable =>
      simp only [GraphLife.step, Option.ite_none_right_eq_some, Option.some.injEq] at stepped
      obtain ⟨⟨atRest, fresh⟩, rfl⟩ := stepped
      rw [asBuilt proper]
      rw [current atRest.2] at built
      exact ⟨trivial, _, .build (.emplace type domain built fresh) atRest proper _⟩
  | parallelFor count batchSize domain callable =>
      simp only [GraphLife.step, Option.ite_none_right_eq_some, Option.some.injEq] at stepped
      obtain ⟨⟨atRest, fresh⟩, rfl⟩ := stepped
      rw [asBuilt proper]
      rw [current atRest.2] at built
      exact ⟨trivial, _, .build (.parallelFor count batchSize domain built fresh) atRest proper _⟩
  | addEdge source target branch =>
      simp only [GraphLife.step, Option.ite_none_right_eq_some, Option.some.injEq] at stepped
      obtain ⟨⟨atRest, sourceListed, targetListed⟩, rfl⟩ := stepped
      rw [asBuilt proper]
      rw [current atRest.2] at built
      exact ⟨trivial, _, .build (.addEdge branch built sourceListed targetListed) atRest proper _⟩
  | clear =>
      simp only [GraphLife.step, Option.ite_none_right_eq_some, Option.some.injEq] at stepped
      obtain ⟨⟨ended, notCleared⟩, rfl⟩ := stepped
      have unchanged : life.clear.run = life.run := by
        have nonePending := ended.2
        rw [GraphLife.clear, ← nonePending]
      refine ⟨trivial, graph, built, unchanged ▸ reachable, fun isFalse => (by cases isFalse),
        fun _ => ?_⟩
      rw [current notCleared]
      exact proper

theorem accounted_of_plain
    (reachable : (lifeMachine code threads).ReachableBy (GraphLife.Proper code) life) :
    (lifeMachine code threads).ReachableBy (GraphLife.Accounted code) life ∧
      ∃ graph, RunsOf code life graph := by
  induction reachable with
  | start initial =>
      refine ⟨.start initial, {}, .empty, ?_⟩
      rw [show _ = _ from initial]
      exact ⟨.start rfl, fun _ => rfl, fun cleared => by cases cleared⟩
  | step _ proper stepped ih =>
      obtain ⟨accounted, runsOf⟩ := RunsOf.step ih.2 proper stepped
      exact ⟨ih.1.step accounted stepped, runsOf⟩

/-! ## Every callable is destroyed once -/

/-- In a life that decides no node too many, no callable is invoked after its destructor was run,
nothing is left to execute once the graph is cleared, and then every callable was destroyed exactly
once if and only if no callable with a destructor was emplaced in a subflow.  The lives of graphs
without cycles whose counters hold their edges are such lives. -/
theorem callables_destroyed_iff (code : UserCode) (threads : Nat) :
    (∀ life : GraphLife threads,
      (lifeMachine code threads).ReachableBy (GraphLife.Accounted code) life →
        NeverInvokedDead life.own.log ∧
          (life.cleared = true → life.run.Idle ∧
            (life.own.DestroyedOnce ↔ ∀ object : CallableObject, object.type.trivial = false →
              .created object true ∉ life.own.log))) ∧
      ∀ life : GraphLife threads,
        (lifeMachine code threads).ReachableBy (GraphLife.Proper code) life →
          (lifeMachine code threads).ReachableBy (GraphLife.Accounted code) life := by
  refine ⟨fun life reachable => ?_, fun life reachable => (accounted_of_plain reachable).1⟩
  have law := lifeLaw_of_reachable reachable
  refine ⟨law.own.alive, fun cleared => ?_⟩
  obtain ⟨noNodes, ended⟩ := law.emptied cleared
  exact ⟨RunState.idle_of_ended law.covered ended, law.own.destroyedOnce_iff noNodes⟩

/-- The object was created in a subflow. -/
def CallableEvent.isChild : CallableEvent → Bool
  | .created _ child => child
  | _ => false

/-- A callable with a destructor that fits into a node. -/
def Callable.counted : Callable := { size := 16, alignment := 8, trivial := false }

/-- Subflow callables emplace one static task with a destructor. -/
def emplacesOne : UserCode where
  callables := { result := fun _ _ => 0, subflow := fun _ => { nodes := [{}] } }
  emplaces := fun _ _ _ => .counted

/-- A graph is built in one call, run by one thread and cleared. -/
def runOnce (built : LifeAction 1) (calls : List (List (RunAction 1))) : List (LifeAction 1) :=
  built :: .run .prepareRun :: .run .dispatchRoot :: .run .dispatchRoot ::
    (calls.flatten.map .run ++ [.clear])

/-- A `parallelFor` over five elements in batches of two destroys its shared callable once. -/
theorem callables_destroyed_iff_parallelFor : ∃ life : GraphLife 1, life.cleared = true ∧
    CallableEvent.invoked ⟨0, .counted⟩ ∈ life.own.log ∧ NeverInvokedDead life.own.log ∧
      life.own.DestroyedOnce := by
  obtain ⟨life, reachable, cleared, invoked, noChild⟩ : ∃ life : GraphLife 1,
      (lifeMachine emplacesOne 1).ReachableBy (GraphLife.Accounted emplacesOne) life ∧
        life.cleared = true ∧ CallableEvent.invoked ⟨0, .counted⟩ ∈ life.own.log ∧
          ∀ event ∈ life.own.log, event.isChild = false :=
    Machine.ReachableBy.exists_of_run (.start rfl)
      (runOnce (.parallelFor 5 2 .worker .counted)
        [RunAction.work 0 (.node 0) 11, RunAction.work 0 (.node 4) 6, RunAction.work 0 (.node 3) 6,
          RunAction.work 0 (.node 2) 7, RunAction.work 0 (.node 1) 5])
      (by decide +kernel)
  obtain ⟨alive, onceCleared⟩ := (callables_destroyed_iff emplacesOne 1).1 life reachable
  obtain ⟨-, destroyedOnce⟩ := onceCleared cleared
  refine ⟨life, cleared, invoked, alive, destroyedOnce.mpr fun object _ isChild => ?_⟩
  cases noChild _ isChild

/-- The callable that a subflow callable emplaces is never destroyed. -/
theorem not_callables_destroyed : ∃ life : GraphLife 1,
    (lifeMachine emplacesOne 1).ReachableBy (GraphLife.Accounted emplacesOne) life ∧
      life.cleared = true ∧ ¬ life.own.DestroyedOnce := by
  obtain ⟨life, reachable, cleared, created, destroyed⟩ : ∃ life : GraphLife 1,
      (lifeMachine emplacesOne 1).ReachableBy (GraphLife.Accounted emplacesOne) life ∧
        life.cleared = true ∧ CallableEvent.created ⟨1, .counted⟩ true ∈ life.own.log ∧
          CallableEvent.destroyed ⟨1, .counted⟩ ∉ life.own.log :=
    Machine.ReachableBy.exists_of_run (.start rfl)
      (runOnce (.emplace .subflow .worker .counted)
        [RunAction.work 0 (.node 0) 7, RunAction.work 0 (.child (.node 0) 0) 7,
          RunAction.work 0 (.exit (.node 0)) 5])
      (by decide +kernel)
  refine ⟨life, reachable, cleared, fun destroyedOnce => ?_⟩
  have once := destroyedOnce _ _ created rfl
  rw [List.count_eq_zero_of_not_mem destroyed] at once
  cases once

end LightFlow
