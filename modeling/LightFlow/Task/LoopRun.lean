import LightFlow.Task.Iterate

/-!
# Guarded runs of graphs with loops

Runs in which loop-back edges are taken only when allowed: one induction over the steps of
all threads carries the account, the answers of the conditions, and whatever else every
step keeps.
-/

namespace LightFlow

variable {graph : TaskGraph} {callables : Callables} {allowed : NodeId → NodeId → Prop}
  {tally next : Tally} {shared : Shared} {ready : Multiset NodeId} {frame : Frame}
  {rest : Multiset Frame} {effect : Effect} {threads : Nat}

/-! ## What every step keeps -/

theorem Answered.call_plain {node : NodeId} (answered : Answered callables shared)
    (noSplice : CallsNoSplice callables shared node) :
    Answered callables (executeFn callables shared node).1 := by
  obtain ⟨-, log, -, nodes⟩ := executeFn_of_callsNoSplice noSplice
  have calls := executeFn_calls callables shared node
  intro other executed isCondition
  obtain ⟨userData, stored, others⟩ := nodes other
  rw [stored] at isCondition
  by_cases isSelf : other = node
  · subst isSelf
    rw [executeFn_userData isCondition, calls, Function.update_self, Nat.add_sub_cancel]
  · have before : .executed other ∈ shared.log := by
      simpa [log, isSelf] using executed
    rw [stored, calls, Function.update_of_ne isSelf]
    exact (others isSelf).trans (answered other before isCondition)

theorem Answered.of_quiet {inlineFree : Bool} (answered : Answered callables shared)
    (notCalling : ∀ node, frame ≠ .calling node)
    (fired : frame.fire callables inlineFree shared = some effect) :
    Answered callables effect.shared := by
  obtain ⟨calls, -, ⟨events, log, quiet⟩, nodes, -⟩ := Frame.fire_keeps notCalling fired
  intro node inLog isCondition
  rw [(nodes node).2, calls]
  rw [log, mem_append_of_call (fun event member => (quiet event member).1) rfl] at inLog
  exact answered node inLog ((nodes node).1 ▸ isCondition)

/-- What holds in every state of a run with loops. -/
structure Looping (graph : TaskGraph) (callables : Callables)
    (allowed : NodeId → NodeId → Prop) (tally : Tally) (load : Workload) : Prop where
  account : Account graph tally load
  own : tally.Own
  rearms : ∀ frame ∈ load.frames, frame.Rearms graph allowed load.shared.node
  answered : Answered callables load.shared
  /-- Answers that go back make nodes pending again, once they have been acted on. -/
  revived : ∀ node, graph.revivals callables load.shared node = tally.rounds node +
    (load.frames.map fun frame => frame.revives graph load.shared.node node).sum

/-- Allowed loop-back edges rearm their loops, which have no exit but their conditions. -/
def TaskGraph.Rearmed (graph : TaskGraph) (allowed : NodeId → NodeId → Prop) : Prop :=
  ∀ source target, allowed source target →
    graph.Collects source target ∧ graph.LeftAtSource source target

namespace Looping

theorem fire {inlineFree : Bool}
    (looping : Looping graph callables allowed tally ⟨shared, ready, frame ::ₘ rest⟩)
    (looped : graph.Looped) (rearmed : graph.Rearmed allowed)
    (guarded : frame.Guarded allowed shared)
    (fired : frame.fire callables inlineFree shared = some effect) :
    ∃ next, tally.Lap graph allowed frame next ∧
      Looping graph callables allowed next (effect.load ready rest) ∧
      (¬ frame.Jumps shared.node → (effect.load ready rest).work graph next <
        Workload.work graph tally ⟨shared, ready, frame ::ₘ rest⟩) := by
  obtain ⟨next, laps, account, rearms, less⟩ :=
    looping.account.lap looped rearmed looping.own looping.rearms guarded fired
  refine ⟨next, laps, ⟨account, ?_, rearms, ?_, fun node => ?_⟩, less⟩
  · cases laps with
    | follows keeps =>
        intro node
        rw [keeps.dropped, keeps.bonus]
        exact looping.own node
    | rearms => exact looping.own
  · by_cases isCall : ∃ node, frame = .calling node
    · obtain ⟨node, rfl⟩ := isCall
      cases fired
      exact looping.answered.call_plain fun isSubflow =>
        absurd ((looping.account.shape node).1 ▸ isSubflow) (looped.plain node)
    · push Not at isCall
      exact looping.answered.of_quiet isCall fired
  · exact looping.account.revives looped laps fired (looping.revived node)

theorem start {node : NodeId} {frames : Multiset Frame}
    (looping : Looping graph callables allowed tally ⟨shared, node ::ₘ ready, frames⟩) :
    Looping graph callables allowed tally ⟨shared, ready, .executing node ::ₘ frames⟩ where
  account := looping.account.start
  own := looping.own
  rearms := fun frame member => by
    rcases Multiset.mem_cons.mp member with rfl | isOld
    · trivial
    · exact looping.rearms frame isOld
  answered := looping.answered
  revived := fun query => by simpa [Frame.revives] using looping.revived query

theorem note {frames : Multiset Frame} {event : Event}
    (looping : Looping graph callables allowed tally ⟨shared, ready, frames⟩)
    (isNote : event.isNote = true) :
    Looping graph callables allowed tally ⟨shared.record event, ready, frames⟩ where
  account := looping.account.note isNote
  own := looping.own
  rearms := looping.rearms
  answered := fun node executed isCondition => by
    have before : .executed node ∈ shared.log := by
      rcases List.mem_cons.mp executed with rfl | before
      · simp [Event.isNote] at isNote
      · exact before
    exact looping.answered node before isCondition
  revived := fun node => by
    have same (source : NodeId) : graph.returns callables (shared.record event) source node =
        graph.returns callables shared source node := by
      have other : event ≠ .executed source := by
        rintro rfl
        simp [Event.isNote] at isNote
      rw [TaskGraph.returns, TaskGraph.returns, Shared.record_log, List.count_cons_of_ne other]
      rfl
    rw [TaskGraph.revivals, Counting.sum_map_congr fun source _ => same source]
    exact looping.revived node

end Looping

/-- A property of tallies and calls that is kept in runs with loops. -/
structure Tally.Rule (graph : TaskGraph) (callables : Callables)
    (allowed : NodeId → NodeId → Prop) (keeps : Tally → Multiset Frame → Prop) : Prop where
  opening : keeps (.opening graph fun _ => 0) 0
  start : ∀ {tally : Tally} {frames : Multiset Frame} {node : NodeId}, keeps tally frames →
    keeps tally (.executing node ::ₘ frames)
  fire : ∀ {tally next : Tally} {shared : Shared} {ready : Multiset NodeId} {frame : Frame}
    {rest : Multiset Frame} {inlineFree : Bool} {effect : Effect},
    Looping graph callables allowed tally ⟨shared, ready, frame ::ₘ rest⟩ →
    keeps tally (frame ::ₘ rest) → tally.Lap graph allowed frame next →
    frame.fire callables inlineFree shared = some effect → keeps next (↑effect.frames + rest)

theorem Tally.Rule.none (graph : TaskGraph) (callables : Callables)
    (allowed : NodeId → NodeId → Prop) : Tally.Rule graph callables allowed fun _ _ => True :=
  ⟨trivial, fun _ => trivial, fun _ _ _ _ => trivial⟩

theorem Tally.Rule.and {first second : Tally → Multiset Frame → Prop}
    (one : Tally.Rule graph callables allowed first)
    (other : Tally.Rule graph callables allowed second) :
    Tally.Rule graph callables allowed fun tally frames =>
      first tally frames ∧ second tally frames where
  opening := ⟨one.opening, other.opening⟩
  start := fun kept => ⟨one.start kept.1, other.start kept.2⟩
  fire := fun looping kept laps fired =>
    ⟨one.fire looping kept.1 laps fired, other.fire looping kept.2 laps fired⟩

/-- Loops that are entered at their targets only wait for nothing but themselves. -/
theorem Tally.Rule.noExtra
    (entered : ∀ source target, allowed source target → graph.EnteredAtTarget source target) :
    Tally.Rule graph callables allowed fun tally _ => ∀ node, tally.extra node = 0 where
  opening := fun _ => rfl
  start := id
  fire := by
    intro tally next shared ready frame rest inlineFree effect _ none laps _ node
    cases laps with
    | follows keeps =>
        rw [keeps.extra]
        exact none node
    | @rearms source target body cycleCount permitted inBody =>
        rw [Tally.rearm]
        dsimp only
        split
        next isInner =>
          -- Forward edges into the node come from the body.
          refine Counting.sum_map_eq_zero fun previous _ => ?_
          split
          · rfl
          next outside =>
            by_contra some
            have related := TaskGraph.forwardInto_pos.mp (Nat.pos_of_ne_zero some)
            exact outside ((inBody previous).mpr (entered source target permitted node
              ((inBody node).mp isInner.1) isInner.2 previous related))
        next => exact none node

/-- A step of the workload keeps everything. -/
theorem Looping.step {keeps : Tally → Multiset Frame → Prop} {load after : Workload}
    (looped : graph.Looped) (rearmed : graph.Rearmed allowed)
    (rule : Tally.Rule graph callables allowed keeps)
    (looping : ∃ tally, Looping graph callables allowed tally load ∧ keeps tally load.frames)
    (stepped : Workload.Step callables (fun shared frame => frame.Guarded allowed shared)
      load after) :
    ∃ tally, Looping graph callables allowed tally after ∧ keeps tally after.frames := by
  obtain ⟨tally, looping, kept⟩ := looping
  cases stepped with
  | start => exact ⟨tally, looping.start, rule.start kept⟩
  | note isNote => exact ⟨tally, looping.note isNote, kept⟩
  | fire guarded fired =>
      obtain ⟨next, laps, goesOn, -⟩ := looping.fire looped rearmed guarded fired
      exact ⟨next, goesOn, rule.fire looping kept laps fired⟩

/-! ## All runs -/

/-- Steps that take allowed loop-back edges only, skip along loop-back edges only to nodes at
rest, and prepare a run only after all calls of the last one have returned. -/
def RunState.Guarded (allowed : NodeId → NodeId → Prop) (state : RunState threads) :
    RunAction threads → Prop
  | .fire index => ∀ frame ∈ (state.thread index).stack.take 1, frame.Guarded allowed state.shared
  | .prepareRun => ∀ index, (state.thread index).stack = []
  | _ => True

instance (allowed : NodeId → NodeId → Prop) [DecidableRel allowed] (state : RunState threads) :
    (action : RunAction threads) → Decidable (state.Guarded allowed action)
  | .prepareRun => inferInstanceAs (Decidable (∀ _, _))
  | .fire _ => inferInstanceAs (Decidable (∀ _ ∈ _, _))
  | .dispatchRoot | .setCanInline _ _ | .take _ _ | .takeInline _ =>
      inferInstanceAs (Decidable True)

theorem RunState.Guarded.mono {strong weak : NodeId → NodeId → Prop}
    (weaker : ∀ source target, strong source target → weak source target)
    {state : RunState threads} {action : RunAction threads}
    (guarded : state.Guarded strong action) : state.Guarded weak action := by
  cases action with
  | fire index => exact fun frame onTop => (guarded frame onTop).mono weaker
  | _ => exact guarded

theorem RunState.Guarded.onTop {state : RunState threads} {index : Fin threads} {stack : List Frame}
    (guarded : state.Guarded allowed (.fire index))
    (isStack : (state.thread index).stack = frame :: stack) : frame.Guarded allowed state.shared :=
  guarded frame (by simp [isStack])

/-- A run after the first one is prepared when all calls of the last one have returned. -/
def RunState.Prepared (state : RunState threads) (action : RunAction threads) : Prop :=
  action = .prepareRun → ∀ index, (state.thread index).stack = []

instance (state : RunState threads) (action : RunAction threads) :
    Decidable (state.Prepared action) :=
  inferInstanceAs (Decidable (_ → _))

/-- Before the first run the graph is as built, from then on it is looping. -/
def Opened (graph : TaskGraph) (callables : Callables) (allowed : NodeId → NodeId → Prop)
    (keeps : Tally → Multiset Frame → Prop) (state : RunState threads) : Prop :=
  (state.runs = 0 ∧ state.shared.node = graph.node ∧ state.load.ready = 0 ∧
    state.load.frames = 0) ∨
  (0 < state.runs ∧ ∃ tally, Looping graph callables allowed tally state.load ∧
    keeps tally state.load.frames)

theorem Tally.sum_isOpen_le (tally : Tally) (order : List NodeId) :
    (order.map tally.isOpen).sum ≤ order.length := by
  refine (List.sum_le_card_nsmul _ 1 fun value member => ?_).trans (by simp)
  obtain ⟨node, -, rfl⟩ := List.mem_map.mp member
  rw [Tally.isOpen]
  split <;> simp

/-- Without calls nothing is pending only when nothing is left to execute. -/
theorem Account.ready_of_done {load : Workload} (account : Account graph tally load)
    (own : tally.Own) (looped : graph.Looped) (frames : load.frames = 0)
    (done : load.shared.m_pendingTasks = 0) : load.ready = 0 := by
  have pending := account.pending
  have bound := looped.count ▸ looped.bound
  have atMost : (graph.order.map tally.isOpen).sum ≤ graph.order.length := tally.sum_isOpen_le _
  have noneLate : load.amount .unfinished = 0 := by
    simp [Workload.amount, frames]
  rw [done, noneLate, Nat.add_zero, u32_of_lt (by omega)] at pending
  refine Multiset.eq_zero_of_forall_notMem fun node member => ?_
  have carried : 0 < load.amount (.carried node) := by
    obtain ⟨others, split⟩ := Multiset.exists_cons_of_mem member
    simp [Workload.amount, split]
  have law := account.passage node
  have inOrder : node ∈ graph.order := List.count_pos_iff.mp (by omega)
  have isOpen := (List.sum_eq_zero_iff.mp pending.symm) _ (List.mem_map_of_mem inOrder)
  simp only [Tally.isOpen, (own node).1] at isOpen
  split at isOpen
  · simp at isOpen
  next closed =>
    have single := List.nodup_iff_count_le_one.mp looped.distinct node
    omega

/-- `prepareRun` opens the account. -/
theorem Looping.prepare {state : RunState threads} (looped : graph.Looped)
    (shape : ∀ node, (state.shared.node node).type = (graph.node node).type ∧
      (state.shared.node node).initialInDegree = (graph.node node).initialInDegree ∧
      (state.shared.node node).successors = (graph.node node).successors)
    (empty : state.load.ready = 0 ∧ state.load.frames = 0) :
    Looping graph callables allowed (.opening graph fun _ => 0) (state.prepareRun graph).load := by
  have frames : (state.prepareRun graph).load.frames = 0 := empty.2
  have ready : (state.prepareRun graph).load.ready =
      ↑(graph.order.filter fun node => (graph.node node).initialInDegree = 0) := by
    have parts : (↑state.queued : Multiset NodeId) = 0 ∧ RunState.slots state.thread = 0 := by
      have none := empty.1
      simp only [RunState.load, add_eq_zero] at none
      exact ⟨none.1.1, none.2⟩
    have roots : (state.prepareRun graph).unscheduled =
        graph.order.filter fun node => (graph.node node).initialInDegree = 0 := by
      have same : RunState.roots graph.order state.shared.node =
          graph.order.filter fun node => (graph.node node).initialInDegree = 0 :=
        List.filter_congr fun node _ => by rw [(shape node).2.1]
      simp only [RunState.unscheduled, RunState.prepareRun]
      split_ifs with noNodes
      · rw [looped.count, List.length_eq_zero_iff] at noNodes
        simp [noNodes]
      · exact same
    change ↑state.queued + ↑(state.prepareRun graph).unscheduled + RunState.slots state.thread = _
    rw [roots, parts.1, parts.2, zero_add, add_zero]
  have reset (node : NodeId) : ((state.prepareRun graph).load.shared.node node).type =
        (state.shared.node node).type ∧
      ((state.prepareRun graph).load.shared.node node).initialInDegree =
        (state.shared.node node).initialInDegree ∧
      ((state.prepareRun graph).load.shared.node node).successors =
        (state.shared.node node).successors := by
    simp only [RunState.load, RunState.prepareRun, RunState.resetNodes]
    split <;> exact ⟨rfl, rfl, rfl⟩
  refine ⟨.opening looped.distinct (looped.count ▸ looped.bound) (by simpa using looped.degree)
    (fun node => (looped.narrow node).trans_lt (by decide)) (fun node positive => ?_)
    (fun node => ?_) (fun node member => ?_) rfl frames ready ?_, fun _ => ⟨rfl, rfl⟩,
    by simp [frames], fun node executed => ?_, fun node => ?_⟩
  · rw [looped.degree, Counting.sum_map_pos] at positive
    obtain ⟨source, -, some⟩ := positive
    obtain ⟨edge, member, -, rfl⟩ := TaskGraph.forwardInto_pos.mp some
    exact looped.targets source edge member
  · rw [(reset node).1, (reset node).2.1, (reset node).2.2]
    exact shape node
  · change (RunState.resetNodes graph.order state.shared.node node).inDegree = _
    rw [resetNodes_of_mem member]
    exact (shape node).2.1
  · exact looped.count
  · exact absurd executed List.not_mem_nil
  · have none : graph.revivals callables (state.prepareRun graph).load.shared node = 0 :=
      Counting.sum_map_eq_zero fun source _ => rfl
    rw [none, frames]
    rfl

/-- In every state of every guarded run there is an account. -/
theorem looping_of_reachable {keeps : Tally → Multiset Frame → Prop} (looped : graph.Looped)
    (rearmed : graph.Rearmed allowed) (rule : Tally.Rule graph callables allowed keeps)
    {state : RunState threads} (reachable : (graph.machine callables threads).ReachableBy
      (RunState.Guarded allowed) state) : Opened graph callables allowed keeps state := by
  refine reachable.invariant ?_ ?_
  · rintro state rfl
    refine .inl ⟨rfl, rfl, ?_, ?_⟩
    · simp [RunState.load, TaskGraph.initialState, RunState.unscheduled, RunState.slots]
    · simp [RunState.load, TaskGraph.initialState, RunState.calls]
  · intro state action after opened guarded stepped
    have permitted (index : Fin threads) (frame : Frame) (stack : List Frame)
        (isFire : action = .fire index) (onTop : (state.thread index).stack = frame :: stack) :
        frame.Guarded allowed state.shared := by
      subst isFire
      exact guarded.onTop onTop
    rcases RunState.load_step permitted stepped with ⟨rfl, ended, rfl⟩ | ⟨sameRuns, steps⟩
    · have frames : state.load.frames = 0 := by
        simp [RunState.load, RunState.calls, show ∀ index, _ = [] from guarded]
      refine .inr ⟨Nat.succ_pos _, _, Looping.prepare looped ?_ ⟨?_, frames⟩, frames ▸ rule.opening⟩
      · rcases opened with ⟨-, asBuilt, -⟩ | ⟨-, tally, looping, -⟩
        · exact fun node => by simp [asBuilt]
        · exact looping.account.shape
      · rcases opened with ⟨-, -, ready, -⟩ | ⟨-, tally, looping, -⟩
        · exact ready
        · exact looping.account.ready_of_done looping.own looped frames ended.2
    · rcases opened with ⟨noRun, asBuilt, empty⟩ | ⟨someRun, looping⟩
      · obtain ⟨sameNodes, -, stillEmpty⟩ := Workload.steps_of_empty empty steps
        exact .inl ⟨sameRuns ▸ noRun, sameNodes.trans asBuilt, stillEmpty⟩
      · refine .inr ⟨sameRuns ▸ someRun, ?_⟩
        generalize after.load = load at steps
        induction steps with
        | refl => exact looping
        | tail _ last ih => exact Looping.step looped rearmed rule ih last

end LightFlow
