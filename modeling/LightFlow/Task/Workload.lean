import LightFlow.Lib.Counting
import LightFlow.Task.Run
import Mathlib.Logic.Relation
import Mathlib.Tactic.Abel

/-!
# The workload of a run

What a run still has to do, without regard to which thread does it: the nodes that
wait to be executed and the frames of all calls, as multisets.  Any frame may fire at
any time, so a workload has at least the behaviours of the threads.
-/

namespace LightFlow

structure Workload where
  shared : Shared
  /-- Nodes in a queue, in an inline slot or left to `prepareRun`. -/
  ready : Multiset NodeId
  frames : Multiset Frame

/-- Events that only record what the scheduler was told. -/
def Event.isNote : Event → Bool
  | .scheduled _ _ => true
  | .notified _ => true
  | _ => false

namespace Workload

/-- One step of a workload, in which only `allowed` frames fire. -/
inductive Step (callables : Callables) (allowed : Shared → Frame → Prop) :
    Workload → Workload → Prop where
  | fire {shared : Shared} {ready : Multiset NodeId} {frame : Frame} {rest : Multiset Frame}
      {inlineFree : Bool} {effect : Effect} :
      allowed shared frame → frame.fire callables inlineFree shared = some effect →
      Step callables allowed ⟨shared, ready, frame ::ₘ rest⟩
        ⟨effect.shared, ↑effect.staged.toList + (↑effect.queued + ready), ↑effect.frames + rest⟩
  | start {shared : Shared} {node : NodeId} {ready : Multiset NodeId}
      {frames : Multiset Frame} :
      Step callables allowed ⟨shared, node ::ₘ ready, frames⟩
        ⟨shared, ready, .executing node ::ₘ frames⟩
  | note {shared : Shared} {ready : Multiset NodeId} {frames : Multiset Frame} {event : Event} :
      event.isNote → Step callables allowed ⟨shared, ready, frames⟩
        ⟨shared.record event, ready, frames⟩

end Workload

namespace RunState

variable {threads : Nat}

/-- Nodes waiting in the inline slots. -/
def slots (thread : Fin threads → Thread) : Multiset NodeId :=
  ∑ index, (↑(thread index).t_nextInlineTask.toList : Multiset NodeId)

/-- Frames on all stacks. -/
def calls (thread : Fin threads → Thread) : Multiset Frame :=
  ∑ index, (↑(thread index).stack : Multiset Frame)

/-- Roots that `prepareRun` has not scheduled yet. -/
def unscheduled (state : RunState threads) : List NodeId :=
  match state.preparing with
  | none => []
  | some (roots, _) => roots

/-- The workload of all threads together. -/
def load (state : RunState threads) : Workload where
  shared := state.shared
  ready := ↑state.queued + ↑state.unscheduled + slots state.thread
  frames := calls state.thread

/-- Moving one thread exchanges its own calls and slot in the workload. -/
theorem exists_others (thread : Fin threads → Thread) (index : Fin threads) :
    ∃ otherCalls otherSlots,
      calls thread = ↑(thread index).stack + otherCalls ∧
      slots thread = ↑(thread index).t_nextInlineTask.toList + otherSlots ∧
      ∀ moved, calls (Function.update thread index moved) = ↑moved.stack + otherCalls ∧
        slots (Function.update thread index moved) =
          ↑moved.t_nextInlineTask.toList + otherSlots := by
  obtain ⟨otherCalls, callsBefore, callsAfter⟩ := Counting.exists_rest
    (fun thread : Thread => (↑thread.stack : Multiset Frame)) thread index
  obtain ⟨otherSlots, slotsBefore, slotsAfter⟩ := Counting.exists_rest
    (fun thread : Thread => (↑thread.t_nextInlineTask.toList : Multiset NodeId)) thread index
  exact ⟨otherCalls, otherSlots, callsBefore, slotsBefore,
    fun moved => ⟨callsAfter moved, slotsAfter moved⟩⟩

/-- A frame stages a node only when told that the slot is free. -/
theorem staged_of_fire {callables : Callables} {inlineFree : Bool} {shared : Shared}
    {frame : Frame} {effect : Effect}
    (fired : frame.fire callables inlineFree shared = some effect) :
    effect.staged = none ∨ inlineFree = true := by
  cases frame with
  | handingOver node branch succ todo unblockedCount =>
      simp only [Frame.fire, Option.some.injEq] at fired
      subst fired
      simp only [handOver]
      split
      next inlines => exact .inr (Bool.and_eq_true .. ▸ inlines).1
      next => split <;> [split; skip] <;> exact .inl rfl
  | dispatching node roots => cases roots <;> simp_all [Frame.fire] <;> simp [← fired]
  | joining node =>
      simp only [Frame.fire] at fired
      split at fired <;> simp_all
      simp [← fired]
  | unblocking node branch todo unblockedCount =>
      cases todo with
      | nil => simp_all [Frame.fire]; simp [← fired]
      | cons edge todo =>
          simp only [Frame.fire] at fired
          split at fired
          · simp_all [unblockActive]; simp [← fired]
          · split at fired <;> simp_all [unblockSkipped] <;> simp [← fired]
  | cascading node todo =>
      cases todo <;> simp_all [Frame.fire, unblockSkipped] <;> simp [← fired]
  | resetting node target todo cycleCount =>
      cases todo with
      | nil => simp_all [Frame.fire]; simp [← fired]
      | cons curr todo =>
          simp only [Frame.fire] at fired
          split at fired <;> simp_all <;> simp [← fired]
  | _ => simp_all [Frame.fire]; simp [← fired]

/-- Recording an event for the scheduler is a step of the workload. -/
theorem load_record {callables : Callables} {allowed : Shared → Frame → Prop}
    (state : RunState threads) (event : Event) (isNote : event.isNote) :
    Workload.Step callables allowed state.load
      { state with shared := state.shared.record event }.load :=
  .note isNote

theorem load_dispatchRoot {callables : Callables} {allowed : Shared → Frame → Prop}
    {state next : RunState threads} (stepped : state.dispatchRoot = some next) :
    Relation.ReflTransGen (Workload.Step callables allowed) state.load next.load := by
  simp only [dispatchRoot] at stepped
  split at stepped
  next => simp at stepped
  next rootWorkerCount preparing =>
    cases stepped
    have notified : Workload.Step callables allowed state.load _ :=
      load_record state (.notified rootWorkerCount) rfl
    simp only [load, unscheduled, preparing] at notified ⊢
    split
    · exact .single notified
    · exact .refl
  next root roots rootWorkerCount preparing =>
    cases stepped
    have sameReady : (↑state.queued + ↑(root :: roots) : Multiset NodeId) =
        ↑(state.queued ++ [root]) + ↑roots := by
      simp
    have scheduled : Workload.Step callables allowed state.load _ :=
      load_record state (.scheduled root false) rfl
    simp only [load, unscheduled, preparing, sameReady] at scheduled ⊢
    split_ifs <;> first
      | exact .single scheduled
      | exact .tail (.single scheduled) (.note rfl)

/-- Whether a thread may inline tasks makes no difference to the workload. -/
theorem load_setCanInline (state : RunState threads) (index : Fin threads) (canInline : Bool) :
    (state.setThread index { state.thread index with t_canInlineTask := canInline }).load =
      state.load := by
  obtain ⟨otherCalls, otherSlots, callsBefore, slotsBefore, after⟩ :=
    exists_others state.thread index
  simp [load, setThread, unscheduled, (after _).1, (after _).2, callsBefore, slotsBefore]

/-- A looking thread moves a node from what is ready to the calls. -/
theorem load_take {graph : TaskGraph} {callables : Callables} {state next : RunState threads}
    {index : Fin threads} {node : NodeId}
    (stepped : state.step graph callables (.take index node) = some next) :
    next.runs = state.runs ∧ next.load.shared = state.load.shared ∧
      state.load.ready = node ::ₘ next.load.ready ∧
      next.load.frames = .executing node ::ₘ state.load.frames := by
  simp only [step] at stepped
  split at stepped
  next enabled =>
    simp only [Option.some.injEq] at stepped
    subst stepped
    obtain ⟨otherCalls, otherSlots, callsBefore, slotsBefore, after⟩ :=
      exists_others state.thread index
    refine ⟨rfl, rfl, ?_, ?_⟩
    · simp only [load, setThread, unscheduled, (after _).2, slotsBefore]
      rw [← Multiset.cons_add, ← Multiset.cons_add, Multiset.cons_coe,
        Multiset.coe_eq_coe.mpr (List.perm_cons_erase enabled.2)]
    · simp only [load, setThread, (after _).1, callsBefore]
      rw [← Multiset.cons_coe, Multiset.cons_add]
  next => simp at stepped

theorem load_takeInline {graph : TaskGraph} {callables : Callables} {state next : RunState threads}
    {index : Fin threads} (stepped : state.step graph callables (.takeInline index) = some next) :
    ∃ node, next.runs = state.runs ∧ next.load.shared = state.load.shared ∧
      state.load.ready = node ::ₘ next.load.ready ∧
      next.load.frames = .executing node ::ₘ state.load.frames := by
  simp only [step] at stepped
  split at stepped
  next => simp at stepped
  next node staged =>
    split at stepped
    next enabled =>
      simp only [Option.some.injEq] at stepped
      subst stepped
      obtain ⟨otherCalls, otherSlots, callsBefore, slotsBefore, after⟩ :=
        exists_others state.thread index
      refine ⟨node, rfl, rfl, ?_, ?_⟩
      · simp only [load, setThread, unscheduled, (after _).2, slotsBefore, staged,
          Option.toList_some, Option.toList_none, Multiset.coe_singleton,
          Multiset.coe_nil, zero_add]
        rw [← Multiset.singleton_add]
        abel
      · simp only [load, setThread, (after _).1, callsBefore]
        rw [← Multiset.cons_coe, Multiset.cons_add]
    next => simp at stepped

theorem load_start {callables : Callables} {allowed : Shared → Frame → Prop}
    {before after : Workload} (node : NodeId) (sameShared : after.shared = before.shared)
    (taken : before.ready = node ::ₘ after.ready)
    (called : after.frames = .executing node ::ₘ before.frames) :
    Workload.Step callables allowed before after := by
  obtain ⟨shared, ready, frames⟩ := before
  obtain ⟨shared', ready', frames'⟩ := after
  dsimp only at sameShared taken called
  subst sameShared taken called
  exact .start

/-- What a thread's next access does to the workload. -/
theorem load_fire {callables : Callables} {state next : RunState threads} {index : Fin threads}
    (fired : state.fire callables index = some next) :
    ∃ frame stack rest effect, (state.thread index).stack = frame :: stack ∧
      frame.fire callables (state.thread index).inlineFree state.shared = some effect ∧
      state.load.frames = frame ::ₘ rest ∧ next.runs = state.runs ∧
      next.load = ⟨effect.shared, ↑effect.staged.toList + (↑effect.queued + state.load.ready),
        ↑effect.frames + rest⟩ := by
  simp only [fire] at fired
  split at fired
  next => simp at fired
  next frame stack onTop =>
    rw [Option.map_eq_some_iff] at fired
    obtain ⟨effect, effectEq, rfl⟩ := fired
    obtain ⟨otherCalls, otherSlots, callsBefore, slotsBefore, after⟩ :=
      exists_others state.thread index
    have slotsAfter : (↑(effect.staged <|> (state.thread index).t_nextInlineTask).toList :
          Multiset NodeId) =
        ↑effect.staged.toList + ↑(state.thread index).t_nextInlineTask.toList := by
      rcases staged_of_fire effectEq with none | free
      · simp [none]
      · have empty : (state.thread index).t_nextInlineTask = Option.none := by
          simp only [Thread.inlineFree, Bool.and_eq_true, Option.isNone_iff_eq_none] at free
          exact free.2
        simp [empty]
    refine ⟨frame, stack, ↑stack + otherCalls, effect, onTop, effectEq, ?_, rfl, ?_⟩
    · simp only [load, callsBefore, onTop]
      rw [← Multiset.cons_coe, Multiset.cons_add]
    · simp only [load, setThread, unscheduled, (after _).1, (after _).2, slotsAfter, slotsBefore,
        Workload.mk.injEq, true_and]
      constructor
      · rw [← Multiset.coe_add]
        abel
      · rw [← Multiset.coe_add, add_assoc]

/-- Threads refine the workload: apart from `prepareRun`, whatever a thread does is a
sequence of workload steps. -/
theorem load_step {graph : TaskGraph} {callables : Callables} {allowed : Shared → Frame → Prop}
    {state next : RunState threads} {action : RunAction threads}
    (permitted : ∀ index frame stack, action = .fire index →
      (state.thread index).stack = frame :: stack → allowed state.shared frame)
    (stepped : state.step graph callables action = some next) :
    (action = .prepareRun ∧ state.Ended ∧ next = state.prepareRun graph) ∨
      (next.runs = state.runs ∧
        Relation.ReflTransGen (Workload.Step callables allowed) state.load next.load) := by
  cases action with
  | prepareRun =>
      simp only [step] at stepped
      split at stepped
      next ended => exact .inl ⟨rfl, ended, (Option.some.inj stepped).symm⟩
      next => simp at stepped
  | dispatchRoot =>
      refine .inr ⟨?_, load_dispatchRoot stepped⟩
      simp only [step, dispatchRoot] at stepped
      split at stepped <;> simp at stepped <;> simp [← stepped]
  | setCanInline index canInline =>
      simp only [step, Option.some.injEq] at stepped
      subst stepped
      exact .inr ⟨rfl, load_setCanInline state index canInline ▸ .refl⟩
  | take index node =>
      obtain ⟨sameRuns, sameShared, taken, called⟩ := load_take stepped
      exact .inr ⟨sameRuns, .single (load_start node sameShared taken called)⟩
  | takeInline index =>
      obtain ⟨node, sameRuns, sameShared, taken, called⟩ := load_takeInline stepped
      exact .inr ⟨sameRuns, .single (load_start node sameShared taken called)⟩
  | fire index =>
      obtain ⟨frame, stack, rest, effect, onTop, fired, split, sameRuns, after⟩ := load_fire stepped
      have moved : Workload.Step callables allowed
          ⟨state.shared, state.load.ready, frame ::ₘ rest⟩ next.load :=
        after ▸ .fire (permitted index frame stack rfl onTop) fired
      rw [← split] at moved
      exact .inr ⟨sameRuns, .single moved⟩

end RunState

end LightFlow
