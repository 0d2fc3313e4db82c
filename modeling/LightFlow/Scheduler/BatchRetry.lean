import LightFlow.Scheduler.HandOver
import LightFlow.Scheduler.IoQueue
import LightFlow.Scheduler.WakeUps

/-!
# The retry of a batch

`schedule` notifies the workers when a global queue is full, and tries again.  `scheduleBatch` only
tries again, with all its notifications still to come, so that it waits for workers that nobody
wakes when the batches in progress are larger than the queue.
-/

namespace LightFlow

variable {size : PoolSize}

/-- A Worker task of the priority. -/
def TaskRequest.goesTo (priority : TaskPriority) (request : TaskRequest) : Bool :=
  !request.isIo && request.priority = priority

/-- How many Worker tasks of the priority a call may keep from the workers while it has tasks to
push: all of a batch, and up to 63 of a loop that may have to wait for room in the IO queue. -/
def Submit.withheld (priority : TaskPriority) (todo owed : List TaskRequest) : Submit → Nat
  | .schedule => 0
  | .scheduleBatch =>
      todo.countP (TaskRequest.goesTo priority) + owed.countP (TaskRequest.goesTo priority)
  | .unblock =>
      if todo.any TaskRequest.isIo then
        min 63 (todo.countP (TaskRequest.goesTo priority) +
          owed.countP (TaskRequest.goesTo priority))
      else 0

namespace PoolFrame

/-- How many Worker tasks of the priority the call may keep from the workers. -/
def withheld (priority : TaskPriority) : PoolFrame size → Nat
  | .submitting kind todo owed =>
      kind.withheld priority (todo.map (·.request)) (owed.map (·.request))
  | _ => 0

/-- The call is in the loop of `scheduleBatch`. -/
def isBatch : PoolFrame size → Bool
  | .submitting .scheduleBatch _ _ => true
  | _ => false

/-- A call that is not a batch owes few notifications. -/
def Limited : PoolFrame size → Prop
  | .submitting .schedule todo owed => todo.length + owed.length ≤ 1
  | .submitting .unblock _ owed => owed.length ≤ 63
  | _ => True

/-- The call goes on to notify the workers, whatever the other threads do. -/
def WillNotify (shared : PoolShared size) : PoolFrame size → Prop
  | .notifying count _ => 0 < count
  | .bumping _ _ | .waking _ _ | .wakingAll _ | .stopBumping => True
  | .submitting _ [] owed => owed ≠ []
  | .submitting .scheduleBatch (_ :: _) _ => False
  | .submitting _ (task :: todo) _ =>
      (∀ other ∈ task :: todo, other.request.isIo = false) ∨
        task.request.isIo = false ∧
          PoolShared.globalCapacity size task.request.priority ≤
            (shared.global task.request.priority).length
  | _ => False

end PoolFrame

/-- How many Worker tasks of the priority the calls of a thread may keep from the workers. -/
def PoolThread.withheld (priority : TaskPriority) (thread : PoolThread size) : Nat :=
  (thread.stack.map (PoolFrame.withheld priority)).sum

namespace PoolState

/-- The threads that push to the global queues. -/
def outside (state : PoolState size) (self : ThreadId size) : PoolThread size :=
  if self.currentWorkerIndex = none then state.thread self else { stack := [] }

/-- How many Worker tasks of the priority the calls outside of the workers may keep from them. -/
def withheld (state : PoolState size) (priority : TaskPriority) : Nat :=
  Counting.total (PoolThread.withheld priority) state.outside

/-- A batch is in progress outside of the workers. -/
def InBatch (state : PoolState size) : Prop :=
  ∃ self, ∃ frame ∈ (state.outside self).stack, frame.isBatch = true

instance (state : PoolState size) : Decidable state.InBatch :=
  inferInstanceAs (Decidable (∃ self, ∃ frame ∈ (state.outside self).stack, _))

/-- A caller tries to push to a full global queue, all workers are parked, and nothing will wake
one. -/
structure Stranded (state : PoolState size) : Prop where
  parked : ∀ worker, state.shared.parked worker = true
  retries : ∃ self : ThreadId size, self.currentWorkerIndex = none ∧ ∃ kind task todo owed,
    (state.thread self).stack.head? = some (.submitting kind (task :: todo) owed) ∧
      task.request.isIo = false ∧
      PoolShared.globalCapacity size task.request.priority ≤
        (state.shared.global task.request.priority).length
  silent : ∀ self, ∀ frame ∈ (state.thread self).stack, ¬ frame.WillNotify state.shared

end PoolState

/-- No batch waits for room that only its own notifications would make.

`scheduleBatch` notifies the workers after its last push, and the loop that unblocks successors may
wait for room in the IO queue with up to 63 notifications still to come.  All workers may sleep in
the meantime, and then nobody takes from a global queue.  So when a call outside of the workers
begins, it and the calls in progress there keep no more tasks from the workers than the global queue
of each priority holds.  Workers push to their own deques and do not count; without a batch in
progress a caller that finds the queue full notifies before it tries again. -/
def BatchFits (state : PoolState size) : ThreadId size × PoolChoice size → Prop
  | (self, .submit kind requests) =>
      self.currentWorkerIndex = none → kind = .scheduleBatch ∨ state.InBatch →
        ∀ priority, state.withheld priority + kind.withheld priority requests [] ≤
          PoolShared.globalCapacity size priority
  | _ => True

instance (state : PoolState size) : DecidablePred (BatchFits state)
  | (_, .submit kind requests) =>
      decidable_of_iff (_ → _ →
        (state.withheld .high + kind.withheld .high requests [] ≤
            PoolShared.globalCapacity size .high ∧
          state.withheld .normal + kind.withheld .normal requests [] ≤
            PoolShared.globalCapacity size .normal))
        (forall_congr' fun _ => forall_congr' fun _ =>
          ⟨fun both priority => by cases priority <;> [exact both.1; exact both.2],
            fun all => ⟨all .high, all .normal⟩⟩)
  | (_, .go _ _ _ _) | (_, .stage _) | (_, .notify _) | (_, .help) | (_, .leave)
  | (_, .shutdown) | (_, .finish) => inferInstanceAs (Decidable True)

/-! ## What one step does to the calls -/

namespace SubmitMove

variable {shared next : PoolShared size} {self : Option (Fin size.m_workerCount)}
  {kind : Submit} {owed todo : List PoolTask} {frames : List (PoolFrame size)}

theorem withheld_pushed (kind : Submit) (priority : TaskPriority) {task : PoolTask}
    (isWorker : task.request.domain ≠ .io) (todo owed : List PoolTask) :
    ((PoolFrame.pushed kind todo (task :: owed) : List (PoolFrame size)).map
        (PoolFrame.withheld priority)).sum ≤
      (PoolFrame.submitting kind (task :: todo) owed : PoolFrame size).withheld priority := by
  have notIo : task.request.isIo = false := by simpa [TaskRequest.isIo] using isWorker
  simp only [PoolFrame.pushed]
  split
  next flushes =>
    rw [flushes.1]
    simp [PoolFrame.withheld, Submit.withheld, notIo, List.countP_cons]
    split <;> omega
  next =>
    cases kind with
    | schedule => simp [PoolFrame.withheld, Submit.withheld]
    | scheduleBatch =>
        simp [PoolFrame.withheld, Submit.withheld, List.countP_cons]
        omega
    | unblock =>
        simp [PoolFrame.withheld, Submit.withheld, notIo, List.countP_cons]
        split <;> omega

/-- A submission keeps no more from the workers than before. -/
theorem withheld (move : SubmitMove shared self kind owed todo next frames)
    (priority : TaskPriority) : (frames.map (PoolFrame.withheld priority)).sum ≤
      (PoolFrame.submitting kind todo owed : PoolFrame size).withheld priority := by
  cases move with
  | quiet => exact Nat.zero_le _
  | notify => exact Nat.zero_le _
  | @enqueueIo task todo isIo =>
      have isIo : task.request.isIo = true := by simpa [TaskRequest.isIo] using isIo
      cases kind with
      | schedule => simp [PoolFrame.withheld, Submit.withheld]
      | scheduleBatch => simp [PoolFrame.withheld, Submit.withheld, List.countP_cons]
      | unblock =>
          simp [PoolFrame.withheld, Submit.withheld, isIo, TaskRequest.goesTo]
          split <;> omega
  | fullIo => simp
  | push isWorker | enqueue isWorker => exact withheld_pushed kind priority isWorker _ _
  | full _ _ retries => rcases retries with rfl | rfl <;> simp [PoolFrame.withheld]

theorem limited (move : SubmitMove shared self kind owed todo next frames)
    (before : (PoolFrame.submitting kind todo owed : PoolFrame size).Limited) :
    ∀ frame ∈ frames, frame.Limited := by
  have pushed (task : PoolTask) (todo : List PoolTask)
      (before : (PoolFrame.submitting kind (task :: todo) owed : PoolFrame size).Limited) :
      ∀ frame ∈ (PoolFrame.pushed kind todo (task :: owed) : List (PoolFrame size)),
        frame.Limited := by
    simp only [PoolFrame.pushed]
    cases kind with
    | schedule =>
        simp only [PoolFrame.Limited, List.length_cons] at before
        simp [PoolFrame.Limited]
        omega
    | scheduleBatch => simp [PoolFrame.Limited]
    | unblock =>
        split
        next => simp [PoolFrame.Limited]
        next few =>
          simp [PoolFrame.Limited]
          simp at few
          omega
  cases move with
  | push | enqueue => exact pushed _ _ before
  | enqueueIo =>
      cases kind with
      | schedule =>
          simp only [PoolFrame.Limited, List.length_cons] at before
          simp [PoolFrame.Limited]
          omega
      | scheduleBatch => simp [PoolFrame.Limited]
      | unblock => simpa [PoolFrame.Limited] using before
  | full _ _ retries => rcases retries with rfl | rfl <;> simpa [PoolFrame.Limited] using before
  | quiet | notify => simp [PoolFrame.Limited]
  | fullIo => simp [before]

theorem isBatch (move : SubmitMove shared self kind owed todo next frames) {frame : PoolFrame size}
    (member : frame ∈ frames) (isBatch : frame.isBatch = true) : kind = .scheduleBatch := by
  have same (todo owed : List PoolTask)
      (batches : (PoolFrame.submitting kind todo owed : PoolFrame size).isBatch = true) :
      kind = .scheduleBatch := by
    cases kind <;> first | rfl | cases batches
  have pushed (todo owed : List PoolTask)
      (member : frame ∈ (PoolFrame.pushed kind todo owed : List (PoolFrame size))) :
      kind = .scheduleBatch := by
    simp only [PoolFrame.pushed] at member
    split at member <;> simp at member
    · rcases member with rfl | rfl
      · cases isBatch
      · exact same _ _ isBatch
    · subst member
      exact same _ _ isBatch
  cases move with
  | push | enqueue => exact pushed _ _ member
  | quiet => cases member
  | notify =>
      rw [List.mem_singleton.mp member] at isBatch
      cases isBatch
  | enqueueIo =>
      simp at member
      rcases member with rfl | rfl | rfl
      · cases isBatch
      · cases isBatch
      · exact same _ _ isBatch
  | fullIo => exact same _ _ (List.mem_singleton.mp member ▸ isBatch)
  | full _ _ retries =>
      rcases retries with rfl | rfl <;> simp at member
      · exact same _ _ (member ▸ isBatch)
      · rcases member with rfl | rfl
        · cases isBatch
        · exact same _ _ isBatch

/-- What is pushed to a global queue is a Worker task of its priority. -/
theorem sorted (move : SubmitMove shared self kind owed todo next frames) {priority : TaskPriority}
    {task : PoolTask} (member : task ∈ next.global priority) :
    task ∈ shared.global priority ∨ task.request.goesTo priority = true := by
  cases move with
  | enqueue isWorker =>
      rcases PoolShared.mem_setGlobal member with ⟨rfl, inQueue⟩ | old
      · rcases List.mem_append.mp inQueue with old | isNew
        · exact .inl old
        · rw [List.mem_singleton.mp isNew]
          right
          simpa [TaskRequest.goesTo, TaskRequest.isIo] using isWorker
      · exact .inl old
  | _ => exact .inl member

end SubmitMove

/-- The frame hands over tasks. -/
def PoolFrame.isSubmitting : PoolFrame size → Bool
  | .submitting _ _ _ => true
  | _ => false

/-- The Worker tasks of the priority that a call begins to keep from the workers. -/
def PoolChoice.withheld (priority : TaskPriority) : PoolChoice size → Nat
  | .submit kind requests => kind.withheld priority requests []
  | _ => 0

namespace PoolMove

variable {shared next : PoolShared size} {self : ThreadId size} {slot after : Option PoolTask}
  {inlines joined : Bool} {frame : PoolFrame size} {choice : PoolChoice size}
  {frames : List (PoolFrame size)}

/-- A step goes on with a submission, or begins one, or has to do with none. -/
theorem submitting
    (move : PoolMove shared self slot inlines joined frame choice next frames after) :
    (∃ kind todo owed, frame = .submitting kind todo owed ∧
      SubmitMove shared self.currentWorkerIndex kind owed todo next frames) ∨
    (∃ parent kind requests, choice = .submit kind requests ∧ next.global = shared.global ∧
      frames = [.submitting kind (shared.newTasks parent requests) [],
        .returning ((shared.newTasks parent requests).map (·.number)), .body parent]) ∨
    (∀ other ∈ frames, other.isSubmitting = false) ∧
      ∀ priority, ∀ task ∈ next.global priority, task ∈ shared.global priority := by
  cases move with
  | submit move => exact .inl ⟨_, _, _, rfl, move⟩
  | request => exact .inr (.inl ⟨_, _, _, rfl, rfl, rfl⟩)
  | @find _ goal step _ _ move =>
      refine .inr (.inr ⟨?_, move.queues.2.2.2⟩)
      have found (task : PoolTask) :
          ∀ other ∈ (goal.found task : List (PoolFrame size)), other.isSubmitting = false := by
        cases goal <;> simp [FindGoal.found, PoolFrame.isSubmitting]
      have missed :
          ∀ other ∈ (goal.missed : List (PoolFrame size)), other.isSubmitting = false := by
        cases goal with
        | spinning left => cases left <;> simp [FindGoal.missed, PoolFrame.isSubmitting]
        | _ => simp [FindGoal.missed, PoolFrame.isSubmitting]
      cases move <;> first | exact found _ | exact missed | simp [PoolFrame.isSubmitting]
  | @uncount _ unpark =>
      refine .inr (.inr ⟨?_, fun _ _ member => member⟩)
      cases unpark <;> simp [Unpark.onward, PoolFrame.isSubmitting]
  | bump wakes =>
      refine .inr (.inr ⟨?_, fun _ _ member => member⟩)
      rcases wakes with ⟨further, rfl⟩ | rfl <;> simp [PoolFrame.isSubmitting]
  | wakeOne _ left | wakeNone _ left =>
      refine .inr (.inr ⟨?_, fun _ _ member => member⟩)
      rcases left with rfl | ⟨further, rfl⟩ <;> simp [PoolFrame.isSubmitting]
  | ioTake _ loops =>
      refine .inr (.inr ⟨?_, fun _ _ member => member⟩)
      rcases loops with ⟨rfl, rfl⟩ | ⟨rfl, rfl⟩ <;> simp [PoolFrame.isSubmitting]
  | @ioGo _ _ onward _ loops stays =>
      refine .inr (.inr ⟨?_, fun _ _ member => member⟩)
      cases onward <;> cases stays <;> simp [PoolFrame.isSubmitting]
  | _ => exact .inr (.inr ⟨by simp [PoolFrame.isSubmitting], fun _ _ member => member⟩)

theorem withheld (move : PoolMove shared self slot inlines joined frame choice next frames after)
    (priority : TaskPriority) : (frames.map (PoolFrame.withheld priority)).sum ≤
      frame.withheld priority + choice.withheld priority := by
  rcases move.submitting with ⟨kind, todo, owed, rfl, submits⟩ |
    ⟨parent, kind, requests, rfl, -, rfl⟩ | ⟨none, -⟩
  · exact (submits.withheld priority).trans (Nat.le_add_right ..)
  · simp [PoolFrame.withheld, PoolChoice.withheld]
  · refine le_of_eq_of_le (Counting.sum_map_eq_zero fun other member => ?_) (Nat.zero_le _)
    have notSubmitting := none other member
    cases other <;> first | rfl | cases notSubmitting

theorem limited (move : PoolMove shared self slot inlines joined frame choice next frames after)
    (single : ∀ requests, choice = .submit .schedule requests → requests.length = 1)
    (before : frame.Limited) : ∀ other ∈ frames, other.Limited := by
  rcases move.submitting with ⟨kind, todo, owed, rfl, submits⟩ |
    ⟨parent, kind, requests, rfl, -, rfl⟩ | ⟨none, -⟩
  · exact submits.limited before
  · cases kind with
    | schedule => simp [PoolFrame.Limited, single requests rfl]
    | _ => simp [PoolFrame.Limited]
  · intro other member
    have notSubmitting := none other member
    cases other <;> trivial

theorem isBatch (move : PoolMove shared self slot inlines joined frame choice next frames after)
    {other : PoolFrame size} (member : other ∈ frames) (isBatch : other.isBatch = true) :
    frame.isBatch = true ∨ ∃ requests, choice = .submit .scheduleBatch requests := by
  rcases move.submitting with ⟨kind, todo, owed, rfl, submits⟩ |
    ⟨parent, kind, requests, rfl, -, rfl⟩ | ⟨none, -⟩
  · obtain rfl := submits.isBatch member isBatch
    exact .inl rfl
  · simp at member
    rcases member with rfl | rfl | rfl
    · cases kind <;> first | exact .inr ⟨_, rfl⟩ | cases isBatch
    · cases isBatch
    · cases isBatch
  · have notSubmitting := none other member
    cases other <;> first | cases isBatch | cases notSubmitting

theorem sorted (move : PoolMove shared self slot inlines joined frame choice next frames after)
    {priority : TaskPriority} {task : PoolTask} (member : task ∈ next.global priority) :
    task ∈ shared.global priority ∨ task.request.goesTo priority = true := by
  rcases move.submitting with ⟨kind, todo, owed, rfl, submits⟩ |
    ⟨parent, kind, requests, rfl, same, rfl⟩ | ⟨-, fewer⟩
  · exact submits.sorted member
  · exact .inl (same ▸ member)
  · exact .inl (fewer priority task member)

end PoolMove

/-! ## Batches that fit -/

/-- What holds in every run whose batches fit. -/
structure BatchLaw (state : PoolState size) : Prop where
  sorted : ∀ priority, ∀ task ∈ state.shared.global priority, task.request.goesTo priority = true
  limited : ∀ self, ∀ frame ∈ (state.thread self).stack, frame.Limited
  fits : state.InBatch → ∀ priority,
    state.withheld priority ≤ PoolShared.globalCapacity size priority

namespace PoolState

/-- `schedule` is called for one task. -/
theorem step_single {state next : PoolState size} {self : ThreadId size}
    {requests : List TaskRequest}
    (stepped : state.step (self, .submit .schedule requests) = some next) :
    requests.length = 1 := by
  simp only [PoolState.step] at stepped
  split at stepped
  next => cases stepped
  next frame rest isStack =>
    obtain ⟨effect, fired, -⟩ := Option.map_eq_some_iff.mp stepped
    cases frame with
    | body task =>
        by_contra several
        cases task <;> simp [PoolFrame.fire, several] at fired
    | _ => cases fired

variable {state next : PoolState size} {mover : ThreadId size} {choice : PoolChoice size}
  {frame : PoolFrame size} {frames rest : List (PoolFrame size)} {after : Option PoolTask}

theorem outside_moved (moves : state.Moves next mover choice frame frames rest after) :
    next.outside = Function.update state.outside mover
      (if mover.currentWorkerIndex = none then ⟨frames ++ rest, after⟩ else { stack := [] }) := by
  funext self
  by_cases isMover : self = mover
  · subst isMover
    rw [Function.update_self, outside, moves.moved, Function.update_self]
  · rw [Function.update_of_ne isMover, outside, outside, moves.other isMover]

/-- A step keeps no more from the workers than before and what it begins to hand over. -/
theorem withheld_step (moves : state.Moves next mover choice frame frames rest after)
    (priority : TaskPriority) :
    next.withheld priority ≤ state.withheld priority +
      if mover.currentWorkerIndex = none then choice.withheld priority else 0 := by
  have summed := Counting.total_update (PoolThread.withheld priority) state.outside mover
    (if mover.currentWorkerIndex = none then ⟨frames ++ rest, after⟩ else { stack := [] })
  rw [← outside_moved moves] at summed
  rw [withheld, withheld]
  by_cases external : mover.currentWorkerIndex = none
  · have before : (state.outside mover).withheld priority =
        frame.withheld priority + (rest.map (PoolFrame.withheld priority)).sum := by
      rw [outside, if_pos external, PoolThread.withheld, moves.isStack, List.map_cons,
        List.sum_cons]
    have moved : PoolThread.withheld priority ⟨frames ++ rest, after⟩ =
        (frames.map (PoolFrame.withheld priority)).sum +
          (rest.map (PoolFrame.withheld priority)).sum := by
      rw [PoolThread.withheld, List.map_append, List.sum_append]
    have step := moves.move.withheld priority
    rw [if_pos external] at summed ⊢
    omega
  · have none : PoolThread.withheld priority ({ stack := [] } : PoolThread size) = 0 := rfl
    rw [if_neg external] at summed ⊢
    omega

/-- A batch was in progress before, or begins. -/
theorem inBatch_step (moves : state.Moves next mover choice frame frames rest after)
    (inBatch : next.InBatch) : state.InBatch ∨
      mover.currentWorkerIndex = none ∧ ∃ requests, choice = .submit .scheduleBatch requests := by
  obtain ⟨self, top, member, isBatch⟩ := inBatch
  rw [outside] at member
  split at member
  next external =>
    rcases moves.mem_cases member with ⟨rfl, isNew⟩ | isOld
    · rcases moves.move.isBatch isNew isBatch with before | begins
      · refine .inl ⟨self, frame, ?_, before⟩
        rw [outside, if_pos external]
        exact moves.mem_stack
      · exact .inr ⟨external, begins⟩
    · refine .inl ⟨self, top, ?_, isBatch⟩
      rwa [outside, if_pos external]
  next => cases member

end PoolState

namespace BatchLaw

variable {state next : PoolState size} {mover : ThreadId size} {choice : PoolChoice size}
  {frame : PoolFrame size} {frames rest : List (PoolFrame size)} {after : Option PoolTask}

theorem initial : BatchLaw (PoolState.initial size) where
  sorted := fun priority task member => by cases member
  limited := fun self frame member => by
    cases self <;> rw [List.mem_singleton.mp member] <;> trivial
  fits := fun ⟨self, frame, member, isBatch⟩ => by
    cases self with
    | worker => cases member
    | io | external =>
        rw [List.mem_singleton.mp member] at isBatch
        cases isBatch

theorem step (law : BatchLaw state)
    (moves : state.Moves next mover choice frame frames rest after)
    (single : ∀ requests, choice = .submit .schedule requests → requests.length = 1)
    (fits : BatchFits state (mover, choice)) : BatchLaw next where
  sorted := fun priority task member =>
    (moves.move.sorted member).elim (law.sorted priority task) id
  limited := fun self top member => by
    rcases moves.mem_cases member with ⟨-, isNew⟩ | isOld
    · exact moves.move.limited single (law.limited mover frame moves.mem_stack) top isNew
    · exact law.limited self top isOld
  fits := fun inBatch priority => by
    have step := PoolState.withheld_step moves priority
    refine step.trans ?_
    have before := PoolState.inBatch_step moves inBatch
    by_cases external : mover.currentWorkerIndex = none
    · rw [if_pos external]
      have old (inBatch : state.InBatch) := law.fits inBatch priority
      cases choice with
      | submit kind requests =>
          refine fits external ?_ priority
          rcases before with old | ⟨-, _, begins⟩
          · exact .inr old
          · cases begins
            exact .inl rfl
      | _ => exact old (before.resolve_right fun begins => by cases begins.2.choose_spec)
    · rw [if_neg external, Nat.add_zero]
      exact law.fits (before.resolve_right fun begins => external begins.1) priority

end BatchLaw

/-! ## A full queue that nobody wakes for -/

/-- How many Worker tasks of the priority the call owes a notification for. -/
def PoolFrame.owes (priority : TaskPriority) (frame : PoolFrame size) : Nat :=
  frame.owed.countP fun task => task.request.goesTo priority

/-- How many Worker tasks of the priority the calls of a thread owe a notification for. -/
def PoolThread.owes (priority : TaskPriority) (thread : PoolThread size) : Nat :=
  (thread.stack.map (PoolFrame.owes priority)).sum

/-- A call that will not notify keeps from the workers what it owes. -/
theorem PoolFrame.owes_le_withheld {shared : PoolShared size} {frame : PoolFrame size}
    (silent : ¬ frame.WillNotify shared) (inRange : frame.InRange) (limited : frame.Limited)
    (priority : TaskPriority) : frame.owes priority ≤ frame.withheld priority := by
  cases frame with
  | submitting kind todo owed =>
      have bound : owed.countP (fun task => task.request.goesTo priority) ≤ owed.length :=
        List.countP_le_length
      cases todo with
      | nil =>
          have none : owed = [] := by simpa [WillNotify] using silent
          simp [owes, PoolFrame.owed, none]
      | cons task todo =>
          cases kind with
          | schedule =>
              simp only [Limited, List.length_cons] at limited
              have none : owed = [] := List.length_eq_zero_iff.mp (by omega)
              simp [owes, PoolFrame.owed, none]
          | scheduleBatch =>
              simp [owes, PoolFrame.owed, withheld, Submit.withheld, Function.comp_def]
          | unblock =>
              -- only an IO task can keep the loop from its notification
              have hasIo : ((task :: todo).map (·.request)).any TaskRequest.isIo = true := by
                by_contra noIo
                refine silent (.inl fun other member => ?_)
                simp only [List.any_map, Bool.not_eq_true, List.any_eq_false] at noIo
                simpa using noIo other member
              simp only [Limited] at limited
              simp only [owes, PoolFrame.owed, withheld, Submit.withheld, hasIo, if_true,
                List.countP_map, Function.comp_def]
              omega
  | notifying count owed =>
      have none : owed = [] := by
        by_contra some
        exact silent (inRange some)
      simp [owes, PoolFrame.owed, none]
  | bumping | waking | wakingAll => exact absurd trivial silent
  | _ => exact Nat.zero_le _

namespace PoolState

variable {state : PoolState size}

/-- A worker that is parked has nothing but its loop on its stack. -/
theorem stack_of_parked (law : WakeLaw state) {worker : Fin size.m_workerCount}
    (isParked : state.shared.parked worker = true) :
    ∃ currentSignal, (state.thread (.worker worker)).stack = [.blocked currentSignal] := by
  obtain ⟨currentSignal, blocked⟩ := law.parked worker isParked
  obtain ⟨rest, isStack⟩ := List.head?_eq_some_iff.mp blocked
  have based := law.parking.based worker (by simp [isStack])
  rw [isStack] at based
  exact ⟨currentSignal, by rw [isStack, eq_nil_of_isBased based rfl]⟩

theorem global_nodup (law : HoldingLaw state) (priority : TaskPriority) :
    (state.shared.global priority).Nodup := by
  refine List.nodup_iff_count_le_one.mpr fun task => ?_
  have account := law.account task
  have once := law.once task
  have part : (state.shared.global priority).count task ≤ state.shared.queued task := by
    rw [PoolShared.queued]
    cases priority <;> omega
  omega

/-- When all workers are parked, the tasks of a global queue are owed by the calls outside of the
workers. -/
theorem length_le_owed (wake : WakeLaw state) (holding : HoldingLaw state) (batch : BatchLaw state)
    (parked : ∀ worker, state.shared.parked worker = true) (priority : TaskPriority) :
    (state.shared.global priority).length ≤
      Counting.total (PoolThread.owes priority) state.outside := by
  let owed (thread : PoolThread size) : List PoolTask :=
    (thread.stack.flatMap PoolFrame.owed).filter fun task => task.request.goesTo priority
  have listed : (↑(state.shared.global priority) : Multiset PoolTask) ≤
      ∑ self, (↑(owed (state.outside self)) : Multiset PoolTask) := by
    rw [Multiset.le_iff_subset (Multiset.coe_nodup.mpr (global_nodup holding priority))]
    intro task member
    have queued : task ∈ state.shared.global priority := member
    rw [Multiset.mem_sum]
    rcases wake.queued priority task queued with ⟨self, frame, inStack, isOwed⟩ | ⟨worker, alert⟩
    · refine ⟨self, Finset.mem_univ _, ?_⟩
      have external : self.currentWorkerIndex = none := by
        cases self with
        | worker worker =>
            obtain ⟨currentSignal, isStack⟩ := stack_of_parked wake (parked worker)
            rw [isStack] at inStack
            rw [List.mem_singleton.mp inStack] at isOwed
            cases isOwed
        | _ => rfl
      rw [Multiset.mem_coe, List.mem_filter, List.mem_flatMap, outside, if_pos external]
      exact ⟨⟨frame, inStack, isOwed⟩, batch.sorted priority task queued⟩
    · have notParked := alert.1
      rw [parked worker] at notParked
      cases notParked
  have counted := Multiset.card_le_card listed
  rw [Multiset.coe_card, Multiset.card_sum] at counted
  refine counted.trans (le_of_eq (Finset.sum_congr rfl fun self _ => ?_))
  rw [Multiset.coe_card, ← List.countP_eq_length_filter, List.countP_flatMap]
  rfl

/-- While the batches fit, no caller is stranded. -/
theorem not_stranded (wake : WakeLaw state) (holding : HoldingLaw state) (batch : BatchLaw state) :
    ¬ state.Stranded := by
  rintro ⟨parked, ⟨self, external, kind, task, todo, owed, isTop, notIo, full⟩, silent⟩
  obtain ⟨rest, isStack⟩ := List.head?_eq_some_iff.mp isTop
  have member : PoolFrame.submitting kind (task :: todo) owed ∈ (state.thread self).stack := by
    rw [isStack]
    exact List.mem_cons_self ..
  have outsideSelf : state.outside self = state.thread self := by rw [outside, if_pos external]
  -- a call that is not a batch notifies before it tries again
  obtain rfl : kind = .scheduleBatch := by
    cases kind with
    | scheduleBatch => rfl
    | _ => exact absurd (.inr ⟨notIo, full⟩) (silent self _ member)
  have inBatch : state.InBatch := ⟨self, _, outsideSelf ▸ member, rfl⟩
  have fits := batch.fits inBatch task.request.priority
  have queued := length_le_owed wake holding batch parked task.request.priority
  have each (query : ThreadId size) : ∀ frame ∈ (state.outside query).stack,
      frame.owes task.request.priority ≤ frame.withheld task.request.priority := by
    intro frame inStack
    rw [outside] at inStack
    split at inStack
    next =>
      exact PoolFrame.owes_le_withheld (silent query frame inStack)
        (wake.inRange query frame inStack) (batch.limited query frame inStack) _
    next => cases inStack
  have fewer : Counting.total (PoolThread.owes task.request.priority) state.outside <
      state.withheld task.request.priority := by
    refine Finset.sum_lt_sum (fun query _ => List.sum_le_sum (each query))
      ⟨self, Finset.mem_univ _, ?_⟩
    -- the task that is retried is not owed yet
    have others := List.sum_le_sum fun frame inRest =>
      each self frame (by rw [outsideSelf, isStack]; exact List.mem_cons_of_mem _ inRest)
    have counts : task.request.goesTo task.request.priority = true := by
      simp [TaskRequest.goesTo, notIo]
    rw [outsideSelf, PoolThread.owes, PoolThread.withheld, isStack, List.map_cons, List.sum_cons,
      List.map_cons, List.sum_cons]
    simp only [PoolFrame.owes, PoolFrame.owed, PoolFrame.withheld, Submit.withheld, List.map_cons,
      List.countP_cons, counts, if_true, List.countP_map, Function.comp_def] at others ⊢
    omega
  omega

end PoolState

/-- A step after which every caller is still served: a worker that parks has missed no task, so that
each task in a global queue has somebody who is to wake a worker for it, and what is to wake workers
does not wait for them. -/
def BatchesFit (state : PoolState size) (action : ThreadId size × PoolChoice size) : Prop :=
  Distinguishing state action ∧ BatchFits state action

instance (state : PoolState size) (action : ThreadId size × PoolChoice size) :
    Decidable (BatchesFit state action) :=
  inferInstanceAs (Decidable (_ ∧ _))

section Long

/-- The external thread calls `scheduleBatch`. -/
theorem aboutToWait_call {shared : PoolShared onePool} {tasks bumps : Nat}
    (pushed : Pushed shared tasks bumps)
    (reachable : (poolMachine onePool).Reachable (aboutToWait shared [.body none]))
    (requests : List TaskRequest) :
    ∃ next batch numbers, (poolMachine onePool).Reachable
        (aboutToWait next [.submitting .scheduleBatch batch [], .returning numbers, .body none]) ∧
      batch.map (·.request) = requests ∧ Pushed next tasks bumps :=
  ⟨_, shared.newTasks none requests, _,
    @aboutToWait_step _ _ _ _ _ (.submit .scheduleBatch requests) reachable fun _ => rfl,
    shared.newTasks_request none requests,
    pushed.sleeping, pushed.signal, pushed.parked, pushed.queue⟩

/-- `scheduleBatch` pushes a task, while there is room. -/
theorem aboutToWait_push {shared : PoolShared onePool} {task : PoolTask} {todo owed : List PoolTask}
    {rest : List (PoolFrame onePool)} {tasks : Nat} (pushed : Pushed shared tasks 0)
    (isHigh : task.request = { priority := .high }) (room : tasks < 4096)
    (reachable : (poolMachine onePool).Reachable
      (aboutToWait shared (.submitting .scheduleBatch (task :: todo) owed :: rest))) :
    ∃ next, (poolMachine onePool).Reachable
        (aboutToWait next (.submitting .scheduleBatch todo (task :: owed) :: rest)) ∧
      Pushed next (tasks + 1) 0 := by
  have queued := @aboutToWait_step shared
    (shared.setGlobal .high (shared.global .high ++ [task])) _
    [.submitting .scheduleBatch todo (task :: owed)] _ goOn reachable fun joined => by
      simp [PoolFrame.fire, PoolFrame.submit, ThreadId.currentWorkerIndex, PoolShared.tryEnqueue,
        isHigh, pushed.queue, room, highCapacity, PoolFrame.pushed]
  exact ⟨_, queued, pushed.sleeping, pushed.signal, pushed.parked,
    by simp [PoolShared.setGlobal, pushed.queue]⟩

/-- The batch fills the queue, and nobody is notified. -/
theorem aboutToWait_batch {rest : List (PoolFrame onePool)} (todo left : List PoolTask)
    (allHigh : ∀ task ∈ todo, task.request = { priority := .high }) {shared : PoolShared onePool}
    {owed : List PoolTask} {tasks : Nat} (pushed : Pushed shared tasks 0)
    (room : tasks + todo.length ≤ 4096)
    (reachable : (poolMachine onePool).Reachable
      (aboutToWait shared (.submitting .scheduleBatch (todo ++ left) owed :: rest))) :
    ∃ next owed, (poolMachine onePool).Reachable
        (aboutToWait next (.submitting .scheduleBatch left owed :: rest)) ∧
      Pushed next (tasks + todo.length) 0 := by
  induction todo generalizing shared owed tasks with
  | nil => exact ⟨shared, owed, reachable, pushed⟩
  | cons task todo ih =>
      rw [List.length_cons] at room
      obtain ⟨next, queued, grown⟩ := aboutToWait_push pushed (allHigh task (List.mem_cons_self ..))
        (by omega) reachable
      obtain ⟨last, owed, filled, full⟩ :=
        ih (fun other member => allHigh other (List.mem_cons_of_mem _ member)) grown (by omega)
          queued
      refine ⟨last, owed, filled, ?_⟩
      rwa [List.length_cons, Nat.add_comm todo.length, ← Nat.add_assoc]

/-- The requests of a batch that is larger than the queue. -/
def longBatch : List TaskRequest :=
  List.replicate 4097 { priority := .high }

/-- The worker is blocked, and the external thread tries to push. -/
def strandedState (shared : PoolShared onePool) (stack : List (PoolFrame onePool)) :
    PoolState onePool where
  shared := { shared with parked := Function.update shared.parked 0 true }
  thread := Function.update (aboutToWait shared stack).thread (.worker 0) { stack := [.blocked 0] }

/-- On a full queue nothing can happen any more. -/
theorem strandedState_step {shared : PoolShared onePool} {task : PoolTask}
    {owed : List PoolTask} {rest : List (PoolFrame onePool)} (pushed : Pushed shared 4096 0)
    (isHigh : task.request = { priority := .high })
    {action : ThreadId onePool × PoolChoice onePool} {next : PoolState onePool}
    (stepped : (strandedState shared (.submitting .scheduleBatch [task] owed :: rest)).step action =
      some next) :
    next = strandedState shared (.submitting .scheduleBatch [task] owed :: rest) := by
  obtain ⟨self, choice⟩ := action
  cases self with
  | worker worker =>
      obtain rfl := Subsingleton.elim worker 0
      cases choice <;>
        simp [PoolState.step, strandedState, PoolFrame.fire] at stepped
  | io worker => exact worker.elim0
  | external index =>
      obtain rfl := Subsingleton.elim index 0
      cases choice <;>
        simp [PoolState.step, strandedState, aboutToWait, PoolFrame.fire, PoolFrame.submit,
          ThreadId.currentWorkerIndex, PoolShared.tryEnqueue, isHigh, pushed.queue,
          highCapacity] at stepped
      rw [← stepped]
      refine congrArg (PoolState.mk _) ?_
      funext self
      by_cases isExternal : self = .external 0
      · subst isExternal
        rfl
      · rw [Function.update_of_ne isExternal]
        rfl

end Long

end LightFlow
