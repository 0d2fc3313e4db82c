import LightFlow.Scheduler.Notifying

/-!
# Where the tasks of a pool are

A task that was requested and not executed is in one deque or queue, or one thread holds it: it
is to be pushed, it was found and not started, it is executed, or it is in the inline slot.
-/

namespace LightFlow

variable {size : PoolSize}

namespace PoolFrame

/-- The tasks that are in no deque or queue because of the call. -/
def held : PoolFrame size → List PoolTask
  | .finding _ (.transfer _ batch) => batch
  | .uncounting (.found task) => [task]
  | .body (some task) => [task]
  | .submitting _ todo _ => todo
  | _ => []

/-- The requests that the call answers when it returns. -/
def answers : PoolFrame size → List Nat
  | .returning numbers => numbers
  | _ => []

@[simp] theorem held_of_isIoLoop {frame : PoolFrame size} (loops : frame.isIoLoop = true) :
    frame.held = [] ∧ frame.answers = [] := by
  cases frame <;> first | exact ⟨rfl, rfl⟩ | cases loops

end PoolFrame

/-- The tasks that a thread holds. -/
def PoolThread.held (thread : PoolThread size) : List PoolTask :=
  thread.stack.flatMap PoolFrame.held ++ thread.t_nextInlineTask.toList

namespace PoolShared

/-- How often the task is in a deque or queue. -/
def queued (shared : PoolShared size) (task : PoolTask) : Nat :=
  ∑ worker, ((shared.deque worker .high).count task + (shared.deque worker .normal).count task) +
    (shared.global .high).count task + (shared.global .normal).count task +
    shared.m_ioQueue.count task

/-- A deque is replaced, and the others stay. -/
theorem queued_setDeque (shared : PoolShared size) (worker : Fin size.m_workerCount)
    (priority : TaskPriority) (tasks : List PoolTask) (task : PoolTask) :
    (shared.setDeque worker priority tasks).queued task +
        (shared.deque worker priority).count task =
      shared.queued task + tasks.count task := by
  obtain ⟨rest, before, moved⟩ := Counting.exists_rest
    (fun deques : TaskPriority → List PoolTask =>
      (deques .high).count task + (deques .normal).count task) shared.deque worker
  have after := moved (Function.update (shared.deque worker) priority tasks)
  simp only [queued, setDeque]
  rw [before, after]
  cases priority <;> simp <;> omega

theorem queued_setGlobal (shared : PoolShared size) (priority : TaskPriority)
    (tasks : List PoolTask) (task : PoolTask) :
    (shared.setGlobal priority tasks).queued task + (shared.global priority).count task =
      shared.queued task + tasks.count task := by
  simp only [queued, setGlobal]
  cases priority <;> simp <;> omega

theorem count_executed_request (shared : PoolShared size) (tasks : List PoolTask)
    (task : PoolTask) :
    (shared.request tasks).log.count (.executed task) = shared.log.count (.executed task) := by
  rw [request, List.count_append, List.count_eq_zero.mpr (by simp), Nat.zero_add]

theorem count_requested_request (shared : PoolShared size) (tasks : List PoolTask)
    (task : PoolTask) :
    (shared.request tasks).log.count (.requested task) =
      tasks.count task + shared.log.count (.requested task) := by
  have injective : Function.Injective PoolEvent.requested := fun _ _ same => by cases same; rfl
  rw [request, List.count_append, List.count_map_of_injective _ _ injective, List.count_reverse]

theorem mem_queued_deque {shared : PoolShared size} {task : PoolTask}
    (queued : 0 < shared.queued task) :
    (∃ worker priority, task ∈ shared.deque worker priority) ∨
      (∃ priority, task ∈ shared.global priority) ∨ task ∈ shared.m_ioQueue := by
  by_contra absent
  simp only [not_or, not_exists] at absent
  obtain ⟨noDeque, noGlobal, notIo⟩ := absent
  simp [PoolShared.queued, List.count_eq_zero.mpr, noDeque, noGlobal, notIo] at queued

end PoolShared

/-- The events that a step of a frame adds, newest first, and what becomes of the next number and
of `m_stop`. -/
inductive PoolRecord (shared : PoolShared size) (joined : Bool) :
    PoolFrame size → List PoolEvent → Nat → Bool → Prop where
  | nothing {frame : PoolFrame size} :
      PoolRecord shared joined frame [] shared.nextNumber shared.m_stop
  | requested {parent : Option PoolTask} {requests : List TaskRequest} :
      PoolRecord shared joined (.body parent)
        ((shared.newTasks parent requests).reverse.map .requested)
        (shared.nextNumber + (shared.newTasks parent requests).length) shared.m_stop
  | returned {numbers : List Nat} :
      PoolRecord shared joined (.returning numbers) (numbers.map .returned) shared.nextNumber
        shared.m_stop
  | executed {task : PoolTask} :
      PoolRecord shared joined (.body (some task)) [.executed task] shared.nextNumber shared.m_stop
  | stopped (going : shared.m_stop = false) :
      PoolRecord shared joined .stopping [.stopped] shared.nextNumber true
  | shutDown {frame : PoolFrame size} (returns : frame = .stopping ∧ shared.m_stop = true ∨
        frame = .joining ∧ joined = true) :
      PoolRecord shared joined frame [.shutDown] shared.nextNumber shared.m_stop

namespace FindMove

variable {shared next : PoolShared size} {self : Option (Fin size.m_workerCount)}
  {lost : Bool} {goal : FindGoal} {step : FindStep size} {frames : List (PoolFrame size)}

theorem log (move : FindMove shared self lost goal step next frames) :
    next.log = shared.log ∧ next.nextNumber = shared.nextNumber ∧ next.m_stop = shared.m_stop := by
  cases move <;> exact ⟨rfl, rfl, rfl⟩

/-- A search takes a task from a queue, or moves tasks between deques. -/
theorem account (move : FindMove shared self lost goal step next frames) (task : PoolTask) :
    next.queued task + (frames.flatMap PoolFrame.held).count task =
      shared.queued task + (PoolFrame.finding goal step).held.count task := by
  have found (found : PoolTask) :
      (goal.found found : List (PoolFrame size)).flatMap PoolFrame.held = [found] := by
    cases goal <;> rfl
  have missed : (goal.missed : List (PoolFrame size)).flatMap PoolFrame.held = [] := by
    cases goal with
    | spinning left => cases left <;> rfl
    | _ => rfl
  have still {step : FindStep size} (steals : step.isStealing = true) :
      (PoolFrame.finding goal step).held = [] := by
    cases step <;> first | rfl | cases steals
  cases move with
  | @pop worker priority other rest _ _ pops before =>
      have replaced := shared.queued_setDeque worker priority rest task
      rw [before, List.count_append] at replaced
      rcases pops with rfl | rfl <;> rw [found] <;> simp only [PoolFrame.held, List.count_nil] <;>
        omega
  | @dequeue priority other rest before =>
      have replaced := shared.queued_setGlobal priority rest task
      rw [before, List.count_cons] at replaced
      rw [found]
      simp only [PoolFrame.held, List.count_nil, List.count_cons]
      omega
  | @stealBatch priority victim victims batch rest before =>
      have replaced := shared.queued_setDeque victim priority rest task
      rw [before, List.count_append] at replaced
      simp only [PoolFrame.held, List.flatMap_singleton, List.count_nil]
      omega
  | @steal priority victim victims other rest before =>
      have replaced := shared.queued_setDeque victim priority rest task
      rw [before, List.count_cons] at replaced
      rw [found]
      simp only [PoolFrame.held, List.count_nil, List.count_cons]
      omega
  | @transfer worker priority other batch =>
      have replaced := shared.queued_setDeque worker priority
        (shared.deque worker priority ++ [other]) task
      rw [List.count_append] at replaced
      simp only [PoolFrame.held, PoolShared.pushBottom, List.flatMap_singleton, List.count_cons,
        List.count_nil] at replaced ⊢
      omega
  | dequeueNormal _ steals =>
      rw [List.flatMap_singleton, still steals]
      rfl
  | look here steals => rw [List.flatMap_singleton, still steals, still here]
  | give here => rw [missed, still here]
  | popStolenNormal =>
      rw [missed]
      rfl
  | _ => simp [PoolFrame.held]

end FindMove

namespace SubmitMove

variable {shared next : PoolShared size} {self : Option (Fin size.m_workerCount)}
  {kind : Submit} {owed todo : List PoolTask} {frames : List (PoolFrame size)}

theorem log (move : SubmitMove shared self kind owed todo next frames) :
    next.log = shared.log ∧ next.nextNumber = shared.nextNumber ∧ next.m_stop = shared.m_stop := by
  cases move <;> exact ⟨rfl, rfl, rfl⟩

@[simp] theorem held_pushed (kind : Submit) (todo owed : List PoolTask) :
    (PoolFrame.pushed kind todo owed : List (PoolFrame size)).flatMap PoolFrame.held = todo := by
  simp only [PoolFrame.pushed]
  split <;> simp [PoolFrame.held]

/-- A task goes from the list to a deque or queue. -/
theorem account (move : SubmitMove shared self kind owed todo next frames) (task : PoolTask) :
    next.queued task + (frames.flatMap PoolFrame.held).count task =
      shared.queued task + todo.count task := by
  cases move with
  | @enqueueIo other todo =>
      simp only [PoolShared.queued, List.flatMap_cons, List.flatMap_nil, PoolFrame.held,
        List.nil_append, List.append_nil, List.count_append, List.count_cons, List.count_nil]
      omega
  | @push worker other todo =>
      have replaced := shared.queued_setDeque worker other.request.priority
        (shared.deque worker other.request.priority ++ [other]) task
      rw [held_pushed, PoolShared.pushBottom]
      simp only [List.count_append, List.count_cons, List.count_nil] at replaced ⊢
      omega
  | @enqueue other todo =>
      have replaced := shared.queued_setGlobal other.request.priority
        (shared.global other.request.priority ++ [other]) task
      rw [held_pushed]
      simp only [List.count_append, List.count_cons, List.count_nil] at replaced ⊢
      omega
  | full _ _ retries => rcases retries with rfl | rfl <;> simp [PoolFrame.held]
  | _ => simp [PoolFrame.held]

end SubmitMove

namespace PoolMove

variable {shared next : PoolShared size} {self : ThreadId size} {slot after : Option PoolTask}
  {inlines joined : Bool} {frame : PoolFrame size} {choice : PoolChoice size}
  {frames : List (PoolFrame size)}

theorem recorded (move : PoolMove shared self slot inlines joined frame choice next frames after) :
    ∃ events, next.log = events ++ shared.log ∧
      PoolRecord shared joined frame events next.nextNumber next.m_stop := by
  cases move with
  | find move =>
      refine ⟨[], move.log.1, ?_⟩
      rw [move.log.2.1, move.log.2.2]
      exact .nothing
  | submit move =>
      refine ⟨[], move.log.1, ?_⟩
      rw [move.log.2.1, move.log.2.2]
      exact .nothing
  | request => exact ⟨_, rfl, .requested⟩
  | stage => exact ⟨_, rfl, .requested⟩
  | finish => exact ⟨[_], rfl, .executed⟩
  | returned => exact ⟨_, rfl, .returned⟩
  | stop going => exact ⟨[_], rfl, .stopped going⟩
  | stopAgain stopped => exact ⟨[_], rfl, .shutDown (.inl ⟨rfl, stopped⟩)⟩
  | join returned => exact ⟨[_], rfl, .shutDown (.inr ⟨rfl, returned⟩)⟩
  | _ => exact ⟨[], rfl, .nothing⟩

/-- Only a call for new requests will answer them. -/
theorem answers (move : PoolMove shared self slot inlines joined frame choice next frames after)
    {other : PoolFrame size} (isNew : other ∈ frames) {number : Nat}
    (isAnswer : number ∈ other.answers) : number < next.nextNumber := by
  have silent (none : ∀ other ∈ frames, other.answers = []) : False := by
    rw [none other isNew] at isAnswer
    cases isAnswer
  have found (goal : FindGoal) (task : PoolTask) :
      ∀ other ∈ (goal.found task : List (PoolFrame size)), other.answers = [] := by
    cases goal <;> simp [FindGoal.found, PoolFrame.answers]
  have missed (goal : FindGoal) :
      ∀ other ∈ (goal.missed : List (PoolFrame size)), other.answers = [] := by
    cases goal with
    | spinning left => cases left <;> simp [FindGoal.missed, PoolFrame.answers]
    | _ => simp [FindGoal.missed, PoolFrame.answers]
  have pushed (kind : Submit) (todo owed : List PoolTask) :
      ∀ other ∈ (PoolFrame.pushed kind todo owed : List (PoolFrame size)), other.answers = [] := by
    simp only [PoolFrame.pushed]
    split <;> simp [PoolFrame.answers]
  cases move with
  | find move =>
      refine (silent ?_).elim
      cases move <;> first | exact found _ _ | exact missed _ | simp [PoolFrame.answers]
  | submit move =>
      refine (silent ?_).elim
      cases move with
      | push | enqueue => exact pushed _ _ _
      | full _ _ retries => rcases retries with rfl | rfl <;> simp [PoolFrame.answers]
      | _ => simp [PoolFrame.answers]
  | @request parent kind requests =>
      simp only [List.mem_cons, List.not_mem_nil, or_false] at isNew
      rcases isNew with rfl | rfl | rfl
      · cases isAnswer
      · obtain ⟨task, requested, rfl⟩ := List.mem_map.mp isAnswer
        have below := (PoolShared.mem_newTasks requested).2
        rwa [← PoolShared.newTasks_length shared parent requests] at below
      · cases isAnswer
  | @uncount _ unpark => 
      refine (silent ?_).elim
      cases unpark <;> simp [Unpark.onward, PoolFrame.answers]
  | bump wakes =>
      refine (silent ?_).elim
      rcases wakes with ⟨further, rfl⟩ | rfl <;> simp [PoolFrame.answers]
  | wakeOne _ left | wakeNone _ left =>
      refine (silent ?_).elim
      rcases left with rfl | ⟨further, rfl⟩ <;> simp [PoolFrame.answers]
  | ioTake _ loops =>
      refine (silent ?_).elim
      rcases loops with ⟨rfl, rfl⟩ | ⟨rfl, rfl⟩ <;> simp [PoolFrame.answers]
  | ioGo _ stays => exact (silent (by simp [PoolFrame.held_of_isIoLoop stays])).elim
  | _ => exact (silent (by simp [PoolFrame.answers])).elim

/-- `t_nextInlineTask` is set in the loop over it, which does not end before it is empty. -/
theorem inlined (move : PoolMove shared self slot inlines joined frame choice next frames after)
    (staged : after ≠ none) : slot ≠ none ∧ frame ≠ .continuing ∨ inlines = true := by
  cases move with
  | inline | continued => exact absurd rfl staged
  | stage allowed => exact .inr allowed
  | ioWake wakes => rcases wakes with rfl | rfl <;> exact .inl ⟨staged, by simp⟩
  | ioTake _ loops => rcases loops with ⟨rfl, rfl⟩ | ⟨rfl, rfl⟩ <;> exact .inl ⟨staged, by simp⟩
  | ioGo loops =>
      refine .inl ⟨staged, ?_⟩
      rintro rfl
      cases loops
  | _ => exact .inl ⟨staged, by simp⟩

/-- A step moves a task, executes it, or requests it. -/
theorem account (move : PoolMove shared self slot inlines joined frame choice next frames after)
    (task : PoolTask) :
    next.queued task + (frames.flatMap PoolFrame.held).count task + after.toList.count task +
        next.log.count (.executed task) + shared.log.count (.requested task) =
      shared.queued task + frame.held.count task + slot.toList.count task +
        shared.log.count (.executed task) + next.log.count (.requested task) := by
  cases move with
  | find move =>
      have kept := move.account task
      rw [move.log.1]
      omega
  | submit move =>
      have kept := move.account task
      rw [move.log.1]
      simp only [PoolFrame.held]
      omega
  | @uncount _ unpark =>
      cases unpark <;> simp [Unpark.onward, PoolFrame.held, PoolShared.queued]
  | @drain _ worker priority other rest _ before =>
      have replaced := shared.queued_setDeque worker priority rest task
      rw [before, List.count_append] at replaced
      simp only [PoolFrame.held, List.flatMap_cons, List.flatMap_nil, List.append_nil,
        PoolShared.setDeque, List.count_nil] at replaced ⊢
      omega
  | @request parent kind requests =>
      rw [PoolShared.count_executed_request, PoolShared.count_requested_request]
      simp [PoolFrame.held, PoolShared.queued, PoolShared.request]
      omega
  | @stage parent priority allowed free =>
      have single : (shared.newTasks (some parent) [{ priority }]).head?.toList =
          shared.newTasks (some parent) [{ priority }] := rfl
      rw [PoolShared.count_executed_request, PoolShared.count_requested_request, free, single]
      simp [PoolFrame.held, PoolShared.queued, PoolShared.request]
      omega
  | inline staged => simp [staged, PoolFrame.held]
  | continued free => simp [free, PoolFrame.held]
  | @finish other =>
      simp [PoolFrame.held, PoolShared.record, PoolShared.queued, List.count_cons]
      omega
  | notify | help => simp [PoolFrame.held]
  | seek begins => rcases begins with rfl | ⟨rfl, -⟩ <;> rfl
  | @returned _ numbers =>
      have none : (numbers.map PoolEvent.returned).count (.executed task) = 0 ∧
          (numbers.map PoolEvent.returned).count (.requested task) = 0 :=
        ⟨List.count_eq_zero.mpr (by simp), List.count_eq_zero.mpr (by simp)⟩
      simp only [List.count_append, none, Nat.zero_add]
      rfl
  | bump wakes => rcases wakes with ⟨further, rfl⟩ | rfl <;> rfl
  | wakeOne _ left | wakeNone _ left => rcases left with rfl | ⟨further, rfl⟩ <;> rfl
  | ioWake wakes => rcases wakes with rfl | rfl <;> rfl
  | ioTake before loops =>
      rcases loops with ⟨rfl, rfl⟩ | ⟨rfl, rfl⟩ <;>
        simp [PoolFrame.held, PoolShared.queued, before, List.count_cons] <;> omega
  | ioGo loops stays =>
      rw [List.flatMap_singleton, (PoolFrame.held_of_isIoLoop loops).1,
        (PoolFrame.held_of_isIoLoop stays).1]
      rfl
  | stop | stopAgain | join =>
      simp [PoolFrame.held, PoolShared.queued, PoolShared.record]
  | _ => rfl

end PoolMove

namespace PoolRecord

variable {shared : PoolShared size} {joined : Bool} {frame : PoolFrame size}
  {events : List PoolEvent} {nextNumber : Nat} {m_stop : Bool}

theorem number_le (recorded : PoolRecord shared joined frame events nextNumber m_stop) :
    shared.nextNumber ≤ nextNumber := by
  cases recorded <;> first | exact le_rfl | exact Nat.le_add_right ..

/-- Requests get new numbers. -/
theorem requested_new (recorded : PoolRecord shared joined frame events nextNumber m_stop)
    {task : PoolTask} (member : .requested task ∈ events) :
    shared.nextNumber ≤ task.number ∧ task.number < nextNumber ∧
      events.count (.requested task) ≤ 1 := by
  cases recorded with
  | @requested parent requests =>
      obtain ⟨query, isNew, same⟩ := List.mem_map.mp member
      cases same
      obtain ⟨above, below⟩ := PoolShared.mem_newTasks (List.mem_reverse.mp isNew)
      rw [← PoolShared.newTasks_length shared parent requests] at below
      refine ⟨above, below, ?_⟩
      have injective : Function.Injective PoolEvent.requested := fun _ _ same => by cases same; rfl
      rw [List.count_map_of_injective _ _ injective, List.count_reverse]
      exact List.nodup_iff_count_le_one.mp (shared.newTasks_nodup parent requests) task
  | nothing => cases member
  | returned => simp at member
  | executed | stopped | shutDown => simp at member

theorem mem_answers (recorded : PoolRecord shared joined frame events nextNumber m_stop)
    {number : Nat} (member : .returned number ∈ events) : number ∈ frame.answers := by
  cases recorded with
  | returned =>
      obtain ⟨query, isAnswer, same⟩ := List.mem_map.mp member
      cases same
      exact isAnswer
  | nothing => cases member
  | requested => simp at member
  | executed | stopped | shutDown => simp at member

end PoolRecord

theorem mem_of_inlines {frames : List (PoolFrame size)}
    (inlines : PoolState.inlines frames = true) : .continuing ∈ frames := by
  cases frames with
  | nil => cases inlines
  | cons frame rest => 
      cases frame <;> first | exact List.mem_cons_self .. | cases inlines

/-- Each task is at one place, and the history of the requests. -/
structure HoldingLaw (state : PoolState size) : Prop where
  account : ∀ task, Counting.total (fun thread => thread.held.count task) state.thread +
      state.shared.queued task + state.shared.log.count (.executed task) =
    state.shared.log.count (.requested task)
  once : ∀ task, state.shared.log.count (.requested task) ≤ 1
  requested : ∀ task, .requested task ∈ state.shared.log → task.number < state.shared.nextNumber
  returned : ∀ number, .returned number ∈ state.shared.log → number < state.shared.nextNumber
  answers : ∀ self, ∀ frame ∈ (state.thread self).stack, ∀ number ∈ frame.answers,
    number < state.shared.nextNumber
  inlined : ∀ self, (state.thread self).t_nextInlineTask ≠ none →
    .continuing ∈ (state.thread self).stack

namespace HoldingLaw

variable {state next : PoolState size}

theorem initial : HoldingLaw (PoolState.initial size) where
  account := fun task => by
    have none : Counting.total (fun thread => thread.held.count task)
        (PoolState.initial size).thread = 0 :=
      Counting.total_eq_zero.mpr fun self => by cases self <;> rfl
    rw [none]
    simp [PoolState.initial, PoolShared.queued]
  once := fun _ => Nat.zero_le _
  requested := fun _ member => by cases member
  returned := fun _ member => by cases member
  answers := fun self frame member number isAnswer => by
    cases self <;> rw [List.mem_singleton.mp member] at isAnswer <;> cases isAnswer
  inlined := fun self staged => by cases self <;> exact absurd rfl staged

variable {mover : ThreadId size} {choice : PoolChoice size} {frame : PoolFrame size}
  {frames rest : List (PoolFrame size)} {after : Option PoolTask}

theorem step (law : HoldingLaw state)
    (moves : state.Moves next mover choice frame frames rest after) : HoldingLaw next := by
  obtain ⟨events, added, recorded⟩ := moves.move.recorded
  have grows := recorded.number_le
  refine ⟨fun task => ?_, fun task => ?_, fun task member => ?_, fun number member => ?_,
    fun self other member number isAnswer => ?_, fun self staged => ?_⟩
  · have kept := moves.move.account task
    have summed := Counting.total_update (fun thread : PoolThread size => thread.held.count task)
      state.thread mover ⟨frames ++ rest, after⟩
    have before : (state.thread mover).held.count task = frame.held.count task +
        (rest.flatMap PoolFrame.held).count task +
          (state.thread mover).t_nextInlineTask.toList.count task := by
      simp [PoolThread.held, moves.isStack, List.count_append, Nat.add_assoc]
    have moved : (PoolThread.held ⟨frames ++ rest, after⟩).count task =
        (frames.flatMap PoolFrame.held).count task + (rest.flatMap PoolFrame.held).count task +
          after.toList.count task := by
      simp [PoolThread.held, List.flatMap_append, List.count_append, Nat.add_assoc]
    have balance := law.account task
    rw [moves.moved]
    omega
  · rw [added, List.count_append]
    by_cases isNew : .requested task ∈ events
    · obtain ⟨above, -, once⟩ := recorded.requested_new isNew
      have absent : state.shared.log.count (.requested task) = 0 :=
        List.count_eq_zero.mpr fun old => Nat.not_lt.mpr above (law.requested task old)
      rw [absent]
      exact once
    · rw [List.count_eq_zero.mpr isNew, Nat.zero_add]
      exact law.once task
  · rw [added] at member
    rcases List.mem_append.mp member with isNew | isOld
    · exact (recorded.requested_new isNew).2.1
    · exact lt_of_lt_of_le (law.requested task isOld) grows
  · rw [added] at member
    rcases List.mem_append.mp member with isNew | isOld
    · exact lt_of_lt_of_le
        (law.answers mover frame moves.mem_stack number (recorded.mem_answers isNew)) grows
    · exact lt_of_lt_of_le (law.returned number isOld) grows
  · rcases moves.mem_cases member with ⟨rfl, isNew⟩ | isOld
    · exact moves.move.answers isNew isAnswer
    · exact lt_of_lt_of_le (law.answers self other isOld number isAnswer) grows
  · by_cases isMover : self = mover
    · subst isMover
      rw [moves.moved, Function.update_self] at staged
      rcases moves.move.inlined staged with ⟨before, differs⟩ | inlines
      · exact moves.mem_of_ne (law.inlined self before) fun _ => Ne.symm differs
      · rw [moves.here]
        exact List.mem_append_right _ (mem_of_inlines inlines)
    · rw [moves.other isMover] at staged ⊢
      exact law.inlined self staged

/-- A thread that has returned holds no task. -/
theorem held_eq_nil (law : HoldingLaw state) {self : ThreadId size}
    (returned : (state.thread self).stack = []) : (state.thread self).held = [] := by
  have free : (state.thread self).t_nextInlineTask = none := by
    by_contra staged
    have continuing := law.inlined self staged
    rw [returned] at continuing
    cases continuing
  rw [PoolThread.held, returned, free]
  rfl

end HoldingLaw

end LightFlow
