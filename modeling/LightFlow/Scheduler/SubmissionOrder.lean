import LightFlow.Scheduler.MainThread

/-!
# The order of main-thread tasks

The stack holds what was pushed since the last drain, and the drain holds the rest of what it
took.  Both together are the tasks that were pushed and have not started, in the order of the
exchanges.
-/

namespace LightFlow

namespace MainThreadEvent

/-- The task of a successful head exchange. -/
def exchangedTask : MainThreadEvent → Option TaskPointer
  | .exchanged task => some task
  | _ => none

/-- The task a drain executed. -/
def startedTask : MainThreadEvent → Option TaskPointer
  | .started task => some task
  | _ => none

end MainThreadEvent

/-- The tasks of successful head exchanges, in their order. -/
def pushedTasks (log : List MainThreadEvent) : List TaskPointer :=
  (log.filterMap MainThreadEvent.exchangedTask).reverse

/-- The tasks that were executed, in their order. -/
def executedTasks (log : List MainThreadEvent) : List TaskPointer :=
  (log.filterMap MainThreadEvent.startedTask).reverse

/-- The history before the last drain took the list. -/
def beforeLastDrain : List MainThreadEvent → List MainThreadEvent
  | [] => []
  | .detached :: older => older
  | _ :: older => beforeLastDrain older

/-- The history since the last drain took the list. -/
def sinceLastDrain : List MainThreadEvent → List MainThreadEvent
  | [] => []
  | .detached :: _ => []
  | event :: older => event :: sinceLastDrain older

/-- The stack, from the head on. -/
def stackedTasks (log : List MainThreadEvent) : List TaskPointer :=
  (sinceLastDrain log).filterMap MainThreadEvent.exchangedTask

/-- How many tasks the last drain has started. -/
def startedByDrain (log : List MainThreadEvent) : Nat :=
  ((sinceLastDrain log).filterMap MainThreadEvent.startedTask).length

section Cons

variable {log : List MainThreadEvent} {task : TaskPointer} {count : Nat}

@[simp] theorem pushedTasks_submitted : pushedTasks (.submitted task :: log) = pushedTasks log :=
  rfl

@[simp] theorem pushedTasks_exchanged :
    pushedTasks (.exchanged task :: log) = pushedTasks log ++ [task] :=
  List.reverse_cons

@[simp] theorem pushedTasks_detached : pushedTasks (.detached :: log) = pushedTasks log := rfl

@[simp] theorem pushedTasks_started : pushedTasks (.started task :: log) = pushedTasks log := rfl

@[simp] theorem pushedTasks_returned : pushedTasks (.returned count :: log) = pushedTasks log := rfl

@[simp] theorem executedTasks_started :
    executedTasks (.started task :: log) = executedTasks log ++ [task] :=
  List.reverse_cons

@[simp] theorem executedTasks_returned :
    executedTasks (.returned count :: log) = executedTasks log := rfl

@[simp] theorem stackedTasks_submitted :
    stackedTasks (.submitted task :: log) = stackedTasks log := rfl

@[simp] theorem stackedTasks_exchanged :
    stackedTasks (.exchanged task :: log) = task :: stackedTasks log := rfl

@[simp] theorem stackedTasks_detached : stackedTasks (.detached :: log) = [] := rfl

@[simp] theorem stackedTasks_started :
    stackedTasks (.started task :: log) = stackedTasks log := rfl

@[simp] theorem stackedTasks_returned :
    stackedTasks (.returned count :: log) = stackedTasks log := rfl

@[simp] theorem startedByDrain_started :
    startedByDrain (.started task :: log) = startedByDrain log + 1 := rfl

/-- What was pushed is what drains have taken and what is on the stack. -/
theorem pushedTasks_split (log : List MainThreadEvent) :
    pushedTasks log = pushedTasks (beforeLastDrain log) ++ (stackedTasks log).reverse := by
  induction log with
  | nil => rfl
  | cons event older ih =>
      cases event with
      | detached => simp [beforeLastDrain]
      | exchanged | submitted | started | returned => simp [ih, beforeLastDrain]

end Cons

/-- Each drain returned the number of tasks it had started. -/
def DrainsCounted (log : List MainThreadEvent) : Prop :=
  ∀ newer older count, log = newer ++ .returned count :: older → count = startedByDrain older

theorem DrainsCounted.cons {log : List MainThreadEvent} {event : MainThreadEvent}
    (counted : DrainsCounted log)
    (right : ∀ count, event = .returned count → count = startedByDrain log) :
    DrainsCounted (event :: log) := by
  intro newer older count split
  cases newer with
  | nil =>
      cases split
      exact right count rfl
  | cons head newer =>
      cases split
      exact counted newer older count rfl

/-- The task of a push that has not exchanged the head. -/
def PushCall.task : PushCall → Option TaskPointer
  | .loading task | .linking task _ | .exchanging task _ => some task
  | .counting => none

/-- How often a push holds the task. -/
def PushCall.holds (task : TaskPointer) (call : Option PushCall) : Nat :=
  if call.bind PushCall.task = some task then 1 else 0

theorem PushCall.holds_eq {task : TaskPointer} {call : PushCall} (held : call.task = some task) :
    PushCall.holds task (some call) = 1 := if_pos held

/-- How many counts a push owes. -/
def PushCall.owes (call : Option PushCall) : Nat :=
  if call = some .counting then 1 else 0

/-- The tasks a drain has taken and not started are `tasks`, in this order; it has started
`started` ones. -/
def DrainCall.Holds (next : TaskPointer → Option TaskPointer) (started : Nat)
    (tasks : List TaskPointer) : DrainCall → Prop
  | .idle | .entering => tasks = []
  | .reversing prev curr count => ∃ turned ahead, Segment next prev turned ∧
      Segment next curr ahead ∧ tasks = ahead.reverse ++ turned ∧ count = turned.length ∧
        started = 0
  | .running curr count | .executing curr count =>
      Segment next curr tasks ∧ count = started + tasks.length ∧ count < 2 ^ 64

/-- What a drain subtracts from the count when it returns. -/
def DrainCall.owes (tasks : List TaskPointer) : DrainCall → Nat
  | .idle | .entering => 0
  | .reversing _ _ _ => tasks.length
  | .running _ count | .executing _ count => count

/-- The list with all calls in progress; `tasks` are those the drain holds. -/
structure MainThreadLaw (queue : MainThreadQueue) (drain : DrainCall)
    (log : List MainThreadEvent) (calls : Multiset (Option PushCall))
    (tasks : List TaskPointer) : Prop where
  stack : Segment queue.next queue.m_mainThreadHead (stackedTasks log)
  drained : drain.Holds queue.next (startedByDrain log) tasks
  order : executedTasks log ++ tasks = pushedTasks (beforeLastDrain log)
  /-- Every submission that was not started is at one place. -/
  places : ∀ task, (stackedTasks log).count task + tasks.count task +
      (calls.map (PushCall.holds task)).sum + log.count (.started task) =
    log.count (.submitted task)
  resubmits : ∀ task, log.count (.submitted task) ≤ log.count (.started task) + 1
  links : ∀ task oldHead, some (.exchanging task oldHead) ∈ calls → queue.next task = oldHead
  counted : (queue.m_mainThreadCount + (calls.map PushCall.owes).sum) % 2 ^ 64 =
    ((stackedTasks log).length + drain.owes tasks) % 2 ^ 64
  narrow : queue.m_mainThreadCount < 2 ^ 64
  returns : DrainsCounted log

namespace DrainCall

variable {next moved : TaskPointer → Option TaskPointer} {started : Nat}
  {tasks : List TaskPointer} {drain : DrainCall}

/-- Only the pointers of the tasks in a drain matter to it. -/
theorem Holds.congr (held : drain.Holds next started tasks)
    (kept : ∀ task ∈ tasks, moved task = next task) : drain.Holds moved started tasks := by
  cases drain with
  | idle | entering => exact held
  | reversing prev curr count =>
      obtain ⟨turned, ahead, back, front, rfl, counted, none⟩ := held
      exact ⟨turned, ahead, back.congr fun task member => kept task (by simp [member]),
        front.congr fun task member => kept task (by simp [member]), rfl, counted, none⟩
  | running curr count | executing curr count => exact ⟨held.1.congr kept, held.2⟩

end DrainCall

namespace MainThreadLaw

variable {queue : MainThreadQueue} {drain : DrainCall} {log : List MainThreadEvent}
  {calls rest : Multiset (Option PushCall)} {tasks : List TaskPointer}

theorem fresh {state : MainThreadState} (fresh : state.Fresh)
    (idle : ∀ call ∈ calls, call = none) :
    MainThreadLaw state.queue state.drain state.log calls [] := by
  obtain ⟨head, count, isIdle, -, log⟩ := fresh
  have noHolds (task : TaskPointer) : (calls.map (PushCall.holds task)).sum = 0 :=
    Program.sum_idle idle rfl
  have noOwes : (calls.map PushCall.owes).sum = 0 := Program.sum_idle idle rfl
  constructor
  · rw [head, log]
    exact .nil
  · rw [isIdle]
    rfl
  · rw [log]
    rfl
  · intro task
    rw [log, noHolds]
    rfl
  · intro task
    simp [log]
  · intro task oldHead member
    cases idle _ member
  · rw [count, isIdle, log, noOwes]
    rfl
  · rw [count]
    decide
  · rw [log]
    intro newer older count split
    simp at split

/-- A task that waits is at one place. -/
theorem once (law : MainThreadLaw queue drain log calls tasks) (task : TaskPointer) :
    (stackedTasks log).count task + tasks.count task +
      (calls.map (PushCall.holds task)).sum ≤ 1 := by
  have places := law.places task
  have resubmits := law.resubmits task
  omega

theorem stack_nodup (law : MainThreadLaw queue drain log calls tasks) :
    (stackedTasks log).Nodup :=
  List.nodup_iff_count_le_one.mpr fun task => by have := law.once task; omega

theorem tasks_nodup (law : MainThreadLaw queue drain log calls tasks) : tasks.Nodup :=
  List.nodup_iff_count_le_one.mpr fun task => by have := law.once task; omega

/-- A task that a drain holds is nowhere else. -/
theorem not_elsewhere (law : MainThreadLaw queue drain log calls tasks) {task : TaskPointer}
    (member : task ∈ tasks) :
    task ∉ stackedTasks log ∧ ∀ oldHead, some (.exchanging task oldHead) ∉ calls := by
  have once := law.once task
  have held := List.count_pos_iff.mpr member
  refine ⟨fun stacked => ?_, fun oldHead calling => ?_⟩
  · have := List.count_pos_iff.mpr stacked
    omega
  · obtain ⟨others, rfl⟩ := Multiset.exists_cons_of_mem calling
    rw [Multiset.map_cons, Multiset.sum_cons, PushCall.holds_eq rfl] at once
    omega

/-- A task that a push holds is nowhere else. -/
theorem not_taken {call : PushCall} {task : TaskPointer} (held : call.task = some task)
    (law : MainThreadLaw queue drain log (some call ::ₘ rest) tasks) :
    task ∉ stackedTasks log ∧ task ∉ tasks ∧ ∀ oldHead, some (.exchanging task oldHead) ∉ rest := by
  have once := law.once task
  rw [Multiset.map_cons, Multiset.sum_cons, PushCall.holds_eq held] at once
  refine ⟨fun stacked => ?_, fun taken => ?_, fun oldHead calling => ?_⟩
  · have := List.count_pos_iff.mpr stacked
    omega
  · have := List.count_pos_iff.mpr taken
    omega
  · obtain ⟨others, rfl⟩ := Multiset.exists_cons_of_mem calling
    rw [Multiset.map_cons, Multiset.sum_cons, PushCall.holds_eq rfl] at once
    omega

/-- A push is called. -/
theorem submit (law : MainThreadLaw queue drain log (none ::ₘ rest) tasks) {task : TaskPointer}
    (again : log.count (.submitted task) = log.count (.started task)) :
    MainThreadLaw queue drain (.submitted task :: log) (some (.loading task) ::ₘ rest) tasks where
  stack := law.stack
  drained := law.drained
  order := law.order
  places := fun other => by
    have places := law.places other
    simp only [Multiset.map_cons, Multiset.sum_cons, PushCall.holds, Option.bind_none,
      reduceCtorEq, if_false, Nat.zero_add] at places
    simp only [Multiset.map_cons, Multiset.sum_cons, PushCall.holds, Option.bind_some,
      PushCall.task, List.count_cons, beq_iff_eq, Option.some.injEq,
      MainThreadEvent.submitted.injEq, reduceCtorEq, if_false, Nat.add_zero]
    have same : stackedTasks (.submitted task :: log) = stackedTasks log := rfl
    rw [same]
    split <;> omega
  resubmits := fun other => by
    have resubmits := law.resubmits other
    simp only [List.count_cons, beq_iff_eq, MainThreadEvent.submitted.injEq, reduceCtorEq,
      if_false, Nat.add_zero]
    split
    next isTask =>
      subst isTask
      omega
    next => omega
  links := fun other oldHead member => by
    refine law.links other oldHead (Multiset.mem_cons_of_mem ?_)
    simpa using member
  counted := by
    have counted := law.counted
    simpa [PushCall.owes] using counted
  narrow := law.narrow
  returns := law.returns.cons fun count isReturn => nomatch isReturn

/-- A push goes on without an event. -/
theorem move {call : PushCall} {moved : Option PushCall} {next : TaskPointer → Option TaskPointer}
    (law : MainThreadLaw queue drain log (some call ::ₘ rest) tasks)
    (kept : ∀ task, call.task ≠ some task → next task = queue.next task)
    (held : ∀ task, PushCall.holds task moved = PushCall.holds task (some call))
    (owed : PushCall.owes moved = PushCall.owes (some call))
    (linked : ∀ task oldHead, moved = some (.exchanging task oldHead) → next task = oldHead) :
    MainThreadLaw { queue with next } drain log (moved ::ₘ rest) tasks where
  stack := law.stack.congr fun task member => kept task fun isTask =>
    (law.not_taken isTask).1 member
  drained := law.drained.congr fun task member => kept task fun isTask =>
    (law.not_taken isTask).2.1 member
  order := law.order
  places := fun task => by
    rw [Multiset.map_cons, Multiset.sum_cons, held, ← law.places task, Multiset.map_cons,
      Multiset.sum_cons]
  resubmits := law.resubmits
  links := fun task oldHead member => by
    rcases Multiset.mem_cons.mp member with isMoved | member
    · exact linked task oldHead isMoved.symm
    · exact (kept task fun isTask => (law.not_taken isTask).2.2 oldHead member).trans
        (law.links task oldHead (Multiset.mem_cons_of_mem member))
  counted := by
    rw [Multiset.map_cons, Multiset.sum_cons, owed, ← law.counted, Multiset.map_cons,
      Multiset.sum_cons]
  narrow := law.narrow
  returns := law.returns

/-- A push exchanges the head. -/
theorem exchange {task : TaskPointer}
    (law : MainThreadLaw queue drain log
      (some (.exchanging task queue.m_mainThreadHead) ::ₘ rest) tasks) :
    MainThreadLaw { queue with m_mainThreadHead := some task } drain (.exchanged task :: log)
      (some .counting ::ₘ rest) tasks where
  stack := by
    refine .cons ?_
    rw [law.links task _ (Multiset.mem_cons_self ..)]
    exact law.stack
  drained := law.drained
  order := law.order
  places := fun other => by
    have places := law.places other
    simp only [Multiset.map_cons, Multiset.sum_cons, PushCall.holds, Option.bind_some,
      PushCall.task, Option.some.injEq, reduceCtorEq, if_false, stackedTasks_exchanged,
      List.count_cons, beq_iff_eq] at places ⊢
    omega
  resubmits := fun other => by simpa using law.resubmits other
  links := fun other oldHead member => by
    refine law.links other oldHead (Multiset.mem_cons_of_mem ?_)
    simpa using member
  counted := by
    have counted := law.counted
    simp only [Multiset.map_cons, Multiset.sum_cons, PushCall.owes, Option.some.injEq,
      reduceCtorEq, if_false, if_true, stackedTasks_exchanged, List.length_cons] at counted ⊢
    omega
  narrow := law.narrow
  returns := law.returns.cons fun count isReturn => nomatch isReturn

/-- A push counts its task and returns. -/
theorem count (law : MainThreadLaw queue drain log (some .counting ::ₘ rest) tasks) :
    MainThreadLaw { queue with m_mainThreadCount := u64 (queue.m_mainThreadCount + 1) } drain log
      (none ::ₘ rest) tasks where
  stack := law.stack
  drained := law.drained
  order := law.order
  places := fun task => by
    have places := law.places task
    simpa [PushCall.holds, PushCall.task] using places
  resubmits := law.resubmits
  links := fun other oldHead member => by
    refine law.links other oldHead (Multiset.mem_cons_of_mem ?_)
    simpa using member
  counted := by
    have counted := law.counted
    simp only [Multiset.map_cons, Multiset.sum_cons, PushCall.owes, reduceCtorEq, if_false, if_true,
      u64] at counted ⊢
    omega
  narrow := u64_lt _
  returns := law.returns

/-- One step of a push. -/
theorem push {call : PushCall} {spurious : Bool}
    (law : MainThreadLaw queue drain log (some call ::ₘ rest) tasks) :
    MainThreadLaw (call.fire queue spurious).queue drain ((call.fire queue spurious).events ++ log)
      ((call.fire queue spurious).call ::ₘ rest) tasks := by
  cases call with
  | loading task =>
    exact law.move (fun _ _ => rfl) (fun _ => rfl) rfl fun _ _ isCall => nomatch isCall
  | linking task oldHead =>
      refine law.move (fun other different => ?_) (fun _ => rfl) rfl fun other head isCall => ?_
      · exact Function.update_of_ne (fun same => different (congrArg some same.symm)) ..
      · cases isCall
        exact Function.update_self ..
  | exchanging task oldHead =>
      simp only [PushCall.fire]
      split
      next isHead =>
        obtain ⟨rfl, -⟩ := isHead
        exact law.exchange
      next => exact law.move (fun _ _ => rfl) (fun _ => rfl) rfl fun _ _ isCall => nomatch isCall
  | counting => exact law.count

/-- A drain takes the list. -/
theorem detach (law : MainThreadLaw queue .entering log calls tasks) :
    MainThreadLaw { queue with m_mainThreadHead := none }
      (.reversing none queue.m_mainThreadHead 0) (.detached :: log) calls
      (stackedTasks log).reverse where
  stack := .nil
  drained := ⟨[], stackedTasks log, .nil, law.stack, by simp, rfl, rfl⟩
  order := by
    have order := law.order
    rw [show tasks = [] from law.drained, List.append_nil] at order
    change executedTasks log ++ (stackedTasks log).reverse = pushedTasks log
    rw [order, ← pushedTasks_split]
  places := fun task => by
    have places := law.places task
    rw [show tasks = [] from law.drained] at places
    simpa using places
  resubmits := fun task => by simpa using law.resubmits task
  links := law.links
  counted := by
    have counted := law.counted
    simpa [DrainCall.owes] using counted
  narrow := law.narrow
  returns := law.returns.cons fun count isReturn => nomatch isReturn

/-- A drain turns one pointer. -/
theorem turn {prev : Option TaskPointer} {curr : TaskPointer} {count : Nat}
    (law : MainThreadLaw queue (.reversing prev (some curr) count) log calls tasks) :
    MainThreadLaw (queue.setNext curr prev)
      (.reversing (some curr) (queue.next curr) (u64 (count + 1))) log calls tasks := by
  obtain ⟨turned, ahead, back, front, split, counted, noneStarted⟩ := law.drained
  obtain ⟨ahead, rfl, onward⟩ := front.of_some
  have distinct := law.tasks_nodup
  have elsewhere := law.not_elsewhere (show curr ∈ _ by simp [split])
  have kept (task : TaskPointer) (different : task ≠ curr) :
      (queue.setNext curr prev).next task = queue.next task :=
    Function.update_of_ne different ..
  have short := TaskPointer.length_lt distinct
  rw [split] at distinct short
  simp only [List.reverse_cons, List.append_assoc, List.singleton_append, List.length_append,
    List.length_reverse, List.length_cons] at distinct short
  obtain ⟨front_nodup, back_nodup, apart⟩ := List.nodup_append.mp distinct
  refine { law with
    stack := law.stack.congr fun task member => kept task fun same =>
      elsewhere.1 (same ▸ member)
    drained := ?_
    links := fun task oldHead member => ?_ }
  · refine ⟨curr :: turned, ahead, .cons ?_, ?_, by simp [split], ?_, noneStarted⟩
    · rw [show (queue.setNext curr prev).next curr = prev from Function.update_self ..]
      exact back.congr fun task member => kept task fun same =>
        (List.nodup_cons.mp back_nodup).1 (same ▸ member)
    · exact onward.congr fun task member => kept task
        (apart task (List.mem_reverse.mpr member) curr (List.mem_cons_self ..))
    · rw [counted, List.length_cons, u64_of_lt (by omega)]
  · rw [kept task fun same => elsewhere.2 oldHead (same ▸ member)]
    exact law.links task oldHead member

/-- The list is reversed. -/
theorem turned {prev : Option TaskPointer} {count : Nat}
    (law : MainThreadLaw queue (.reversing prev none count) log calls tasks) :
    MainThreadLaw queue (.running prev count) log calls tasks := by
  obtain ⟨turned, ahead, back, front, rfl, counted, noneStarted⟩ := law.drained
  cases front
  have short := TaskPointer.length_lt law.tasks_nodup
  simp only [List.reverse_nil, List.nil_append] at short
  refine { law with drained := ⟨by simpa using back, ?_, by omega⟩, counted := ?_ }
  · simp [counted, noneStarted]
  · rw [law.counted]
    simp [DrainCall.owes, counted]

/-- A drain executes a task. -/
theorem start {curr : TaskPointer} {count : Nat}
    (law : MainThreadLaw queue (.running (some curr) count) log calls tasks) :
    ∃ after, MainThreadLaw (queue.setNext curr none) (.executing (queue.next curr) count)
      (.started curr :: log) calls after := by
  obtain ⟨front, counted, narrow⟩ := law.drained
  obtain ⟨after, rfl, onward⟩ := front.of_some
  have distinct := List.nodup_cons.mp law.tasks_nodup
  have elsewhere := law.not_elsewhere (List.mem_cons_self ..)
  have kept (task : TaskPointer) (different : task ≠ curr) :
      (queue.setNext curr none).next task = queue.next task :=
    Function.update_of_ne different ..
  refine ⟨after, ?_, ⟨?_, ?_, narrow⟩, ?_, fun task => ?_, fun task => ?_,
    fun task oldHead member => ?_,
    law.counted, law.narrow, law.returns.cons fun count isReturn => nomatch isReturn⟩
  · exact law.stack.congr fun task member => kept task fun same => elsewhere.1 (same ▸ member)
  · exact onward.congr fun task member => kept task fun same => distinct.1 (same ▸ member)
  · rw [counted, startedByDrain_started, List.length_cons]
    omega
  · have order := law.order
    simpa [beforeLastDrain] using order
  · have places := law.places task
    simp only [List.count_cons, beq_iff_eq, stackedTasks_started, MainThreadEvent.started.injEq,
      reduceCtorEq, if_false, Nat.add_zero] at places ⊢
    omega
  · have resubmits := law.resubmits task
    simp only [List.count_cons, beq_iff_eq, MainThreadEvent.started.injEq, reduceCtorEq,
      if_false, Nat.add_zero]
    omega
  · rw [kept task fun same => elsewhere.2 oldHead (same ▸ member)]
    exact law.links task oldHead member

/-- A drain has executed its list and returns. -/
theorem finish {count : Nat}
    (law : MainThreadLaw queue (.running none count) log calls tasks) :
    MainThreadLaw { queue with m_mainThreadCount := u64Sub queue.m_mainThreadCount count } .idle
      (.returned count :: log) calls [] := by
  obtain ⟨front, counted, short⟩ := law.drained
  cases front
  have sum := law.counted
  have narrow := law.narrow
  simp only [DrainCall.owes] at sum
  refine ⟨law.stack, rfl, ?_, fun task => ?_, fun task => ?_, law.links, ?_, ?_,
    law.returns.cons fun other isReturn => ?_⟩
  · have order := law.order
    simpa [beforeLastDrain] using order
  · simpa using law.places task
  · simpa using law.resubmits task
  · simp only [DrainCall.owes, stackedTasks_returned, u64Sub]
    split <;> omega
  · simp only [u64Sub]
    split <;> omega
  · cases isReturn
    simpa using counted

/-- One step of a drain. -/
theorem go {effect : DrainEffect} (law : MainThreadLaw queue drain log calls tasks)
    (fired : drain.fire queue = some effect) :
    ∃ after, MainThreadLaw effect.queue effect.drain (effect.events ++ log) calls after := by
  cases drain with
  | idle => cases fired
  | entering =>
      have detached := law.detach
      simp only [DrainCall.fire] at fired
      split at fired
      next empty =>
        cases fired
        rw [empty] at detached
        exact ⟨[], detached.turned.finish⟩
      next head nonempty =>
        cases fired
        rw [nonempty] at detached
        exact ⟨_, detached⟩
  | reversing prev curr count =>
      cases curr with
      | none =>
          cases fired
          exact ⟨_, law.turned⟩
      | some curr =>
          cases fired
          exact ⟨_, law.turn⟩
  | running curr count =>
      cases curr with
      | none =>
          cases fired
          exact ⟨_, law.finish⟩
      | some curr =>
          cases fired
          exact law.start
  | executing next count =>
      cases fired
      exact ⟨tasks, { law with drained := law.drained, counted := law.counted }⟩

/-- One step of a push, or its call. -/
theorem firePush {state next : MainThreadState} {call moved : Option PushCall} {choice : PushChoice}
    (law : MainThreadLaw state.queue state.drain state.log (call ::ₘ rest) tasks)
    (resubmits : choice.Resubmits state.log)
    (fired : state.firePush call choice = some (next, moved)) :
    MainThreadLaw next.queue next.drain next.log (moved ::ₘ rest) tasks := by
  cases call with
  | none =>
      cases choice with
      | pushMainThreadTask task =>
          cases fired
          exact law.submit resubmits
      | go => cases fired
  | some call =>
      cases choice with
      | pushMainThreadTask => cases fired
      | go spurious =>
          cases fired
          exact law.push

/-- One step of the main thread. -/
theorem fireMain {state next : MainThreadState} {action : MainThreadAction}
    {pool : Multiset (Option PushCall)}
    (law : MainThreadLaw state.queue state.drain state.log (state.pushing ::ₘ pool) tasks)
    (resubmits : action.Resubmits state.log) (fired : state.fireMain action = some next) :
    ∃ after, MainThreadLaw next.queue next.drain next.log (next.pushing ::ₘ pool) after := by
  cases action with
  | drainMainThreadTasks =>
      simp only [MainThreadState.fireMain] at fired
      split at fired
      next outside =>
        cases fired
        obtain ⟨isIdle, -⟩ := outside
        rw [isIdle] at law
        exact ⟨tasks, { law with drained := law.drained, counted := law.counted }⟩
      next => cases fired
  | go =>
      simp only [MainThreadState.fireMain] at fired
      split at fired
      next =>
        obtain ⟨effect, drained, rfl⟩ := Option.map_eq_some_iff.mp fired
        exact law.go drained
      next => cases fired
  | push choice =>
      simp only [MainThreadState.fireMain] at fired
      split at fired
      next =>
        obtain ⟨⟨shared, moved⟩, pushed, rfl⟩ := Option.map_eq_some_iff.mp fired
        have after := law.firePush resubmits pushed
        exact ⟨tasks, after⟩
      next => cases fired

end MainThreadLaw

variable {threads : Nat} {state : Program.State MainThreadState (Option PushCall) threads}

theorem mainThreadLaw_of_reachable
    (reachable : (mainThreadMachine threads).ReachableBy resubmitting state) :
    ∃ tasks, MainThreadLaw state.shared.queue state.shared.drain state.shared.log
      (state.shared.pushing ::ₘ state.pool) tasks := by
  refine Program.invariant (motive := fun shared pool => ∃ tasks,
    MainThreadLaw shared.queue shared.drain shared.log (shared.pushing ::ₘ pool) tasks)
    (fun shared pool fresh idle => ⟨[], .fresh fresh fun call member => ?_⟩) ?_ ?_ reachable
  · rcases Multiset.mem_cons.mp member with rfl | member
    · exact fresh.2.2.2.1
    · exact idle call member
  · rintro shared pool action next ⟨tasks, law⟩ resubmits fired
    exact law.fireMain resubmits fired
  · rintro shared call rest choice next moved ⟨tasks, law⟩ resubmits fired
    have same : next.pushing = shared.pushing := by
      cases call <;> cases choice <;> cases fired <;> rfl
    rw [Multiset.cons_swap] at law
    have after := law.firePush resubmits fired
    rw [Multiset.cons_swap] at after
    exact ⟨tasks, same ▸ after⟩

/-- Main-thread tasks are executed in the order of their pushes, once for each push; a drain
returns how many it has executed; and when nobody is in a call, the count is the number of
tasks on the stack, which are the ones still to be executed. -/
theorem main_thread_order
    (reachable : (mainThreadMachine threads).ReachableBy resubmitting state) :
    executedTasks state.shared.log <+: pushedTasks (beforeLastDrain state.shared.log) ∧
    (state.shared.drain = .idle →
      executedTasks state.shared.log = pushedTasks (beforeLastDrain state.shared.log)) ∧
    DrainsCounted state.shared.log ∧
    (state.shared.drain = .idle → state.shared.pushing = none →
      (∀ index, state.here index = none) →
      (∀ task, (pushedTasks state.shared.log).count task =
        state.shared.log.count (.submitted task)) ∧
      ∃ linked, Segment state.shared.queue.next state.shared.queue.m_mainThreadHead linked ∧
        executedTasks state.shared.log ++ linked.reverse = pushedTasks state.shared.log ∧
        state.shared.queue.m_mainThreadCount = linked.length) := by
  obtain ⟨tasks, law⟩ := mainThreadLaw_of_reachable reachable
  have order := law.order
  have settled (isIdle : state.shared.drain = .idle) :
      executedTasks state.shared.log = pushedTasks (beforeLastDrain state.shared.log) := by
    have drained := law.drained
    rw [isIdle] at drained
    rw [← order, show tasks = [] from drained, List.append_nil]
  refine ⟨⟨tasks, order⟩, settled, law.returns, fun isIdle notPushing quiet => ?_⟩
  have drained := law.drained
  rw [isIdle] at drained
  have noTask : tasks = [] := drained
  have allIdle : ∀ call ∈ state.shared.pushing ::ₘ state.pool, call = none := by
    intro call member
    rcases Multiset.mem_cons.mp member with rfl | member
    · exact notPushing
    · exact Program.State.idle_of_quiet quiet call member
  have split := pushedTasks_split state.shared.log
  rw [← settled isIdle] at split
  refine ⟨fun task => ?_, stackedTasks state.shared.log, law.stack, split.symm, ?_⟩
  · have places := law.places task
    have noHolds : (Multiset.map (PushCall.holds task)
      (state.shared.pushing ::ₘ state.pool)).sum = 0 := Program.sum_idle allIdle rfl
    rw [noHolds, noTask] at places
    have started (event : MainThreadEvent) :
        event.startedTask = some task ↔ event = .started task := by
      cases event <;> simp [MainThreadEvent.startedTask]
    rw [split, List.count_append, List.count_reverse, ← places, executedTasks, List.count_reverse,
      Counting.count_filterMap started]
    simp only [List.count_nil]
    omega
  · have counted := law.counted
    have noOwes : (Multiset.map PushCall.owes (state.shared.pushing ::ₘ state.pool)).sum = 0 :=
      Program.sum_idle allIdle rfl
    have narrow := law.narrow
    have short := TaskPointer.length_lt law.stack_nodup
    rw [noOwes, isIdle] at counted
    simp only [DrainCall.owes] at counted
    omega

/-- One thread pushes two tasks; the main thread drains both, and the first submits itself
again. -/
def resubmittedRun : List (Program.Action MainThreadAction PushChoice 1) :=
  let first : TaskPointer := ⟨1, by decide⟩
  let second : TaskPointer := ⟨2, by decide⟩
  let push (task : TaskPointer) : List (Program.Action MainThreadAction PushChoice 1) :=
    .thread 0 (.pushMainThreadTask task) :: List.replicate 4 (.thread 0 (.go false))
  push first ++ push second ++ .solo .drainMainThreadTasks :: List.replicate 5 (.solo .go) ++
    .solo (.push (.pushMainThreadTask first)) ::
      List.replicate 4 (.solo (.push (.go false))) ++ List.replicate 4 (.solo .go)

theorem main_thread_order_resubmitted :
    ∃ state : Program.State MainThreadState (Option PushCall) 1,
      (executedTasks state.shared.log).length = 2 ∧
      executedTasks state.shared.log = pushedTasks (beforeLastDrain state.shared.log) ∧
      state.shared.queue.m_mainThreadCount = 1 := by
  have fresh : (mainThreadMachine 1).initial
      ⟨{ queue := { next := fun _ => none } }, fun _ => none⟩ :=
    ⟨⟨rfl, rfl, rfl, rfl, rfl⟩, fun _ => rfl⟩
  obtain ⟨state, reachable, isIdle, notPushing, quiet, executed, one⟩ : ∃ state,
      (mainThreadMachine 1).ReachableBy resubmitting state ∧ state.shared.drain = .idle ∧
        state.shared.pushing = none ∧ (∀ index, state.here index = none) ∧
        (executedTasks state.shared.log).length = 2 ∧
        state.shared.queue.m_mainThreadCount = 1 :=
    Machine.ReachableBy.exists_of_run (.start fresh) resubmittedRun (by decide +kernel)
  exact ⟨state, executed, (main_thread_order reachable).2.1 isIdle, one⟩

end LightFlow
