import LightFlow.Scheduler.Shutdown

/-!
# Room in the IO queue

The IO workers empty the bounded IO queue, and fill it when the tasks they execute hand over IO
tasks.  They are all caught in the loop over a full queue only when the calls in progress have
more to push than there is room.
-/

namespace LightFlow

variable {size : PoolSize}

/-- The request is for the IO queue. -/
def TaskRequest.isIo (request : TaskRequest) : Bool :=
  request.domain = .io

namespace PoolFrame

/-- How many IO tasks the call has to push. -/
def ioTasks : PoolFrame size → Nat
  | .submitting _ todo _ => todo.countP fun task => task.request.isIo
  | _ => 0

/-- The call is in the loop over `m_ioQueue.tryEnqueue`. -/
def pushesIo : PoolFrame size → Bool
  | .submitting _ (task :: _) _ => task.request.isIo
  | _ => false

end PoolFrame

/-- How many IO tasks the calls of a thread have to push. -/
def PoolThread.ioTasks (thread : PoolThread size) : Nat :=
  (thread.stack.map PoolFrame.ioTasks).sum

/-- Every IO worker is in the loop over `m_ioQueue.tryEnqueue`, and the queue is full. -/
def PoolState.IoBlocked (state : PoolState size) : Prop :=
  PoolShared.ioCapacity ≤ state.shared.m_ioQueue.length ∧
    ∀ worker, (state.thread (.io worker)).stack.head?.any PoolFrame.pushesIo = true

/-- A call that hands over IO tasks leaves an IO worker that has none to push, or room for all
tasks in progress but one for each IO worker. -/
def Roomy (state : PoolState size) : ThreadId size × PoolChoice size → Prop
  | (self, .submit _ requests) =>
      (∀ worker, 0 < (state.thread (.io worker)).ioTasks ∨
        self = .io worker ∧ 0 < requests.countP TaskRequest.isIo) →
      state.shared.m_ioQueue.length + Counting.total PoolThread.ioTasks state.thread +
        requests.countP TaskRequest.isIo < PoolShared.ioCapacity + size.m_ioWorkerCount
  | _ => True

instance (state : PoolState size) : DecidablePred (Roomy state)
  | (_, .submit _ _) => inferInstanceAs (Decidable (_ → _))
  | (_, .go _ _ _ _) | (_, .stage _) | (_, .notify _) | (_, .help) | (_, .leave)
  | (_, .shutdown) | (_, .finish) => inferInstanceAs (Decidable True)

/-- The IO tasks among the requests of a step. -/
def PoolChoice.ioRequests : PoolChoice size → Nat
  | .submit _ requests => requests.countP TaskRequest.isIo
  | _ => 0

theorem SubmitMove.ioTasks {shared next : PoolShared size} {self : Option (Fin size.m_workerCount)}
    {kind : Submit} {owed todo : List PoolTask} {frames : List (PoolFrame size)}
    (move : SubmitMove shared self kind owed todo next frames) :
    next.m_ioQueue.length + (frames.map PoolFrame.ioTasks).sum =
      shared.m_ioQueue.length + todo.countP (fun task => task.request.isIo) ∧
    (frames.map PoolFrame.ioTasks).sum ≤ todo.countP fun task => task.request.isIo := by
  have pushed (todo owed : List PoolTask) :
      ((PoolFrame.pushed kind todo owed : List (PoolFrame size)).map PoolFrame.ioTasks).sum =
        todo.countP fun task => task.request.isIo := by
    simp only [PoolFrame.pushed]
    split <;> simp [PoolFrame.ioTasks]
  cases move with
  | enqueueIo isIo =>
      simp [PoolFrame.ioTasks, TaskRequest.isIo, isIo]
      omega
  | push isWorker | enqueue isWorker =>
      rw [pushed]
      simp [TaskRequest.isIo, isWorker, PoolShared.pushBottom, PoolShared.setDeque,
        PoolShared.setGlobal]
  | full _ _ retries => rcases retries with rfl | rfl <;> simp [PoolFrame.ioTasks]
  | _ => simp [PoolFrame.ioTasks]

/-- A step pushes an IO task that was in progress, or begins to hand over IO tasks. -/
theorem PoolMove.ioTasks {shared next : PoolShared size} {self : ThreadId size}
    {slot after : Option PoolTask} {inlines joined : Bool} {frame : PoolFrame size}
    {choice : PoolChoice size} {frames : List (PoolFrame size)}
    (move : PoolMove shared self slot inlines joined frame choice next frames after) :
    next.m_ioQueue.length + (frames.map PoolFrame.ioTasks).sum ≤
      shared.m_ioQueue.length + frame.ioTasks + choice.ioRequests ∧
    (frames.map PoolFrame.ioTasks).sum ≤ frame.ioTasks + choice.ioRequests := by
  have idle (none : ∀ other ∈ frames, other.ioTasks = 0)
      (same : next.m_ioQueue.length ≤ shared.m_ioQueue.length) :
      next.m_ioQueue.length + (frames.map PoolFrame.ioTasks).sum ≤
        shared.m_ioQueue.length + frame.ioTasks + choice.ioRequests ∧
      (frames.map PoolFrame.ioTasks).sum ≤ frame.ioTasks + choice.ioRequests := by
    rw [Counting.sum_map_eq_zero none]
    omega
  cases move with
  | @find _ goal step _ _ move =>
      have found (task : PoolTask) :
          ∀ other ∈ (goal.found task : List (PoolFrame size)), other.ioTasks = 0 := by
        cases goal <;> simp [FindGoal.found, PoolFrame.ioTasks]
      have missed : ∀ other ∈ (goal.missed : List (PoolFrame size)), other.ioTasks = 0 := by
        cases goal with
        | spinning left => cases left <;> simp [FindGoal.missed, PoolFrame.ioTasks]
        | _ => simp [FindGoal.missed, PoolFrame.ioTasks]
      cases move <;> refine idle ?_ le_rfl <;>
        first | exact found _ | exact missed | simp [PoolFrame.ioTasks]
  | submit move =>
      have kept := move.ioTasks
      simp only [PoolFrame.ioTasks]
      omega
  | @request parent kind requests =>
      have same : (shared.newTasks parent requests).countP (fun task => task.request.isIo) =
          requests.countP TaskRequest.isIo := by
        conv_rhs => rw [← shared.newTasks_request parent requests, List.countP_map]
        rfl
      simp [PoolFrame.ioTasks, PoolShared.request, PoolChoice.ioRequests, same]
  | @uncount _ unpark =>
      refine idle ?_ le_rfl
      cases unpark <;> simp [Unpark.onward, PoolFrame.ioTasks]
  | bump wakes =>
      refine idle ?_ le_rfl
      rcases wakes with ⟨further, rfl⟩ | rfl <;> simp [PoolFrame.ioTasks]
  | wakeOne _ left | wakeNone _ left =>
      refine idle ?_ le_rfl
      rcases left with rfl | ⟨further, rfl⟩ <;> simp [PoolFrame.ioTasks]
  | ioTake before loops =>
      refine idle ?_ ?_
      · rcases loops with ⟨rfl, rfl⟩ | ⟨rfl, rfl⟩ <;> simp [PoolFrame.ioTasks]
      · rw [before]
        exact Nat.le_succ _
  | @ioGo _ _ onward _ _ stays =>
      refine idle ?_ le_rfl
      cases onward <;> cases stays <;> simp [PoolFrame.ioTasks]
  | _ => exact idle (by simp [PoolFrame.ioTasks]) le_rfl

/-- When all IO workers have IO tasks to push, there is room for all tasks in progress but one for
each of them. -/
def PoolState.HasRoom (state : PoolState size) : Prop :=
  (∀ worker, 0 < (state.thread (.io worker)).ioTasks) →
    state.shared.m_ioQueue.length + Counting.total PoolThread.ioTasks state.thread <
      PoolShared.ioCapacity + size.m_ioWorkerCount

namespace PoolState

variable {state next : PoolState size}

/-- A call adds what it has to push, and later steps add no more. -/
theorem HasRoom.step {mover : ThreadId size} {choice : PoolChoice size}
    {frame : PoolFrame size} {frames rest : List (PoolFrame size)} {after : Option PoolTask}
    (room : state.HasRoom) (roomy : Roomy state (mover, choice))
    (moves : state.Moves next mover choice frame frames rest after) : next.HasRoom := by
  intro busy
  have before : (state.thread mover).ioTasks =
      frame.ioTasks + (rest.map PoolFrame.ioTasks).sum := by
    rw [PoolThread.ioTasks, moves.isStack, List.map_cons, List.sum_cons]
  have moved : PoolThread.ioTasks ⟨frames ++ rest, after⟩ =
      (frames.map PoolFrame.ioTasks).sum + (rest.map PoolFrame.ioTasks).sum := by
    rw [PoolThread.ioTasks, List.map_append, List.sum_append]
  have summed := Counting.total_update PoolThread.ioTasks state.thread mover ⟨frames ++ rest, after⟩
  obtain ⟨together, alone⟩ := moves.move.ioTasks
  have wasBusy (worker : Fin size.m_ioWorkerCount) :
      0 < (state.thread (.io worker)).ioTasks ∨ mover = .io worker ∧ 0 < choice.ioRequests := by
    have isBusy := busy worker
    by_cases isMover : ThreadId.io worker = mover
    · subst isMover
      rw [moves.moved, Function.update_self] at isBusy
      by_cases requests : 0 < choice.ioRequests
      · exact .inr ⟨rfl, requests⟩
      · left
        omega
    · rw [moves.other isMover] at isBusy
      exact .inl isBusy
  have limited : state.shared.m_ioQueue.length + Counting.total PoolThread.ioTasks state.thread +
      choice.ioRequests < PoolShared.ioCapacity + size.m_ioWorkerCount := by
    cases choice with
    | submit kind requests => exact roomy wasBusy
    | _ => exact room fun worker => (wasBusy worker).resolve_right fun adds => by cases adds.2
  rw [moves.moved]
  omega

theorem HasRoom.not_blocked (room : state.HasRoom) : ¬ state.IoBlocked := by
  rintro ⟨full, blocked⟩
  have busy (worker : Fin size.m_ioWorkerCount) : 0 < (state.thread (.io worker)).ioTasks := by
    have pushing := blocked worker
    cases isStack : (state.thread (.io worker)).stack with
    | nil =>
        rw [isStack] at pushing
        cases pushing
    | cons frame rest =>
        rw [isStack] at pushing
        rw [PoolThread.ioTasks, isStack, List.map_cons, List.sum_cons]
        cases frame with
        | submitting kind todo owed =>
            cases todo with
            | nil => cases pushing
            | cons task todo =>
                have isIo : task.request.isIo = true := pushing
                simp [PoolFrame.ioTasks, isIo]
        | _ => cases pushing
  have counted : size.m_ioWorkerCount ≤ Counting.total PoolThread.ioTasks state.thread := by
    have injective : Function.Injective (@ThreadId.io size) := fun _ _ same => by
      cases same
      rfl
    calc size.m_ioWorkerCount = ∑ _worker : Fin size.m_ioWorkerCount, 1 := by simp
      _ ≤ ∑ worker, (state.thread (.io worker)).ioTasks :=
          Finset.sum_le_sum fun worker _ => busy worker
      _ = ∑ self ∈ Finset.univ.map ⟨_, injective⟩, (state.thread self).ioTasks := by
          rw [Finset.sum_map]
          rfl
      _ ≤ Counting.total PoolThread.ioTasks state.thread :=
          Finset.sum_le_univ_sum_of_nonneg fun _ => Nat.zero_le _
  have limited := room busy
  omega

end PoolState

/-- As long as the calls that hand over IO tasks leave room, the IO workers do not block each
other. -/
theorem io_not_blocked {state : PoolState size}
    (reachable : (poolMachine size).ReachableBy Roomy state) : ¬ state.IoBlocked := by
  refine PoolState.HasRoom.not_blocked ?_
  refine reachable.invariant (fun state initial => ?_)
    fun state action next room roomy stepped => ?_
  · obtain rfl := initial
    intro busy
    have none : Counting.total PoolThread.ioTasks (PoolState.initial size).thread = 0 :=
      Counting.total_eq_zero.mpr fun self => by cases self <;> rfl
    rw [none]
    exact Nat.lt_of_lt_of_le (Nat.two_pow_pos _) (Nat.le_add_right ..)
  · obtain ⟨mover, choice⟩ := action
    obtain ⟨frame, frames, rest, after, moves⟩ := PoolState.Moves.of_step stepped
    exact room.step roomy moves

/-! ## One IO task with many IO successors -/

section Small

/-- The IO worker begins to execute an IO task. -/
def beginIoRun : List (ThreadId smallPool × PoolChoice smallPool) :=
  [(.external 0, .submit .schedule [{ domain := .io }])] ++ goes 5 (.external 0) ++
    goes 2 (.io 0)

/-- The end of the task unblocks IO successors. -/
def unblockIo (successors : Nat) : PoolChoice smallPool :=
  .submit .unblock (List.replicate successors { domain := .io })

theorem io_not_blocked_few : ∃ state : PoolState smallPool,
    (state.thread (.io 0)).stack.head?.any PoolFrame.pushesIo = true ∧ ¬ state.IoBlocked := by
  obtain ⟨state, reachable, pushes⟩ : ∃ state,
      (poolMachine smallPool).ReachableBy Roomy state ∧
        (state.thread (.io 0)).stack.head?.any PoolFrame.pushesIo = true :=
    Machine.ReachableBy.exists_of_run (.start rfl) (beginIoRun ++ [(.io 0, unblockIo 3)])
      (by decide +kernel)
  exact ⟨state, pushes, io_not_blocked reachable⟩

/-- The worker and the external thread have not begun, and the IO worker is in a call. -/
def inIoCall (shared : PoolShared smallPool) (stack : List (PoolFrame smallPool)) :
    PoolState smallPool where
  shared
  thread
    | .worker _ => { stack := [.checking] }
    | .io _ => { stack }
    | .external _ => { stack := [.body none] }

theorem inIoCall_step {shared next : PoolShared smallPool} {frame : PoolFrame smallPool}
    {frames rest : List (PoolFrame smallPool)} {choice : PoolChoice smallPool}
    (reachable : (poolMachine smallPool).Reachable (inIoCall shared (frame :: rest)))
    (fired : ∀ joined, frame.fire shared (.io 0) none (PoolState.inlines rest) joined choice =
      some { shared := next, frames, t_nextInlineTask := none }) :
    (poolMachine smallPool).Reachable (inIoCall next (frames ++ rest)) := by
  suffices stepped : (poolMachine smallPool).step (inIoCall shared (frame :: rest))
      (.io 0, choice) = some (inIoCall next (frames ++ rest)) from
    .step reachable trivial stepped
  simp only [poolMachine, PoolState.step, inIoCall]
  rw [fired, Option.map_some]
  congr 2
  funext self
  cases self with
  | io worker =>
      obtain rfl := Subsingleton.elim worker 0
      rw [Function.update_self]
  | worker | external => rfl

/-- So many tasks are in the IO queue, and no IO worker is blocked. -/
structure IoQueued (shared : PoolShared smallPool) (tasks : Nat) : Prop where
  queue : shared.m_ioQueue.length = tasks
  parked : ∀ worker, shared.ioParked worker = false

theorem ioCapacity_eq : PoolShared.ioCapacity = 1024 := by
  rw [PoolShared.ioCapacity, queueCapacity, show max 1024 16 = 2 ^ 10 from rfl,
    Nat.clog_pow 2 10 (by decide)]
  rfl

/-- The task that the IO worker executes hands over IO tasks. -/
theorem inIoCall_unblock {shared : PoolShared smallPool} {task : Option PoolTask}
    {rest : List (PoolFrame smallPool)} {count : Nat} (queued : IoQueued shared count)
    (successors : Nat)
    (reachable : (poolMachine smallPool).Reachable (inIoCall shared (.body task :: rest))) :
    ∃ next tasks numbers, (poolMachine smallPool).Reachable
        (inIoCall next
          (.submitting .unblock tasks [] :: .returning numbers :: .body task :: rest)) ∧
      IoQueued next count ∧ tasks.length = successors ∧
        ∀ task ∈ tasks, task.request.isIo = true := by
  refine ⟨_, _, _, @inIoCall_step shared _ _ _ _ (unblockIo successors) reachable fun joined => rfl,
    ⟨queued.queue, queued.parked⟩, by simp, fun task member => ?_⟩
  obtain ⟨index, inRange, rfl⟩ := List.mem_mapIdx.mp member
  simp [TaskRequest.isIo]

/-- `schedule` of an IO task, while there is room. -/
theorem inIoCall_push {shared : PoolShared smallPool} {task : PoolTask} {todo : List PoolTask}
    {rest : List (PoolFrame smallPool)} {tasks : Nat} (queued : IoQueued shared tasks)
    (isIo : task.request.isIo = true) (room : tasks < 1024)
    (reachable : (poolMachine smallPool).Reachable
      (inIoCall shared (.submitting .unblock (task :: todo) [] :: rest))) :
    ∃ next, (poolMachine smallPool).Reachable
        (inIoCall next (.submitting .unblock todo [] :: rest)) ∧ IoQueued next (tasks + 1) := by
  have isIo : task.request.domain = .io := of_decide_eq_true isIo
  have pushed := @inIoCall_step shared { shared with m_ioQueue := shared.m_ioQueue ++ [task] } _
    [.ioBumping, .ioWaking, .submitting .unblock todo []] _ (.go 0 false none none) reachable
    fun joined => by
      simp [PoolFrame.fire, PoolFrame.submit, isIo, PoolShared.tryEnqueueIo, queued.queue, room,
        ioCapacity_eq]
  have bumped := @inIoCall_step _
    { shared with
      m_ioQueue := shared.m_ioQueue ++ [task]
      m_ioWakeSignal := u32 (shared.m_ioWakeSignal + 1) } _ [] _ (.go 0 false none none) pushed
    fun joined => rfl
  have woken := @inIoCall_step _
    { shared with
      m_ioQueue := shared.m_ioQueue ++ [task]
      m_ioWakeSignal := u32 (shared.m_ioWakeSignal + 1) } _ [] _ (.go 0 false none none) bumped
    fun joined => by simp [PoolFrame.fire, PoolShared.notifyOneIo, queued.parked]
  exact ⟨_, woken, by simp [queued.queue], queued.parked⟩

/-- The queue is filled. -/
theorem inIoCall_fill {rest : List (PoolFrame smallPool)} (todo left : List PoolTask)
    (allIo : ∀ task ∈ todo, task.request.isIo = true) {shared : PoolShared smallPool} {tasks : Nat}
    (queued : IoQueued shared tasks) (room : tasks + todo.length ≤ 1024)
    (reachable : (poolMachine smallPool).Reachable
      (inIoCall shared (.submitting .unblock (todo ++ left) [] :: rest))) :
    ∃ next, (poolMachine smallPool).Reachable
        (inIoCall next (.submitting .unblock left [] :: rest)) ∧
      IoQueued next (tasks + todo.length) := by
  induction todo generalizing shared tasks with
  | nil => exact ⟨shared, reachable, queued⟩
  | cons task todo ih =>
      rw [List.length_cons] at room
      obtain ⟨next, pushed, grown⟩ := inIoCall_push queued (allIo task (List.mem_cons_self ..))
        (by omega) reachable
      obtain ⟨last, filled, full⟩ := ih
        (fun other member => allIo other (List.mem_cons_of_mem _ member))
        grown (by omega) pushed
      refine ⟨last, filled, ?_⟩
      rwa [List.length_cons, Nat.add_comm todo.length, ← Nat.add_assoc]

/-- An IO task with 1025 IO successors blocks the only IO worker. -/
theorem not_io_not_blocked : ∃ state : PoolState smallPool,
    (poolMachine smallPool).Reachable state ∧ state.IoBlocked := by
  obtain ⟨state, executing, isIo, isWorker, isExternal, queue, parked⟩ : ∃ state,
      (poolMachine smallPool).Reachable state ∧
        state.thread (.io 0) =
          { stack := [.body (some { number := 0, request := { domain := .io } }), .ioChecking] } ∧
        state.thread (.worker 0) = { stack := [.checking] } ∧
        state.thread (.external 0) = { stack := [.body none] } ∧
        state.shared.m_ioQueue = [] ∧ ∀ worker, state.shared.ioParked worker = false :=
    Machine.ReachableBy.exists_of_run (.start rfl) beginIoRun (by decide +kernel)
  have inCall : state = inIoCall state.shared
      [.body (some { number := 0, request := { domain := .io } }), .ioChecking] := by
    refine congrArg (PoolState.mk state.shared) ?_
    funext self
    cases self with
    | worker worker =>
        obtain rfl := Subsingleton.elim worker 0
        exact isWorker
    | io worker =>
        obtain rfl := Subsingleton.elim worker 0
        exact isIo
    | external index =>
        obtain rfl := Subsingleton.elim index 0
        exact isExternal
  rw [inCall] at executing
  have queued : IoQueued state.shared 0 := ⟨by rw [queue]; rfl, parked⟩
  obtain ⟨shared, tasks, numbers, handing, queued, length, allIo⟩ :=
    inIoCall_unblock queued 1025 executing
  have split := List.take_append_drop 1024 tasks
  obtain ⟨last, isLast⟩ := List.length_eq_one_iff.mp
    (show (tasks.drop 1024).length = 1 by rw [List.length_drop, length])
  rw [← split] at handing
  have taken : (tasks.take 1024).length = 1024 := by rw [List.length_take, length]; rfl
  obtain ⟨full, filled, isFull⟩ := inIoCall_fill (tasks.take 1024) (tasks.drop 1024)
    (fun task member => allIo task (List.mem_of_mem_take member)) queued (by omega) handing
  refine ⟨_, filled, ?_, fun worker => ?_⟩
  · show _ ≤ full.m_ioQueue.length
    rw [isFull.queue, taken, ioCapacity_eq]
  · have remaining : last ∈ tasks.drop 1024 := by rw [isLast]; exact List.mem_singleton_self _
    have lastIo := allIo last (List.mem_of_mem_drop remaining)
    simp [inIoCall, isLast, PoolFrame.pushesIo, lastIo]

end Small

end LightFlow
