import LightFlow.Scheduler.MpmcOrder
import LightFlow.Scheduler.PoolStep
import LightFlow.Scheduler.SingleSteals

/-!
# The deques and queues of the pool

The pool performs each operation on a deque or queue in one step, on a list.  In the code an
operation is a sequence of accesses, of which one decides: the pool can follow every interleaving of
them, one operation for each call that has decided, in the order of these accesses and with the same
results.
-/

namespace LightFlow

variable {size : PoolSize}

namespace PoolShared

variable {own next : PoolShared size} {worker : Fin size.m_workerCount} {priority : TaskPriority}

/-! ## Deques -/

theorem setDeque_setDeque (own : PoolShared size) (worker : Fin size.m_workerCount)
    (priority : TaskPriority) (older newer : List PoolTask) :
    (own.setDeque worker priority older).setDeque worker priority newer =
      own.setDeque worker priority newer := by
  simp [setDeque]

theorem setDeque_eq (own : PoolShared size) (worker : Fin size.m_workerCount)
    (priority : TaskPriority) : own.setDeque worker priority (own.deque worker priority) = own := by
  simp [setDeque]

/-- Perform the operation of an event of a deque, if it has the same result.  Batch steals are not
followed one task at a time. -/
def follow (worker : Fin size.m_workerCount) (priority : TaskPriority) (own : PoolShared size) :
    DequeEvent PoolTask → Option (PoolShared size)
  | .pushed task => some (own.pushBottom worker priority task)
  | .popped _ task =>
      (own.popBottom worker priority false).bind fun (popped, next) =>
        if task = some popped then some next else none
  | .stolen _ task =>
      if task.isSome ∧ task = (own.deque worker priority).head? then
        some (own.takeTop worker priority 1)
      else none
  | .copied _ _ => none

/-- Perform the operations of a history, the newest event first. -/
def followAll (worker : Fin size.m_workerCount) (priority : TaskPriority) (own : PoolShared size) :
    List (DequeEvent PoolTask) → Option (PoolShared size)
  | [] => some own
  | event :: older => (own.followAll worker priority older).bind (·.follow worker priority event)

/-- The pool can follow the history of a double-ended queue. -/
theorem exists_followAll {log : List (DequeEvent PoolTask)} {tasks : List (Option PoolTask)}
    (plays : Plays log tasks) (empty : own.deque worker priority = []) :
    ∃ left : List PoolTask, left.map some = tasks ∧
      own.followAll worker priority log = some (own.setDeque worker priority left) := by
  induction plays with
  | start =>
      refine ⟨[], rfl, ?_⟩
      rw [followAll, ← empty, setDeque_eq]
  | @pushed log tasks task plays ih =>
      obtain ⟨left, rfl, followed⟩ := ih
      refine ⟨left ++ [task], List.map_append, ?_⟩
      simp [followAll, followed, follow, pushBottom, setDeque_setDeque]
  | @popped log tasks task index plays ih =>
      obtain ⟨left, isLeft, followed⟩ := ih
      obtain ⟨before, last, rfl, rfl, isLast⟩ := List.map_eq_append_iff.mp isLeft
      obtain ⟨newest, rest, rfl, rfl, isRest⟩ := List.map_eq_cons_iff.mp isLast
      obtain rfl := List.map_eq_nil_iff.mp isRest
      refine ⟨before, rfl, ?_⟩
      simp [followAll, followed, follow, popBottom, setDeque_setDeque]
  | @stolen log tasks task index plays ih =>
      obtain ⟨left, isLeft, followed⟩ := ih
      obtain ⟨oldest, rest, rfl, rfl, rfl⟩ := List.map_eq_cons_iff.mp isLeft
      refine ⟨rest, rfl, ?_⟩
      simp [followAll, followed, follow, takeTop, setDeque_setDeque]

end PoolShared

/-- In every interleaving of an owner with thieves that steal single tasks, the pool can perform
what the calls have decided, with the same results, and then has in its list what is in the
deque. -/
theorem deque_refines_pool {thieves : Nat}
    {state : Program.State (DequeShared PoolTask) (ThiefCall PoolTask) thieves}
    (reachable : (dequeMachine PoolTask thieves).ReachableBy singleSteals state)
    (own : PoolShared size) {worker : Fin size.m_workerCount} {priority : TaskPriority}
    (empty : own.deque worker priority = []) :
    ∃ left : List PoolTask,
      left.map some = state.shared.contents ++ state.shared.owner.hands state.shared ∧
        own.followAll worker priority state.shared.log =
          some (own.setDeque worker priority left) :=
  PoolShared.exists_followAll (singleLaw_of_reachable reachable).plays empty

/-! ## Queues -/

universe u

variable {Task : Type u} {cells : MpmcSize}

/-- The position that the call has claimed for its task. -/
def MpmcCall.stores : MpmcCall Task → Option (Nat × Task)
  | .storing task pos | .publishing task pos => some (pos, task)
  | _ => none

/-- The tasks for which positions were claimed, in the order of the positions. -/
structure Claims (shared : MpmcShared Task) (pool : Multiset (MpmcCall Task)) (all : List Task) :
    Prop where
  length : all.length = shared.queue.m_enqueuePos
  stored : ∀ pos task, .enqueued pos task ∈ shared.log → all[pos]? = some task
  storing : ∀ call ∈ pool, ∀ claim ∈ call.stores, all[claim.1]? = some claim.2

namespace Claims

variable {shared next : MpmcShared Task} {here moved : MpmcCall Task}
  {rest : Multiset (MpmcCall Task)} {all : List Task}

/-- A step that claims no position for a task, and publishes none. -/
theorem silent (claims : Claims shared (here ::ₘ rest) all)
    (samePos : next.queue.m_enqueuePos = shared.queue.m_enqueuePos)
    (sameLog : ∀ pos task, .enqueued pos task ∈ next.log → .enqueued pos task ∈ shared.log)
    (stores : ∀ claim ∈ moved.stores, claim ∈ here.stores) :
    Claims next (moved ::ₘ rest) all where
  length := claims.length.trans samePos.symm
  stored := fun pos task member => claims.stored pos task (sameLog pos task member)
  storing := fun call member claim isClaim => by
    rcases Multiset.mem_cons.mp member with rfl | member
    · exact claims.storing here (Multiset.mem_cons_self _ _) claim (stores claim isClaim)
    · exact claims.storing call (Multiset.mem_cons_of_mem member) claim isClaim

/-- `tryEnqueue` claims the next position. -/
theorem enqueue (claims : Claims shared (here ::ₘ rest) all) (task : Task)
    (nextPos : next.queue.m_enqueuePos = shared.queue.m_enqueuePos + 1)
    (sameLog : next.log = shared.log) :
    Claims next (.storing task shared.queue.m_enqueuePos ::ₘ rest) (all ++ [task]) := by
  have kept {pos : Nat} {other : Task} (found : all[pos]? = some other) :
      (all ++ [task])[pos]? = some other := by
    rw [List.getElem?_append_left (List.getElem?_eq_some_iff.mp found).1]
    exact found
  refine ⟨?_, fun pos other member => ?_, fun call member claim isClaim => ?_⟩
  · rw [List.length_append, claims.length, nextPos, List.length_singleton]
  · exact kept (claims.stored pos other (sameLog ▸ member))
  · rcases Multiset.mem_cons.mp member with rfl | member
    · cases isClaim
      rw [← claims.length]
      exact List.getElem?_concat_length
    · exact kept (claims.storing call (Multiset.mem_cons_of_mem member) claim isClaim)

/-- `tryEnqueue` publishes the cell. -/
theorem publish {task : Task} {pos : Nat}
    (claims : Claims shared (.publishing task pos ::ₘ rest) all)
    (samePos : next.queue.m_enqueuePos = shared.queue.m_enqueuePos)
    (newLog : next.log = .enqueued pos task :: shared.log) : Claims next (.idle ::ₘ rest) all where
  length := claims.length.trans samePos.symm
  stored := fun other stored member => by
    rw [newLog] at member
    rcases List.mem_cons.mp member with isNew | member
    · cases isNew
      exact claims.storing _ (Multiset.mem_cons_self _ _) (pos, task) rfl
    · exact claims.stored other stored member
  storing := fun call member claim isClaim => by
    rcases Multiset.mem_cons.mp member with rfl | member
    · cases isClaim
    · exact claims.storing call (Multiset.mem_cons_of_mem member) claim isClaim

end Claims

namespace PoolShared

variable {own next after : PoolShared size} {priority : TaskPriority}

/-- Operations on a global queue, with the tasks that they stored and took. -/
inductive QueueRuns (priority : TaskPriority) (own : PoolShared size) :
    List PoolTask → List PoolTask → PoolShared size → Prop
  | start : QueueRuns priority own [] [] own
  | enqueue {stored taken : List PoolTask} {task : PoolTask} {next after : PoolShared size}
      (runs : QueueRuns priority own stored taken next)
      (enqueued : next.tryEnqueue task false = some after)
      (isHere : task.request.priority = priority) :
      QueueRuns priority own (stored ++ [task]) taken after
  | dequeue {stored taken : List PoolTask} {task : PoolTask} {next after : PoolShared size}
      (runs : QueueRuns priority own stored taken next)
      (dequeued : next.tryDequeue priority false = some (task, after)) :
      QueueRuns priority own stored (taken ++ [task]) after

theorem tryEnqueue_setGlobal (own : PoolShared size) {queue : List PoolTask} {task : PoolTask}
    (isHere : task.request.priority = priority)
    (room : queue.length < globalCapacity size priority) :
    (own.setGlobal priority queue).tryEnqueue task false =
      some (own.setGlobal priority (queue ++ [task])) := by
  subst isHere
  simp [tryEnqueue, setGlobal, room]

theorem tryDequeue_setGlobal (own : PoolShared size) (task : PoolTask) (rest : List PoolTask) :
    (own.setGlobal priority (task :: rest)).tryDequeue priority false =
      some (task, own.setGlobal priority rest) := by
  simp [tryDequeue, setGlobal]

theorem setGlobal_eq (own : PoolShared size) (priority : TaskPriority) :
    own.setGlobal priority (own.global priority) = own := by
  simp [setGlobal]

end PoolShared

/-- Tasks of a priority. -/
abbrev TasksOf (priority : TaskPriority) : Type :=
  { task : PoolTask // task.request.priority = priority }

/-- The pool has followed the calls that claimed a position: it stored all tasks in order, and took
those before `m_dequeuePos`. -/
def Followed (own : PoolShared size) {priority : TaskPriority} (all : List (TasksOf priority))
    (m_dequeuePos : Nat) : Prop :=
  own.QueueRuns priority (all.map (·.1)) ((all.take m_dequeuePos).map (·.1))
    (own.setGlobal priority ((all.drop m_dequeuePos).map (·.1)))

namespace Followed

variable {own : PoolShared size} {priority : TaskPriority} {all : List (TasksOf priority)}
  {m_dequeuePos : Nat}

theorem enqueue (followed : Followed own all m_dequeuePos) (task : TasksOf priority)
    (ordered : m_dequeuePos ≤ all.length)
    (room : all.length < m_dequeuePos + PoolShared.globalCapacity size priority) :
    Followed own (all ++ [task]) m_dequeuePos := by
  rw [Followed, List.map_append, List.take_append_of_le_length ordered,
    List.drop_append_of_le_length ordered, List.map_append]
  refine PoolShared.QueueRuns.enqueue followed (own.tryEnqueue_setGlobal task.2 ?_) task.2
  rw [List.length_map, List.length_drop]
  omega

theorem dequeue (followed : Followed own all m_dequeuePos) (more : m_dequeuePos < all.length) :
    Followed own all (m_dequeuePos + 1) := by
  rw [Followed, List.take_succ_eq_append_getElem more, List.map_append]
  refine PoolShared.QueueRuns.dequeue followed ?_
  rw [List.drop_eq_getElem_cons more]
  exact own.tryDequeue_setGlobal _ _

end Followed

/-- The pool has followed the calls so far. -/
def QueueLaw (own : PoolShared size) (cells : MpmcSize) {priority : TaskPriority}
    (shared : MpmcShared (TasksOf priority)) (pool : Multiset (MpmcCall (TasksOf priority))) :
    Prop :=
  MpmcLaw cells shared pool ∧ ∃ all, Claims shared pool all ∧
    Followed own all shared.queue.m_dequeuePos

namespace QueueLaw

variable {own : PoolShared size} {priority : TaskPriority}
  {shared next : MpmcShared (TasksOf priority)}
  {here moved : MpmcCall (TasksOf priority)} {rest : Multiset (MpmcCall (TasksOf priority))}

/-- A step that moves neither position and publishes nothing. -/
theorem silent (law : QueueLaw own cells shared (here ::ₘ rest))
    (after : MpmcLaw cells next (moved ::ₘ rest))
    (sameEnqueue : next.queue.m_enqueuePos = shared.queue.m_enqueuePos)
    (sameDequeue : next.queue.m_dequeuePos = shared.queue.m_dequeuePos)
    (sameLog : ∀ pos task, .enqueued pos task ∈ next.log → .enqueued pos task ∈ shared.log)
    (stores : ∀ claim ∈ moved.stores, claim ∈ here.stores) :
    QueueLaw own cells next (moved ::ₘ rest) := by
  obtain ⟨-, all, claims, followed⟩ := law
  exact ⟨after, all, claims.silent sameEnqueue sameLog stores, sameDequeue ▸ followed⟩

/-- An event that publishes nothing. -/
theorem enqueued_of_cons {event : MpmcEvent (TasksOf priority)}
    {older : List (MpmcEvent (TasksOf priority))} {pos : Nat} {task : TasksOf priority}
    (isOther : event ≠ .enqueued pos task) (member : .enqueued pos task ∈ event :: older) :
    .enqueued pos task ∈ older :=
  (List.mem_cons.mp member).resolve_left isOther.symm

/-- The positions of a full lap are not claimed again before they are released. -/
theorem room (mpmc : MpmcLaw cells shared (here ::ₘ rest)) {task : TasksOf priority} {pos : Nat}
    (isHere : here = .enqueueExchanging task pos) :
    pos < shared.queue.m_dequeuePos + cells.m_capacity := by
  by_cases later : cells.m_capacity ≤ pos
  · have knows := mpmc.knows here (Multiset.mem_cons_self _ _)
    rw [isHere] at knows
    have released := mpmc.lt_of_released (knows later)
    omega
  · omega

/-- What one access does. -/
theorem go (sameCapacity : cells.m_capacity = PoolShared.globalCapacity size priority)
    (law : QueueLaw own cells shared (here ::ₘ rest)) (spurious : Bool) :
    QueueLaw own cells (here.go cells shared spurious).1
      ((here.go cells shared spurious).2 ::ₘ rest) := by
  obtain ⟨mpmc, all, claims, followed⟩ := id law
  have after := mpmc.go spurious
  cases here with
  | enqueueChecking task pos =>
      simp only [MpmcCall.go] at after ⊢
      split
      next same =>
        rw [if_pos same] at after
        exact law.silent after rfl rfl (fun _ _ => id) fun _ => id
      next other =>
        rw [if_neg other] at after
        split
        next less =>
          rw [if_pos less] at after
          exact law.silent after rfl rfl (fun _ _ => enqueued_of_cons (by simp)) fun _ => id
        next notLess =>
          rw [if_neg notLess] at after
          exact law.silent after rfl rfl (fun _ _ => id) fun _ => id
  | enqueueExchanging task pos =>
      simp only [MpmcCall.go] at after ⊢
      split
      next isPos =>
        rw [if_pos isPos] at after
        obtain ⟨rfl, -⟩ := isPos
        have fits := mpmc.enqueuePos_lt
        have nextPos : u64 (shared.queue.m_enqueuePos + 1) = shared.queue.m_enqueuePos + 1 :=
          u64_of_lt (by omega)
        have ordered := mpmc.ordered
        have length := claims.length
        have inLap := room mpmc rfl
        refine ⟨after, all ++ [task], claims.enqueue task nextPos rfl, ?_⟩
        exact followed.enqueue task (by omega) (by omega)
      next notPos =>
        rw [if_neg notPos] at after
        exact law.silent after rfl rfl (fun _ _ => id) fun _ => id
  | publishing task pos =>
      exact ⟨after, all, claims.publish rfl rfl, followed⟩
  | dequeueChecking pos =>
      simp only [MpmcCall.go] at after ⊢
      split
      next same =>
        rw [if_pos same] at after
        exact law.silent after rfl rfl (fun _ _ => id) fun _ => id
      next other =>
        rw [if_neg other] at after
        split
        next less =>
          rw [if_pos less] at after
          exact law.silent after rfl rfl (fun _ _ => enqueued_of_cons (by simp)) fun _ => id
        next notLess =>
          rw [if_neg notLess] at after
          exact law.silent after rfl rfl (fun _ _ => id) fun _ => id
  | dequeueExchanging pos =>
      simp only [MpmcCall.go] at after ⊢
      split
      next isPos =>
        rw [if_pos isPos] at after
        obtain ⟨rfl, -⟩ := isPos
        have fits := mpmc.dequeuePos_lt
        have nextPos : u64 (shared.queue.m_dequeuePos + 1) = shared.queue.m_dequeuePos + 1 :=
          u64_of_lt (by omega)
        have published := mpmc.lt_of_published (mpmc.knows _ (Multiset.mem_cons_self _ _))
        refine ⟨after, all, claims.silent rfl (fun _ _ => id) fun _ isClaim => isClaim, ?_⟩
        rw [nextPos]
        exact followed.dequeue (claims.length ▸ published)
      next notPos =>
        rw [if_neg notPos] at after
        exact law.silent after rfl rfl (fun _ _ => id) fun _ => id
  | releasing pos taken =>
      exact law.silent after rfl rfl (fun _ _ => enqueued_of_cons (by simp)) fun _ => id
  | idle | enqueueLoading | storing | dequeueLoading | taking | clearing =>
      exact law.silent after rfl rfl (fun _ _ => id) fun _ => id

/-- What one step of a thread does. -/
theorem fire (sameCapacity : cells.m_capacity = PoolShared.globalCapacity size priority)
    (law : QueueLaw own cells shared (here ::ₘ rest)) {choice : MpmcChoice (TasksOf priority)}
    (few : FewCalls shared choice)
    (fired : here.fire cells shared choice = some (next, moved)) :
    QueueLaw own cells next (moved ::ₘ rest) := by
  have began (after : MpmcLaw cells (shared.record .called) (moved ::ₘ rest))
      (noStore : moved.stores = none) :
      QueueLaw own cells (shared.record .called) (moved ::ₘ rest) := by
    refine law.silent after rfl rfl (fun _ _ => enqueued_of_cons (by simp)) fun claim isClaim => ?_
    rw [noStore] at isClaim
    cases isClaim
  have after := law.1.fire few fired
  cases choice with
  | go spurious =>
      have went : here.go cells shared spurious = (next, moved) := by
        cases here with
        | idle => cases fired
        | _ => exact Option.some.inj fired
      have kept := law.go sameCapacity spurious
      rwa [went] at kept
  | tryEnqueue task =>
      cases here <;> cases fired
      exact began after rfl
  | tryDequeue =>
      cases here <;> cases fired
      exact began after rfl

end QueueLaw

/-- In every interleaving of fewer than 2^63 calls on a queue, the pool can store and take the tasks
one after the other, in the order in which the calls claimed their positions, and then has in its
list what is to be taken.  What a call returns is the task of its position. -/
theorem queue_refines_pool {threads : Nat} {priority : TaskPriority}
    (sameCapacity : cells.m_capacity = PoolShared.globalCapacity size priority)
    {state : Program.State (MpmcShared (TasksOf priority)) (MpmcCall (TasksOf priority)) threads}
    (reachable : (mpmcMachine (TasksOf priority) cells threads).ReachableBy fewCalls state)
    (own : PoolShared size) (empty : own.global priority = []) :
    ∃ all : List (TasksOf priority),
      Followed own all state.shared.queue.m_dequeuePos ∧
        (∀ pos task, .enqueued pos task ∈ state.shared.log → all[pos]? = some task) ∧
          ∀ pos taken, .dequeued pos taken ∈ state.shared.log → taken = all[pos]? := by
  have law : QueueLaw own cells state.shared state.pool := by
    refine Program.invariant (motive := QueueLaw own cells) ?_ ?_ ?_ reachable
    · intro shared pool fresh idle
      obtain ⟨isNew, noLog⟩ := id fresh
      refine ⟨.initial fresh idle, [], ⟨?_, fun pos task member => ?_, fun call member => ?_⟩, ?_⟩
      · rw [isNew]
        rfl
      · rw [noLog] at member
        cases member
      · rw [idle call member]
        rintro claim ⟨⟩
      · have unchanged : own.setGlobal priority [] = own := empty ▸ own.setGlobal_eq priority
        rw [Followed, isNew]
        exact unchanged.symm ▸ .start
    · exact fun shared pool action => action.elim
    · exact fun shared here rest choice next moved law few fired => law.fire sameCapacity few fired
  obtain ⟨mpmc, all, claims, followed⟩ := law
  refine ⟨all, followed, claims.stored, fun pos taken member => ?_⟩
  obtain ⟨task, rfl, stored⟩ := mpmc.taken pos taken member
  exact (claims.stored pos task stored).symm

end LightFlow
