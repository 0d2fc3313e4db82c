import LightFlow.Scheduler.ChaseLevDeque

/-!
# Deques are lists

Used by one thread at a time, a deque whose bottom index has not wrapped is the list of the tasks
in the cells from `m_top` to `m_bottom`.
-/

namespace LightFlow

namespace RingBuffer

variable {Task : Type} {buffer : RingBuffer Task}

/-- The number of cells is a power of two, so that the mask is a remainder. -/
def Sized (buffer : RingBuffer Task) : Prop := ∃ bits, buffer.m_capacity = 2 ^ bits

theorem Sized.mask (sized : buffer.Sized) (index : Nat) :
    index &&& buffer.m_mask = index % buffer.m_capacity := by
  obtain ⟨bits, capacity⟩ := sized
  rw [m_mask, capacity, Nat.and_two_pow_sub_one_eq_mod]

theorem Sized.positive (sized : buffer.Sized) : 0 < buffer.m_capacity := by
  obtain ⟨bits, capacity⟩ := sized
  rw [capacity]
  exact Nat.two_pow_pos bits

@[simp] theorem store_capacity (index : Nat) (task : Option Task) :
    (buffer.store index task).m_capacity = buffer.m_capacity := rfl

theorem load_store_self (index : Nat) (task : Option Task) :
    (buffer.store index task).load index = task :=
  Function.update_self ..

/-- Indices that are less than one lap apart have different cells. -/
theorem Sized.load_store_of_near (sized : buffer.Sized) {stored index : Nat}
    (task : Option Task) (before : index < stored) (near : stored - index < buffer.m_capacity) :
    (buffer.store stored task).load index = buffer.load index := by
  refine Function.update_of_ne (fun same => ?_) _ _
  change index &&& buffer.m_mask = stored &&& buffer.m_mask at same
  rw [sized.mask, sized.mask] at same
  have lap := Nat.sub_mod_eq_zero_of_mod_eq same.symm
  rw [Nat.mod_eq_of_lt near] at lap
  omega

/-- The loop of `grow`. -/
theorem Sized.copy {source : RingBuffer Task} (sized : buffer.Sized) {top : Nat} (count : Nat)
    (bound : top + count < 2 ^ 32) (fits : count ≤ buffer.m_capacity) :
    let copied := (List.range count).foldl
      (fun newBuf i => newBuf.store (u32 (top + i)) (source.load (u32 (top + i)))) buffer
    copied.m_capacity = buffer.m_capacity ∧
      ∀ index, top ≤ index → index < top + count → copied.load index = source.load index := by
  induction count with
  | zero => exact ⟨rfl, fun index after before => by omega⟩
  | succ count ih =>
      obtain ⟨capacity, loads⟩ := ih (by omega) (by omega)
      simp only [List.range_succ, List.foldl_append, List.foldl_cons, List.foldl_nil]
      generalize (List.range count).foldl _ _ = copied at capacity loads
      rw [u32_of_lt (by omega)]
      refine ⟨capacity, fun index after before => ?_⟩
      rcases Nat.lt_or_ge index (top + count) with earlier | last
      · have copiedSized : copied.Sized := sized.imp fun bits same => capacity.trans same
        rw [copiedSized.load_store_of_near _ earlier (by omega), loads index after earlier]
      · obtain rfl : index = top + count := by omega
        exact load_store_self _ _

/-- Growing keeps the tasks between top and bottom. -/
theorem Sized.grow (sized : buffer.Sized) {top bottom : Nat} (bound : bottom < 2 ^ 32)
    (fits : bottom - top ≤ buffer.m_capacity) (some : top < bottom) :
    (buffer.grow top bottom).m_capacity = buffer.m_capacity * 2 ∧
      ∀ index, top ≤ index → index < bottom →
        (buffer.grow top bottom).load index = buffer.load index := by
  have doubled : ({ m_capacity := buffer.m_capacity * 2 } : RingBuffer Task).Sized := by
    obtain ⟨bits, capacity⟩ := sized
    exact ⟨bits + 1, by rw [capacity, Nat.pow_succ]⟩
  obtain ⟨capacity, loads⟩ := @Sized.copy Task _ buffer doubled top (bottom - top) (by omega)
    (by
      change _ ≤ buffer.m_capacity * 2
      omega)
  simp only [RingBuffer.grow, if_pos some, u32Sub_of_le some.le]
  exact ⟨capacity, fun index after before => loads index after (by omega)⟩

end RingBuffer

/-- The tasks of a deque are those of a list, from top to bottom. -/
structure Represents {Task : Type} (deque : ChaseLevDeque Task) (list : List Task) : Prop where
  bottom : deque.m_bottom = deque.m_top + list.length
  bound : deque.m_bottom < 2 ^ 32
  sized : deque.m_buffer.Sized
  fits : list.length ≤ deque.m_buffer.m_capacity
  load : ∀ position, (bounded : position < list.length) →
    deque.m_buffer.load (deque.m_top + position) = some list[position]

namespace Represents

variable {Task : Type} {deque : ChaseLevDeque Task} {list : List Task}

theorem create (initialCapacity : Nat) :
    Represents (ChaseLevDeque.create initialCapacity) ([] : List Task) where
  bottom := rfl
  bound := Nat.two_pow_pos 32
  sized := ⟨_, rfl⟩
  fits := Nat.zero_le _
  load := nofun

theorem isEmpty_iff (represents : Represents deque list) :
    deque.m_bottom ≤ deque.m_top ↔ list = [] := by
  have bottom := represents.bottom
  rw [← List.length_eq_zero_iff]
  omega

/-- Where the buffer is full, growing makes room. -/
theorem grow (represents : Represents deque list) :
    Represents (deque.grow deque.m_bottom deque.m_top) list ∧
      list.length < (deque.grow deque.m_bottom deque.m_top).m_buffer.m_capacity ∧
      (deque.grow deque.m_bottom deque.m_top).m_top = deque.m_top ∧
      (deque.grow deque.m_bottom deque.m_top).m_bottom = deque.m_bottom := by
  have bottom := represents.bottom
  have fits := represents.fits
  have positive := represents.sized.positive
  rw [ChaseLevDeque.grow]
  split
  next none => exact ⟨represents, by omega, rfl, rfl⟩
  next some =>
    obtain ⟨capacity, loads⟩ := represents.sized.grow represents.bound
      (by omega : deque.m_bottom - deque.m_top ≤ _) (by omega)
    refine ⟨⟨bottom, represents.bound, ?_, ?_, fun position bounded => ?_⟩, ?_, rfl, rfl⟩
    · obtain ⟨bits, same⟩ := represents.sized
      exact ⟨bits + 1, by rw [capacity, same, Nat.pow_succ]⟩
    · simp only [capacity]
      omega
    · change (deque.m_buffer.grow _ _).load (deque.m_top + position) = _
      rw [loads _ (by omega) (by omega)]
      exact represents.load position bounded
    · simp only [capacity]
      omega

/-- The check for a full buffer. -/
theorem makeRoom (represents : Represents deque list) :
    let roomy := if u32 deque.m_buffer.m_capacity ≤ u32Sub deque.m_bottom deque.m_top then
      deque.grow deque.m_bottom deque.m_top else deque
    Represents roomy list ∧ list.length < roomy.m_buffer.m_capacity ∧
      roomy.m_top = deque.m_top ∧ roomy.m_bottom = deque.m_bottom := by
  have bottom := represents.bottom
  have fits := represents.fits
  rw [u32Sub_of_le (by omega)]
  intro roomy
  by_cases full : u32 deque.m_buffer.m_capacity ≤ deque.m_bottom - deque.m_top
  · simp only [roomy, if_pos full]
    exact represents.grow
  · simp only [roomy, if_neg full]
    have less : u32 deque.m_buffer.m_capacity ≤ deque.m_buffer.m_capacity := Nat.mod_le _ _
    exact ⟨represents, by omega, trivial, trivial⟩

/-- What a push does to the cells, where the bottom index may wrap. -/
theorem pushed (represents : Represents deque list) (task : Task) :
    (deque.pushBottom (some task)).m_top = deque.m_top ∧
      (deque.pushBottom (some task)).m_bottom = u32 (deque.m_bottom + 1) ∧
      (deque.pushBottom (some task)).m_buffer.Sized ∧
      list.length < (deque.pushBottom (some task)).m_buffer.m_capacity ∧
      ∀ position, (bounded : position < (list ++ [task]).length) →
        (deque.pushBottom (some task)).m_buffer.load (deque.m_top + position) =
          some (list ++ [task])[position] := by
  have bottom := represents.bottom
  obtain ⟨roomy, few, top, sameBottom⟩ := represents.makeRoom
  simp only [ChaseLevDeque.pushBottom, if_neg (by omega : ¬ deque.m_bottom < deque.m_top)]
  generalize (if u32 deque.m_buffer.m_capacity ≤ u32Sub deque.m_bottom deque.m_top then
    deque.grow deque.m_bottom deque.m_top else deque) = grown at *
  refine ⟨top, trivial, roomy.sized, few, fun position bounded => ?_⟩
  simp only [List.length_append, List.length_singleton] at bounded
  rw [← top]
  rcases Nat.lt_or_ge position list.length with old | new
  · rw [roomy.sized.load_store_of_near _ (by omega) (by omega), roomy.load position old,
      List.getElem_append_left old]
  · obtain rfl : position = list.length := by omega
    have same : grown.m_top + list.length = deque.m_bottom := by omega
    rw [same, RingBuffer.load_store_self]
    simp

/-- A push appends a task at the bottom. -/
theorem pushBottom (represents : Represents deque list) (task : Task)
    (room : deque.m_bottom + 1 < 2 ^ 32) :
    Represents (deque.pushBottom (some task)) (list ++ [task]) ∧
      (deque.pushBottom (some task)).m_bottom = deque.m_bottom + 1 := by
  have bottom := represents.bottom
  obtain ⟨top, next, sized, few, loads⟩ := represents.pushed task
  rw [u32_of_lt room] at next
  refine ⟨⟨?_, ?_, sized, ?_, ?_⟩, next⟩
  · rw [next, top, List.length_append, List.length_singleton, bottom, Nat.add_assoc]
  · rwa [next]
  · rw [List.length_append, List.length_singleton]
    exact few
  · rw [top]
    exact loads

/-- A pop removes the task at the bottom. -/
theorem popBottom (represents : Represents deque list) :
    Represents deque.popBottom.1 list.dropLast ∧ deque.popBottom.2 = list.getLast? ∧
      deque.popBottom.1.m_bottom ≤ deque.m_bottom := by
  have bottom := represents.bottom
  have bound := represents.bound
  by_cases none : list = []
  · have isEmpty := represents.isEmpty_iff.mpr none
    subst none
    simp only [ChaseLevDeque.popBottom, if_pos isEmpty]
    exact ⟨represents, rfl, le_rfl⟩
  · have positive : 0 < list.length := List.length_pos_iff.mpr none
    have last := represents.load (list.length - 1) (by omega)
    have place : deque.m_top + (list.length - 1) = deque.m_bottom - 1 := by omega
    rw [place, ← List.getLast_eq_getElem none] at last
    have shorter (position : Nat) (bounded : position < list.dropLast.length) :
        deque.m_buffer.load (deque.m_top + position) = some list.dropLast[position] := by
      rw [List.length_dropLast] at bounded
      rw [represents.load position (by omega), List.getElem_dropLast]
    have fits := represents.fits
    simp only [ChaseLevDeque.popBottom, if_neg (by omega : ¬ deque.m_bottom ≤ deque.m_top),
      u32Sub_of_le (by omega : 1 ≤ deque.m_bottom),
      if_pos (by omega : deque.m_top ≤ deque.m_bottom - 1), last,
      List.getLast?_eq_some_getLast none]
    by_cases single : deque.m_top = deque.m_bottom - 1
    · have one : list.length = 1 := by omega
      have nothing : list.dropLast = [] := by
        rw [← List.length_eq_zero_iff, List.length_dropLast]
        omega
      simp only [if_pos single, ChaseLevDeque.exchangeTop, ↓reduceIte, nothing,
        u32_of_lt (by omega : deque.m_top + 1 < 2 ^ 32),
        u32_of_lt (by omega : deque.m_bottom - 1 + 1 < 2 ^ 32)]
      refine ⟨⟨?_, ?_, represents.sized, Nat.zero_le _, nofun⟩, trivial, ?_⟩
      · simp only [List.length_nil]
        omega
      · simp only
        omega
      · omega
    · simp only [if_neg single]
      refine ⟨⟨?_, ?_, represents.sized, ?_, shorter⟩, trivial, Nat.sub_le _ _⟩
      · simp only [List.length_dropLast]
        omega
      · simp only
        omega
      · simp only [List.length_dropLast]
        omega

/-- Some tasks are taken from the top. -/
theorem drop (represents : Represents deque list) {count : Nat} (few : count ≤ list.length) :
    Represents { deque with m_top := deque.m_top + count } (list.drop count) := by
  have bottom := represents.bottom
  have fits := represents.fits
  refine ⟨?_, represents.bound, represents.sized, ?_, fun position bounded => ?_⟩
  · simp only [List.length_drop]
    omega
  · simp only [List.length_drop]
    omega
  · rw [List.length_drop] at bounded
    change deque.m_buffer.load (deque.m_top + count + position) = _
    rw [Nat.add_assoc, represents.load _ (by omega), List.getElem_drop]

/-- A steal removes the task at the top. -/
theorem stealTop (represents : Represents deque list) :
    Represents deque.stealTop.1 list.tail ∧ deque.stealTop.2 = list.head? ∧
      deque.stealTop.1.m_bottom = deque.m_bottom := by
  have bottom := represents.bottom
  have bound := represents.bound
  by_cases none : list = []
  · have isEmpty := represents.isEmpty_iff.mpr none
    subst none
    simp only [ChaseLevDeque.stealTop, if_pos isEmpty]
    exact ⟨represents, rfl, trivial⟩
  · have positive : 0 < list.length := List.length_pos_iff.mpr none
    have first := represents.load 0 positive
    have rest := represents.drop positive
    simp only [Nat.add_zero] at first
    simp only [ChaseLevDeque.stealTop, if_neg (by omega : ¬ deque.m_bottom ≤ deque.m_top),
      ChaseLevDeque.exchangeTop, ↓reduceIte, u32_of_lt (by omega : deque.m_top + 1 < 2 ^ 32),
      first]
    rw [List.drop_one] at rest
    exact ⟨rest, by rw [List.head?_eq_getElem?, List.getElem?_eq_getElem positive], trivial⟩

/-- The cells of the first tasks. -/
theorem map_load (represents : Represents deque list) {count : Nat}
    (few : count ≤ list.length) :
    (List.range count).map (fun i => deque.m_buffer.load (u32 (deque.m_top + i))) =
      (list.take count).map some := by
  have bottom := represents.bottom
  have bound := represents.bound
  refine List.ext_getElem ?_ fun position left right => ?_
  · simp only [List.length_map, List.length_range, List.length_take]
    omega
  · simp only [List.length_map, List.length_range] at left
    simp only [List.getElem_map, List.getElem_range, List.getElem_take]
    rw [u32_of_lt (by omega), represents.load position (by omega)]

/-- A batch is the first half of the tasks, as far as there is room for it. -/
theorem stealBatch (represents : Represents deque list) (length : Nat)
    (short : list.length + 1 < 2 ^ 32) :
    let count := min ((list.length + 1) / 2) (u32 length)
    Represents (deque.stealBatch false length).1 (list.drop count) ∧
      (deque.stealBatch false length).2 = (list.take count).map some ∧
      (deque.stealBatch false length).1.m_bottom = deque.m_bottom := by
  have bottom := represents.bottom
  have bound := represents.bound
  intro count
  by_cases noSpan : length = 0
  · have nothing : count = 0 := by
      subst noSpan
      exact Nat.min_zero _
    simp only [ChaseLevDeque.stealBatch, if_pos noSpan, nothing]
    exact ⟨represents, rfl, trivial⟩
  · by_cases none : list = []
    · have isEmpty := represents.isEmpty_iff.mpr none
      subst none
      simp only [ChaseLevDeque.stealBatch, if_neg noSpan, if_pos isEmpty]
      exact ⟨by simpa using represents, by simp, trivial⟩
    · have positive : 0 < list.length := List.length_pos_iff.mpr none
      have available : deque.m_bottom - deque.m_top = list.length := by omega
      have stealCount : (if u32 length < u32 (list.length + 1) / 2 then u32 length
          else u32 (list.length + 1) / 2) = count := by
        rw [u32_of_lt short]
        split <;> omega
      have few : count ≤ list.length := by omega
      simp only [ChaseLevDeque.stealBatch, if_neg noSpan,
        if_neg (by omega : ¬ deque.m_bottom ≤ deque.m_top),
        u32Sub_of_le (by omega : deque.m_top ≤ deque.m_bottom), available, stealCount]
      by_cases noRoom : count = 0
      · simp only [if_pos noRoom]
        rw [noRoom]
        exact ⟨represents, rfl, trivial⟩
      · simp only [if_neg noRoom, ChaseLevDeque.exchangeTop, ↓reduceIte,
          u32_of_lt (by omega : deque.m_top + count < 2 ^ 32), Bool.false_eq_true,
          if_neg (by omega : ¬ deque.m_bottom < deque.m_top + count)]
        exact ⟨represents.drop few, represents.map_load few, trivial⟩

theorem size (represents : Represents deque list) : deque.size = list.length := by
  have bottom := represents.bottom
  rw [ChaseLevDeque.size]
  split
  · rw [u32Sub_of_le (by omega)]
    omega
  · omega

theorem empty (represents : Represents deque list) : deque.empty = list.isEmpty := by
  rw [ChaseLevDeque.empty, Bool.eq_iff_iff, decide_eq_true_iff, List.isEmpty_iff]
  exact represents.isEmpty_iff

end Represents

/-! ## Any number of deques -/

/-- What the deques are for. -/
abbrev TaskLists (Name Task : Type) := Name → List Task

namespace TaskLists

variable {Name Task : Type} [DecidableEq Name]

def pushBottom (lists : TaskLists Name Task) (name : Name) (task : Task) : TaskLists Name Task :=
  Function.update lists name (lists name ++ [task])

def popBottom (lists : TaskLists Name Task) (name : Name) :
    TaskLists Name Task × Option Task :=
  (Function.update lists name (lists name).dropLast, (lists name).getLast?)

def stealTop (lists : TaskLists Name Task) (name : Name) : TaskLists Name Task × Option Task :=
  (Function.update lists name (lists name).tail, (lists name).head?)

/-- The first half of the tasks, rounded up, and at most as many as there is room for. -/
def stealBatch (lists : TaskLists Name Task) (name : Name) (length : Nat) :
    TaskLists Name Task × List Task :=
  let count := min (((lists name).length + 1) / 2) length
  (Function.update lists name ((lists name).drop count), (lists name).take count)

def stealBatchInto (lists : TaskLists Name Task) (name destination : Name) :
    TaskLists Name Task × Nat :=
  let (lists, batch) := lists.stealBatch name 128
  (Function.update lists destination (lists destination ++ batch), batch.length)

/-- The normal list is only touched when the high one is empty. -/
def fromFirst {Result : Type}
    (operation : TaskLists Name Task → TaskPriority → TaskLists Name Task × Result)
    (lists : TaskLists Name Task) (queue : DualPriorityQueue Name) :
    TaskLists Name Task × Result :=
  operation lists (if lists queue.m_high = [] then .normal else .high)

/-- A call on the lists. -/
def perform (lists : TaskLists Name Task) :
    DequeCall Name Task → TaskLists Name Task × DequeReply Task
  | .pushBottom name task => (lists.pushBottom name task, .done)
  | .popBottom name =>
      let (lists, task) := lists.popBottom name
      (lists, .task task)
  | .stealTop name =>
      let (lists, task) := lists.stealTop name
      (lists, .task task)
  | .stealBatch name length =>
      let (lists, batch) := lists.stealBatch name length
      (lists, .batch (batch.map some))
  | .stealBatchInto name destination =>
      let (lists, stolen) := lists.stealBatchInto name destination
      (lists, .count stolen)
  | .size name => (lists, .count (lists name).length)
  | .empty name => (lists, .flag (lists name).isEmpty)
  | .push queue task priority => (lists.pushBottom (queue.deque priority) task, .done)
  | .pop queue =>
      let (lists, task) := fromFirst
        (fun lists priority => lists.popBottom (queue.deque priority)) lists queue
      (lists, .task task)
  | .steal queue =>
      let (lists, task) := fromFirst
        (fun lists priority => lists.stealTop (queue.deque priority)) lists queue
      (lists, .task task)
  | .stealQueue queue length =>
      let (lists, batch) := fromFirst
        (fun lists priority => lists.stealBatch (queue.deque priority) length) lists queue
      (lists, .batch (batch.map some))
  | .stealQueueInto queue destination =>
      let (lists, stolen) := fromFirst
        (fun lists priority => lists.stealBatchInto (queue.deque priority)
          (destination.deque priority)) lists queue
      (lists, .count stolen)
  | .queueSize queue =>
      (lists, .count ((lists queue.m_high).length + (lists queue.m_normal).length))
  | .queueEmpty queue =>
      (lists, .flag ((lists queue.m_high).isEmpty && (lists queue.m_normal).isEmpty))

/-- Calls on the lists, one after the other, with their replies. -/
def run (lists : TaskLists Name Task) :
    List (DequeCall Name Task) → TaskLists Name Task × List (DequeReply Task)
  | [] => (lists, [])
  | call :: calls =>
      let (lists, reply) := lists.perform call
      let (lists, replies) := lists.run calls
      (lists, reply :: replies)

end TaskLists

/-- Each deque is its list, and its bottom index counts pushes. -/
structure Refines {Name Task : Type} (deques : Deques Name Task) (lists : TaskLists Name Task) :
    Prop where
  represents : ∀ name, Represents (deques.deque name) (lists name)
  bottom : ∀ name, (deques.deque name).m_bottom ≤ deques.pushes name

/-- No deque has seen `2 ^ 31` pushes. -/
def Deques.FewPushes {Name Task : Type} (deques : Deques Name Task) : Prop :=
  ∀ name, deques.pushes name < 2 ^ 31

/-- The span that a call fills has a length below `2 ^ 32`. -/
def DequeCall.NarrowSpan {Name Task : Type} : DequeCall Name Task → Prop
  | .stealBatch _ length | .stealQueue _ length => length < 2 ^ 32
  | _ => True

/-- Few pushes after a loop of pushes are few pushes before it. -/
theorem Deques.FewPushes.before {Name Task : Type} [DecidableEq Name]
    {deques : Deques Name Task} {destination : Name} {batch : List (Option Task)}
    (few : (batch.foldl (fun deques task => deques.pushBottom destination task)
      deques).FewPushes) : deques.FewPushes := by
  induction batch generalizing deques with
  | nil => exact few
  | cons task batch ih =>
      intro name
      have pushed := ih few name
      by_cases same : name = destination
      · subst same
        simp only [pushBottom, Function.update_self] at pushed
        omega
      · simpa [pushBottom, same] using pushed

theorem Deques.FewPushes.of_stealBatchInto {Name Task : Type} [DecidableEq Name]
    {deques : Deques Name Task} {name destination : Name}
    (few : (deques.stealBatchInto name destination).1.FewPushes) : deques.FewPushes :=
  @Deques.FewPushes.before _ _ _ (deques.stealBatch name 128).1 _ _ few

/-- Few pushes after a call are few pushes before it. -/
theorem Deques.FewPushes.of_perform {Name Task : Type} [DecidableEq Name]
    {deques : Deques Name Task} {call : DequeCall Name Task}
    (few : (deques.perform call).1.FewPushes) : deques.FewPushes := by
  have single (name : Name) (task : Option Task)
      (few : (deques.pushBottom name task).FewPushes) : deques.FewPushes :=
    @Deques.FewPushes.before _ _ _ deques name [task] few
  cases call with
  | pushBottom name task => exact single name _ few
  | push queue task priority => exact single _ _ few
  | stealBatchInto name destination => exact few.of_stealBatchInto
  | stealQueueInto queue destination =>
      simp only [perform, stealQueueInto] at few
      split at few
      · exact few.of_stealBatchInto
      · exact few.of_stealBatchInto.of_stealBatchInto
  | stealQueue queue length =>
      simp only [perform, stealQueue] at few
      split at few <;> exact few
  | pop queue =>
      simp only [perform, Deques.pop, firstTask] at few
      split at few <;> exact few
  | steal queue =>
      simp only [perform, Deques.steal, firstTask] at few
      split at few <;> exact few
  | _ => exact few

theorem Deques.FewPushes.of_run {Name Task : Type} [DecidableEq Name]
    {deques : Deques Name Task} {calls : List (DequeCall Name Task)}
    (few : (deques.run calls).1.FewPushes) : deques.FewPushes := by
  induction calls generalizing deques with
  | nil => exact few
  | cons call calls ih => exact (ih few).of_perform

namespace Refines

variable {Name Task : Type} [DecidableEq Name] {deques : Deques Name Task}
  {lists : TaskLists Name Task}

omit [DecidableEq Name] in
theorem create (initialCapacity : Name → Nat) :
    Refines (Deques.create initialCapacity) (fun _ => ([] : List Task)) where
  represents := fun name => .create (initialCapacity name)
  bottom := fun _ => le_rfl

theorem setDeque (refines : Refines deques lists) {name : Name} {deque : ChaseLevDeque Task}
    {list : List Task} (represents : Represents deque list)
    (bottom : deque.m_bottom ≤ (deques.deque name).m_bottom) :
    Refines (deques.setDeque name deque) (Function.update lists name list) := by
  constructor
  · intro other
    by_cases same : other = name
    · subst same
      simpa [Deques.setDeque] using represents
    · simpa [Deques.setDeque, same] using refines.represents other
  · intro other
    by_cases same : other = name
    · subst same
      simpa [Deques.setDeque] using bottom.trans (refines.bottom other)
    · simpa [Deques.setDeque, same] using refines.bottom other

omit [DecidableEq Name] in
theorem short (refines : Refines deques lists) (few : deques.FewPushes) (name : Name) :
    (lists name).length < 2 ^ 31 := by
  have bottom := (refines.represents name).bottom
  have pushes := refines.bottom name
  have bound := few name
  omega

theorem pushBottom (refines : Refines deques lists) {name : Name} (task : Task)
    (few : (deques.pushBottom name (some task)).FewPushes) :
    Refines (deques.pushBottom name (some task)) (lists.pushBottom name task) := by
  have pushes := few name
  have bottom := refines.bottom name
  simp only [Deques.pushBottom, Function.update_self] at pushes
  obtain ⟨represents, pushed⟩ := (refines.represents name).pushBottom task (by omega)
  constructor
  · intro other
    by_cases same : other = name
    · subst same
      simpa [Deques.pushBottom, Deques.setDeque, TaskLists.pushBottom] using represents
    · simpa [Deques.pushBottom, Deques.setDeque, TaskLists.pushBottom, same] using
        refines.represents other
  · intro other
    by_cases same : other = name
    · subst same
      simp only [Deques.pushBottom, Deques.setDeque, Function.update_self, pushed]
      omega
    · simpa [Deques.pushBottom, Deques.setDeque, same] using refines.bottom other

theorem popBottom (refines : Refines deques lists) (name : Name) :
    Refines (deques.popBottom name).1 (lists.popBottom name).1 ∧
      (deques.popBottom name).2 = (lists.popBottom name).2 := by
  obtain ⟨represents, task, bottom⟩ := (refines.represents name).popBottom
  exact ⟨refines.setDeque represents bottom, task⟩

theorem stealTop (refines : Refines deques lists) (name : Name) :
    Refines (deques.stealTop name).1 (lists.stealTop name).1 ∧
      (deques.stealTop name).2 = (lists.stealTop name).2 := by
  obtain ⟨represents, task, bottom⟩ := (refines.represents name).stealTop
  exact ⟨refines.setDeque represents bottom.le, task⟩

theorem stealBatch (refines : Refines deques lists) (few : deques.FewPushes) (name : Name)
    {length : Nat} (narrow : length < 2 ^ 32) :
    Refines (deques.stealBatch name length).1 (lists.stealBatch name length).1 ∧
      (deques.stealBatch name length).2 = (lists.stealBatch name length).2.map some := by
  have short := refines.short few name
  obtain ⟨represents, batch, bottom⟩ :=
    (refines.represents name).stealBatch length (by omega)
  rw [u32_of_lt narrow] at represents batch
  exact ⟨refines.setDeque represents bottom.le, batch⟩

/-- The loop that pushes a stolen batch. -/
theorem pushAll {destination : Name} (batch : List Task) {deques : Deques Name Task}
    {lists : TaskLists Name Task} (refines : Refines deques lists)
    (few : ((batch.map some).foldl (fun deques task => deques.pushBottom destination task)
      deques).FewPushes) :
    Refines ((batch.map some).foldl (fun deques task => deques.pushBottom destination task) deques)
      (Function.update lists destination (lists destination ++ batch)) := by
  induction batch generalizing deques lists with
  | nil => simpa using refines
  | cons task batch ih =>
      have onward := ih (refines.pushBottom task (Deques.FewPushes.before few)) few
      simpa [TaskLists.pushBottom] using onward

theorem stealBatchInto (refines : Refines deques lists) {name destination : Name}
    (few : (deques.stealBatchInto name destination).1.FewPushes) :
    Refines (deques.stealBatchInto name destination).1 (lists.stealBatchInto name destination).1 ∧
      (deques.stealBatchInto name destination).2 =
        (lists.stealBatchInto name destination).2 := by
  obtain ⟨robbed, batch⟩ :=
    refines.stealBatch few.of_stealBatchInto name (by decide : 128 < 2 ^ 32)
  simp only [Deques.stealBatchInto, batch] at few ⊢
  exact ⟨robbed.pushAll _ few, by simp [TaskLists.stealBatchInto]⟩

/-! ### `DualPriorityQueue` -/

theorem update_of_nil {lists : TaskLists Name Task} {name : Name} (nothing : lists name = []) :
    Function.update lists name [] = lists := by
  rw [← nothing, Function.update_eq_self]

omit [DecidableEq Name] in
/-- The same operation on the high deque, and on the normal one if the high one is empty. -/
theorem firstTask
    {operation : Deques Name Task → Name → Deques Name Task × Option Task}
    {operation' : TaskLists Name Task → Name → TaskLists Name Task × Option Task}
    (same : ∀ {deques : Deques Name Task} {lists : TaskLists Name Task}, Refines deques lists →
      ∀ name, Refines (operation deques name).1 (operation' lists name).1 ∧
        (operation deques name).2 = (operation' lists name).2)
    (idle : ∀ lists name, lists name = [] → operation' lists name = (lists, none))
    (busy : ∀ lists name, lists name ≠ [] → (operation' lists name).2 ≠ none)
    (refines : Refines deques lists) (queue : DualPriorityQueue Name) :
    let first := TaskLists.fromFirst
      (fun lists priority => operation' lists (queue.deque priority)) lists queue
    Refines (Deques.firstTask operation deques queue).1 first.1 ∧
      (Deques.firstTask operation deques queue).2 = first.2 := by
  obtain ⟨high, task⟩ := same refines queue.m_high
  simp only [Deques.firstTask, TaskLists.fromFirst]
  by_cases nothing : lists queue.m_high = []
  · rw [idle lists _ nothing] at high task
    simp only [if_pos nothing, task]
    exact same high queue.m_normal
  · obtain ⟨found, isFound⟩ := Option.ne_none_iff_exists'.mp (busy lists _ nothing)
    simp only [if_neg nothing, task, isFound]
    exact ⟨high, isFound.symm⟩

theorem pop (refines : Refines deques lists) (queue : DualPriorityQueue Name) :
    let first := TaskLists.fromFirst
      (fun lists priority => lists.popBottom (queue.deque priority)) lists queue
    Refines (deques.pop queue).1 first.1 ∧ (deques.pop queue).2 = first.2 := by
  refine firstTask (fun refines => refines.popBottom) (fun lists name nothing => ?_)
    (fun lists name some => ?_) refines queue
  · simp [TaskLists.popBottom, nothing, update_of_nil nothing]
  · simpa [TaskLists.popBottom] using some

theorem steal (refines : Refines deques lists) (queue : DualPriorityQueue Name) :
    let first := TaskLists.fromFirst
      (fun lists priority => lists.stealTop (queue.deque priority)) lists queue
    Refines (deques.steal queue).1 first.1 ∧ (deques.steal queue).2 = first.2 := by
  refine firstTask (fun refines => refines.stealTop) (fun lists name nothing => ?_)
    (fun lists name some => ?_) refines queue
  · simp [TaskLists.stealTop, nothing, update_of_nil nothing]
  · simpa [TaskLists.stealTop] using some

theorem stealQueue (refines : Refines deques lists) (few : deques.FewPushes)
    (queue : DualPriorityQueue Name) {length : Nat} (narrow : length < 2 ^ 32) :
    let first := TaskLists.fromFirst
      (fun lists priority => lists.stealBatch (queue.deque priority) length) lists queue
    Refines (deques.stealQueue queue length).1 first.1 ∧
      (deques.stealQueue queue length).2 = first.2.map some := by
  obtain ⟨high, batch⟩ := refines.stealBatch few queue.m_high narrow
  simp only [Deques.stealQueue, TaskLists.fromFirst, batch, List.length_map]
  by_cases nothing : lists queue.m_high = []
  · have idle : lists.stealBatch queue.m_high length = (lists, []) := by
      simp [TaskLists.stealBatch, nothing, update_of_nil nothing]
    rw [idle] at high
    simp only [idle, List.length_nil, lt_irrefl, if_pos nothing, ↓reduceIte]
    exact high.stealBatch few queue.m_normal narrow
  · by_cases noRoom : length = 0
    · -- An empty span takes nothing from either deque.
      subst noRoom
      have idle (lists : TaskLists Name Task) (name : Name) :
          lists.stealBatch name 0 = (lists, []) := by
        simp [TaskLists.stealBatch]
      rw [idle] at high
      obtain ⟨normal, batch⟩ := high.stealBatch few queue.m_normal narrow
      rw [idle] at normal batch
      simp only [idle, List.length_nil, lt_irrefl, ↓reduceIte]
      exact ⟨normal, batch⟩
    · have positive : 0 < (lists queue.m_high).length := List.length_pos_iff.mpr nothing
      have stolen : 0 < (lists.stealBatch queue.m_high length).2.length := by
        simp only [TaskLists.stealBatch, List.length_take]
        omega
      simp only [if_pos stolen, if_neg nothing]
      exact ⟨high, rfl⟩

theorem stealQueueInto (refines : Refines deques lists)
    (queue destination : DualPriorityQueue Name)
    (few : (deques.stealQueueInto queue destination).1.FewPushes) :
    let first := TaskLists.fromFirst
      (fun lists priority => lists.stealBatchInto (queue.deque priority)
        (destination.deque priority)) lists queue
    Refines (deques.stealQueueInto queue destination).1 first.1 ∧
      (deques.stealQueueInto queue destination).2 = first.2 := by
  have fewHigh : (deques.stealBatchInto queue.m_high destination.m_high).1.FewPushes := by
    simp only [Deques.stealQueueInto] at few
    split at few
    · exact few
    · exact few.of_stealBatchInto
  obtain ⟨high, stolen⟩ := refines.stealBatchInto fewHigh
  simp only [Deques.stealQueueInto, TaskLists.fromFirst, stolen] at few ⊢
  by_cases nothing : lists queue.m_high = []
  · have idle : lists.stealBatchInto queue.m_high destination.m_high = (lists, 0) := by
      simp [TaskLists.stealBatchInto, TaskLists.stealBatch, nothing, update_of_nil nothing]
    rw [idle] at high
    simp only [idle, lt_irrefl, if_pos nothing, ↓reduceIte] at few ⊢
    exact high.stealBatchInto few
  · have positive : 0 < (lists queue.m_high).length := List.length_pos_iff.mpr nothing
    have some : 0 < (lists.stealBatchInto queue.m_high destination.m_high).2 := by
      simp only [TaskLists.stealBatchInto, TaskLists.stealBatch, List.length_take]
      omega
    simp only [if_pos some, if_neg nothing]
    exact ⟨high, rfl⟩

/-! ### Runs -/

/-- One call. -/
theorem perform (refines : Refines deques lists) {call : DequeCall Name Task}
    (narrow : call.NarrowSpan) (few : (deques.perform call).1.FewPushes) :
    Refines (deques.perform call).1 (lists.perform call).1 ∧
      (deques.perform call).2 = (lists.perform call).2 := by
  cases call with
  | pushBottom name task => exact ⟨refines.pushBottom task few, rfl⟩
  | popBottom name => exact (refines.popBottom name).imp_right (congrArg DequeReply.task)
  | stealTop name => exact (refines.stealTop name).imp_right (congrArg DequeReply.task)
  | stealBatch name length =>
      exact (refines.stealBatch few name narrow).imp_right (congrArg DequeReply.batch)
  | stealBatchInto name destination =>
      exact (refines.stealBatchInto few).imp_right (congrArg DequeReply.count)
  | size name => exact ⟨refines, congrArg DequeReply.count (refines.represents name).size⟩
  | empty name => exact ⟨refines, congrArg DequeReply.flag (refines.represents name).empty⟩
  | push queue task priority => exact ⟨refines.pushBottom task few, rfl⟩
  | pop queue => exact (refines.pop queue).imp_right (congrArg DequeReply.task)
  | steal queue => exact (refines.steal queue).imp_right (congrArg DequeReply.task)
  | stealQueue queue length =>
      exact (refines.stealQueue few.of_perform queue narrow).imp_right (congrArg DequeReply.batch)
  | stealQueueInto queue destination =>
      exact (refines.stealQueueInto queue destination few).imp_right (congrArg DequeReply.count)
  | queueSize queue =>
      refine ⟨refines, congrArg DequeReply.count ?_⟩
      rw [(refines.represents queue.m_high).size, (refines.represents queue.m_normal).size]
  | queueEmpty queue =>
      refine ⟨refines, congrArg DequeReply.flag ?_⟩
      rw [(refines.represents queue.m_high).empty, (refines.represents queue.m_normal).empty]

/-- Calls in any order. -/
theorem run {calls : List (DequeCall Name Task)} (refines : Refines deques lists)
    (narrow : ∀ call ∈ calls, call.NarrowSpan) (few : (deques.run calls).1.FewPushes) :
    Refines (deques.run calls).1 (lists.run calls).1 ∧
      (deques.run calls).2 = (lists.run calls).2 := by
  induction calls generalizing deques lists with
  | nil => exact ⟨refines, rfl⟩
  | cons call calls ih =>
      obtain ⟨next, reply⟩ :=
        refines.perform (narrow call List.mem_cons_self) (Deques.FewPushes.of_run few)
      obtain ⟨last, replies⟩ := ih next (fun call member => narrow call (.tail _ member)) few
      exact ⟨last, congrArg₂ List.cons reply replies⟩

end Refines

/-- Used by one thread at a time, deques are lists, and a `DualPriorityQueue` is a pair of lists:
as long as no deque sees `2 ^ 31` pushes, all calls return what the same calls return on lists. -/
theorem deques_refine_lists {Name Task : Type} [DecidableEq Name] (initialCapacity : Name → Nat)
    (calls : List (DequeCall Name Task)) (narrow : ∀ call ∈ calls, call.NarrowSpan)
    (few : ((Deques.create initialCapacity).run calls).1.FewPushes) :
    ((Deques.create initialCapacity).run calls).2 =
      (TaskLists.run (fun _ => []) calls).2 :=
  ((Refines.create initialCapacity).run narrow few).2

/-- A worker with the deques 0 and 1, and a thief with the deques 2 and 3. -/
theorem deques_refine_lists_theft :
    let worker : DualPriorityQueue (Fin 4) := ⟨0, 1⟩
    let thief : DualPriorityQueue (Fin 4) := ⟨2, 3⟩
    let calls : List (DequeCall (Fin 4) Nat) :=
      [.push worker 10 .normal, .push worker 20 .high, .push worker 30 .high, .pop worker,
        .stealQueueInto worker thief, .steal worker, .queueSize worker, .popBottom 2]
    ((Deques.create fun _ => 16).run calls).2 = (TaskLists.run (fun _ => []) calls).2 := by
  intro worker thief calls
  have few : ((Deques.create fun _ => 16).run calls).1.FewPushes := by
    simp only [Deques.create, ChaseLevDeque.create_sixteen]
    intro name
    revert name
    decide
  exact deques_refine_lists (fun _ => 16) calls (by simp [calls, DequeCall.NarrowSpan]) few

end LightFlow
