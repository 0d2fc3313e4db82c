import LightFlow.Lib.Machine
import LightFlow.Scheduler.DequeLists
import Mathlib.Algebra.Order.Group.Multiset
import Mathlib.Data.List.ReduceOption

/-!
# Deques over a long life

The indices of a deque are 32 bits wide and only grow, and they are compared by their order.  A
deque works as long as no push takes the bottom index from its greatest value to zero; that push
leaves a deque that takes itself for empty.
-/

namespace LightFlow

/-- The cells from top to bottom. -/
def ChaseLevDeque.cells {Task : Type} (deque : ChaseLevDeque Task) : List (Option Task) :=
  (List.range (u32Sub deque.m_bottom deque.m_top)).map fun i =>
    deque.m_buffer.load (u32 (deque.m_top + i))

/-- The deque takes itself for empty exactly when it holds no task, or is not asked for any, and a
push keeps all the tasks that it holds. -/
structure Sound {Task : Type} (deque : ChaseLevDeque Task) (held : Multiset Task) : Prop where
  popBottom : deque.popBottom.2 = none ↔ held = 0
  stealTop : deque.stealTop.2 = none ↔ held = 0
  stealBatch : ∀ length, (deque.stealBatch false length).2 = [] ↔ held = 0 ∨ u32 length = 0
  size : deque.size = 0 ↔ held = 0
  empty : deque.empty = true ↔ held = 0
  pushBottom : ∀ task,
    ((deque.pushBottom (some task)).cells : Multiset (Option Task)) =
      Multiset.map some (task ::ₘ held)

/-- Any number of deques, with the tasks that were pushed and have not been handed out. -/
structure DequeLife (Name Task : Type) where
  deque : Name → ChaseLevDeque Task
  held : Name → Multiset Task

/-- An operation that changes deques.  `spurious` says that `compare_exchange_weak` fails without a
reason. -/
inductive DequeAction (Name Task : Type) where
  | pushBottom (name : Name) (task : Task)
  | popBottom (name : Name)
  | stealTop (name : Name)
  | stealBatch (name : Name) (length : Nat) (spurious : Bool)
  | stealBatchInto (name destination : Name) (spurious : Bool)

namespace DequeLife

variable {Name Task : Type} [DecidableEq Name] [DecidableEq Task]

def create (initialCapacity : Name → Nat) : DequeLife Name Task :=
  { deque := fun name => .create (initialCapacity name), held := fun _ => 0 }

omit [DecidableEq Task] in
def pushBottom (life : DequeLife Name Task) (name : Name) (task : Option Task) :
    DequeLife Name Task :=
  { deque := Function.update life.deque name ((life.deque name).pushBottom task)
    held := Function.update life.held name ((task.toList : Multiset Task) + life.held name) }

/-- A deque has handed out some tasks. -/
def handOut (life : DequeLife Name Task) (name : Name) (deque : ChaseLevDeque Task)
    (tasks : List (Option Task)) : DequeLife Name Task :=
  { deque := Function.update life.deque name deque
    held := Function.update life.held name (life.held name - tasks.reduceOption) }

def perform (life : DequeLife Name Task) : DequeAction Name Task → DequeLife Name Task
  | .pushBottom name task => life.pushBottom name (some task)
  | .popBottom name =>
      let (deque, task) := (life.deque name).popBottom
      life.handOut name deque [task]
  | .stealTop name =>
      let (deque, task) := (life.deque name).stealTop
      life.handOut name deque [task]
  | .stealBatch name length spurious =>
      let (deque, batch) := (life.deque name).stealBatch spurious length
      life.handOut name deque batch
  | .stealBatchInto name destination spurious =>
      let (deque, batch) := (life.deque name).stealBatch spurious 128
      batch.foldl (fun life task => life.pushBottom destination task)
        (life.handOut name deque batch)

theorem perform_popBottom (life : DequeLife Name Task) (name : Name) :
    life.perform (.popBottom name) =
      life.handOut name (life.deque name).popBottom.1 [(life.deque name).popBottom.2] := rfl

theorem perform_stealTop (life : DequeLife Name Task) (name : Name) :
    life.perform (.stealTop name) =
      life.handOut name (life.deque name).stealTop.1 [(life.deque name).stealTop.2] := rfl

/-- Deques from their creation on. -/
def machine (Name Task : Type) [DecidableEq Name] [DecidableEq Task] :
    Machine (DequeLife Name Task) (DequeAction Name Task) where
  initial := fun life => ∃ initialCapacity, life = create initialCapacity
  step := fun life action => some (life.perform action)

/-- Fewer than `2 ^ 31` tasks are stored in each deque. -/
def FewStored (life : DequeLife Name Task) : Prop := ∀ name, (life.held name).card < 2 ^ 31

/-- No push begins with the greatest bottom index. -/
def NoWrap (life : DequeLife Name Task) : DequeAction Name Task → Prop
  | .pushBottom name _ => (life.deque name).m_bottom + 1 < 2 ^ 32
  | .stealBatchInto name destination spurious =>
      let available := u32Sub (life.deque name).m_bottom (life.deque name).m_top
      spurious = true ∨
        (life.deque destination).m_bottom + min ((available + 1) / 2) 128 < 2 ^ 32
  | _ => True

/-- Each deque is a list of the tasks that it holds. -/
def Lists (life : DequeLife Name Task) : Prop :=
  ∀ name, ∃ list : List Task, (list : Multiset Task) = life.held name ∧
    Represents (life.deque name) list

end DequeLife

/-! ## Lists are sound -/

section Lists

variable {Task : Type} {deque : ChaseLevDeque Task} {list : List Task}

/-- The cells after a push, also when the bottom index becomes zero. -/
theorem Represents.cells_pushBottom (represents : Represents deque list)
    (few : list.length < 2 ^ 31) (task : Task) :
    (deque.pushBottom (some task)).cells = (list ++ [task]).map some := by
  have bottom := represents.bottom
  have bound := represents.bound
  obtain ⟨top, next, -, -, loads⟩ := represents.pushed task
  have window : u32Sub (u32 (deque.m_bottom + 1)) deque.m_top = list.length + 1 := by
    rcases Nat.lt_or_ge (deque.m_bottom + 1) (2 ^ 32) with narrow | wraps
    · rw [u32_of_lt narrow, u32Sub_of_le (by omega)]
      omega
    · have zero : u32 (deque.m_bottom + 1) = 0 := by
        rw [(by omega : deque.m_bottom + 1 = 2 ^ 32), u32, Nat.mod_self]
      rw [zero, u32Sub, if_neg (by omega)]
      omega
  rw [ChaseLevDeque.cells, top, next, window]
  refine List.ext_getElem (by simp) fun position left right => ?_
  simp only [List.length_map, List.length_range] at left
  simp only [List.getElem_map, List.getElem_range]
  rw [u32_of_lt (by omega), loads position (by simpa using left)]

/-- A deque that is a list is sound. -/
theorem Represents.sound (represents : Represents deque list) (few : list.length < 2 ^ 31) :
    Sound deque (list : Multiset Task) where
  popBottom := by
    rw [represents.popBottom.2.1, List.getLast?_eq_none_iff, Multiset.coe_eq_zero]
  stealTop := by
    rw [represents.stealTop.2.1, List.head?_eq_none_iff, Multiset.coe_eq_zero]
  stealBatch := by
    intro length
    rw [(represents.stealBatch length (by omega)).2.1, List.map_eq_nil_iff,
      List.take_eq_nil_iff, Multiset.coe_eq_zero, ← List.length_eq_zero_iff]
    omega
  size := by rw [represents.size, List.length_eq_zero_iff, Multiset.coe_eq_zero]
  empty := by rw [represents.empty, List.isEmpty_iff, Multiset.coe_eq_zero]
  pushBottom := by
    intro task
    rw [represents.cells_pushBottom few, List.map_append, ← Multiset.coe_add, Multiset.map_cons,
      Multiset.map_coe, ← Multiset.singleton_add, add_comm]
    rfl

/-! ## Deques that have lost their tasks -/

/-- The indices say that there are fewer tasks than there are, or none. -/
def Broken (deque : ChaseLevDeque Task) (held : Multiset Task) : Prop :=
  deque.m_top < 2 ^ 32 ∧ deque.m_bottom < 2 ^ 32 ∧
    (deque.m_bottom ≤ deque.m_top ∧ held ≠ 0 ∨
      deque.m_top < deque.m_bottom ∧ deque.m_bottom - deque.m_top < held.card)

theorem pushBottom_indices (deque : ChaseLevDeque Task) (task : Option Task) :
    (deque.pushBottom task).m_top = deque.m_top ∧
      (deque.pushBottom task).m_bottom = u32 (max deque.m_bottom deque.m_top + 1) := by
  have grown (deque : ChaseLevDeque Task) (bottom top : Nat) :
      (deque.grow bottom top).m_top = deque.m_top := by
    rw [ChaseLevDeque.grow]
    split <;> rfl
  by_cases behind : deque.m_bottom < deque.m_top
  · simp only [ChaseLevDeque.pushBottom, if_pos behind, max_eq_right behind.le, and_true]
    split
    · exact grown _ _ _
    · rfl
  · simp only [ChaseLevDeque.pushBottom, if_neg behind, max_eq_left (not_lt.mp behind), and_true]
    split
    · exact grown _ _ _
    · rfl

/-- The push that takes the bottom index to zero. -/
theorem Represents.broken (represents : Represents deque list) (task : Task)
    (wraps : 2 ^ 32 ≤ deque.m_bottom + 1) {held : Multiset Task} (some : held ≠ 0) :
    Broken (deque.pushBottom (.some task)) held := by
  have bottom := represents.bottom
  have bound := represents.bound
  obtain ⟨top, next, -⟩ := represents.pushed task
  have zero : u32 (deque.m_bottom + 1) = 0 := by
    rw [(by omega : deque.m_bottom + 1 = 2 ^ 32), u32, Nat.mod_self]
  rw [Broken, top, next, zero]
  exact ⟨by omega, by decide, .inl ⟨Nat.zero_le _, some⟩⟩

/-- Further pushes do not bring the tasks back. -/
theorem Broken.pushBottom {held : Multiset Task} (broken : Broken deque held) (task : Task) :
    Broken (deque.pushBottom (some task)) (task ::ₘ held) := by
  obtain ⟨topBound, bottomBound, indices⟩ := broken
  obtain ⟨top, next⟩ := pushBottom_indices deque (some task)
  rw [Broken, top, next]
  refine ⟨topBound, u32_lt _, ?_⟩
  rcases Nat.lt_or_ge (max deque.m_bottom deque.m_top + 1) (2 ^ 32) with narrow | wraps
  · rw [u32_of_lt narrow, Multiset.card_cons]
    refine .inr ⟨by omega, ?_⟩
    rcases indices with ⟨behind, some⟩ | ⟨ahead, fewer⟩
    · have positive := Multiset.card_pos.mpr some
      omega
    · omega
  · have zero : u32 (max deque.m_bottom deque.m_top + 1) = 0 := by
      rw [(by omega : max deque.m_bottom deque.m_top + 1 = 2 ^ 32), u32, Nat.mod_self]
    rw [zero]
    exact .inl ⟨Nat.zero_le _, Multiset.cons_ne_zero⟩

/-- A broken deque takes itself for empty, or keeps too few tasks. -/
theorem Broken.not_sound {held : Multiset Task} (broken : Broken deque held) :
    ¬ Sound deque held := by
  intro sound
  obtain ⟨topBound, bottomBound, ⟨behind, some⟩ | ⟨ahead, fewer⟩⟩ := broken
  · exact some (sound.empty.mp (decide_eq_true behind))
  · obtain ⟨task, member⟩ := Multiset.card_pos_iff_exists_mem.mp (Nat.zero_lt_of_lt fewer)
    have cards := congrArg Multiset.card (sound.pushBottom task)
    obtain ⟨top, next⟩ := pushBottom_indices deque (.some task)
    rw [Multiset.card_map, Multiset.card_cons, Multiset.coe_card, ChaseLevDeque.cells,
      List.length_map, List.length_range, top, next, max_eq_left ahead.le] at cards
    rcases Nat.lt_or_ge (deque.m_bottom + 1) (2 ^ 32) with narrow | wraps
    · rw [u32_of_lt narrow, u32Sub_of_le (by omega)] at cards
      omega
    · have zero : u32 (deque.m_bottom + 1) = 0 := by
        rw [(by omega : deque.m_bottom + 1 = 2 ^ 32), u32, Nat.mod_self]
      rw [zero, u32Sub] at cards
      split at cards <;> omega

end Lists

/-! ## Steps -/

namespace DequeLife

variable {Name Task : Type} [DecidableEq Name] [DecidableEq Task] {life : DequeLife Name Task}

omit [DecidableEq Name] [DecidableEq Task] in
theorem Lists.sound (lists : life.Lists) (few : life.FewStored) (name : Name) :
    Sound (life.deque name) (life.held name) := by
  obtain ⟨list, held, represents⟩ := lists name
  have short := few name
  rw [← held] at short ⊢
  exact represents.sound short

omit [DecidableEq Task] in
theorem Lists.update (lists : life.Lists) {name : Name} {deque : ChaseLevDeque Task}
    {list : List Task} {held : Multiset Task} (same : (list : Multiset Task) = held)
    (represents : Represents deque list) :
    Lists
      { deque := Function.update life.deque name deque
        held := Function.update life.held name held } := by
  intro other
  by_cases isName : other = name
  · subst isName
    simpa using ⟨list, same, represents⟩
  · simpa [isName] using lists other

/-- Some tasks of a list are handed out, and the others are left. -/
theorem Lists.handOut (lists : life.Lists) {name : Name} {deque : ChaseLevDeque Task}
    {list rest : List Task} {tasks : List (Option Task)}
    (held : (list : Multiset Task) = life.held name)
    (split : list.Perm (tasks.reduceOption ++ rest)) (represents : Represents deque rest) :
    (life.handOut name deque tasks).Lists := by
  refine lists.update ?_ represents
  rw [← held, Multiset.coe_eq_coe.mpr split, ← Multiset.coe_add, add_tsub_cancel_left]

omit [DecidableEq Task] in
/-- A push that begins below the greatest bottom index. -/
theorem Lists.pushBottom (lists : life.Lists) {name : Name} (task : Task)
    (room : (life.deque name).m_bottom + 1 < 2 ^ 32) :
    (life.pushBottom name (some task)).Lists := by
  obtain ⟨list, held, represents⟩ := lists name
  refine lists.update ?_ (represents.pushBottom task room).1
  rw [← held, ← Multiset.coe_add, add_comm]
  rfl

omit [DecidableEq Task] in
/-- The loop that pushes a stolen batch, where it ends below the greatest bottom index. -/
theorem Lists.pushAll {destination : Name} (batch : List Task) {life : DequeLife Name Task}
    (lists : life.Lists)
    (room : (life.deque destination).m_bottom + batch.length < 2 ^ 32) :
    ((batch.map some).foldl (fun life task => life.pushBottom destination task) life).Lists := by
  induction batch generalizing life with
  | nil => exact lists
  | cons task batch ih =>
      rw [List.length_cons] at room
      obtain ⟨list, -, represents⟩ := lists destination
      have next := (represents.pushBottom task (by omega)).2
      refine ih (lists.pushBottom task (by omega)) ?_
      simp only [DequeLife.pushBottom, Function.update_self, next]
      omega

omit [DecidableEq Task] in
/-- The loop that pushes a batch leaves a broken deque broken. -/
theorem broken_pushAll {destination : Name} (batch : List Task) {life : DequeLife Name Task}
    (broken : Broken (life.deque destination) (life.held destination)) :
    let pushed := (batch.map some).foldl (fun life task => life.pushBottom destination task) life
    Broken (pushed.deque destination) (pushed.held destination) := by
  induction batch generalizing life with
  | nil => exact broken
  | cons task batch ih =>
      refine ih ?_
      simpa [DequeLife.pushBottom] using broken.pushBottom task

omit [DecidableEq Task] in
/-- The loop that pushes a stolen batch, where the bottom index becomes zero. -/
theorem Lists.broken_of_pushAll {destination : Name} (batch : List Task)
    {life : DequeLife Name Task} (lists : life.Lists)
    (wraps : 2 ^ 32 ≤ (life.deque destination).m_bottom + batch.length) :
    let pushed := (batch.map some).foldl (fun life task => life.pushBottom destination task) life
    Broken (pushed.deque destination) (pushed.held destination) := by
  induction batch generalizing life with
  | nil =>
      obtain ⟨list, -, represents⟩ := lists destination
      exact absurd wraps (not_le.mpr represents.bound)
  | cons task batch ih =>
      rw [List.length_cons] at wraps
      obtain ⟨list, -, represents⟩ := lists destination
      rcases Nat.lt_or_ge ((life.deque destination).m_bottom + 1) (2 ^ 32) with narrow | last
      · have next := (represents.pushBottom task narrow).2
        refine ih (lists.pushBottom task narrow) ?_
        simp only [DequeLife.pushBottom, Function.update_self, next]
        omega
      · refine broken_pushAll batch ?_
        simpa [DequeLife.pushBottom] using
          represents.broken task last (Multiset.cons_ne_zero (m := life.held destination))

omit [DecidableEq Name] [DecidableEq Task] in
/-- Nothing is stolen when the exchange fails without a reason. -/
theorem stealBatch_spurious (deque : ChaseLevDeque Task) (length : Nat) :
    deque.stealBatch true length = (deque, []) := by
  simp only [ChaseLevDeque.stealBatch, ↓reduceIte, Bool.false_eq_true, ite_self]

omit [DecidableEq Name] [DecidableEq Task] in
theorem reduceOption_map_some (tasks : List Task) : (tasks.map some).reduceOption = tasks := by
  simp [List.reduceOption]

/-- What `stealBatch` hands out, and what it leaves. -/
theorem Lists.stealBatch (lists : life.Lists) (few : life.FewStored) (name : Name)
    (length : Nat) (spurious : Bool) :
    ∃ batch : List Task,
      ((life.deque name).stealBatch spurious length).2 = batch.map some ∧
        batch.length = (if spurious then 0 else
          min ((u32Sub (life.deque name).m_bottom (life.deque name).m_top + 1) / 2)
            (u32 length)) ∧
        ((life.deque name).stealBatch spurious length).1.m_bottom =
          (life.deque name).m_bottom ∧
        (life.handOut name ((life.deque name).stealBatch spurious length).1
          (batch.map some)).Lists := by
  obtain ⟨list, held, represents⟩ := lists name
  have bottom := represents.bottom
  have short := few name
  rw [← held, Multiset.coe_card] at short
  cases spurious with
  | true =>
      rw [stealBatch_spurious]
      refine ⟨[], rfl, rfl, rfl, ?_⟩
      exact lists.handOut held (.refl list) represents
  | false =>
      obtain ⟨rest, batch, same⟩ := represents.stealBatch length (by omega)
      refine ⟨_, batch, ?_, same, ?_⟩
      · rw [u32Sub_of_le (by omega), bottom, Nat.add_sub_cancel_left, List.length_take]
        simp only [Bool.false_eq_true, ↓reduceIte]
        omega
      · refine lists.handOut held ?_ rest
        rw [reduceOption_map_some, List.take_append_drop]

theorem handOut_bottom {name destination : Name} {deque : ChaseLevDeque Task}
    (tasks : List (Option Task)) (same : deque.m_bottom = (life.deque name).m_bottom) :
    ((life.handOut name deque tasks).deque destination).m_bottom =
      (life.deque destination).m_bottom := by
  by_cases isName : destination = name
  · subst isName
    simpa [handOut] using same
  · simp [handOut, isName]

/-- The state after a step: lists, or a broken deque, as the bottom index wraps or not. -/
theorem Lists.perform (lists : life.Lists) (few : life.FewStored)
    (action : DequeAction Name Task) :
    life.NoWrap action ∧ (life.perform action).Lists ∨
      ¬ life.NoWrap action ∧ ∃ name,
        Broken ((life.perform action).deque name) ((life.perform action).held name) := by
  cases action with
  | pushBottom name task =>
      rcases Nat.lt_or_ge ((life.deque name).m_bottom + 1) (2 ^ 32) with narrow | wraps
      · exact .inl ⟨narrow, lists.pushBottom task narrow⟩
      · obtain ⟨list, -, represents⟩ := lists name
        refine .inr ⟨not_lt.mpr wraps, name, ?_⟩
        simpa [DequeLife.perform, DequeLife.pushBottom] using
          represents.broken task wraps (Multiset.cons_ne_zero (m := life.held name))
  | popBottom name =>
      obtain ⟨list, held, represents⟩ := lists name
      obtain ⟨rest, task, -⟩ := represents.popBottom
      refine .inl ⟨trivial, ?_⟩
      rw [perform_popBottom, task]
      refine lists.handOut held ?_ rest
      rcases list.eq_nil_or_concat with rfl | ⟨list, last, rfl⟩
      · simp [List.reduceOption]
      · simp [List.reduceOption]
  | stealTop name =>
      obtain ⟨list, held, represents⟩ := lists name
      obtain ⟨rest, task, -⟩ := represents.stealTop
      refine .inl ⟨trivial, ?_⟩
      rw [perform_stealTop, task]
      refine lists.handOut held ?_ rest
      cases list <;> simp [List.reduceOption]
  | stealBatch name length spurious =>
      obtain ⟨batch, tasks, -, -, rest⟩ := lists.stealBatch few name length spurious
      rw [← tasks] at rest
      exact .inl ⟨trivial, rest⟩
  | stealBatchInto name destination spurious =>
      obtain ⟨batch, tasks, count, same, rest⟩ := lists.stealBatch few name 128 spurious
      have bottom := @handOut_bottom _ _ _ _ life name destination _ (batch.map some) same
      simp only [DequeLife.perform, NoWrap, tasks]
      rw [u32_of_lt (by decide)] at count
      cases spurious with
      | true =>
          obtain rfl : batch = [] := List.length_eq_zero_iff.mp (by simpa using count)
          exact .inl ⟨.inl rfl, rest⟩
      | false =>
          simp only [Bool.false_eq_true, ↓reduceIte, false_or] at count ⊢
          rw [← count, ← bottom]
          rcases Nat.lt_or_ge (_ + batch.length) (2 ^ 32) with narrow | wraps
          · exact .inl ⟨narrow, rest.pushAll batch narrow⟩
          · exact .inr ⟨not_lt.mpr wraps, destination, rest.broken_of_pushAll batch wraps⟩

/-- A run in which no push begins with the greatest bottom index stays among the lists. -/
theorem lists_of_reachable
    (reachable : (machine Name Task).ReachableBy
      (fun life action => (life.perform action).FewStored ∧ life.NoWrap action) life) :
    life.Lists ∧ life.FewStored := by
  induction reachable with
  | start initial =>
      obtain ⟨initialCapacity, rfl⟩ := initial
      exact ⟨fun name => ⟨[], rfl, .create (initialCapacity name)⟩,
        fun name => Nat.two_pow_pos 31⟩
  | step before allowed stepped ih =>
      cases stepped
      obtain ⟨-, next⟩ | ⟨wraps, -⟩ := ih.1.perform ih.2 _
      · exact ⟨next, allowed.1⟩
      · exact absurd allowed.2 wraps

/-- Deques of fewer than `2 ^ 31` tasks are sound in every state of every run in which no push
begins with the greatest bottom index, and the first push that does leaves one that is not. -/
theorem sound_iff_noWrap
    (reachable : (machine Name Task).ReachableBy
      (fun life action => (life.perform action).FewStored ∧ life.NoWrap action) life) :
    (∀ name, Sound (life.deque name) (life.held name)) ∧
      ∀ action, (life.perform action).FewStored →
        ((∀ name, Sound ((life.perform action).deque name) ((life.perform action).held name)) ↔
          life.NoWrap action) := by
  obtain ⟨lists, few⟩ := lists_of_reachable reachable
  refine ⟨lists.sound few, fun action fewNext => ?_⟩
  obtain ⟨noWrap, next⟩ | ⟨wraps, name, broken⟩ := lists.perform few action
  · exact iff_of_true (next.sound fewNext) noWrap
  · exact iff_of_false (fun all => broken.not_sound (all name)) wraps

/-- A deque that has just got its first task. -/
theorem sound_iff_noWrap_first :
    let life := (create fun _ => 16 : DequeLife Unit Nat).perform (.pushBottom () 7)
    Sound (life.deque ()) (life.held ()) ∧
      ∀ name, Sound ((life.perform (.popBottom ())).deque name)
        ((life.perform (.popBottom ())).held name) := by
  intro life
  have held : life.held () = {7} := by simp [life, perform, DequeLife.pushBottom, create]
  have few : life.FewStored := by
    intro name
    rw [held]
    decide
  have noWrap : (create fun _ => 16 : DequeLife Unit Nat).NoWrap (.pushBottom () 7) := by
    change 0 + 1 < 2 ^ 32
    decide
  have reachable : (machine Unit Nat).ReachableBy
      (fun life action => (life.perform action).FewStored ∧ life.NoWrap action) life :=
    .step (.start ⟨fun _ => 16, rfl⟩) ⟨few, noWrap⟩ rfl
  obtain ⟨sound, next⟩ := sound_iff_noWrap reachable
  refine ⟨sound (), (next (.popBottom ()) fun name => ?_).mpr trivial⟩
  refine (Multiset.card_le_card (Multiset.sub_le_self _ _)).trans_lt ?_
  simpa [perform, handOut] using few name

/-- A deque that was used again and again, one task at a time. -/
theorem exists_emptied (rounds : Nat) (narrow : rounds < 2 ^ 32) :
    ∃ life, (machine Unit Nat).ReachableBy (fun life action => (life.perform action).FewStored)
        life ∧
      Represents (life.deque ()) [] ∧ (life.deque ()).m_bottom = rounds ∧ life.held () = 0 := by
  induction rounds with
  | zero =>
      exact ⟨_, .start ⟨fun _ => 16, rfl⟩, .create 16, rfl, rfl⟩
  | succ rounds ih =>
      obtain ⟨life, reachable, represents, bottom, held⟩ := ih (by omega)
      obtain ⟨one, next⟩ := represents.pushBottom 7 (by omega)
      obtain ⟨none, task, same⟩ := one.stealTop
      have pushed : (life.perform (.pushBottom () 7)).held () = {7} := by
        simp [perform, DequeLife.pushBottom, held]
      have deque : (life.perform (.pushBottom () 7)).deque () =
          (life.deque ()).pushBottom (some 7) := by
        simp [perform, DequeLife.pushBottom]
      have stolen : ((life.perform (.pushBottom () 7)).perform (.stealTop ())).held () = 0 := by
        rw [perform_stealTop, deque, task]
        simp [handOut, pushed, List.reduceOption]
      have left : ((life.perform (.pushBottom () 7)).perform (.stealTop ())).deque () =
          ((life.deque ()).pushBottom (some 7)).stealTop.1 := by
        rw [perform_stealTop, deque]
        simp [handOut]
      refine ⟨_, .step (.step reachable (fun name => ?_) rfl) (fun name => ?_) rfl, ?_, ?_, stolen⟩
      · rw [pushed]
        decide
      · rw [stolen]
        decide
      · rw [left]
        exact none
      · rw [left, same, next, bottom]

/-- A task that is pushed when the bottom index is greatest is stored in a deque that takes itself
for empty. -/
theorem task_is_lost :
    ¬ ∀ life : DequeLife Unit Nat,
      (machine Unit Nat).ReachableBy (fun life action => (life.perform action).FewStored) life →
        ∀ name, Sound (life.deque name) (life.held name) := by
  intro all
  obtain ⟨life, reachable, represents, bottom, held⟩ := exists_emptied (2 ^ 32 - 1) (by decide)
  have pushed : (life.perform (.pushBottom () 7)).held () = {7} := by
    simp [perform, DequeLife.pushBottom, held]
  have few : (life.perform (.pushBottom () 7)).FewStored := by
    intro name
    rw [pushed]
    decide
  have sound := all _ (.step reachable few rfl) ()
  have broken := represents.broken 7 (by omega) (Multiset.singleton_ne_zero 7)
  refine broken.not_sound ?_
  rw [pushed] at sound
  simpa [perform, DequeLife.pushBottom] using sound

end DequeLife

end LightFlow
