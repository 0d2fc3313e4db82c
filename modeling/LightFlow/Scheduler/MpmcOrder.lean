import LightFlow.Scheduler.MpmcQueue
import Mathlib.Data.Nat.ModEq

/-!
# Each task leaves the bounded queue once, in order

The sequence number of a cell goes from a position that is free to one that is ready and on to the
same cell one lap later.  A thread that has claimed a position keeps its cell to itself until the
sequence number moves on, and a position is claimed for a cell only after the lap before it is over.
-/

namespace LightFlow

universe u

variable {Task : Type u} {size : MpmcSize}

/-! ## What the history says of a position -/

/-- A task was stored at the position, and the cell published. -/
def Published (log : List (MpmcEvent Task)) (pos : Nat) : Prop :=
  ∃ task, .enqueued pos task ∈ log

/-- The task of the position was taken, and the cell released. -/
def Released (log : List (MpmcEvent Task)) (pos : Nat) : Prop :=
  ∃ task, .dequeued pos task ∈ log

def MpmcEvent.enqueues (pos : Nat) : MpmcEvent Task → Bool
  | .enqueued other _ => other = pos
  | _ => false

def MpmcEvent.dequeues (pos : Nat) : MpmcEvent Task → Bool
  | .dequeued other _ => other = pos
  | _ => false

/-- How often `tryEnqueue` returned true for the position. -/
def enqueuedAt (log : List (MpmcEvent Task)) (pos : Nat) : Nat :=
  log.countP (·.enqueues pos)

/-- How often `tryDequeue` returned the task of the position. -/
def dequeuedAt (log : List (MpmcEvent Task)) (pos : Nat) : Nat :=
  log.countP (·.dequeues pos)

/-- Events that hand nothing over. -/
def MpmcEvent.isQuiet : MpmcEvent Task → Bool
  | .enqueued _ _ | .dequeued _ _ => false
  | _ => true

theorem published_iff {log : List (MpmcEvent Task)} {pos : Nat} :
    Published log pos ↔ 0 < enqueuedAt log pos := by
  rw [enqueuedAt, List.countP_pos_iff, Published]
  constructor
  · rintro ⟨task, member⟩
    exact ⟨_, member, by simp [MpmcEvent.enqueues]⟩
  · rintro ⟨event, member, isHere⟩
    cases event with
    | enqueued other task =>
        obtain rfl : other = pos := by simpa [MpmcEvent.enqueues] using isHere
        exact ⟨task, member⟩
    | _ => cases isHere

theorem released_iff {log : List (MpmcEvent Task)} {pos : Nat} :
    Released log pos ↔ 0 < dequeuedAt log pos := by
  rw [dequeuedAt, List.countP_pos_iff, Released]
  constructor
  · rintro ⟨task, member⟩
    exact ⟨_, member, by simp [MpmcEvent.dequeues]⟩
  · rintro ⟨event, member, isHere⟩
    cases event with
    | dequeued other task =>
        obtain rfl : other = pos := by simpa [MpmcEvent.dequeues] using isHere
        exact ⟨task, member⟩
    | _ => cases isHere

theorem Published.mono {log longer : List (MpmcEvent Task)} {pos : Nat} (subset : log ⊆ longer) :
    Published log pos → Published longer pos :=
  Exists.imp fun _ member => subset member

theorem Released.mono {log longer : List (MpmcEvent Task)} {pos : Nat} (subset : log ⊆ longer) :
    Released log pos → Released longer pos :=
  Exists.imp fun _ member => subset member

/-! ## Where the threads are -/

namespace MpmcCall

/-- The call has claimed the position to store a task. -/
def enqueues (pos : Nat) : MpmcCall Task → Nat
  | .storing _ claimed | .publishing _ claimed => if claimed = pos then 1 else 0
  | _ => 0

/-- The call has claimed the position to take its task. -/
def dequeues (pos : Nat) : MpmcCall Task → Nat
  | .taking claimed | .clearing claimed _ | .releasing claimed _ => if claimed = pos then 1 else 0
  | _ => 0

/-- The call has not claimed a position yet. -/
def unclaimed : MpmcCall Task → Nat
  | .enqueueLoading _ | .enqueueChecking _ _ | .enqueueExchanging _ _ => 1
  | .dequeueLoading | .dequeueChecking _ | .dequeueExchanging _ => 1
  | _ => 0

/-- The position that the call has claimed, and the sequence number of its cell. -/
def claim : MpmcCall Task → Option (Nat × Nat)
  | .storing _ pos | .publishing _ pos => some (pos, pos)
  | .taking pos | .clearing pos _ | .releasing pos _ => some (pos, pos + 1)
  | _ => none

/-- What a call knows of the cell that it is at. -/
def Knows (size : MpmcSize) (shared : MpmcShared Task) : MpmcCall Task → Prop
  | .enqueueChecking _ pos => pos < 2 ^ 63
  | .dequeueChecking pos => pos + 1 < 2 ^ 63
  | .enqueueExchanging _ pos =>
      size.m_capacity ≤ pos → Released shared.log (pos - size.m_capacity)
  | .dequeueExchanging pos => Published shared.log pos
  | .storing _ pos => shared.queue.cell size pos = ⟨pos, none⟩
  | .publishing task pos => shared.queue.cell size pos = ⟨pos, some task⟩
  | .taking pos => ∃ task, .enqueued pos task ∈ shared.log ∧
      shared.queue.cell size pos = ⟨pos + 1, some task⟩
  | .clearing pos taken => ∃ task, taken = some task ∧ .enqueued pos task ∈ shared.log ∧
      shared.queue.cell size pos = ⟨pos + 1, some task⟩
  | .releasing pos taken => ∃ task, taken = some task ∧ .enqueued pos task ∈ shared.log ∧
      shared.queue.cell size pos = ⟨pos + 1, none⟩
  | _ => True

theorem Knows.sequence {shared : MpmcShared Task} {call : MpmcCall Task} {pos sequence : Nat}
    (knows : call.Knows size shared) (isClaim : call.claim = some (pos, sequence)) :
    (shared.queue.cell size pos).sequence = sequence := by
  cases call with
  | storing | publishing =>
      cases isClaim
      rw [show shared.queue.cell size pos = _ from knows]
  | taking =>
      cases isClaim
      obtain ⟨_, -, isCell⟩ := knows
      rw [isCell]
  | clearing | releasing =>
      cases isClaim
      obtain ⟨_, -, -, isCell⟩ := knows
      rw [isCell]
  | _ => cases isClaim

/-- What a call knows stays true while the log grows and its cell is left alone. -/
theorem Knows.mono {shared next : MpmcShared Task} {call : MpmcCall Task}
    (knows : call.Knows size shared) (subset : shared.log ⊆ next.log)
    (same : ∀ pos sequence, call.claim = some (pos, sequence) →
      next.queue.cell size pos = shared.queue.cell size pos) : call.Knows size next := by
  cases call with
  | enqueueChecking | dequeueChecking => exact knows
  | enqueueExchanging => exact fun later => Released.mono subset (knows later)
  | dequeueExchanging => exact Published.mono subset knows
  | storing | publishing => exact (same _ _ rfl).trans knows
  | taking =>
      obtain ⟨task, stored, isCell⟩ := knows
      exact ⟨task, subset stored, (same _ _ rfl).trans isCell⟩
  | clearing | releasing =>
      obtain ⟨task, taken, stored, isCell⟩ := knows
      exact ⟨task, taken, subset stored, (same _ _ rfl).trans isCell⟩
  | _ => trivial

end MpmcCall

/-! ## Cells -/

theorem QueueCell.eq_mk {cell : QueueCell Task} {sequence : Nat} {task : Option Task}
    (atSequence : cell.sequence = sequence) (atTask : cell.task = task) :
    cell = ⟨sequence, task⟩ := by
  subst atSequence atTask
  rfl

namespace MpmcTaskQueue

variable {queue : MpmcTaskQueue Task} {pos other : Nat} {cell : QueueCell Task}

theorem cell_congr (same : other ≡ pos [MOD size.m_capacity]) :
    queue.cell size other = queue.cell size pos := by
  rw [MpmcTaskQueue.cell, size.and_mask, same, ← size.and_mask, ← MpmcTaskQueue.cell]

theorem cell_setCell_of_modEq (same : other ≡ pos [MOD size.m_capacity]) :
    (queue.setCell size pos cell).cell size other = cell := by
  rw [cell_congr same, setCell, MpmcTaskQueue.cell]
  exact Function.update_self ..

theorem cell_setCell_of_not (different : ¬ other ≡ pos [MOD size.m_capacity]) :
    (queue.setCell size pos cell).cell size other = queue.cell size other := by
  rw [setCell, MpmcTaskQueue.cell, MpmcTaskQueue.cell]
  refine Function.update_of_ne (fun same => different ?_) _ _
  rwa [size.and_mask, size.and_mask] at same

end MpmcTaskQueue

/-- A position and the next one have different cells. -/
theorem MpmcSize.not_modEq_succ (pos : Nat) : ¬ pos + 1 ≡ pos [MOD size.m_capacity] := by
  intro same
  have lap := Nat.ModEq.add_le_of_lt same.symm (Nat.lt_succ_self pos)
  have := size.sixteen_le
  omega

/-! ## The law of the queue -/

/-- What sequence numbers say about the history. -/
structure SequenceLaw (size : MpmcSize) (queue : MpmcTaskQueue Task)
    (log : List (MpmcEvent Task)) : Prop where
  published : ∀ pos < queue.m_dequeuePos, Published log pos
  released : ∀ pos, pos + size.m_capacity < queue.m_enqueuePos → Released log pos
  bounded : ∀ pos, (queue.cell size pos).sequence ≤ queue.m_dequeuePos + size.m_capacity
  free : ∀ pos, (queue.cell size pos).sequence = pos → size.m_capacity ≤ pos →
    Released log (pos - size.m_capacity)
  ready : ∀ pos, (queue.cell size pos).sequence = pos + 1 → Published log pos
  notBefore : ∀ pos, (size.m_capacity ≤ pos → Released log (pos - size.m_capacity)) →
    pos ≤ (queue.cell size pos).sequence
  notReady : ∀ pos, Published log pos → pos + 1 ≤ (queue.cell size pos).sequence
  ahead : ∀ pos, queue.m_enqueuePos ≤ pos → (queue.cell size pos).sequence ≤ pos
  unread : ∀ pos, queue.m_dequeuePos ≤ pos → (queue.cell size pos).sequence ≤ pos + 1

theorem SequenceLaw.congr {queue : MpmcTaskQueue Task} {log other : List (MpmcEvent Task)}
    (law : SequenceLaw size queue log) (published : ∀ pos, Published other pos ↔ Published log pos)
    (released : ∀ pos, Released other pos ↔ Released log pos) : SequenceLaw size queue other where
  published := fun pos early => (published pos).mpr (law.published pos early)
  released := fun pos early => (released pos).mpr (law.released pos early)
  bounded := law.bounded
  free := fun pos isFree later => (released _).mpr (law.free pos isFree later)
  ready := fun pos isReady => (published pos).mpr (law.ready pos isReady)
  notBefore := fun pos before => law.notBefore pos fun later => (released _).mp (before later)
  notReady := fun pos isStored => law.notReady pos ((published pos).mp isStored)
  ahead := law.ahead
  unread := law.unread

/-- When one cell changes, only its positions are to be looked at. -/
theorem SequenceLaw.setCell {queue : MpmcTaskQueue Task} {log longer : List (MpmcEvent Task)}
    (law : SequenceLaw size queue log) {pos : Nat} {cell : QueueCell Task} (subset : log ⊆ longer)
    (published : ∀ other, ¬ other ≡ pos [MOD size.m_capacity] → Published longer other →
      Published log other)
    (released : ∀ other, ¬ other ≡ pos [MOD size.m_capacity] → size.m_capacity ≤ other →
      Released longer (other - size.m_capacity) → Released log (other - size.m_capacity))
    (bounded : cell.sequence ≤ queue.m_dequeuePos + size.m_capacity)
    (free : cell.sequence ≡ pos [MOD size.m_capacity] → size.m_capacity ≤ cell.sequence →
      Released longer (cell.sequence - size.m_capacity))
    (ready : ∀ other, other ≡ pos [MOD size.m_capacity] → cell.sequence = other + 1 →
      Published longer other)
    (notBefore : ∀ other, other ≡ pos [MOD size.m_capacity] →
      (size.m_capacity ≤ other → Released longer (other - size.m_capacity)) →
        other ≤ cell.sequence)
    (notReady : ∀ other, other ≡ pos [MOD size.m_capacity] → Published longer other →
      other + 1 ≤ cell.sequence)
    (ahead : ∀ other, other ≡ pos [MOD size.m_capacity] → queue.m_enqueuePos ≤ other →
      cell.sequence ≤ other)
    (unread : ∀ other, other ≡ pos [MOD size.m_capacity] → queue.m_dequeuePos ≤ other →
      cell.sequence ≤ other + 1) : SequenceLaw size (queue.setCell size pos cell) longer where
  published := fun other early => (law.published other early).mono subset
  released := fun other early => (law.released other early).mono subset
  bounded := fun other => by
    by_cases same : other ≡ pos [MOD size.m_capacity]
    · rw [MpmcTaskQueue.cell_setCell_of_modEq same]
      exact bounded
    · rw [MpmcTaskQueue.cell_setCell_of_not same]
      exact law.bounded other
  free := fun other isFree => by
    by_cases same : other ≡ pos [MOD size.m_capacity]
    · rw [MpmcTaskQueue.cell_setCell_of_modEq same] at isFree
      subst isFree
      exact free same
    · rw [MpmcTaskQueue.cell_setCell_of_not same] at isFree
      exact fun later => (law.free other isFree later).mono subset
  ready := fun other isReady => by
    by_cases same : other ≡ pos [MOD size.m_capacity]
    · rw [MpmcTaskQueue.cell_setCell_of_modEq same] at isReady
      exact ready other same isReady
    · rw [MpmcTaskQueue.cell_setCell_of_not same] at isReady
      exact (law.ready other isReady).mono subset
  notBefore := fun other before => by
    by_cases same : other ≡ pos [MOD size.m_capacity]
    · rw [MpmcTaskQueue.cell_setCell_of_modEq same]
      exact notBefore other same before
    · rw [MpmcTaskQueue.cell_setCell_of_not same]
      exact law.notBefore other fun later => released other same later (before later)
  notReady := fun other isStored => by
    by_cases same : other ≡ pos [MOD size.m_capacity]
    · rw [MpmcTaskQueue.cell_setCell_of_modEq same]
      exact notReady other same isStored
    · rw [MpmcTaskQueue.cell_setCell_of_not same]
      exact law.notReady other (published other same isStored)
  ahead := fun other later => by
    by_cases same : other ≡ pos [MOD size.m_capacity]
    · rw [MpmcTaskQueue.cell_setCell_of_modEq same]
      exact ahead other same later
    · rw [MpmcTaskQueue.cell_setCell_of_not same]
      exact law.ahead other later
  unread := fun other later => by
    by_cases same : other ≡ pos [MOD size.m_capacity]
    · rw [MpmcTaskQueue.cell_setCell_of_modEq same]
      exact unread other same later
    · rw [MpmcTaskQueue.cell_setCell_of_not same]
      exact law.unread other later

/-- The queue, its history and the threads belong together. -/
structure MpmcLaw (size : MpmcSize) (shared : MpmcShared Task) (pool : Multiset (MpmcCall Task)) :
    Prop where
  counted : shared.queue.m_enqueuePos + shared.queue.m_dequeuePos +
    (pool.map (·.unclaimed)).sum ≤ shared.calls
  few : shared.calls < 2 ^ 63
  ordered : shared.queue.m_dequeuePos ≤ shared.queue.m_enqueuePos
  enqueued : ∀ pos, enqueuedAt shared.log pos + (pool.map (·.enqueues pos)).sum =
    if pos < shared.queue.m_enqueuePos then 1 else 0
  dequeued : ∀ pos, dequeuedAt shared.log pos + (pool.map (·.dequeues pos)).sum =
    if pos < shared.queue.m_dequeuePos then 1 else 0
  sequences : SequenceLaw size shared.queue shared.log
  knows : ∀ call ∈ pool, call.Knows size shared
  /-- A cell that is free holds no task. -/
  vacant : ∀ pos, shared.queue.m_enqueuePos ≤ pos → (shared.queue.cell size pos).sequence = pos →
    (shared.queue.cell size pos).task = none
  /-- A cell holds the task of its position until that is claimed. -/
  stored : ∀ pos task, shared.queue.m_dequeuePos ≤ pos → .enqueued pos task ∈ shared.log →
    (shared.queue.cell size pos).task = some task
  taken : ∀ pos taken, .dequeued pos taken ∈ shared.log →
    ∃ task, taken = some task ∧ .enqueued pos task ∈ shared.log
  refused : ∀ later pos earlier, shared.log = later ++ .full pos :: earlier →
    size.m_capacity ≤ pos ∧ ¬ Released earlier (pos - size.m_capacity)
  missed : ∀ later pos earlier, shared.log = later ++ .empty pos :: earlier →
    ¬ Published earlier pos

namespace MpmcLaw

variable {shared : MpmcShared Task} {here : MpmcCall Task} {rest pool : Multiset (MpmcCall Task)}

theorem initial (fresh : shared.Fresh) (idle : ∀ call ∈ pool, call = .idle) :
    MpmcLaw size shared pool := by
  obtain ⟨isNew, noLog⟩ := fresh
  have none (weight : MpmcCall Task → Nat) (zero : weight .idle = 0) :
      (pool.map weight).sum = 0 := Program.sum_idle idle zero
  have sequence (pos : Nat) : (shared.queue.cell size pos).sequence = pos % size.m_capacity := by
    rw [isNew, MpmcTaskQueue.cell, size.and_mask]
    rfl
  have below (pos : Nat) : pos % size.m_capacity < size.m_capacity :=
    Nat.mod_lt _ (by have := size.sixteen_le; omega)
  have start : shared.queue.m_enqueuePos = 0 ∧ shared.queue.m_dequeuePos = 0 := by
    rw [isNew]
    exact ⟨rfl, rfl⟩
  have noCalls : shared.calls = 0 := by
    rw [MpmcShared.calls, noLog]
    rfl
  refine
    { counted := ?_, few := ?_, ordered := ?_, enqueued := fun pos => ?_, dequeued := fun pos => ?_
      sequences := ?_, knows := fun call member => ?_, vacant := fun pos _ _ => ?_
      stored := fun pos task _ member => ?_, taken := fun pos task member => ?_
      refused := fun later pos earlier split => ?_, missed := fun later pos earlier split => ?_ }
  · rw [none _ rfl, start.1, start.2]
    exact Nat.zero_le _
  · rw [noCalls]
    decide
  · rw [start.1, start.2]
  · rw [none _ rfl, noLog, start.1]
    simp [enqueuedAt]
  · rw [none _ rfl, noLog, start.2]
    simp [dequeuedAt]
  · refine
      { published := fun pos early => ?_, released := fun pos early => ?_, bounded := fun pos => ?_
        free := fun pos isFree later => ?_, ready := fun pos isReady => ?_
        notBefore := fun pos before => ?_, notReady := fun pos isStored => ?_
        ahead := fun pos _ => ?_, unread := fun pos _ => ?_ }
    · omega
    · omega
    · rw [sequence]
      exact (below pos).le.trans (Nat.le_add_left _ _)
    · rw [sequence] at isFree
      have := below pos
      omega
    · rw [sequence] at isReady
      have := Nat.mod_le pos size.m_capacity
      omega
    · rw [sequence]
      by_cases later : size.m_capacity ≤ pos
      · obtain ⟨task, member⟩ := before later
        rw [noLog] at member
        cases member
      · rw [Nat.mod_eq_of_lt (Nat.lt_of_not_le later)]
    · obtain ⟨task, member⟩ := isStored
      rw [noLog] at member
      cases member
    · rw [sequence]
      exact Nat.mod_le _ _
    · rw [sequence]
      exact (Nat.mod_le _ _).trans (Nat.le_succ pos)
  · obtain rfl := idle call member
    trivial
  · rw [isNew]
    rfl
  · rw [noLog] at member
    cases member
  · rw [noLog] at member
    cases member
  · rw [noLog] at split
    simp at split
  · rw [noLog] at split
    simp at split

/-- The sequence numbers and positions stay below 2^63. -/
theorem sequence_lt (law : MpmcLaw size shared pool) (pos : Nat) :
    (shared.queue.cell size pos).sequence < 2 ^ 63 := by
  have bounded := law.sequences.bounded pos
  have counted := law.counted
  have few := law.few
  have ordered := law.ordered
  have := size.m_capacity_lt
  omega

theorem enqueues_le (law : MpmcLaw size shared pool) (pos : Nat) :
    enqueuedAt shared.log pos + (pool.map (·.enqueues pos)).sum ≤ 1 := by
  rw [law.enqueued]
  split <;> simp

theorem dequeues_le (law : MpmcLaw size shared pool) (pos : Nat) :
    dequeuedAt shared.log pos + (pool.map (·.dequeues pos)).sum ≤ 1 := by
  rw [law.dequeued]
  split <;> simp

theorem lt_of_published (law : MpmcLaw size shared pool) {pos : Nat}
    (isStored : Published shared.log pos) : pos < shared.queue.m_enqueuePos := by
  have counted := law.enqueued pos
  have positive := published_iff.mp isStored
  split at counted
  next before => exact before
  next => omega

theorem lt_of_released (law : MpmcLaw size shared pool) {pos : Nat}
    (isTaken : Released shared.log pos) : pos < shared.queue.m_dequeuePos := by
  have counted := law.dequeued pos
  have positive := released_iff.mp isTaken
  split at counted
  next before => exact before
  next => omega

/-- A position that is stored at is not claimed before the lap before it was taken. -/
theorem not_lap (law : MpmcLaw size shared pool) {pos other : Nat}
    (unread : shared.queue.m_dequeuePos ≤ pos) (claimed : other < shared.queue.m_enqueuePos)
    (same : pos ≡ other [MOD size.m_capacity]) : other ≤ pos := by
  by_contra before
  have lap := Nat.ModEq.add_le_of_lt same (Nat.lt_of_not_le before)
  have taken := law.lt_of_released (law.sequences.released pos (by omega))
  omega

theorem enqueues_of_claim {call : MpmcCall Task} {pos : Nat}
    (isClaim : call.claim = some (pos, pos)) : call.enqueues pos = 1 := by
  cases call <;> simp_all [MpmcCall.claim, MpmcCall.enqueues] <;> omega

theorem dequeues_of_claim {call : MpmcCall Task} {pos : Nat}
    (isClaim : call.claim = some (pos, pos + 1)) : call.dequeues pos = 1 := by
  cases call <;> simp_all [MpmcCall.claim, MpmcCall.dequeues] <;> omega

theorem claim_cases {call : MpmcCall Task} {pos sequence : Nat}
    (isClaim : call.claim = some (pos, sequence)) : sequence = pos ∨ sequence = pos + 1 := by
  cases call <;> cases isClaim <;> simp

/-- Two calls do not claim the same cell. -/
theorem apart (law : MpmcLaw size shared (here ::ₘ rest)) {pos sequence : Nat}
    (isClaim : here.claim = some (pos, sequence)) {call : MpmcCall Task} (member : call ∈ rest)
    {other otherSequence : Nat} (otherClaim : call.claim = some (other, otherSequence)) :
    ¬ other ≡ pos [MOD size.m_capacity] := by
  intro same
  have knows := (law.knows here (Multiset.mem_cons_self _ _)).sequence isClaim
  have otherKnows := (law.knows call (Multiset.mem_cons_of_mem member)).sequence otherClaim
  rw [MpmcTaskQueue.cell_congr same, knows] at otherKnows
  have enqueues := law.enqueues_le pos
  have dequeues := law.dequeues_le pos
  rw [Multiset.map_cons, Multiset.sum_cons] at enqueues dequeues
  have counted (weight : MpmcCall Task → Nat) : weight call ≤ (rest.map weight).sum :=
    Multiset.le_sum_of_mem (Multiset.mem_map_of_mem weight member)
  rcases claim_cases isClaim with rfl | rfl <;> rcases claim_cases otherClaim with rfl | rfl
  · subst otherKnows
    have := counted (·.enqueues sequence)
    rw [enqueues_of_claim isClaim] at enqueues
    rw [enqueues_of_claim otherClaim] at this
    omega
  · exact size.not_modEq_succ other (otherKnows ▸ same.symm)
  · exact size.not_modEq_succ pos (otherKnows ▸ same)
  · obtain rfl : pos = other := Nat.succ_injective otherKnows
    have := counted (·.dequeues pos)
    rw [dequeues_of_claim isClaim] at dequeues
    rw [dequeues_of_claim otherClaim] at this
    omega

/-! ## One step -/

theorem moved (law : MpmcLaw size shared (here ::ₘ rest)) {moved : MpmcCall Task}
    (enqueues : ∀ pos, moved.enqueues pos = here.enqueues pos)
    (dequeues : ∀ pos, moved.dequeues pos = here.dequeues pos)
    (unclaimed : moved.unclaimed ≤ here.unclaimed) (knows : moved.Knows size shared) :
    MpmcLaw size shared (moved ::ₘ rest) :=
  { law with
    counted := by
      have counted := law.counted
      rw [Multiset.map_cons, Multiset.sum_cons] at counted ⊢
      omega
    enqueued := fun pos => by
      have enqueued := law.enqueued pos
      rw [Multiset.map_cons, Multiset.sum_cons, ← enqueues] at enqueued
      rwa [Multiset.map_cons, Multiset.sum_cons]
    dequeued := fun pos => by
      have dequeued := law.dequeued pos
      rw [Multiset.map_cons, Multiset.sum_cons, ← dequeues] at dequeued
      rwa [Multiset.map_cons, Multiset.sum_cons]
    knows := (Multiset.forall_mem_cons).mpr
      ⟨knows, fun call member => law.knows call (Multiset.mem_cons_of_mem member)⟩ }

theorem record (law : MpmcLaw size shared (here ::ₘ rest)) {moved : MpmcCall Task}
    {event : MpmcEvent Task} (quiet : event.isQuiet = true)
    (few : (shared.record event).calls < 2 ^ 63)
    (enqueues : ∀ pos, moved.enqueues pos = here.enqueues pos)
    (dequeues : ∀ pos, moved.dequeues pos = here.dequeues pos)
    (unclaimed : moved.unclaimed + shared.calls ≤ here.unclaimed + (shared.record event).calls)
    (knows : moved.Knows size shared)
    (full : ∀ pos, event = .full pos →
      size.m_capacity ≤ pos ∧ ¬ Released shared.log (pos - size.m_capacity))
    (empty : ∀ pos, event = .empty pos → ¬ Published shared.log pos) :
    MpmcLaw size (shared.record event) (moved ::ₘ rest) := by
  have longer : shared.log ⊆ (shared.record event).log := List.subset_cons_self ..
  have old {other : MpmcEvent Task} (loud : other.isQuiet = false) :
      other ∈ (shared.record event).log → other ∈ shared.log := by
    intro member
    rcases List.mem_cons.mp member with rfl | before
    · rw [quiet] at loud
      cases loud
    · exact before
  have published (pos : Nat) : Published (shared.record event).log pos ↔ Published shared.log pos :=
    ⟨Exists.imp fun _ => old rfl, Published.mono longer⟩
  have released (pos : Nat) : Released (shared.record event).log pos ↔ Released shared.log pos :=
    ⟨Exists.imp fun _ => old rfl, Released.mono longer⟩
  have noEnqueue (pos : Nat) : enqueuedAt (shared.record event).log pos =
      enqueuedAt shared.log pos :=
    List.countP_cons_of_neg (by cases event <;> simp_all [MpmcEvent.isQuiet, MpmcEvent.enqueues])
  have noDequeue (pos : Nat) : dequeuedAt (shared.record event).log pos =
      dequeuedAt shared.log pos :=
    List.countP_cons_of_neg (by cases event <;> simp_all [MpmcEvent.isQuiet, MpmcEvent.dequeues])
  refine
    { few, ordered := law.ordered, vacant := law.vacant
      counted := ?_
      enqueued := fun pos => ?_
      dequeued := fun pos => ?_
      sequences := law.sequences.congr published released
      knows := (Multiset.forall_mem_cons).mpr
        ⟨knows.mono longer fun _ _ _ => rfl, fun call member =>
          (law.knows call (Multiset.mem_cons_of_mem member)).mono longer fun _ _ _ => rfl⟩
      stored := fun pos task unread member => law.stored pos task unread (old rfl member)
      taken := fun pos taken member => ?_
      refused := fun later pos earlier split => ?_
      missed := fun later pos earlier split => ?_ }
  · have counted := law.counted
    rw [Multiset.map_cons, Multiset.sum_cons] at counted ⊢
    simp only [MpmcShared.record] at unclaimed ⊢
    omega
  · have enqueued := law.enqueued pos
    rw [Multiset.map_cons, Multiset.sum_cons, ← enqueues] at enqueued
    rwa [noEnqueue, Multiset.map_cons, Multiset.sum_cons]
  · have dequeued := law.dequeued pos
    rw [Multiset.map_cons, Multiset.sum_cons, ← dequeues] at dequeued
    rwa [noDequeue, Multiset.map_cons, Multiset.sum_cons]
  · obtain ⟨task, isTask, member⟩ := law.taken pos taken (old rfl member)
    exact ⟨task, isTask, longer member⟩
  · cases later with
    | nil =>
        obtain ⟨isEvent, rfl⟩ := List.cons.inj split
        exact full pos isEvent
    | cons _ later => exact law.refused later pos earlier (List.cons.inj split).2
  · cases later with
    | nil =>
        obtain ⟨isEvent, rfl⟩ := List.cons.inj split
        exact empty pos isEvent
    | cons _ later => exact law.missed later pos earlier (List.cons.inj split).2

/-- The compare-exchange of `m_enqueuePos` gives its position to one producer. -/
theorem claimEnqueue {task : Task} {pos : Nat}
    (law : MpmcLaw size shared (.enqueueExchanging task pos ::ₘ rest))
    (isPos : shared.queue.m_enqueuePos = pos) :
    MpmcLaw size { shared with queue := { shared.queue with m_enqueuePos := u64 (pos + 1) } }
      (.storing task pos ::ₘ rest) := by
  have knows := law.knows _ (Multiset.mem_cons_self _ _)
  have counted := law.counted
  rw [Multiset.map_cons, Multiset.sum_cons, MpmcCall.unclaimed] at counted
  have few := law.few
  rw [u64_of_lt (by omega)]
  have atPos : (shared.queue.cell size pos).sequence = pos :=
    Nat.le_antisymm (law.sequences.ahead pos isPos.le) (law.sequences.notBefore pos knows)
  have isFree : shared.queue.cell size pos = ⟨pos, none⟩ :=
    QueueCell.eq_mk atPos (law.vacant pos isPos.le atPos)
  refine
    { law with
      counted := ?_
      ordered := ?_
      enqueued := fun other => ?_
      dequeued := fun other => ?_
      sequences :=
        { law.sequences with
          released := fun other early => ?_
          ahead := fun other later => ?_ }
      knows := (Multiset.forall_mem_cons).mpr ⟨isFree, fun call member =>
        (law.knows call (Multiset.mem_cons_of_mem member)).mono (List.Subset.refl _)
          fun _ _ _ => rfl⟩
      vacant := fun other later => law.vacant other ?_ }
  · simp only [Multiset.map_cons, Multiset.sum_cons, MpmcCall.unclaimed, MpmcShared.calls]
      at counted ⊢
    omega
  · have ordered := law.ordered
    simp only
    omega
  · have enqueued := law.enqueued other
    rw [Multiset.map_cons, Multiset.sum_cons] at enqueued ⊢
    simp only [MpmcCall.enqueues] at enqueued ⊢
    split at enqueued <;> split <;> split <;> omega
  · have dequeued := law.dequeued other
    rw [Multiset.map_cons, Multiset.sum_cons] at dequeued ⊢
    exact dequeued
  · rcases Nat.lt_or_ge (other + size.m_capacity) pos with before | after
    · exact law.sequences.released other (isPos ▸ before)
    · obtain rfl : other = pos - size.m_capacity := by
        simp only at early
        omega
      exact knows (by simp only at early; omega)
  · exact law.sequences.ahead other (by simp only at later; omega)
  · simp only at later
    omega

/-- The compare-exchange of `m_dequeuePos` gives its position to one consumer. -/
theorem claimDequeue {pos : Nat} (law : MpmcLaw size shared (.dequeueExchanging pos ::ₘ rest))
    (isPos : shared.queue.m_dequeuePos = pos) :
    MpmcLaw size { shared with queue := { shared.queue with m_dequeuePos := u64 (pos + 1) } }
      (.taking pos ::ₘ rest) := by
  have knows : Published shared.log pos := law.knows _ (Multiset.mem_cons_self _ _)
  have counted := law.counted
  rw [Multiset.map_cons, Multiset.sum_cons, MpmcCall.unclaimed] at counted
  have few := law.few
  rw [u64_of_lt (by omega)]
  have early := law.lt_of_published knows
  have atPos : (shared.queue.cell size pos).sequence = pos + 1 :=
    Nat.le_antisymm (law.sequences.unread pos isPos.le) (law.sequences.notReady pos knows)
  obtain ⟨task, member⟩ := id knows
  have isStored : shared.queue.cell size pos = ⟨pos + 1, some task⟩ :=
    QueueCell.eq_mk atPos (law.stored pos task isPos.le member)
  refine
    { law with
      counted := ?_
      ordered := ?_
      enqueued := fun other => ?_
      dequeued := fun other => ?_
      sequences :=
        { law.sequences with
          published := fun other before => ?_
          bounded := fun other => (law.sequences.bounded other).trans ?_
          unread := fun other later => law.sequences.unread other ?_ }
      knows := (Multiset.forall_mem_cons).mpr ⟨⟨task, member, isStored⟩, fun call member =>
        (law.knows call (Multiset.mem_cons_of_mem member)).mono (List.Subset.refl _)
          fun _ _ _ => rfl⟩
      stored := fun other task later => law.stored other task ?_ }
  · simp only [Multiset.map_cons, Multiset.sum_cons, MpmcCall.unclaimed, MpmcShared.calls]
      at counted ⊢
    omega
  · simp only
    omega
  · have enqueued := law.enqueued other
    rw [Multiset.map_cons, Multiset.sum_cons] at enqueued ⊢
    exact enqueued
  · have dequeued := law.dequeued other
    rw [Multiset.map_cons, Multiset.sum_cons] at dequeued ⊢
    simp only [MpmcCall.dequeues] at dequeued ⊢
    split at dequeued <;> split <;> split <;> omega
  · rcases Nat.lt_or_ge other pos with before | after
    · exact law.sequences.published other (isPos ▸ before)
    · obtain rfl : other = pos := by
        simp only at before
        omega
      exact knows
  · simp only
    omega
  · simp only at later
    omega
  · simp only at later
    omega

/-- A position that a producer has claimed was not published. -/
theorem of_enqueues (law : MpmcLaw size shared (here ::ₘ rest)) {pos : Nat}
    (isClaim : here.claim = some (pos, pos)) :
    pos < shared.queue.m_enqueuePos ∧ enqueuedAt shared.log pos = 0 ∧
      (rest.map (·.enqueues pos)).sum = 0 := by
  have counted := law.enqueued pos
  rw [Multiset.map_cons, Multiset.sum_cons, enqueues_of_claim isClaim] at counted
  split at counted
  next before => exact ⟨before, by omega, by omega⟩
  next => omega

/-- A position that a consumer has claimed was not released. -/
theorem of_dequeues (law : MpmcLaw size shared (here ::ₘ rest)) {pos : Nat}
    (isClaim : here.claim = some (pos, pos + 1)) :
    pos < shared.queue.m_dequeuePos ∧ dequeuedAt shared.log pos = 0 ∧
      (rest.map (·.dequeues pos)).sum = 0 := by
  have counted := law.dequeued pos
  rw [Multiset.map_cons, Multiset.sum_cons, dequeues_of_claim isClaim] at counted
  split at counted
  next before => exact ⟨before, by omega, by omega⟩
  next => omega

theorem lt_of_claim (law : MpmcLaw size shared (here ::ₘ rest)) {pos sequence : Nat}
    (isClaim : here.claim = some (pos, sequence)) : pos < shared.queue.m_enqueuePos := by
  rcases claim_cases isClaim with rfl | rfl
  · exact (law.of_enqueues isClaim).1
  · exact (law.of_dequeues isClaim).1.trans_le law.ordered

/-- A claimed position is at most one lap ahead of the consumers. -/
theorem claim_le (law : MpmcLaw size shared (here ::ₘ rest)) {pos : Nat}
    (isClaim : here.claim = some (pos, pos)) :
    pos < shared.queue.m_dequeuePos + size.m_capacity := by
  have isFree := (law.knows here (Multiset.mem_cons_self _ _)).sequence isClaim
  by_contra later
  have taken := law.lt_of_released (law.sequences.free pos isFree (by omega))
  omega

/-- A cell that is claimed is not free. -/
theorem not_vacant (law : MpmcLaw size shared (here ::ₘ rest)) {pos sequence other : Nat}
    (isClaim : here.claim = some (pos, sequence)) (same : other ≡ pos [MOD size.m_capacity])
    (unclaimed : shared.queue.m_enqueuePos ≤ other) :
    (shared.queue.cell size other).sequence ≠ other := by
  rw [MpmcTaskQueue.cell_congr same,
    (law.knows here (Multiset.mem_cons_self _ _)).sequence isClaim]
  have claimed := law.lt_of_claim isClaim
  rcases claim_cases isClaim with rfl | rfl
  · omega
  · rintro rfl
    exact size.not_modEq_succ pos same

/-- A cell that is claimed holds no task that is still to be taken by another call. -/
theorem not_unread (law : MpmcLaw size shared (here ::ₘ rest)) {pos sequence other : Nat}
    (isClaim : here.claim = some (pos, sequence)) (same : other ≡ pos [MOD size.m_capacity])
    (unread : shared.queue.m_dequeuePos ≤ other) : ¬ Published shared.log other := by
  intro isStored
  have notReady := law.sequences.notReady other isStored
  rw [MpmcTaskQueue.cell_congr same,
    (law.knows here (Multiset.mem_cons_self _ _)).sequence isClaim] at notReady
  have notLap := law.not_lap unread (law.lt_of_claim isClaim) same
  rcases claim_cases isClaim with rfl | rfl
  · omega
  · have claimed := (law.of_dequeues isClaim).1
    omega

/-- The calls of the other threads have other cells. -/
theorem others_know (law : MpmcLaw size shared (here ::ₘ rest)) {pos sequence : Nat}
    (isClaim : here.claim = some (pos, sequence)) {next : MpmcShared Task}
    {cell : QueueCell Task} (isNext : next.queue = shared.queue.setCell size pos cell)
    (longer : shared.log ⊆ next.log) : ∀ call ∈ rest, call.Knows size next :=
  fun call member => (law.knows call (Multiset.mem_cons_of_mem member)).mono longer
    fun other _ otherClaim => by
      rw [isNext, MpmcTaskQueue.cell_setCell_of_not (law.apart isClaim member otherClaim)]

/-- A call stores a task in its cell, or clears it. -/
theorem writeTask (law : MpmcLaw size shared (here ::ₘ rest)) {moved : MpmcCall Task}
    {pos sequence : Nat} (isClaim : here.claim = some (pos, sequence)) (task : Option Task)
    (enqueues : ∀ pos, moved.enqueues pos = here.enqueues pos)
    (dequeues : ∀ pos, moved.dequeues pos = here.dequeues pos)
    (unclaimed : moved.unclaimed ≤ here.unclaimed)
    (knows : ∀ next : MpmcShared Task, next.log = shared.log →
      next.queue.cell size pos = ⟨sequence, task⟩ → moved.Knows size next) :
    MpmcLaw size
      { shared with
        queue := shared.queue.setCell size pos { shared.queue.cell size pos with task } }
      (moved ::ₘ rest) := by
  have atPos := (law.knows here (Multiset.mem_cons_self _ _)).sequence isClaim
  have cells (other : Nat) :
      ((shared.queue.setCell size pos { shared.queue.cell size pos with task }).cell size
        other).sequence = (shared.queue.cell size other).sequence := by
    by_cases same : other ≡ pos [MOD size.m_capacity]
    · rw [MpmcTaskQueue.cell_setCell_of_modEq same, MpmcTaskQueue.cell_congr same]
    · rw [MpmcTaskQueue.cell_setCell_of_not same]
  refine
    { law with
      counted := ?_
      enqueued := fun other => ?_
      dequeued := fun other => ?_
      sequences :=
        { published := law.sequences.published
          released := law.sequences.released
          bounded := fun other => (cells other).trans_le (law.sequences.bounded other)
          free := fun other isFree => law.sequences.free other ((cells other).symm.trans isFree)
          ready := fun other isReady => law.sequences.ready other ((cells other).symm.trans isReady)
          notBefore := fun other before =>
            (law.sequences.notBefore other before).trans_eq (cells other).symm
          notReady := fun other isStored =>
            (law.sequences.notReady other isStored).trans_eq (cells other).symm
          ahead := fun other later => (cells other).trans_le (law.sequences.ahead other later)
          unread := fun other later => (cells other).trans_le (law.sequences.unread other later) }
      knows := (Multiset.forall_mem_cons).mpr
        ⟨knows _ rfl ?_, law.others_know isClaim rfl (List.Subset.refl _)⟩
      vacant := fun other later isFree => ?_
      stored := fun other stored later member => ?_ }
  · have counted := law.counted
    simp only [Multiset.map_cons, Multiset.sum_cons, MpmcShared.calls,
      MpmcTaskQueue.setCell] at counted ⊢
    omega
  · have enqueued := law.enqueued other
    rw [Multiset.map_cons, Multiset.sum_cons, ← enqueues] at enqueued
    rwa [Multiset.map_cons, Multiset.sum_cons]
  · have dequeued := law.dequeued other
    rw [Multiset.map_cons, Multiset.sum_cons, ← dequeues] at dequeued
    rwa [Multiset.map_cons, Multiset.sum_cons]
  · rw [MpmcTaskQueue.cell_setCell_of_modEq (Nat.ModEq.refl pos)]
    exact QueueCell.eq_mk atPos rfl
  · have free := (cells other).symm.trans isFree
    have different : ¬ other ≡ pos [MOD size.m_capacity] := fun same =>
      law.not_vacant isClaim same later free
    simp only
    rw [MpmcTaskQueue.cell_setCell_of_not different]
    exact law.vacant other later free
  · have different : ¬ other ≡ pos [MOD size.m_capacity] := fun same =>
      law.not_unread isClaim same later ⟨stored, member⟩
    simp only
    rw [MpmcTaskQueue.cell_setCell_of_not different]
    exact law.stored other stored later member

/-- The producer gives its cell to the consumer of the position. -/
theorem publish {task : Task} {pos : Nat}
    (law : MpmcLaw size shared (.publishing task pos ::ₘ rest)) :
    MpmcLaw size
      { queue := shared.queue.setCell size pos
          { shared.queue.cell size pos with sequence := u64 (pos + 1) }
        log := .enqueued pos task :: shared.log }
      (.idle ::ₘ rest) := by
  have isClaim : (MpmcCall.publishing task pos).claim = some (pos, pos) := rfl
  have isCell : shared.queue.cell size pos = ⟨pos, some task⟩ :=
    law.knows _ (Multiset.mem_cons_self _ _)
  obtain ⟨claimed, fresh, alone⟩ := law.of_enqueues isClaim
  have counted := law.counted
  have few := law.few
  rw [u64_of_lt (by omega), isCell]
  simp only
  have longer : shared.log ⊆ .enqueued pos task :: shared.log := List.subset_cons_self ..
  have old {other : MpmcEvent Task} (different : other.enqueues pos = false) :
      other ∈ MpmcEvent.enqueued pos task :: shared.log → other ∈ shared.log := by
    intro member
    rcases List.mem_cons.mp member with rfl | before
    · simp [MpmcEvent.enqueues] at different
    · exact before
  have published {other : Nat} (isStored : Published (.enqueued pos task :: shared.log) other) :
      other = pos ∨ Published shared.log other := by
    obtain ⟨stored, member⟩ := isStored
    rcases List.mem_cons.mp member with same | before
    · cases same
      exact .inl rfl
    · exact .inr ⟨stored, before⟩
  have released {other : Nat} (isTaken : Released (.enqueued pos task :: shared.log) other) :
      Released shared.log other := isTaken.imp fun _ => old rfl
  have here (other : Nat) (same : other ≡ pos [MOD size.m_capacity]) :
      (shared.queue.cell size other).sequence = pos := by
    rw [MpmcTaskQueue.cell_congr same, isCell]
  refine
    { few
      ordered := law.ordered
      counted := ?_
      enqueued := fun other => ?_
      dequeued := fun other => ?_
      sequences := ?_
      knows := (Multiset.forall_mem_cons).mpr ⟨trivial, law.others_know isClaim rfl longer⟩
      vacant := fun other later isFree => ?_
      stored := fun other stored later member => ?_
      taken := fun other taken member => ?_
      refused := fun later other earlier split => ?_
      missed := fun later other earlier split => ?_ }
  · rw [Multiset.map_cons, Multiset.sum_cons] at counted ⊢
    rw [MpmcShared.calls, List.countP_cons_of_neg (by simp [MpmcEvent.isCall])]
    exact counted
  · have enqueued := law.enqueued other
    rw [Multiset.map_cons, Multiset.sum_cons] at enqueued ⊢
    rw [enqueuedAt, List.countP_cons]
    simp only [MpmcCall.enqueues, MpmcEvent.enqueues, decide_eq_true_eq, enqueuedAt] at enqueued ⊢
    exact (by omega : _ = _).trans enqueued
  · have dequeued := law.dequeued other
    rw [Multiset.map_cons, Multiset.sum_cons] at dequeued ⊢
    rw [dequeuedAt, List.countP_cons_of_neg (by simp [MpmcEvent.dequeues])]
    exact dequeued
  · refine law.sequences.setCell longer (fun other different isStored => ?_)
      (fun other _ _ => released) ?_ (fun same => absurd same (size.not_modEq_succ pos))
      (fun other _ isReady => ?_) (fun other same before => ?_) (fun other same isStored => ?_)
      (fun other same later => ?_) fun other same later => Nat.succ_le_succ ?_
    · rcases published isStored with rfl | before
      · exact absurd rfl different
      · exact before
    · have := law.claim_le isClaim
      simp only
      omega
    · obtain rfl : pos = other := Nat.succ_injective isReady
      exact ⟨task, List.mem_cons_self ..⟩
    · have before := law.sequences.notBefore other fun later => released (before later)
      rw [here other same] at before
      exact before.trans (Nat.le_succ pos)
    · rcases published isStored with rfl | before
      · exact le_rfl
      · have ready := law.sequences.notReady other before
        rw [here other same] at ready
        exact ready.trans (Nat.le_succ pos)
    · exact claimed.trans_le later
    · exact law.not_lap later claimed same
  · by_cases same : other ≡ pos [MOD size.m_capacity]
    · rw [MpmcTaskQueue.cell_setCell_of_modEq same] at isFree
      obtain rfl : pos + 1 = other := isFree
      exact absurd same (size.not_modEq_succ pos)
    · rw [MpmcTaskQueue.cell_setCell_of_not same] at isFree ⊢
      exact law.vacant other later isFree
  · by_cases same : other ≡ pos [MOD size.m_capacity]
    · rw [MpmcTaskQueue.cell_setCell_of_modEq same]
      rcases List.mem_cons.mp member with isNew | before
      · cases isNew
        rfl
      · exact absurd ⟨stored, before⟩ (law.not_unread isClaim same later)
    · rw [MpmcTaskQueue.cell_setCell_of_not same]
      refine law.stored other stored later (old ?_ member)
      simp only [MpmcEvent.enqueues, decide_eq_false_iff_not]
      rintro rfl
      exact same rfl
  · obtain ⟨stored, isTask, before⟩ := law.taken other taken (old rfl member)
    exact ⟨stored, isTask, longer before⟩
  · cases later with
    | nil => cases (List.cons.inj split).1
    | cons _ later => exact law.refused later other earlier (List.cons.inj split).2
  · cases later with
    | nil => cases (List.cons.inj split).1
    | cons _ later => exact law.missed later other earlier (List.cons.inj split).2

/-- The consumer gives its cell to the producer of the next lap. -/
theorem release {taken : Option Task} {pos : Nat}
    (law : MpmcLaw size shared (.releasing pos taken ::ₘ rest)) :
    MpmcLaw size
      { queue := shared.queue.setCell size pos
          { shared.queue.cell size pos with sequence := u64 (pos + size.m_mask + 1) }
        log := .dequeued pos taken :: shared.log }
      (.idle ::ₘ rest) := by
  have isClaim : (MpmcCall.releasing pos taken).claim = some (pos, pos + 1) := rfl
  obtain ⟨task, isTaken, isStored, isCell⟩ := law.knows _ (Multiset.mem_cons_self _ _)
  obtain ⟨claimed, fresh, alone⟩ := law.of_dequeues isClaim
  have counted := law.counted
  have few := law.few
  have ordered := law.ordered
  have large := size.sixteen_le
  have isLap : pos + size.m_mask + 1 = pos + size.m_capacity := by
    rw [MpmcSize.m_mask]
    omega
  rw [isLap, u64_of_lt (by have := size.m_capacity_lt; omega), isCell]
  simp only
  have longer : shared.log ⊆ .dequeued pos taken :: shared.log := List.subset_cons_self ..
  have old {other : MpmcEvent Task} (different : other.dequeues pos = false) :
      other ∈ MpmcEvent.dequeued pos taken :: shared.log → other ∈ shared.log := by
    intro member
    rcases List.mem_cons.mp member with rfl | before
    · simp [MpmcEvent.dequeues] at different
    · exact before
  have published {other : Nat} (isStored : Published (.dequeued pos taken :: shared.log) other) :
      Published shared.log other := isStored.imp fun _ => old rfl
  have released {other : Nat} (isTaken : Released (.dequeued pos taken :: shared.log) other) :
      other = pos ∨ Released shared.log other := by
    obtain ⟨other, member⟩ := isTaken
    rcases List.mem_cons.mp member with same | before
    · cases same
      exact .inl rfl
    · exact .inr ⟨other, before⟩
  have here (other : Nat) (same : other ≡ pos [MOD size.m_capacity]) :
      (shared.queue.cell size other).sequence = pos + 1 := by
    rw [MpmcTaskQueue.cell_congr same, isCell]
  have nextLap (other : Nat) (same : other ≡ pos [MOD size.m_capacity])
      (later : shared.queue.m_dequeuePos ≤ other) : pos + size.m_capacity ≤ other :=
    Nat.ModEq.add_le_of_lt same.symm (claimed.trans_le later)
  refine
    { few, ordered
      counted := ?_
      enqueued := fun other => ?_
      dequeued := fun other => ?_
      sequences := ?_
      knows := (Multiset.forall_mem_cons).mpr ⟨trivial, law.others_know isClaim rfl longer⟩
      vacant := fun other later isFree => ?_
      stored := fun other stored later member => ?_
      taken := fun other taken member => ?_
      refused := fun later other earlier split => ?_
      missed := fun later other earlier split => ?_ }
  · rw [Multiset.map_cons, Multiset.sum_cons] at counted ⊢
    rw [MpmcShared.calls, List.countP_cons_of_neg (by simp [MpmcEvent.isCall])]
    exact counted
  · have enqueued := law.enqueued other
    rw [Multiset.map_cons, Multiset.sum_cons] at enqueued ⊢
    rw [enqueuedAt, List.countP_cons_of_neg (by simp [MpmcEvent.enqueues])]
    exact enqueued
  · have dequeued := law.dequeued other
    rw [Multiset.map_cons, Multiset.sum_cons] at dequeued ⊢
    rw [dequeuedAt, List.countP_cons]
    simp only [MpmcCall.dequeues, MpmcEvent.dequeues, decide_eq_true_eq, dequeuedAt] at dequeued ⊢
    exact (by omega : _ = _).trans dequeued
  · refine law.sequences.setCell longer (fun other _ => published)
      (fun other different later isTaken => ?_) (Nat.add_le_add_right claimed.le _)
      (fun _ _ => ?_) (fun other same isReady => ?_) (fun other same before => ?_)
      (fun other same isStored => ?_)
      (fun other same later => nextLap other same (ordered.trans later))
      fun other same later => (nextLap other same later).trans (Nat.le_succ other)
    · rcases released isTaken with isPos | before
      · refine absurd ?_ different
        rw [← isPos]
        exact (Nat.modEq_sub_modulus_iff later).mpr rfl
      · exact before
    · simp only [Nat.add_sub_cancel]
      exact ⟨taken, List.mem_cons_self ..⟩
    · have after : other + 1 ≡ other [MOD size.m_capacity] := by
        rw [← isReady]
        exact (Nat.add_modEq_right).trans same.symm
      exact absurd after (size.not_modEq_succ other)
    · by_cases isNext : size.m_capacity ≤ other ∧ other - size.m_capacity = pos
      · simp only
        omega
      · have before := law.sequences.notBefore other fun later => by
          rcases released (before later) with isPos | before
          · exact absurd ⟨later, isPos⟩ isNext
          · exact before
        rw [here other same] at before
        simp only
        omega
    · have ready := law.sequences.notReady other (published isStored)
      rw [here other same] at ready
      simp only
      omega
  · by_cases same : other ≡ pos [MOD size.m_capacity]
    · rw [MpmcTaskQueue.cell_setCell_of_modEq same]
    · rw [MpmcTaskQueue.cell_setCell_of_not same] at isFree ⊢
      exact law.vacant other later isFree
  · have before := old rfl member
    have different : ¬ other ≡ pos [MOD size.m_capacity] := fun same =>
      law.not_unread isClaim same later ⟨stored, before⟩
    rw [MpmcTaskQueue.cell_setCell_of_not different]
    exact law.stored other stored later before
  · rcases List.mem_cons.mp member with isNew | before
    · cases isNew
      exact ⟨task, isTaken, longer isStored⟩
    · obtain ⟨stored, isTask, before⟩ := law.taken other _ before
      exact ⟨stored, isTask, longer before⟩
  · cases later with
    | nil => cases (List.cons.inj split).1
    | cons _ later => exact law.refused later other earlier (List.cons.inj split).2
  · cases later with
    | nil => cases (List.cons.inj split).1
    | cons _ later => exact law.missed later other earlier (List.cons.inj split).2

/-- The sequence number that a producer loads tells it whether its position is free. -/
theorem checkEnqueue (law : MpmcLaw size shared pool) {pos : Nat} (small : pos < 2 ^ 63) :
    (intptr (shared.queue.cell size pos).sequence - intptr pos = 0 →
      size.m_capacity ≤ pos → Released shared.log (pos - size.m_capacity)) ∧
    (intptr (shared.queue.cell size pos).sequence - intptr pos < 0 →
      size.m_capacity ≤ pos ∧ ¬ Released shared.log (pos - size.m_capacity)) := by
  rw [intptr, intptr, if_pos (law.sequence_lt pos), if_pos small]
  refine ⟨fun same => law.sequences.free pos (by omega), fun less => ?_⟩
  by_contra before
  have notBefore := law.sequences.notBefore pos fun later => by
    by_contra notYet
    exact before ⟨later, notYet⟩
  omega

/-- The sequence number that a consumer loads tells it whether its position is published. -/
theorem checkDequeue (law : MpmcLaw size shared pool) {pos : Nat} (small : pos + 1 < 2 ^ 63) :
    (intptr (shared.queue.cell size pos).sequence - intptr (u64 (pos + 1)) = 0 →
      Published shared.log pos) ∧
    (intptr (shared.queue.cell size pos).sequence - intptr (u64 (pos + 1)) < 0 →
      ¬ Published shared.log pos) := by
  rw [u64_of_lt (by omega), intptr, intptr, if_pos (law.sequence_lt pos), if_pos small]
  refine ⟨fun same => law.sequences.ready pos (by omega), fun less isStored => ?_⟩
  have notReady := law.sequences.notReady pos isStored
  omega

theorem enqueuePos_lt (law : MpmcLaw size shared pool) : shared.queue.m_enqueuePos < 2 ^ 63 := by
  have counted := law.counted
  have few := law.few
  omega

theorem dequeuePos_lt (law : MpmcLaw size shared pool) :
    shared.queue.m_dequeuePos + 1 < 2 ^ 63 := by
  have counted := law.counted
  have few := law.few
  have ordered := law.ordered
  omega

/-- Every step of a call keeps the law. -/
theorem go (law : MpmcLaw size shared (here ::ₘ rest)) (spurious : Bool) :
    MpmcLaw size (here.go size shared spurious).1 ((here.go size shared spurious).2 ::ₘ rest) := by
  have knows := law.knows here (Multiset.mem_cons_self _ _)
  have few := law.few
  have noCall {event : MpmcEvent Task} (other : event.isCall = false) :
      (shared.record event).calls = shared.calls :=
    List.countP_cons_of_neg (by simp [other])
  cases here with
  | idle => exact law
  | enqueueLoading task => exact law.moved (fun _ => rfl) (fun _ => rfl) le_rfl law.enqueuePos_lt
  | enqueueChecking task pos =>
      obtain ⟨isFree, isFull⟩ := law.checkEnqueue knows
      simp only [MpmcCall.go]
      split
      next same => exact law.moved (fun _ => rfl) (fun _ => rfl) le_rfl (isFree same)
      next =>
        split
        next less =>
          refine law.record rfl ((noCall rfl).trans_lt few) (fun _ => rfl) (fun _ => rfl) ?_ trivial
            (fun other isHere => ?_) fun other isHere => by cases isHere
          · rw [noCall rfl]
            exact Nat.add_le_add_right (Nat.zero_le _) _
          · cases isHere
            exact isFull less
        next => exact law.moved (fun _ => rfl) (fun _ => rfl) le_rfl trivial
  | enqueueExchanging task pos =>
      simp only [MpmcCall.go]
      split
      next isPos => exact law.claimEnqueue isPos.1
      next => exact law.moved (fun _ => rfl) (fun _ => rfl) le_rfl law.enqueuePos_lt
  | storing task pos =>
      exact law.writeTask rfl (some task) (fun _ => rfl) (fun _ => rfl) le_rfl
        fun next _ isCell => isCell
  | publishing task pos => exact law.publish
  | dequeueLoading => exact law.moved (fun _ => rfl) (fun _ => rfl) le_rfl law.dequeuePos_lt
  | dequeueChecking pos =>
      obtain ⟨isReady, isEmpty⟩ := law.checkDequeue knows
      simp only [MpmcCall.go]
      split
      next same => exact law.moved (fun _ => rfl) (fun _ => rfl) le_rfl (isReady same)
      next =>
        split
        next less =>
          refine law.record rfl ((noCall rfl).trans_lt few) (fun _ => rfl) (fun _ => rfl) ?_ trivial
            (fun other isHere => by cases isHere) fun other isHere => ?_
          · rw [noCall rfl]
            exact Nat.add_le_add_right (Nat.zero_le _) _
          · cases isHere
            exact isEmpty less
        next => exact law.moved (fun _ => rfl) (fun _ => rfl) le_rfl trivial
  | dequeueExchanging pos =>
      simp only [MpmcCall.go]
      split
      next isPos => exact law.claimDequeue isPos.1
      next => exact law.moved (fun _ => rfl) (fun _ => rfl) le_rfl law.dequeuePos_lt
  | taking pos =>
      obtain ⟨task, isStored, isCell⟩ := knows
      refine law.moved (fun _ => rfl) (fun _ => rfl) le_rfl ⟨task, ?_, isStored, isCell⟩
      rw [isCell]
  | clearing pos taken =>
      obtain ⟨task, isTaken, isStored, isCell⟩ := knows
      exact law.writeTask rfl none (fun _ => rfl) (fun _ => rfl) le_rfl
        fun next sameLog isCell => ⟨task, isTaken, sameLog ▸ isStored, isCell⟩
  | releasing pos taken => exact law.release

/-- Every step keeps the law. -/
theorem fire (law : MpmcLaw size shared (here ::ₘ rest)) {choice : MpmcChoice Task}
    (few : FewCalls shared choice) {next : MpmcShared Task} {moved : MpmcCall Task}
    (fired : here.fire size shared choice = some (next, moved)) :
    MpmcLaw size next (moved ::ₘ rest) := by
  have called : (shared.record .called).calls = shared.calls + 1 := List.countP_cons_of_pos rfl
  cases choice with
  | go spurious =>
      have went : (here.go size shared spurious) = (next, moved) := by
        cases here <;> first | exact Option.some.inj fired | cases fired
      have kept := law.go spurious
      rwa [went] at kept
  | tryEnqueue task =>
      cases here <;> cases fired
      exact law.record rfl (called.trans_lt few) (fun _ => rfl) (fun _ => rfl)
        (by simp only [called, MpmcCall.unclaimed]; omega) trivial
        (fun pos isHere => by cases isHere) fun pos isHere => by cases isHere
  | tryDequeue =>
      cases here <;> cases fired
      exact law.record rfl (called.trans_lt few) (fun _ => rfl) (fun _ => rfl)
        (by simp only [called, MpmcCall.unclaimed]; omega) trivial
        (fun pos isHere => by cases isHere) fun pos isHere => by cases isHere

end MpmcLaw

theorem mpmcLaw_of_reachable {threads : Nat}
    {state : Program.State (MpmcShared Task) (MpmcCall Task) threads}
    (reachable : (mpmcMachine Task size threads).ReachableBy fewCalls state) :
    MpmcLaw size state.shared state.pool := by
  refine Program.invariant (motive := MpmcLaw size) ?_ ?_ ?_ reachable
  · exact fun shared pool fresh idle => .initial fresh idle
  · exact fun shared pool action => action.elim
  · exact fun shared here rest choice next moved law few fired => law.fire few fired

/-! ## Each task leaves once, in order -/

/-- The queue hands over each task once, in the order of its positions. -/
structure ExactlyOnce {threads : Nat} (size : MpmcSize)
    (state : Program.State (MpmcShared Task) (MpmcCall Task) threads) : Prop where
  /-- Every position is stored at once, and taken once. -/
  once : ∀ pos, enqueuedAt state.shared.log pos ≤ 1 ∧ dequeuedAt state.shared.log pos ≤ 1
  /-- The task that is taken at a position is the one that was stored there. -/
  inOrder : ∀ pos taken, .dequeued pos taken ∈ state.shared.log →
    ∃ task, taken = some task ∧ .enqueued pos task ∈ state.shared.log
  /-- A cell is written only when it is empty, and what it held before was taken. -/
  kept : ∀ index task pos, state.here index = .storing task pos →
    (state.shared.queue.cell size pos).task = none ∧
      ∀ other, Published state.shared.log other → other ≡ pos [MOD size.m_capacity] →
        Released state.shared.log other
  /-- `tryEnqueue` returns false only where the position one lap before was not released. -/
  refused : ∀ later pos earlier, state.shared.log = later ++ .full pos :: earlier →
    size.m_capacity ≤ pos ∧ ¬ Released earlier (pos - size.m_capacity)
  /-- `tryDequeue` returns null only where the position was not published. -/
  missed : ∀ later pos earlier, state.shared.log = later ++ .empty pos :: earlier →
    ¬ Published earlier pos
  /-- Outside of all calls, the cells between the positions hold what is to be taken. -/
  quiet : (∀ index, state.here index = .idle) →
    state.shared.queue.m_enqueuePos ≤ state.shared.queue.m_dequeuePos + size.m_capacity ∧
    ∀ pos, (Published state.shared.log pos ∧ ¬ Released state.shared.log pos ↔
        state.shared.queue.m_dequeuePos ≤ pos ∧ pos < state.shared.queue.m_enqueuePos) ∧
      (¬ Released state.shared.log pos → ∀ task, .enqueued pos task ∈ state.shared.log →
        (state.shared.queue.cell size pos).task = some task)

/-- In every interleaving of fewer than 2^63 calls each task leaves the queue once, in order. -/
theorem mpmc_exactly_once {threads : Nat}
    {state : Program.State (MpmcShared Task) (MpmcCall Task) threads}
    (reachable : (mpmcMachine Task size threads).ReachableBy fewCalls state) :
    ExactlyOnce size state := by
  have law := mpmcLaw_of_reachable reachable
  refine
    { once := fun pos => ?_
      inOrder := law.taken
      kept := fun index task pos isStoring => ?_
      refused := law.refused
      missed := law.missed
      quiet := fun quiet => ⟨?_, fun pos => ⟨?_, fun notTaken task isStored => ?_⟩⟩ }
  · have enqueues := law.enqueues_le pos
    have dequeues := law.dequeues_le pos
    omega
  · obtain ⟨rest, isPool, -⟩ := state.exists_rest index
    rw [isPool, isStoring] at law
    have isCell : state.shared.queue.cell size pos = ⟨pos, none⟩ :=
      law.knows _ (Multiset.mem_cons_self _ _)
    refine ⟨by rw [isCell], fun other isStored same => ?_⟩
    have claimed := law.of_enqueues
      (show (MpmcCall.storing task pos).claim = some (pos, pos) from rfl)
    have before : other < pos := by
      have ready := law.sequences.notReady other isStored
      rw [MpmcTaskQueue.cell_congr same, isCell] at ready
      exact ready
    exact law.sequences.released other
      ((Nat.ModEq.add_le_of_lt same before).trans_lt claimed.1)
  all_goals
    have idle (weight : MpmcCall Task → Nat) (zero : weight .idle = 0) :
        (state.pool.map weight).sum = 0 :=
      Program.sum_idle (Program.State.idle_of_quiet quiet) zero
  · by_contra far
    have taken := law.lt_of_released (law.sequences.released state.shared.queue.m_dequeuePos
      (Nat.lt_of_not_le far))
    omega
  · have enqueued := law.enqueued pos
    have dequeued := law.dequeued pos
    rw [idle _ rfl] at enqueued dequeued
    rw [published_iff, released_iff]
    split at enqueued <;> split at dequeued <;> omega
  · have dequeued := law.dequeued pos
    rw [idle _ rfl] at dequeued
    rw [released_iff] at notTaken
    refine law.stored pos task ?_ isStored
    split at dequeued <;> omega

/-- 16 cells. -/
def sixteenCells : MpmcSize where
  capacity := 16
  isAllocated := by decide +kernel

/-- Two threads: a task is stored and taken, another one is stored, and the second thread finds it
while the first one tries to store a third. -/
theorem mpmc_exactly_once_two :
    ∃ state : Program.State (MpmcShared Nat) (MpmcCall Nat) 2,
      (MpmcEvent.enqueued 0 7 ∈ state.shared.log ∧
        MpmcEvent.dequeued 0 (some 7) ∈ state.shared.log) ∧ ExactlyOnce sixteenCells state := by
  have fresh : (mpmcMachine Nat sixteenCells 2).ReachableBy fewCalls
      { shared := { queue := .create }, here := fun _ => .idle } :=
    .start ⟨⟨rfl, rfl⟩, fun _ => rfl⟩
  obtain ⟨state, reachable, happened⟩ : ∃ state,
      (mpmcMachine Nat sixteenCells 2).ReachableBy fewCalls state ∧
        MpmcEvent.enqueued 0 7 ∈ state.shared.log ∧
          MpmcEvent.dequeued 0 (some 7) ∈ state.shared.log :=
    fresh.exists_of_run
      ([.thread 0 (.tryEnqueue 7)] ++ List.replicate 5 (.thread 0 (.go false)) ++
        [.thread 1 .tryDequeue, .thread 0 (.tryEnqueue 8)] ++
        List.replicate 6 (.thread 1 (.go false)) ++ List.replicate 5 (.thread 0 (.go false)))
      (by decide +kernel)
  exact ⟨state, happened, mpmc_exactly_once reachable⟩

end LightFlow
