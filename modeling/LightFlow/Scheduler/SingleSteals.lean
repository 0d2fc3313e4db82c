import LightFlow.Scheduler.BatchSteals

/-!
# Single steals beside the owner

As long as nobody calls `stealBatch`, `m_top` never goes back, so a thief that finds it where it
was has seen the first task of the deque.  Whatever the interleaving, the calls then return what a
double-ended queue would return to them one after the other.
-/

namespace LightFlow

variable {Task : Type}

/-! ## A double-ended queue -/

/-- What is left in a double-ended queue after the events of a history, the newest event first. -/
inductive Plays : List (DequeEvent Task) → List (Option Task) → Prop
  | start : Plays [] []
  | pushed {log : List (DequeEvent Task)} {tasks : List (Option Task)} {task : Task}
      (plays : Plays log tasks) : Plays (.pushed task :: log) (tasks ++ [some task])
  | popped {log : List (DequeEvent Task)} {tasks : List (Option Task)} {task : Option Task}
      {index : Nat} (plays : Plays log (tasks ++ [task])) : Plays (.popped index task :: log) tasks
  | stolen {log : List (DequeEvent Task)} {tasks : List (Option Task)} {task : Option Task}
      {index : Nat} (plays : Plays log (task :: tasks)) : Plays (.stolen index task :: log) tasks

def DequeEvent.steals : DequeEvent Task → Option (Option Task)
  | .stolen _ task => some task
  | _ => none

namespace Plays

variable {log : List (DequeEvent Task)} {tasks : List (Option Task)}

/-- Everything that was pushed was returned, or is still there. -/
theorem accounted (plays : Plays log tasks) :
    (↑(log.filterMap DequeEvent.pushes) : Multiset (Option Task)) =
      ↑(log.filterMap DequeEvent.returns) + ↑tasks := by
  induction plays with
  | start => rfl
  | @pushed log tasks task plays ih =>
      show (↑(some task :: log.filterMap DequeEvent.pushes) : Multiset (Option Task)) =
        ↑(log.filterMap DequeEvent.returns) + _
      rw [← Multiset.cons_coe, ← Multiset.coe_add, ih, Multiset.coe_singleton,
        ← Multiset.singleton_add]
      abel
  | @popped log tasks task index plays ih =>
      show (↑(log.filterMap DequeEvent.pushes) : Multiset (Option Task)) =
        ↑(task :: log.filterMap DequeEvent.returns) + _
      rw [ih, ← Multiset.cons_coe, ← Multiset.coe_add, Multiset.coe_singleton,
        ← Multiset.singleton_add]
      abel
  | @stolen log tasks task index plays ih =>
      show (↑(log.filterMap DequeEvent.pushes) : Multiset (Option Task)) =
        ↑(task :: log.filterMap DequeEvent.returns) + _
      rw [ih, ← Multiset.cons_coe, ← Multiset.cons_coe, ← Multiset.singleton_add,
        ← Multiset.singleton_add]
      abel

/-- What was stolen, followed by what is left, keeps the order in which it was pushed. -/
theorem sublist (plays : Plays log tasks) :
    ((log.filterMap DequeEvent.steals).reverse ++ tasks).Sublist
      (log.filterMap DequeEvent.pushes).reverse := by
  induction plays with
  | start => exact List.Sublist.slnil
  | @pushed log tasks task plays ih =>
      show ((log.filterMap DequeEvent.steals).reverse ++ (tasks ++ [some task])).Sublist
        (some task :: log.filterMap DequeEvent.pushes).reverse
      rw [List.reverse_cons, ← List.append_assoc]
      exact ih.append (List.Sublist.refl _)
  | @popped log tasks task index plays ih =>
      refine List.Sublist.trans ?_ ih
      exact (List.Sublist.refl _).append (List.sublist_append_left tasks [task])
  | @stolen log tasks task index plays ih =>
      show ((task :: log.filterMap DequeEvent.steals).reverse ++ tasks).Sublist _
      rw [List.reverse_cons, List.append_assoc]
      exact ih

end Plays

/-! ## What calls have seen is not out of date -/

/-- What the owner has seen of the top. -/
def OwnerCall.Fresh (shared : DequeShared Task) : OwnerCall Task → Prop
  | .pushLoadingBuffer _ _ t | .growing _ _ t => t ≤ shared.m_top
  | .storing _ b _ => b < shared.m_top + shared.current.m_capacity
  | _ => True

/-- What a thief has seen of the first task. -/
def ThiefCall.Fresh (shared : DequeShared Task) : ThiefCall Task → Prop
  | .idle | .loadingTop => True
  | .loadingBottom t => t ≤ shared.m_top
  | .loadingBuffer t => t ≤ shared.m_top ∧ (shared.m_top = t → t < shared.bottom)
  | .loadingTask t buf =>
      t ≤ shared.m_top ∧ buf ≤ shared.m_buffer ∧
        (shared.m_top = t → t < shared.bottom ∧
          (shared.rings buf).load t = shared.current.load t)
  | .exchanging t task =>
      t ≤ shared.m_top ∧
        (shared.m_top = t → t < shared.bottom ∧ task = shared.current.load t)
  | _ => False

/-- Another thief was faster. -/
theorem ThiefCall.Fresh.late {shared next : DequeShared Task} {call : ThiefCall Task}
    (fresh : call.Fresh shared) (later : shared.m_top < next.m_top)
    (buffers : shared.m_buffer ≤ next.m_buffer) : call.Fresh next := by
  cases call with
  | idle | loadingTop => trivial
  | loadingBottom t => exact Nat.le_trans fresh later.le
  | loadingBuffer t | exchanging t =>
      have old : t < next.m_top := Nat.lt_of_le_of_lt fresh.1 later
      exact ⟨old.le, fun same => absurd same.symm old.ne⟩
  | loadingTask t buf =>
      have old : t < next.m_top := Nat.lt_of_le_of_lt fresh.1 later
      exact ⟨old.le, fresh.2.1.trans buffers, fun same => absurd same.symm old.ne⟩
  | _ => exact fresh.elim

/-- The owner leaves the first task where it is. -/
theorem ThiefCall.Fresh.kept {shared next : DequeShared Task} {call : ThiefCall Task}
    (fresh : call.Fresh shared) (top : next.m_top = shared.m_top)
    (bottom : shared.m_top < shared.bottom → shared.m_top < next.bottom)
    (buffers : shared.m_buffer ≤ next.m_buffer)
    (current : shared.m_top < shared.bottom →
      next.current.load shared.m_top = shared.current.load shared.m_top)
    (rings : shared.m_top < shared.bottom → ∀ buf ≤ shared.m_buffer,
      (next.rings buf).load shared.m_top = (shared.rings buf).load shared.m_top) :
    call.Fresh next := by
  cases call with
  | idle | loadingTop => trivial
  | loadingBottom t => exact Nat.le_trans fresh top.ge
  | loadingBuffer t =>
      refine ⟨fresh.1.trans top.ge, fun isTop => ?_⟩
      rw [top] at isTop
      subst isTop
      exact bottom (fresh.2 rfl)
  | loadingTask t buf =>
      obtain ⟨before, inUse, isFirst⟩ := fresh
      refine ⟨before.trans top.ge, inUse.trans buffers, fun isTop => ?_⟩
      rw [top] at isTop
      subst isTop
      obtain ⟨some, same⟩ := isFirst rfl
      rw [rings some buf inUse, current some]
      exact ⟨bottom some, same⟩
  | exchanging t task =>
      refine ⟨fresh.1.trans top.ge, fun isTop => ?_⟩
      rw [top] at isTop
      subst isTop
      obtain ⟨some, same⟩ := fresh.2 rfl
      rw [current some]
      exact ⟨bottom some, same⟩
  | _ => exact fresh.elim

/-- Such a thief has claimed nothing. -/
theorem ThiefCall.Fresh.unclaimed {shared : DequeShared Task} {call : ThiefCall Task}
    (fresh : call.Fresh shared) (bottom index : Nat) :
    call.pending bottom = [] ∧ call.covers index = 0 := by
  cases call <;> first | exact ⟨rfl, rfl⟩ | exact fresh.elim

/-- Nobody calls `stealBatch`. -/
def ThiefChoice.Single (_ : DequeShared Task) (_ : ThiefCall Task) : ThiefChoice → Prop
  | .stealBatch _ => False
  | .stealTop | .go _ => True

instance (shared : DequeShared Task) (call : ThiefCall Task) :
    DecidablePred (ThiefChoice.Single shared call)
  | .stealBatch _ => inferInstanceAs (Decidable False)
  | .stealTop | .go _ => inferInstanceAs (Decidable True)

abbrev singleSteals {thieves : Nat} :
    Program.State (DequeShared Task) (ThiefCall Task) thieves →
      Program.Action (OwnerChoice Task) ThiefChoice thieves → Prop :=
  Program.Allowed OwnerChoice.Few ThiefChoice.Single

/-- The deque is a double-ended queue, and nobody is misled. -/
structure SingleLaw (shared : DequeShared Task) (pool : Multiset (ThiefCall Task)) : Prop where
  law : DequeLaw shared pool
  ordered : shared.m_top ≤ shared.bottom
  owner : shared.owner.Fresh shared
  thieves : ∀ call ∈ pool, call.Fresh shared
  plays : Plays shared.log (shared.contents ++ shared.owner.hands shared)

namespace SingleLaw

variable {shared next : DequeShared Task} {here there : ThiefCall Task}
  {rest pool : Multiset (ThiefCall Task)}

/-- Nobody disturbs the owner. -/
theorem undisturbedOwner (single : SingleLaw shared pool) :
    shared.owner.Undisturbed shared pool := by
  have ordered := single.ordered
  have knows := single.law.owner
  have fresh := single.owner
  cases isOwner : shared.owner with
  | pushLoadingTop task b =>
      rw [DequeShared.bottom, isOwner] at ordered
      rw [isOwner] at knows
      exact ordered.trans knows.ge
  | growing task b t =>
      rw [isOwner] at fresh
      exact fun _ => fresh
  | storing task b buf =>
      rw [isOwner] at fresh
      refine ⟨fresh, fun call member _ index isPending => ?_⟩
      rw [((single.thieves call member).unclaimed _ index).1] at isPending
      exact absurd isPending List.not_mem_nil
  | publishing task b =>
      intro call member covers
      rw [((single.thieves call member).unclaimed 0 b).2] at covers
      exact absurd covers Nat.zero_ne_one
  | _ => trivial

/-- Nobody disturbs a thief. -/
theorem undisturbedThief (single : SingleLaw shared (here ::ₘ rest)) (spurious : Bool) :
    here.Undisturbed shared spurious := by
  have fresh := single.thieves here (Multiset.mem_cons_self _ _)
  cases here with
  | exchanging t task => exact fresh.2
  | batchExchanging | rollingBack => exact fresh.elim
  | _ => trivial

/-! ## Steps of the owner -/

/-- The owner moves on, and nobody takes or gives a task. -/
theorem kept (single : SingleLaw shared pool) (law : DequeLaw next pool)
    (log : next.log = shared.log) (top : next.m_top = shared.m_top)
    (bottom : next.bottom = shared.bottom) (buffers : shared.m_buffer ≤ next.m_buffer)
    (current : ∀ index, shared.m_top ≤ index → index < shared.bottom →
      next.current.load index = shared.current.load index)
    (rings : shared.m_top < shared.bottom → ∀ buf ≤ shared.m_buffer,
      (next.rings buf).load shared.m_top = (shared.rings buf).load shared.m_top)
    (hands : next.owner.hands next = shared.owner.hands shared)
    (fresh : next.owner.Fresh next) : SingleLaw next pool where
  law := law
  ordered := by
    rw [top, bottom]
    exact single.ordered
  owner := fresh
  thieves := by
    intro call member
    exact (single.thieves call member).kept top (by rw [bottom]; exact id) buffers
      (fun some => current _ le_rfl some) rings
  plays := by
    have contents : next.contents = shared.contents := by
      rw [DequeShared.contents, DequeShared.contents, top, bottom]
      refine List.map_congr_left fun index member => ?_
      rw [List.mem_range'_1] at member
      exact current index member.1 (by omega)
    rw [log, contents, hands]
    exact single.plays

/-- The owner moves on, and restores or lowers `m_bottom` without a change of the bottom. -/
theorem owned (single : SingleLaw shared pool) {m_bottom : Nat} {owner : OwnerCall Task}
    (law : DequeLaw { shared with m_bottom, owner } pool)
    (bottom : m_bottom + owner.lowered = shared.bottom)
    (hands : owner.hands shared = shared.owner.hands shared) (fresh : owner.Fresh shared) :
    SingleLaw { shared with m_bottom, owner } pool := by
  refine single.kept law rfl rfl bottom le_rfl (fun _ _ _ => rfl) (fun _ _ _ => rfl) ?_ ?_
  · rw [← hands]
    cases owner <;> rfl
  · cases owner <;> exact fresh

/-- `pushBottom` begins. -/
theorem called (single : SingleLaw shared pool) (idle : shared.owner = .idle) {task : Task}
    (law : DequeLaw { shared.record (.pushed task) with owner := .pushLoadingBottom task } pool) :
    SingleLaw { shared.record (.pushed task) with owner := .pushLoadingBottom task } pool := by
  have ordered := single.ordered
  have plays := single.plays
  have bottom : DequeShared.bottom
      { shared.record (.pushed task) with owner := .pushLoadingBottom task } = shared.bottom := by
    rw [DequeShared.bottom, DequeShared.bottom, idle]
    rfl
  constructor
  case law => exact law
  case ordered =>
    rw [bottom]
    exact ordered
  case owner => trivial
  case thieves =>
    intro call member
    exact (single.thieves call member).kept rfl (by rw [bottom]; exact id) le_rfl
      (fun _ => rfl) (fun _ _ _ => rfl)
  case plays =>
    rw [idle, show OwnerCall.idle.hands shared = [] from rfl, List.append_nil] at plays
    rw [DequeShared.contents, bottom]
    exact .pushed plays

/-- `grow` copies everything that is in the deque. -/
theorem grown (single : SingleLaw shared pool) {task : Task} {b t : Nat}
    (isGrowing : shared.owner = .growing task b t)
    (law : DequeLaw
      { shared.grow b t with owner := .storing task b (shared.grow b t).m_buffer } pool) :
    SingleLaw
      { shared.grow b t with owner := .storing task b (shared.grow b t).m_buffer } pool := by
  have knows := single.law.owner
  have fresh := single.owner
  have few := single.law.few
  have bottomLe := single.law.bottom_le
  have positive := (single.law.sized shared.m_buffer).positive
  rw [isGrowing] at knows fresh
  obtain ⟨isBottom, ordered, near⟩ := knows
  have sameBottom : shared.bottom = b := by
    rw [DequeShared.bottom, isGrowing, isBottom]
    rfl
  change t ≤ shared.m_top at fresh
  change 0 < shared.current.m_capacity at positive
  by_cases empty : b ≤ t
  · have same : shared.grow b t = shared := if_pos empty
    rw [same] at law ⊢
    refine single.owned law ?_ (by rw [isGrowing]; rfl) ?_
    · rw [sameBottom, isBottom]
      rfl
    · show b < shared.m_top + shared.current.m_capacity
      omega
  · have some : t < b := Nat.lt_of_not_le empty
    obtain ⟨capacity, loads⟩ := (single.law.sized shared.m_buffer).grow (by omega : b < 2 ^ 32)
      (Nat.sub_le_iff_le_add'.mpr near) some
    have same : shared.grow b t =
        { shared.setRing (shared.m_buffer + 1) (shared.current.grow t b) with
          m_buffer := shared.m_buffer + 1 } := if_neg empty
    rw [same] at law ⊢
    have current : Function.update shared.rings (shared.m_buffer + 1) (shared.current.grow t b)
        (shared.m_buffer + 1) = shared.current.grow t b := Function.update_self ..
    refine single.kept law rfl rfl ?_ (Nat.le_succ _) ?_ ?_ (by rw [isGrowing]; rfl) ?_
    · rw [sameBottom, isBottom]
      rfl
    · intro index above below
      refine Eq.trans (congrArg (fun ring => ring.load index) current) ?_
      exact loads index (fresh.trans above) (by omega)
    · intro _ buf inUse
      show (Function.update shared.rings _ _ buf).load _ = _
      rw [Function.update_of_ne (by omega)]
    · show b < shared.m_top + (Function.update shared.rings _ _ _).m_capacity
      rw [current, show (shared.current.grow t b).m_capacity = shared.current.m_capacity * 2
        from capacity]
      omega

/-- `pushBottom` stores its task above everything that is in the deque. -/
theorem stored (single : SingleLaw shared pool) {task : Task} {b buf : Nat}
    (isStoring : shared.owner = .storing task b buf)
    (law : DequeLaw { shared.setRing buf ((shared.rings buf).store b (some task)) with
      owner := .publishing task b } pool) :
    SingleLaw { shared.setRing buf ((shared.rings buf).store b (some task)) with
      owner := .publishing task b } pool := by
  have knows := single.law.owner
  have fresh := single.owner
  rw [isStoring] at knows fresh
  obtain ⟨isBottom, rfl⟩ := knows
  change b < shared.m_top + shared.current.m_capacity at fresh
  have sameBottom : shared.bottom = b := by
    rw [DequeShared.bottom, isStoring, isBottom]
    rfl
  have keeps : ∀ index, shared.m_top ≤ index → index < shared.bottom → ∀ buf,
      (Function.update shared.rings shared.m_buffer
        (shared.current.store b (some task)) buf).load index = (shared.rings buf).load index := by
    intro index above below buf
    by_cases same : buf = shared.m_buffer
    · rw [same, Function.update_self]
      exact (single.law.sized shared.m_buffer).load_store_of_near _ (by omega)
        (show b - index < shared.current.m_capacity by omega)
    · rw [Function.update_of_ne same]
  refine single.kept law rfl rfl ?_ le_rfl ?_ ?_ (by rw [isStoring]; rfl) trivial
  · rw [sameBottom, isBottom]
    rfl
  · exact fun index above below => keeps index above below shared.m_buffer
  · exact fun some buf _ => keeps shared.m_top le_rfl some buf

/-- `pushBottom` makes its task visible. -/
theorem published (single : SingleLaw shared pool) {task : Task} {b : Nat}
    (isPublishing : shared.owner = .publishing task b)
    (law : DequeLaw { shared with m_bottom := u32 (b + 1), owner := .idle } pool) :
    SingleLaw { shared with m_bottom := u32 (b + 1), owner := .idle } pool := by
  have knows := single.law.owner
  have ordered := single.ordered
  have few := single.law.few
  have bottomLe := single.law.bottom_le
  have plays := single.plays
  rw [isPublishing] at knows plays
  obtain ⟨isBottom, isStored⟩ := knows
  have sameBottom : shared.bottom = b := by
    rw [DequeShared.bottom, isPublishing, isBottom]
    rfl
  rw [sameBottom] at ordered
  rw [u32_of_lt (by omega)] at law ⊢
  constructor
  case law => exact law
  case ordered => exact Nat.le_succ_of_le ordered
  case owner => trivial
  case thieves =>
    intro call member
    refine (single.thieves call member).kept rfl (fun below => ?_) le_rfl (fun _ => rfl)
      (fun _ _ _ => rfl)
    rw [sameBottom] at below
    exact Nat.lt_succ_of_lt below
  case plays =>
    rw [DequeShared.contents, sameBottom] at plays
    show Plays shared.log
      ((List.range' shared.m_top (b + 1 - shared.m_top)).map shared.current.load ++ [])
    rw [Nat.sub_add_comm ordered, List.range'_1_concat, List.map_append, List.map_singleton,
      Nat.add_sub_cancel' ordered, isStored, List.append_nil]
    exact plays

/-- `popBottom` takes the last task, where it is not the only one. -/
theorem popTaken (single : SingleLaw shared pool) {b buf : Nat}
    (isReloading : shared.owner = .popReloadingTop b buf) (less : shared.m_top < b)
    (law : DequeLaw { shared with owner := .popLoadingTask b shared.m_top buf } pool) :
    SingleLaw { shared with owner := .popLoadingTask b shared.m_top buf } pool := by
  have knows := single.law.owner
  have plays := single.plays
  rw [isReloading] at knows plays
  obtain ⟨isBottom, rfl⟩ := knows
  have sameBottom : shared.bottom = b + 1 := by
    rw [DequeShared.bottom, isReloading, isBottom]
    rfl
  have newBottom : DequeShared.bottom
      { shared with owner := .popLoadingTask b shared.m_top shared.m_buffer } = b := by
    rw [DequeShared.bottom, OwnerCall.lowered, if_neg less.ne, Nat.add_zero]
    exact isBottom.symm
  constructor
  case law => exact law
  case ordered =>
    rw [newBottom]
    exact less.le
  case owner => trivial
  case thieves =>
    intro call member
    refine (single.thieves call member).kept rfl (fun _ => ?_) le_rfl (fun _ => rfl)
      (fun _ _ _ => rfl)
    rw [newBottom]
    exact less
  case plays =>
    rw [show (OwnerCall.popReloadingTop b shared.m_buffer).hands shared = [] from rfl,
      List.append_nil, DequeShared.contents, sameBottom, Nat.sub_add_comm less.le,
      List.range'_1_concat, List.map_append, List.map_singleton, Nat.add_sub_cancel' less.le]
      at plays
    rw [DequeShared.contents, newBottom, OwnerCall.hands, if_neg less.ne]
    exact plays

/-- `popBottom` returns the task that it has taken. -/
theorem popReturned (single : SingleLaw shared pool) {b t buf : Nat}
    (isLoading : shared.owner = .popLoadingTask b t buf) (different : t ≠ b)
    (law : DequeLaw
      { shared.record (.popped b ((shared.rings buf).load b)) with owner := .idle } pool) :
    SingleLaw
      { shared.record (.popped b ((shared.rings buf).load b)) with owner := .idle } pool := by
  have ordered := single.ordered
  have plays := single.plays
  have newBottom : DequeShared.bottom
      { shared.record (.popped b ((shared.rings buf).load b)) with owner := .idle } =
        shared.bottom := by
    rw [DequeShared.bottom, DequeShared.bottom, isLoading, OwnerCall.lowered, if_neg different]
    rfl
  constructor
  case law => exact law
  case ordered =>
    rw [newBottom]
    exact ordered
  case owner => trivial
  case thieves =>
    intro call member
    exact (single.thieves call member).kept rfl (by rw [newBottom]; exact id) le_rfl
      (fun _ => rfl) (fun _ _ _ => rfl)
  case plays =>
    rw [isLoading, OwnerCall.hands, if_neg different] at plays
    rw [DequeShared.contents, newBottom]
    show Plays (.popped b _ :: shared.log) (shared.contents ++ [])
    rw [List.append_nil]
    exact .popped plays

/-- `popBottom` takes the only task. -/
theorem popWon (single : SingleLaw shared pool) {b : Nat} {task : Option Task}
    (isExchanging : shared.owner = .popExchanging b task) (isTop : shared.m_top = b)
    (law : DequeLaw
      { shared.record (.popped b task) with m_top := u32 (b + 1), owner := .restoring b } pool) :
    SingleLaw
      { shared.record (.popped b task) with m_top := u32 (b + 1), owner := .restoring b }
      pool := by
  have knows := single.law.owner
  have topLe := single.law.top_le
  have few := single.law.few
  have plays := single.plays
  rw [isExchanging] at knows plays
  obtain ⟨isBottom, isTask⟩ := knows
  have sameBottom : shared.bottom = b + 1 := by
    rw [DequeShared.bottom, isExchanging, isBottom]
    rfl
  rw [u32_of_lt (by omega)] at law ⊢
  have newBottom : DequeShared.bottom
      { shared.record (.popped b task) with m_top := b + 1, owner := .restoring b } = b + 1 := by
    rw [isBottom]
    rfl
  constructor
  case law => exact law
  case ordered => rw [newBottom]
  case owner => trivial
  case thieves =>
    intro call member
    refine (single.thieves call member).late ?_ le_rfl
    show shared.m_top < b + 1
    omega
  case plays =>
    rw [show (OwnerCall.popExchanging b task).hands shared = [] from rfl, DequeShared.contents,
      isTop, sameBottom, Nat.add_sub_cancel_left, ← List.append_nil (List.map _ _)] at plays
    rw [DequeShared.contents, newBottom]
    show Plays (.popped b task :: shared.log)
      ((List.range' (b + 1) (b + 1 - (b + 1))).map shared.current.load ++ [])
    rw [Nat.sub_self, isTask]
    exact @Plays.popped _ _ [] _ _ plays

/-- A step of a call of the owner. -/
theorem own (single : SingleLaw shared pool) (stepped : shared.own shared.owner = some next) :
    SingleLaw next pool := by
  have law := single.law.own single.undisturbedOwner stepped
  have knows := single.law.owner
  have fresh := single.owner
  cases isOwner : shared.owner with
  | idle =>
      rw [isOwner] at stepped
      cases stepped
  | pushLoadingBottom task =>
      rw [isOwner] at stepped
      cases stepped
      exact single.owned law (by rw [DequeShared.bottom, isOwner]; rfl) (by rw [isOwner]; rfl)
        trivial
  | pushLoadingTop task b =>
      rw [isOwner] at stepped
      cases stepped
      exact single.owned law (by rw [DequeShared.bottom, isOwner]; rfl) (by rw [isOwner]; rfl)
        le_rfl
  | pushLoadingBuffer task b t =>
      rw [isOwner] at stepped knows fresh
      obtain ⟨isBottom, ordered, -⟩ := knows
      rw [DequeShared.own, if_neg (Nat.not_lt.mpr ordered)] at stepped
      cases stepped
      rw [DequeShared.checkRoom] at law ⊢
      split at law
      next full =>
        rw [if_pos full]
        exact single.owned law (by rw [DequeShared.bottom, isOwner]; rfl) (by rw [isOwner]; rfl)
          fresh
      next room =>
        rw [if_neg room]
        refine single.owned law (by rw [DequeShared.bottom, isOwner]; rfl)
          (by rw [isOwner]; rfl) ?_
        have small : u32 shared.current.m_capacity ≤ shared.current.m_capacity := Nat.mod_le _ _
        change t ≤ shared.m_top at fresh
        rw [u32Sub_of_le ordered, Nat.not_le] at room
        change b - t < u32 shared.current.m_capacity at room
        show b < shared.m_top + shared.current.m_capacity
        omega
  | snapping task t buf =>
      rw [isOwner] at knows
      exact knows.elim
  | growing task b t =>
      rw [isOwner] at stepped
      cases stepped
      exact single.grown isOwner law
  | storing task b buf =>
      rw [isOwner] at stepped
      cases stepped
      exact single.stored isOwner law
  | publishing task b =>
      rw [isOwner] at stepped
      cases stepped
      exact single.published isOwner law
  | popLoadingBottom | popLoadingBuffer b =>
      rw [isOwner] at stepped
      cases stepped
      exact single.owned law (by rw [DequeShared.bottom, isOwner]; rfl) (by rw [isOwner]; rfl)
        trivial
  | popLoadingTop b buf =>
      rw [isOwner] at stepped
      rw [DequeShared.own] at stepped
      split at stepped
      all_goals
        cases stepped
        exact single.owned law (by rw [DequeShared.bottom, isOwner]; rfl) (by rw [isOwner]; rfl)
          trivial
  | lowering b buf =>
      rw [isOwner] at stepped knows
      cases stepped
      exact single.owned law (by rw [DequeShared.bottom, isOwner]; exact knows.1)
        (by rw [isOwner]; rfl) trivial
  | popReloadingTop b buf =>
      rw [isOwner] at stepped
      rw [DequeShared.own] at stepped
      split at stepped
      next some =>
        cases stepped
        rcases Nat.eq_or_lt_of_le some with only | less
        · refine single.owned law ?_ ?_ trivial
          · rw [DequeShared.bottom, isOwner]
            exact congrArg (shared.m_bottom + ·) (if_pos only)
          · rw [isOwner, OwnerCall.hands, if_pos only]
            rfl
        · exact single.popTaken isOwner less law
      next =>
        cases stepped
        exact single.owned law (by rw [DequeShared.bottom, isOwner]; rfl) (by rw [isOwner]; rfl)
          trivial
  | popLoadingTask b t buf =>
      rw [isOwner] at stepped
      rw [DequeShared.own] at stepped
      split at stepped
      next only =>
        cases stepped
        refine single.owned law ?_ ?_ trivial
        · rw [DequeShared.bottom, isOwner]
          exact (congrArg (shared.m_bottom + ·) (if_pos only)).symm
        · rw [isOwner, OwnerCall.hands.eq_def]
          exact (if_pos only).symm
      next different =>
        cases stepped
        exact single.popReturned isOwner different law
  | popExchanging b task =>
      rw [isOwner] at stepped
      rw [DequeShared.own] at stepped
      split at stepped
      next isTop =>
        cases stepped
        exact single.popWon isOwner isTop law
      next =>
        cases stepped
        exact single.owned law (by rw [DequeShared.bottom, isOwner]; rfl) (by rw [isOwner]; rfl)
          trivial
  | restoring b =>
      have few := single.law.few
      have bottomLe := single.law.bottom_le
      rw [DequeShared.bottom, isOwner] at bottomLe
      rw [isOwner] at stepped knows
      cases stepped
      have isBottom : b = shared.m_bottom := knows
      simp only [OwnerCall.lowered] at bottomLe
      rw [u32_of_lt (by omega)] at law ⊢
      exact single.owned law (by rw [DequeShared.bottom, isOwner, ← isBottom]; rfl)
        (by rw [isOwner]; rfl) trivial

/-- A step of the owner. -/
theorem ownerStep (single : SingleLaw shared pool) {choice : OwnerChoice Task}
    (few : choice.Few shared) (stepped : shared.ownerStep choice = some next) :
    SingleLaw next pool := by
  cases choice with
  | go => exact single.own stepped
  | pushBottom task =>
      have calm : OwnerChoice.Undisturbed shared pool (.pushBottom task) := few
      have law := single.law.ownerStep calm stepped
      rw [DequeShared.ownerStep] at stepped
      cases isOwner : shared.owner with
      | idle =>
          rw [isOwner] at stepped
          cases stepped
          exact single.called isOwner law
      | _ =>
          rw [isOwner] at stepped
          cases stepped
  | popBottom =>
      have calm : OwnerChoice.Undisturbed shared pool .popBottom := few
      have law := single.law.ownerStep calm stepped
      rw [DequeShared.ownerStep] at stepped
      cases isOwner : shared.owner with
      | idle =>
          rw [isOwner] at stepped
          cases stepped
          exact single.owned law (by rw [DequeShared.bottom, isOwner]; rfl)
            (by rw [isOwner]; rfl) trivial
      | _ =>
          rw [isOwner] at stepped
          cases stepped

/-! ## Steps of the thieves -/

/-- A thief goes on, and takes nothing. -/
theorem searched (single : SingleLaw shared (here ::ₘ rest))
    (law : DequeLaw shared (there ::ₘ rest)) (fresh : there.Fresh shared) :
    SingleLaw shared (there ::ₘ rest) where
  law := law
  ordered := single.ordered
  owner := single.owner
  thieves := by
    rw [Multiset.forall_mem_cons]
    exact ⟨fresh, fun call member => single.thieves call (Multiset.mem_cons_of_mem member)⟩
  plays := single.plays

/-- `stealTop` takes the first task. -/
theorem stole (single : SingleLaw shared (here ::ₘ rest)) {t : Nat} {task : Option Task}
    (isHere : here = .exchanging t task) (isTop : shared.m_top = t)
    (law : DequeLaw { shared.record (.stolen t task) with m_top := u32 (t + 1) }
      (.idle ::ₘ rest)) :
    SingleLaw { shared.record (.stolen t task) with m_top := u32 (t + 1) } (.idle ::ₘ rest) := by
  have plays := single.plays
  have topLe := single.law.top_le
  have few := single.law.few
  have fresh := single.thieves here (Multiset.mem_cons_self _ _)
  rw [isHere] at fresh
  obtain ⟨inside, isTask⟩ := fresh.2 isTop
  rw [u32_of_lt (by omega)] at law ⊢
  have later : shared.m_top < t + 1 := Nat.lt_succ_of_le isTop.le
  constructor
  case law => exact law
  case ordered => exact inside
  case owner =>
    have owner := single.owner
    show OwnerCall.Fresh { shared.record (.stolen t task) with m_top := t + 1 } shared.owner
    cases isOwner : shared.owner with
    | pushLoadingBuffer | growing =>
        rw [isOwner] at owner
        exact Nat.le_trans owner later.le
    | storing =>
        rw [isOwner] at owner
        exact Nat.lt_of_lt_of_le owner (Nat.add_le_add_right later.le _)
    | _ => trivial
  case thieves =>
    rw [Multiset.forall_mem_cons]
    refine ⟨trivial, fun call member => ?_⟩
    exact (single.thieves call (Multiset.mem_cons_of_mem member)).late later le_rfl
  case plays =>
    have first : List.range' t (shared.bottom - t) =
        t :: List.range' (t + 1) (shared.bottom - (t + 1)) := by
      rw [show shared.bottom - t = shared.bottom - (t + 1) + 1 by omega, List.range'_succ]
    rw [DequeShared.contents, isTop, first, List.map_cons, List.cons_append, ← isTask] at plays
    have sameHands : OwnerCall.hands { shared.record (.stolen t task) with m_top := t + 1 }
        shared.owner = shared.owner.hands shared := by
      cases shared.owner <;> rfl
    show Plays (.stolen t task :: shared.log)
      ((List.range' (t + 1) (shared.bottom - (t + 1))).map shared.current.load ++
        OwnerCall.hands _ shared.owner)
    rw [sameHands]
    exact .stolen plays

/-- A step of a call of a thief. -/
theorem go (single : SingleLaw shared (here ::ₘ rest)) {spurious : Bool}
    (stepped : here.go shared spurious = some (next, there)) :
    SingleLaw next (there ::ₘ rest) := by
  have law := single.law.go (single.undisturbedThief spurious) stepped
  have fresh := single.thieves here (Multiset.mem_cons_self _ _)
  cases here with
  | idle => cases stepped
  | loadingTop =>
      cases stepped
      exact single.searched law le_rfl
  | loadingBottom t =>
      rw [ThiefCall.go] at stepped
      split at stepped
      next =>
        cases stepped
        exact single.searched law trivial
      next some =>
        cases stepped
        refine single.searched law ⟨fresh, fun _ => ?_⟩
        rw [DequeShared.bottom]
        omega
  | loadingBuffer t =>
      cases stepped
      exact single.searched law ⟨fresh.1, le_rfl, fun isTop => ⟨fresh.2 isTop, rfl⟩⟩
  | loadingTask t buf =>
      cases stepped
      exact single.searched law ⟨fresh.1, fresh.2.2⟩
  | exchanging t task =>
      rw [ThiefCall.go] at stepped
      split at stepped
      next isTop =>
        cases stepped
        exact single.stole rfl isTop law
      next =>
        cases stepped
        exact single.searched law trivial
  | _ => exact fresh.elim

/-- A step of a thief. -/
theorem fire (single : SingleLaw shared (here ::ₘ rest)) {choice : ThiefChoice}
    (alone : choice.Single shared here) (stepped : here.fire shared choice = some (next, there)) :
    SingleLaw next (there ::ₘ rest) := by
  cases choice with
  | go spurious =>
      have going : here.go shared spurious = some (next, there) := by
        cases here <;> exact stepped
      exact single.go going
  | stealTop =>
      have calm : ThiefChoice.Undisturbed shared here .stealTop := trivial
      have law := single.law.fire calm stepped
      cases here with
      | idle =>
          cases stepped
          exact single.searched law trivial
      | _ => cases stepped
  | stealBatch size => exact alone.elim

/-- The law holds of a new deque. -/
theorem initial (fresh : shared.Fresh) (idle : ∀ call ∈ pool, call = .idle) :
    SingleLaw shared pool := by
  have law := DequeLaw.initial fresh idle
  obtain ⟨initialCapacity, rfl⟩ := fresh
  constructor
  case law => exact law
  case ordered => exact le_rfl
  case owner => trivial
  case thieves =>
    intro call member
    rw [idle call member]
    trivial
  case plays => exact .start

end SingleLaw

theorem singleLaw_of_reachable {thieves : Nat}
    {state : Program.State (DequeShared Task) (ThiefCall Task) thieves}
    (reachable : (dequeMachine Task thieves).ReachableBy singleSteals state) :
    SingleLaw state.shared state.pool := by
  refine Program.invariant (motive := SingleLaw) ?_ ?_ ?_ reachable
  · exact fun shared pool fresh idle => .initial fresh idle
  · exact fun shared pool choice next single few stepped => single.ownerStep few stepped
  · exact fun shared here rest choice next there single alone fired => single.fire alone fired

/-! ## One call after the other -/

/-- The calls have returned what a double-ended queue returns. -/
structure InTurn {thieves : Nat}
    (state : Program.State (DequeShared Task) (ThiefCall Task) thieves) : Prop where
  /-- The history is that of a double-ended queue, which has what is between top and bottom, and
  what the owner is about to push or to return. -/
  plays : Plays state.shared.log
    (state.shared.contents ++ state.shared.owner.hands state.shared)
  /-- Thieves get tasks in the order in which they were pushed. -/
  inOrder : (state.shared.log.filterMap DequeEvent.steals).Sublist state.shared.pushed
  /-- What is returned was pushed, and is not returned more often. -/
  once : (↑state.shared.returned : Multiset (Option Task)) ≤ ↑state.shared.pushed
  /-- Outside of all calls of the owner, what was not returned is in the buffer, between top and
  bottom. -/
  kept : state.shared.owner = .idle →
    (↑state.shared.pushed : Multiset (Option Task)) = ↑state.shared.returned +
      ↑((List.range' state.shared.m_top (state.shared.m_bottom - state.shared.m_top)).map
        state.shared.current.load)

/-- With single steals a deque is a double-ended queue, whatever the interleaving. -/
theorem single_steals_in_turn {thieves : Nat}
    {state : Program.State (DequeShared Task) (ThiefCall Task) thieves}
    (reachable : (dequeMachine Task thieves).ReachableBy singleSteals state) : InTurn state := by
  have plays := (singleLaw_of_reachable reachable).plays
  constructor
  case plays => exact plays
  case inOrder =>
    refine List.reverse_sublist.mp (List.Sublist.trans ?_ plays.sublist)
    exact List.sublist_append_left _ _
  case once =>
    refine le_trans ?_ plays.accounted.ge
    exact Multiset.le_add_right _ _
  case kept =>
    intro idle
    rw [idle, show OwnerCall.idle.hands state.shared = [] from rfl, List.append_nil,
      DequeShared.contents, DequeShared.bottom, idle] at plays
    exact plays.accounted

/-- Two thieves see the first of two tasks, and one of them gets it.  The exchange of the other
fails while the owner pops the second one. -/
theorem single_steals_in_turn_two :
    ∃ state : Program.State (DequeShared Nat) (ThiefCall Nat) 2,
      state.shared.returned = [some 8, some 7] ∧ InTurn state := by
  have fresh : (dequeMachine Nat 2).ReachableBy singleSteals
      { shared := { rings := fun _ => { m_capacity := 16 } }
        here := fun _ => .idle } :=
    .start ⟨⟨16, by rw [ChaseLevDeque.create_sixteen]⟩, fun _ => rfl⟩
  obtain ⟨state, reachable, happened⟩ : ∃ state,
      (dequeMachine Nat 2).ReachableBy singleSteals state ∧
        state.shared.returned = [some 8, some 7] :=
    fresh.exists_of_run
      ([.solo (.pushBottom 7)] ++ List.replicate 5 (.solo .go) ++
        [.solo (.pushBottom 8)] ++ List.replicate 5 (.solo .go) ++
        [.thread 0 .stealTop, .thread 1 .stealTop] ++
        List.replicate 4 (.thread 0 (.go false)) ++ List.replicate 4 (.thread 1 (.go false)) ++
        [.thread 0 (.go false), .solo .popBottom] ++ List.replicate 5 (.solo .go) ++
        [.thread 1 (.go false)] ++ List.replicate 3 (.solo .go))
      (by decide +kernel)
  exact ⟨state, happened, single_steals_in_turn reachable⟩

end LightFlow
