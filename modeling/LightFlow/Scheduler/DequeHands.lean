import LightFlow.Scheduler.SharedDeque
import Mathlib.Algebra.Order.Group.Multiset
import Mathlib.Tactic.Abel

/-!
# Who has the tasks of a shared deque

A task that was pushed was returned, is between top and bottom, or is on its way in one call.  A
batch takes a range of indices at once and finds out afterwards which of them the owner left, so
until then its end may lie above the bottom.
-/

namespace LightFlow

variable {Task : Type}

/-- A slot is that of no index that is not congruent. -/
theorem RingBuffer.Sized.load_store_of_not_modEq {buffer : RingBuffer Task} (sized : buffer.Sized)
    {stored index : Nat} (task : Option Task)
    (different : ¬ index ≡ stored [MOD buffer.m_capacity]) :
    (buffer.store stored task).load index = buffer.load index := by
  refine Function.update_of_ne (fun same => different ?_) _ _
  change index &&& buffer.m_mask = stored &&& buffer.m_mask at same
  rwa [sized.mask, sized.mask] at same

/-! ## What calls have and know -/

namespace OwnerCall

/-- The tasks in the hands of the owner. -/
def hands (shared : DequeShared Task) : OwnerCall Task → List (Option Task)
  | .pushLoadingBottom task | .pushLoadingTop task _ | .pushLoadingBuffer task _ _ => [some task]
  | .snapping task _ _ | .growing task _ _ | .storing task _ _ | .publishing task _ => [some task]
  | .popLoadingTask b t buf => if t = b then [] else [(shared.rings buf).load b]
  | _ => []

/-- The owner is pushing a task. -/
def pushing : OwnerCall Task → Nat
  | .pushLoadingBottom _ | .pushLoadingTop _ _ | .pushLoadingBuffer _ _ _ => 1
  | .snapping _ _ _ | .growing _ _ _ | .storing _ _ _ | .publishing _ _ => 1
  | _ => 0

/-- The owner has stored a task above the bottom. -/
def stored : OwnerCall Task → Nat
  | .publishing _ _ => 1
  | _ => 0

theorem stored_le (call : OwnerCall Task) : call.stored ≤ 1 := by
  cases call <;> first | exact le_rfl | exact Nat.zero_le 1

/-- What the owner knows. -/
def Knows (shared : DequeShared Task) : OwnerCall Task → Prop
  | .pushLoadingTop _ b | .popLoadingBuffer b | .restoring b => b = shared.m_bottom
  | .pushLoadingBuffer _ b t | .growing _ b t =>
      b = shared.m_bottom ∧ t ≤ b ∧ b ≤ t + shared.current.m_capacity
  | .snapping _ _ _ => False
  | .storing _ b buf | .popLoadingTop b buf | .popReloadingTop b buf =>
      b = shared.m_bottom ∧ buf = shared.m_buffer
  | .publishing task b => b = shared.m_bottom ∧ shared.current.load b = some task
  | .lowering b buf => b + 1 = shared.m_bottom ∧ buf = shared.m_buffer
  | .popLoadingTask b t buf => b = shared.m_bottom ∧ buf = shared.m_buffer ∧ t ≤ b
  | .popExchanging b task => b = shared.m_bottom ∧ task = shared.current.load b
  | _ => True

end OwnerCall

namespace ThiefCall

/-- The batch has claimed an index, and has not decided about its range. -/
def covers (index : Nat) : ThiefCall Task → Nat
  | .rechecking t stealCount _ | .rollingBack t stealCount _ _ =>
      if t ≤ index ∧ index < t + stealCount then 1 else 0
  | _ => 0

/-- The indices of the tasks that a call has: those of its claim below the bottom, or those that it
has still to copy. -/
def pending (bottom : Nat) : ThiefCall Task → List Nat
  | .rechecking t stealCount _ | .rollingBack t stealCount _ _ =>
      List.range' t (min stealCount (bottom - t))
  | .copying t i stealCount _ => List.range' (t + i) (stealCount - i)
  | _ => []

/-- The ring buffer that a batch copies from. -/
def buffer : ThiefCall Task → Nat
  | .rechecking _ _ buf | .rollingBack _ _ _ buf | .copying _ _ _ buf => buf
  | _ => 0

/-- The tasks in the hands of a thief. -/
def hands (shared : DequeShared Task) (call : ThiefCall Task) : Multiset (Option Task) :=
  ↑((call.pending shared.bottom).map (shared.rings call.buffer).load)

/-- What a thief knows. -/
def Knows (shared : DequeShared Task) : ThiefCall Task → Prop
  | .loadingBuffer t | .loadingTask t _ | .exchanging t _ => t < shared.pushed.length
  | .batchLoadingBuffer t stealCount => 0 < stealCount ∧ t + stealCount ≤ shared.pushed.length
  | .batchExchanging t stealCount buf | .rechecking t stealCount buf =>
      0 < stealCount ∧ t + stealCount ≤ shared.pushed.length ∧ buf ≤ shared.m_buffer
  | .rollingBack t stealCount actualSteal buf =>
      actualSteal < stealCount ∧ t + stealCount ≤ shared.pushed.length ∧ buf ≤ shared.m_buffer ∧
        t + actualSteal ≤ max t shared.bottom
  | .copying t i stealCount buf =>
      i < stealCount ∧ t + stealCount ≤ shared.pushed.length ∧ buf ≤ shared.m_buffer
  | _ => True

/-- A batch that covers the bottom gets what is pushed there. -/
theorem pending_succ (call : ThiefCall Task) (bottom : Nat) :
    call.pending (bottom + 1) =
      call.pending bottom ++ if call.covers bottom = 1 then [bottom] else [] := by
  cases call with
  | rechecking t stealCount | rollingBack t stealCount =>
      rw [pending, pending, covers]
      by_cases inRange : t ≤ bottom ∧ bottom < t + stealCount
      · rw [if_pos inRange, if_pos rfl, Nat.min_eq_right (by omega), Nat.min_eq_right (by omega),
          Nat.sub_add_comm inRange.1, List.range'_1_concat, Nat.add_sub_cancel' inRange.1]
      · rw [if_neg inRange, if_neg (by decide), List.append_nil]
        congr 1
        omega
  | _ => exact (List.append_nil _).symm

theorem covers_le (index : Nat) (call : ThiefCall Task) : call.covers index ≤ 1 := by
  cases call with
  | rechecking | rollingBack =>
      rw [covers]
      split <;> decide
  | _ => exact Nat.zero_le 1

/-- A batch that has claimed an index knows the index of the last one. -/
theorem buffer_le {shared : DequeShared Task} {call : ThiefCall Task} (knows : call.Knows shared) :
    call.buffer ≤ shared.m_buffer := by
  cases call with
  | rechecking | rollingBack | copying =>
      first | exact knows.2.2 | exact knows.2.2.1
  | _ => exact Nat.zero_le _

/-- Only the bottom and the ring buffers in use matter for what a thief has. -/
theorem hands_congr {shared next : DequeShared Task} {call : ThiefCall Task}
    (sameBottom : next.bottom = shared.bottom)
    (sameRing : next.rings call.buffer = shared.rings call.buffer) :
    call.hands next = call.hands shared := by
  rw [hands, hands, sameBottom, sameRing]

/-- What a thief knows stays true. -/
theorem Knows.mono {shared next : DequeShared Task} {call : ThiefCall Task}
    (knows : call.Knows shared) (pushed : shared.pushed.length ≤ next.pushed.length)
    (buffers : shared.m_buffer ≤ next.m_buffer)
    (bottom : ∀ t stealCount actualSteal buf, call = .rollingBack t stealCount actualSteal buf →
      t + actualSteal ≤ max t shared.bottom → t + actualSteal ≤ max t next.bottom) :
    call.Knows next := by
  cases call with
  | loadingBuffer | loadingTask | exchanging => exact knows.trans_le pushed
  | batchLoadingBuffer => exact ⟨knows.1, knows.2.trans pushed⟩
  | batchExchanging | rechecking | copying =>
      exact ⟨knows.1, knows.2.1.trans pushed, knows.2.2.trans buffers⟩
  | rollingBack =>
      obtain ⟨less, few, inUse, below⟩ := knows
      exact ⟨less, few.trans pushed, inUse.trans buffers, bottom _ _ _ _ rfl below⟩
  | _ => trivial

end ThiefCall

/-! ## The law of the deque -/

/-- The deque, its owner and the thieves belong together. -/
structure DequeLaw (shared : DequeShared Task) (pool : Multiset (ThiefCall Task)) : Prop where
  accounted : (↑shared.pushed : Multiset (Option Task)) =
    ↑shared.returned + ↑(shared.owner.hands shared) + ↑shared.contents +
      (pool.map (·.hands shared)).sum
  /-- Claims do not overlap, lie below the top, and reach from the bottom to the top. -/
  covered : ∀ index, (pool.map (·.covers index)).sum ≤ 1 ∧
    (shared.m_top ≤ index → (pool.map (·.covers index)).sum = 0) ∧
    (shared.bottom ≤ index → index < shared.m_top → (pool.map (·.covers index)).sum = 1)
  few : shared.pushed.length < 2 ^ 31
  bottom_le : shared.bottom + shared.owner.pushing ≤ shared.pushed.length
  top_le : shared.m_top ≤ shared.pushed.length
  fits : shared.bottom + shared.owner.stored ≤ shared.m_top + shared.current.m_capacity
  sized : ∀ buf, (shared.rings buf).Sized
  owner : shared.owner.Knows shared
  knows : ∀ call ∈ pool, call.Knows shared

namespace DequeLaw

variable {shared : DequeShared Task} {here moved : ThiefCall Task}
  {rest pool : Multiset (ThiefCall Task)}

/-- Claims lie below the top. -/
theorem claim_below (law : DequeLaw shared pool) {call : ThiefCall Task} (member : call ∈ pool)
    {index : Nat} (covers : call.covers index = 1) : index < shared.m_top := by
  by_contra above
  have none := (law.covered index).2.1 (Nat.le_of_not_lt above)
  have some : call.covers index ≤ (pool.map (·.covers index)).sum :=
    Multiset.le_sum_of_mem (Multiset.mem_map_of_mem (ThiefCall.covers index) member)
  omega

/-- A batch that has not decided lies below the top. -/
theorem range_below (law : DequeLaw shared pool) {t stealCount buf : Nat} {call : ThiefCall Task}
    (member : call ∈ pool)
    (isBatch : call = .rechecking t stealCount buf ∨
      ∃ actualSteal, call = .rollingBack t stealCount actualSteal buf) :
    t + stealCount ≤ shared.m_top := by
  have knows := law.knows call member
  have positive : 0 < stealCount := by
    rcases isBatch with rfl | ⟨actualSteal, rfl⟩
    · exact knows.1
    · exact (Nat.zero_le _).trans_lt knows.1
  have last : call.covers (t + stealCount - 1) = 1 := by
    rcases isBatch with rfl | ⟨actualSteal, rfl⟩ <;> exact if_pos ⟨by omega, by omega⟩
  have below := law.claim_below member last
  omega

/-- What a thief has of its claim does not change while the bottom is not below the top. -/
theorem pending_eq (law : DequeLaw shared pool) {call : ThiefCall Task} (member : call ∈ pool)
    {lower higher : Nat} (isLower : shared.m_top ≤ lower) (isHigher : shared.m_top ≤ higher) :
    call.pending lower = call.pending higher := by
  cases call with
  | rechecking t stealCount buf =>
      have below := law.range_below member (.inl rfl)
      rw [ThiefCall.pending, ThiefCall.pending, Nat.min_eq_left (by omega),
        Nat.min_eq_left (by omega)]
  | rollingBack t stealCount actualSteal buf =>
      have below := law.range_below member (.inr ⟨_, rfl⟩)
      rw [ThiefCall.pending, ThiefCall.pending, Nat.min_eq_left (by omega),
        Nat.min_eq_left (by omega)]
  | _ => rfl

/-! ## Steps of the owner alone -/

/-- The owner moves on, and nobody takes or gives a task. -/
theorem kept (law : DequeLaw shared pool) {next : DequeShared Task} (log : next.log = shared.log)
    (top : next.m_top = shared.m_top) (bottom : next.bottom = shared.bottom)
    (buffers : shared.m_buffer ≤ next.m_buffer) (contents : next.contents = shared.contents)
    (hands : next.owner.hands next = shared.owner.hands shared)
    (thieves : ∀ call ∈ pool, call.hands next = call.hands shared)
    (pushing : next.owner.pushing = shared.owner.pushing)
    (fits : next.bottom + next.owner.stored ≤ next.m_top + next.current.m_capacity)
    (sized : ∀ buf, (next.rings buf).Sized) (owner : next.owner.Knows next) :
    DequeLaw next pool where
  accounted := by
    rw [DequeShared.pushed, DequeShared.returned, log, contents, hands,
      Multiset.map_congr rfl thieves]
    exact law.accounted
  covered := by
    rw [top, bottom]
    exact law.covered
  few := by
    rw [DequeShared.pushed, log]
    exact law.few
  bottom_le := by
    rw [DequeShared.pushed, log, bottom, pushing]
    exact law.bottom_le
  top_le := by
    rw [DequeShared.pushed, log, top]
    exact law.top_le
  fits := fits
  sized := sized
  owner := owner
  knows := by
    intro call member
    have samePushed : shared.pushed.length = next.pushed.length := by
      rw [DequeShared.pushed, DequeShared.pushed, log]
    refine (law.knows call member).mono samePushed.le buffers fun t _ actualSteal _ _ below => ?_
    rwa [bottom]

/-- The owner moves on, and restores or lowers `m_bottom` without a change of the bottom. -/
theorem owned (law : DequeLaw shared pool) {m_bottom : Nat} {owner : OwnerCall Task}
    (bottom : m_bottom + owner.lowered = shared.bottom)
    (hands : owner.hands shared = shared.owner.hands shared)
    (pushing : owner.pushing = shared.owner.pushing) (stored : owner.stored = shared.owner.stored)
    (knows : owner.Knows { shared with m_bottom, owner }) :
    DequeLaw { shared with m_bottom, owner } pool := by
  refine law.kept rfl rfl bottom le_rfl ?_ ?_ ?_ pushing ?_ law.sized knows
  · exact congrArg (fun bottom => (List.range' shared.m_top (bottom - shared.m_top)).map
      shared.current.load) bottom
  · rw [← hands]
    cases owner <;> rfl
  · exact fun call _ => ThiefCall.hands_congr bottom rfl
  · show m_bottom + owner.lowered + owner.stored ≤ _
    rw [bottom, stored]
    exact law.fits

/-- `pushBottom` begins. -/
theorem called (law : DequeLaw shared pool) (idle : shared.owner = .idle) {task : Task}
    (few : shared.pushed.length + 1 < 2 ^ 31) :
    DequeLaw { shared.record (.pushed task) with owner := .pushLoadingBottom task } pool where
  accounted := by
    have sameBottom : DequeShared.bottom
        { shared.record (.pushed task) with owner := .pushLoadingBottom task } = shared.bottom := by
      rw [DequeShared.bottom, DequeShared.bottom, idle]
      rfl
    have same : (fun call : ThiefCall Task => call.hands
        { shared.record (.pushed task) with owner := .pushLoadingBottom task }) =
        fun call => call.hands shared := by
      funext call
      exact ThiefCall.hands_congr sameBottom rfl
    have accounted := law.accounted
    rw [idle] at accounted
    rw [same]
    show (↑(some task :: shared.pushed) : Multiset (Option Task)) =
      ↑shared.returned + ↑[some task] +
        ↑((List.range' shared.m_top (DequeShared.bottom _ - shared.m_top)).map
          shared.current.load) + _
    rw [sameBottom, ← Multiset.cons_coe, accounted, ← Multiset.singleton_add, DequeShared.contents,
      show (↑(OwnerCall.idle.hands shared) : Multiset (Option Task)) = 0 from rfl,
      show (↑[some task] : Multiset (Option Task)) = {some task} from rfl]
    abel
  covered := by
    intro index
    obtain ⟨single, above, between⟩ := law.covered index
    refine ⟨single, above, fun isAbove => between ?_⟩
    rw [DequeShared.bottom, idle]
    exact isAbove
  few := few
  bottom_le := by
    have bottom := law.bottom_le
    rw [DequeShared.bottom, idle] at bottom
    exact Nat.succ_le_succ bottom
  top_le := law.top_le.trans (Nat.le_succ _)
  fits := by
    have fits := law.fits
    rw [DequeShared.bottom, idle] at fits
    exact fits
  sized := law.sized
  owner := trivial
  knows := by
    intro call member
    refine (law.knows call member).mono (Nat.le_succ _) le_rfl fun t _ actualSteal _ _ below => ?_
    rw [DequeShared.bottom, idle] at below
    exact below

/-- `grow` copies everything from the top on, unless the top went back below `t`. -/
theorem grown (law : DequeLaw shared pool) {task : Task} {b t : Nat}
    (isGrowing : shared.owner = .growing task b t) (fresh : t < b → t ≤ shared.m_top) :
    DequeLaw { shared.grow b t with owner := .storing task b (shared.grow b t).m_buffer } pool := by
  have knows := law.owner
  have bottom := law.bottom_le
  have fits := law.fits
  have few := law.few
  have accounted := law.accounted
  rw [isGrowing] at knows fits accounted
  obtain ⟨isBottom, ordered, near⟩ := knows
  have sameBottom : shared.bottom = b := by
    rw [DequeShared.bottom, isGrowing, isBottom]
    rfl
  by_cases empty : b ≤ t
  · have same : shared.grow b t = shared := if_pos empty
    rw [same]
    exact law.owned (by rw [sameBottom, isBottom]; rfl) (by rw [isGrowing]; rfl)
      (by rw [isGrowing]; rfl) (by rw [isGrowing]; rfl) ⟨isBottom, rfl⟩
  · have some : t < b := Nat.lt_of_not_le empty
    obtain ⟨next, isNext⟩ : ∃ next, next =
        { shared.setRing (shared.m_buffer + 1) (shared.current.grow t b) with
          m_buffer := shared.m_buffer + 1
          owner := OwnerCall.storing task b (shared.m_buffer + 1) } := ⟨_, rfl⟩
    have same : { shared.grow b t with
        owner := OwnerCall.storing task b (shared.grow b t).m_buffer } = next := by
      rw [isNext, show shared.grow b t =
        { shared.setRing (shared.m_buffer + 1) (shared.current.grow t b) with
          m_buffer := shared.m_buffer + 1 } from if_neg empty]
    have rings : next.rings = Function.update shared.rings (shared.m_buffer + 1)
        (shared.current.grow t b) := by rw [isNext]; rfl
    have isNew : next.current = shared.current.grow t b := by
      rw [DequeShared.current, rings, isNext]
      exact Function.update_self ..
    have newBottom : next.bottom = shared.bottom := by
      rw [sameBottom, isBottom, isNext]
      rfl
    have isTop : next.m_top = shared.m_top := by rw [isNext]; rfl
    have isOwner : next.owner = .storing task b next.m_buffer := by rw [isNext]
    obtain ⟨capacity, loads⟩ := (law.sized shared.m_buffer).grow (by omega : b < 2 ^ 32)
      (Nat.sub_le_iff_le_add'.mpr near) some
    rw [same]
    refine law.kept (by rw [isNext]; rfl) isTop newBottom (by rw [isNext]; exact Nat.le_succ _)
      ?_ ?_ ?_ ?_ ?_ ?_ ?_
    · rw [DequeShared.contents, DequeShared.contents, newBottom, isNew, isTop]
      refine List.map_congr_left fun index member => ?_
      rw [List.mem_range'_1] at member
      exact loads index ((fresh some).trans member.1) (by omega)
    · rw [isOwner, isGrowing]
      rfl
    · intro call member
      have inUse := ThiefCall.buffer_le (law.knows call member)
      refine ThiefCall.hands_congr newBottom ?_
      rw [rings]
      exact Function.update_of_ne (by omega) ..
    · rw [isOwner, isGrowing]
      rfl
    · rw [newBottom, isTop, isNew, isOwner]
      refine fits.trans (Nat.add_le_add_left ?_ _)
      rw [show (shared.current.grow t b).m_capacity = _ from capacity]
      exact Nat.le_mul_of_pos_right _ Nat.two_pos
    · intro buf
      rw [rings]
      by_cases isLast : buf = shared.m_buffer + 1
      · obtain ⟨bits, size⟩ := law.sized shared.m_buffer
        rw [isLast, Function.update_self]
        exact ⟨bits + 1, capacity.trans (by rw [size, Nat.pow_succ])⟩
      · rw [Function.update_of_ne isLast]
        exact law.sized buf
    · rw [isOwner]
      refine ⟨?_, rfl⟩
      rw [isBottom, isNext]
      rfl

/-- `pushBottom` stores its task where no task is that somebody has. -/
theorem stored (law : DequeLaw shared pool) {task : Task} {b buf : Nat}
    (isStoring : shared.owner = .storing task b buf)
    (room : b < shared.m_top + shared.current.m_capacity)
    (unused : ∀ call ∈ pool, call.buffer = buf → ∀ index ∈ call.pending shared.bottom,
      ¬ index ≡ b [MOD shared.current.m_capacity]) :
    DequeLaw { shared.setRing buf ((shared.rings buf).store b (some task)) with
      owner := .publishing task b } pool := by
  have knows := law.owner
  have sized := law.sized buf
  rw [isStoring] at knows
  obtain ⟨isBottom, rfl⟩ := knows
  have sameBottom : shared.bottom = b := by
    rw [DequeShared.bottom, isStoring, isBottom]
    rfl
  obtain ⟨next, isNext⟩ : ∃ next, next =
      { shared.setRing shared.m_buffer (shared.current.store b (some task)) with
        owner := OwnerCall.publishing task b } := ⟨_, rfl⟩
  have rings : next.rings = Function.update shared.rings shared.m_buffer
      (shared.current.store b (some task)) := by rw [isNext]; rfl
  have isCurrent : next.current = shared.current.store b (some task) := by
    rw [DequeShared.current, rings, isNext]
    exact Function.update_self ..
  have newBottom : next.bottom = shared.bottom := by
    rw [sameBottom, isBottom, isNext]
    rfl
  have isTop : next.m_top = shared.m_top := by rw [isNext]; rfl
  have isOwner : next.owner = .publishing task b := by rw [isNext]
  show DequeLaw
    { shared.setRing shared.m_buffer (shared.current.store b (some task)) with
      owner := OwnerCall.publishing task b } pool
  rw [← isNext]
  refine law.kept (by rw [isNext]; rfl) isTop newBottom (by rw [isNext]; exact le_rfl)
    ?_ ?_ ?_ ?_ ?_ ?_ ?_
  · rw [DequeShared.contents, DequeShared.contents, newBottom, isCurrent, isTop]
    refine List.map_congr_left fun index member => ?_
    rw [List.mem_range'_1] at member
    have near : b - index < shared.current.m_capacity := by omega
    exact sized.load_store_of_near _ (by omega) near
  · rw [isOwner, isStoring]
    rfl
  · intro call member
    rw [ThiefCall.hands, ThiefCall.hands, newBottom, rings]
    by_cases same : call.buffer = shared.m_buffer
    · rw [same, Function.update_self]
      refine congrArg _ (List.map_congr_left fun index isPending => ?_)
      exact sized.load_store_of_not_modEq _ (unused call member same index isPending)
    · rw [Function.update_of_ne same]
  · rw [isOwner, isStoring]
    rfl
  · rw [newBottom, isTop, isCurrent, isOwner, sameBottom]
    exact room
  · intro other
    rw [rings]
    by_cases same : other = shared.m_buffer
    · rw [same, Function.update_self]
      exact sized
    · rw [Function.update_of_ne same]
      exact law.sized other
  · rw [isOwner]
    refine ⟨?_, ?_⟩
    · rw [isBottom, isNext]
      rfl
    · rw [isCurrent]
      exact RingBuffer.load_store_self ..

/-- What the thieves get when the bottom rises. -/
theorem hands_succ {next : DequeShared Task} (bottom : next.bottom = shared.bottom + 1)
    (rings : next.rings = shared.rings) {task : Option Task}
    (loads : ∀ call ∈ pool, call.covers shared.bottom = 1 →
      (shared.rings call.buffer).load shared.bottom = task) :
    (pool.map (·.hands next)).sum =
      (pool.map (·.hands shared)).sum + (pool.map (·.covers shared.bottom)).sum • {task} := by
  induction pool using Multiset.induction_on with
  | empty => rfl
  | cons call pool ih =>
      have others := ih fun call member => loads call (Multiset.mem_cons_of_mem member)
      rw [Multiset.map_cons, Multiset.sum_cons, Multiset.map_cons, Multiset.sum_cons,
        Multiset.map_cons, Multiset.sum_cons, others, add_nsmul]
      have mine : call.hands next =
          call.hands shared + call.covers shared.bottom • ({task} : Multiset (Option Task)) := by
        rw [ThiefCall.hands, ThiefCall.hands, bottom, rings, ThiefCall.pending_succ]
        by_cases covers : call.covers shared.bottom = 1
        · have load := loads call (Multiset.mem_cons_self _ _) covers
          rw [covers, if_pos rfl, one_nsmul, List.map_append, ← Multiset.coe_add,
            List.map_singleton, load]
          rfl
        · have none : call.covers shared.bottom = 0 := by
            have := call.covers_le shared.bottom
            omega
          rw [none, if_neg (by decide), zero_nsmul, List.append_nil, add_zero]
      rw [mine]
      abel

/-- `pushBottom` makes its task visible. -/
theorem published (law : DequeLaw shared pool) {task : Task} {b : Nat}
    (isPublishing : shared.owner = .publishing task b)
    (sameRing : ∀ call ∈ pool, call.covers b = 1 → call.buffer = shared.m_buffer) :
    DequeLaw { shared with m_bottom := u32 (b + 1), owner := .idle } pool := by
  have knows := law.owner
  have bottomLe := law.bottom_le
  have fits := law.fits
  have few := law.few
  have accounted := law.accounted
  rw [isPublishing] at knows bottomLe fits accounted
  obtain ⟨isBottom, isStored⟩ := knows
  have sameBottom : shared.bottom = b := by
    rw [DequeShared.bottom, isPublishing, isBottom]
    rfl
  rw [sameBottom] at bottomLe fits
  simp only [OwnerCall.pushing, OwnerCall.stored] at bottomLe fits
  have noWrap : u32 (b + 1) = b + 1 := u32_of_lt (by omega)
  rw [noWrap]
  have newBottom :
      DequeShared.bottom { shared with m_bottom := b + 1, owner := .idle } = shared.bottom + 1 := by
    rw [sameBottom]
    rfl
  have loads : ∀ call ∈ pool, call.covers shared.bottom = 1 →
      (shared.rings call.buffer).load shared.bottom = some task := by
    rw [sameBottom]
    intro call member covers
    rw [sameRing call member covers]
    exact isStored
  refine
    { accounted := ?_
      covered := ?_
      few := few
      bottom_le := bottomLe
      top_le := law.top_le
      fits := fits
      sized := law.sized
      owner := trivial
      knows := ?_ }
  · rw [hands_succ newBottom rfl loads]
    show (↑shared.pushed : Multiset (Option Task)) = ↑shared.returned + 0 +
      ↑((List.range' shared.m_top (b + 1 - shared.m_top)).map shared.current.load) + _
    rw [accounted, OwnerCall.hands, DequeShared.contents, sameBottom]
    obtain ⟨-, above, between⟩ := law.covered b
    by_cases below : shared.m_top ≤ b
    · rw [above below, zero_nsmul, Nat.sub_add_comm below, List.range'_1_concat, List.map_append,
        List.map_singleton, ← Multiset.coe_add, Nat.add_sub_cancel' below, isStored]
      abel
    · rw [between sameBottom.le (Nat.lt_of_not_le below), one_nsmul,
        Nat.sub_eq_zero_of_le (Nat.le_of_not_le below), Nat.sub_eq_zero_of_le (by omega)]
      show _ + ({some task} : Multiset (Option Task)) + _ + _ = _
      abel
  · intro index
    obtain ⟨single, above, between⟩ := law.covered index
    exact ⟨single, above, fun isAbove => between (by rw [newBottom] at isAbove; omega)⟩
  · intro call member
    refine (law.knows call member).mono le_rfl le_rfl fun t _ actualSteal _ _ below => ?_
    rw [newBottom]
    omega

/-- `popBottom` takes the last task, where it is not the only one. -/
theorem popTaken (law : DequeLaw shared pool) {b buf : Nat}
    (isReloading : shared.owner = .popReloadingTop b buf) (less : shared.m_top < b) :
    DequeLaw { shared with owner := .popLoadingTask b shared.m_top buf } pool := by
  have knows := law.owner
  have bottomLe := law.bottom_le
  have fits := law.fits
  have accounted := law.accounted
  rw [isReloading] at knows bottomLe fits accounted
  obtain ⟨isBottom, rfl⟩ := knows
  have sameBottom : shared.bottom = b + 1 := by
    rw [DequeShared.bottom, isReloading, isBottom]
    rfl
  rw [sameBottom] at bottomLe fits
  simp only [OwnerCall.pushing, OwnerCall.stored, Nat.add_zero] at bottomLe fits
  obtain ⟨next, isNext⟩ : ∃ next, next =
    { shared with owner := OwnerCall.popLoadingTask b shared.m_top shared.m_buffer } := ⟨_, rfl⟩
  have newBottom : next.bottom = b := by
    rw [isNext, DequeShared.bottom, OwnerCall.lowered, if_neg less.ne, Nat.add_zero]
    exact isBottom.symm
  have isOwner : next.owner = .popLoadingTask b shared.m_top shared.m_buffer := by rw [isNext]
  have isTop : next.m_top = shared.m_top := by rw [isNext]
  have samePushed : next.pushed = shared.pushed := by rw [isNext]; rfl
  have sameReturned : next.returned = shared.returned := by rw [isNext]; rfl
  have sameRings : next.rings = shared.rings := by rw [isNext]
  have sameCurrent : next.current = shared.current := by rw [isNext]; rfl
  rw [← isNext]
  refine
    { accounted := ?_
      covered := ?_
      few := ?_
      bottom_le := ?_
      top_le := ?_
      fits := ?_
      sized := sameRings ▸ law.sized
      owner := ?_
      knows := ?_ }
  · have thieves : ∀ call ∈ pool, call.hands next = call.hands shared := by
      intro call member
      rw [ThiefCall.hands, ThiefCall.hands, newBottom, sameBottom, sameRings,
        law.pending_eq member less.le (Nat.le_succ_of_le less.le)]
    rw [Multiset.map_congr rfl thieves, samePushed, sameReturned, isOwner, OwnerCall.hands,
      if_neg less.ne, DequeShared.contents, newBottom, isTop, sameCurrent, sameRings]
    refine accounted.trans ?_
    rw [show (OwnerCall.popReloadingTop b shared.m_buffer).hands shared = [] from rfl,
      DequeShared.contents, sameBottom, Nat.sub_add_comm less.le,
      List.range'_1_concat, List.map_append, List.map_singleton, ← Multiset.coe_add,
      Nat.add_sub_cancel' less.le]
    show _ + (0 : Multiset (Option Task)) +
      (_ + ↑[(shared.rings shared.m_buffer).load b]) + _ = _
    abel
  · intro index
    obtain ⟨single, above, -⟩ := law.covered index
    rw [isTop, newBottom]
    exact ⟨single, above, fun isAbove isBelow => by omega⟩
  · rw [samePushed]
    exact law.few
  · rw [samePushed, newBottom, isOwner]
    exact (Nat.le_succ b).trans bottomLe
  · rw [samePushed, isTop]
    exact law.top_le
  · rw [newBottom, isOwner, isTop, sameCurrent]
    exact (Nat.le_succ b).trans fits
  · rw [isOwner]
    refine ⟨?_, ?_, less.le⟩
    · rw [isNext]
      exact isBottom
    · rw [isNext]
  · intro call member
    refine (law.knows call member).mono ?_ ?_ fun t stealCount actualSteal buf isBatch _ => ?_
    · rw [samePushed]
    · rw [isNext]
    · have range := law.range_below member (.inr ⟨actualSteal, isBatch⟩)
      have knows := law.knows call member
      rw [isBatch] at knows
      obtain ⟨few, -⟩ := knows
      rw [newBottom]
      omega

/-- `popBottom` returns the task that it has taken. -/
theorem popReturned (law : DequeLaw shared pool) {b t buf : Nat}
    (isLoading : shared.owner = .popLoadingTask b t buf) (different : t ≠ b) :
    DequeLaw { shared.record (.popped b ((shared.rings buf).load b)) with owner := .idle }
      pool := by
  have bottomLe := law.bottom_le
  have fits := law.fits
  have accounted := law.accounted
  rw [isLoading] at bottomLe fits accounted
  obtain ⟨next, isNext⟩ : ∃ next, next =
    { shared.record (.popped b ((shared.rings buf).load b)) with owner := OwnerCall.idle } :=
    ⟨_, rfl⟩
  have newBottom : next.bottom = shared.bottom := by
    rw [isNext, DequeShared.bottom, DequeShared.bottom, isLoading, OwnerCall.lowered,
      if_neg different]
    rfl
  have isOwner : next.owner = .idle := by rw [isNext]
  have isTop : next.m_top = shared.m_top := by rw [isNext]; rfl
  have sameRings : next.rings = shared.rings := by rw [isNext]; rfl
  have sameCurrent : next.current = shared.current := by rw [isNext]; rfl
  have samePushed : next.pushed = shared.pushed := by rw [isNext]; rfl
  have isReturned : next.returned = (shared.rings buf).load b :: shared.returned := by
    rw [isNext]
    rfl
  rw [← isNext]
  refine
    { accounted := ?_
      covered := by rw [isTop, newBottom]; exact law.covered
      few := samePushed ▸ law.few
      bottom_le := by rw [newBottom, isOwner, samePushed]; exact bottomLe
      top_le := by rw [isTop, samePushed]; exact law.top_le
      fits := by rw [newBottom, isOwner, isTop, sameCurrent]; exact fits
      sized := sameRings ▸ law.sized
      owner := by rw [isOwner]; trivial
      knows := ?_ }
  · have thieves : ∀ call ∈ pool, call.hands next = call.hands shared := fun call _ =>
      ThiefCall.hands_congr newBottom (by rw [sameRings])
    rw [Multiset.map_congr rfl thieves, samePushed, isReturned, isOwner, DequeShared.contents,
      newBottom, isTop, sameCurrent, ← Multiset.cons_coe, ← Multiset.singleton_add]
    refine accounted.trans ?_
    rw [OwnerCall.hands, if_neg different, DequeShared.contents]
    show _ + ({(shared.rings buf).load b} : Multiset (Option Task)) + _ + _ =
      _ + _ + (0 : Multiset (Option Task)) + _ + _
    abel
  · intro call member
    refine (law.knows call member).mono ?_ ?_ fun t _ actualSteal _ _ below => ?_
    · rw [samePushed]
    · rw [isNext]
      exact le_rfl
    · rwa [newBottom]

/-- `popBottom` wins the last task. -/
theorem popWon (law : DequeLaw shared pool) {b : Nat} {task : Option Task}
    (isExchanging : shared.owner = .popExchanging b task) (isTop : shared.m_top = b) :
    DequeLaw { shared.record (.popped b task) with m_top := u32 (b + 1), owner := .restoring b }
      pool := by
  have knows := law.owner
  have bottomLe := law.bottom_le
  have few := law.few
  have accounted := law.accounted
  rw [isExchanging] at knows bottomLe accounted
  obtain ⟨isBottom, isTask⟩ := knows
  have sameBottom : shared.bottom = b + 1 := by
    rw [DequeShared.bottom, isExchanging, isBottom]
    rfl
  rw [sameBottom] at bottomLe
  simp only [OwnerCall.pushing, Nat.add_zero] at bottomLe
  have noWrap : u32 (b + 1) = b + 1 := u32_of_lt (by omega)
  rw [noWrap]
  obtain ⟨next, isNext⟩ : ∃ next, next =
    { shared.record (.popped b task) with m_top := b + 1, owner := OwnerCall.restoring b } :=
    ⟨_, rfl⟩
  have newBottom : next.bottom = shared.bottom := by
    rw [isNext, sameBottom, isBottom]
    rfl
  have isOwner : next.owner = .restoring b := by rw [isNext]
  have newTop : next.m_top = b + 1 := by rw [isNext]
  have sameRings : next.rings = shared.rings := by rw [isNext]; rfl
  have sameCurrent : next.current = shared.current := by rw [isNext]; rfl
  have samePushed : next.pushed = shared.pushed := by rw [isNext]; rfl
  have isReturned : next.returned = task :: shared.returned := by
    rw [isNext]
    rfl
  rw [← isNext]
  refine
    { accounted := ?_
      covered := ?_
      few := samePushed ▸ law.few
      bottom_le := by rw [newBottom, sameBottom, isOwner, samePushed]; exact bottomLe
      top_le := by rw [newTop, samePushed]; exact bottomLe
      fits := by rw [newBottom, sameBottom, isOwner, newTop]; exact Nat.le_add_right _ _
      sized := sameRings ▸ law.sized
      owner := by rw [isOwner, isNext]; exact isBottom
      knows := ?_ }
  · have thieves : ∀ call ∈ pool, call.hands next = call.hands shared := fun call _ =>
      ThiefCall.hands_congr newBottom (by rw [sameRings])
    rw [Multiset.map_congr rfl thieves, samePushed, isReturned, isOwner, DequeShared.contents,
      newBottom, newTop, sameBottom, Nat.sub_self, ← Multiset.cons_coe, ← Multiset.singleton_add]
    refine accounted.trans ?_
    rw [show (OwnerCall.popExchanging b task).hands shared = [] from rfl, DequeShared.contents,
      isTop, sameBottom, Nat.add_sub_cancel_left, isTask]
    show _ + (0 : Multiset (Option Task)) + ({shared.current.load b} : Multiset (Option Task)) + _ =
      _ + _ + (0 : Multiset (Option Task)) + (0 : Multiset (Option Task)) + _
    abel
  · intro index
    obtain ⟨single, above, -⟩ := law.covered index
    rw [newTop, newBottom, sameBottom]
    refine ⟨single, fun isAbove => above ?_, fun isAbove isBelow => by omega⟩
    omega
  · intro call member
    refine (law.knows call member).mono ?_ ?_ fun t _ actualSteal _ _ below => ?_
    · rw [samePushed]
    · rw [isNext]
      exact le_rfl
    · rwa [newBottom]

/-! ## Steps of the thieves -/

/-- A thief moves on, and takes or gives tasks. -/
theorem advanced (law : DequeLaw shared (here ::ₘ rest)) {m_top : Nat}
    {log : List (DequeEvent Task)}
    (pushes : log.filterMap DequeEvent.pushes = shared.pushed)
    (hands : ↑(log.filterMap DequeEvent.returns) +
        ↑((List.range' m_top (shared.bottom - m_top)).map shared.current.load) +
        moved.hands shared =
      (↑shared.returned + ↑shared.contents + here.hands shared : Multiset (Option Task)))
    (covered : ∀ index others, others + here.covers index ≤ 1 →
      (shared.m_top ≤ index → others + here.covers index = 0) →
      (shared.bottom ≤ index → index < shared.m_top → others + here.covers index = 1) →
      others + moved.covers index ≤ 1 ∧ (m_top ≤ index → others + moved.covers index = 0) ∧
        (shared.bottom ≤ index → index < m_top → others + moved.covers index = 1))
    (top_le : m_top ≤ shared.pushed.length)
    (fits : shared.bottom + shared.owner.stored ≤ m_top + shared.current.m_capacity)
    (knows : moved.Knows shared) :
    DequeLaw { shared with m_top, log } (moved ::ₘ rest) where
  accounted := by
    have accounted := law.accounted
    rw [Multiset.map_cons, Multiset.sum_cons] at accounted ⊢
    have sameOwner : OwnerCall.hands { shared with m_top, log } shared.owner =
        shared.owner.hands shared := by
      cases shared.owner <;> rfl
    show (↑(log.filterMap DequeEvent.pushes) : Multiset (Option Task)) =
      ↑(log.filterMap DequeEvent.returns) +
        ↑(OwnerCall.hands { shared with m_top, log } shared.owner) +
        ↑((List.range' m_top (shared.bottom - m_top)).map shared.current.load) +
        (moved.hands shared + (rest.map (·.hands shared)).sum)
    rw [pushes, sameOwner]
    calc (↑shared.pushed : Multiset (Option Task))
        = ↑shared.returned + ↑(shared.owner.hands shared) + ↑shared.contents +
          (here.hands shared + (rest.map (·.hands shared)).sum) := accounted
      _ = (↑shared.returned + ↑shared.contents + here.hands shared) +
          (↑(shared.owner.hands shared) + (rest.map (·.hands shared)).sum) := by abel
      _ = _ := by
        rw [← hands]
        abel
  covered := by
    intro index
    have counted := law.covered index
    rw [Multiset.map_cons, Multiset.sum_cons, Nat.add_comm] at counted ⊢
    exact covered index _ counted.1 counted.2.1 counted.2.2
  few := by
    show (log.filterMap DequeEvent.pushes).length < 2 ^ 31
    rw [pushes]
    exact law.few
  bottom_le := by
    show shared.bottom + shared.owner.pushing ≤ (log.filterMap DequeEvent.pushes).length
    rw [pushes]
    exact law.bottom_le
  top_le := by
    show m_top ≤ (log.filterMap DequeEvent.pushes).length
    rw [pushes]
    exact top_le
  fits := fits
  sized := law.sized
  owner := by
    have owner := law.owner
    show OwnerCall.Knows { shared with m_top, log } shared.owner
    cases isOwner : shared.owner <;> rw [isOwner] at owner <;> exact owner
  knows := by
    have stays {call : ThiefCall Task} (known : call.Knows shared) :
        call.Knows { shared with m_top, log } := by
      refine known.mono (Nat.le_of_eq ?_) le_rfl fun _ _ _ _ _ below => below
      exact congrArg List.length pushes.symm
    rw [Multiset.forall_mem_cons]
    exact ⟨stays knows, fun call member => stays (law.knows call (Multiset.mem_cons_of_mem member))⟩

/-- A thief moves on, and nobody takes or gives a task. -/
theorem onward (law : DequeLaw shared (here ::ₘ rest))
    (hands : moved.hands shared = here.hands shared)
    (covers : ∀ index, moved.covers index ≤ here.covers index)
    (above : ∀ index, shared.bottom ≤ index → moved.covers index = here.covers index)
    (knows : moved.Knows shared) : DequeLaw shared (moved ::ₘ rest) := by
  refine law.advanced rfl (by rw [hands]; rfl) ?_ law.top_le law.fits knows
  intro index others single isAbove between
  have fewer := covers index
  refine ⟨by omega, fun top => by have := isAbove top; omega, fun bottom below => ?_⟩
  rw [above index bottom]
  exact between bottom below

/-- `stealTop` takes the first task. -/
theorem stole (law : DequeLaw shared (here ::ₘ rest)) {t : Nat} {task : Option Task}
    (isHere : here = .exchanging t task) (isTop : shared.m_top = t) (some : t < shared.bottom)
    (isTask : task = shared.current.load t) :
    DequeLaw { shared.record (.stolen t task) with m_top := u32 (t + 1) } (.idle ::ₘ rest) := by
  subst isHere isTask
  have few := law.few
  have bottomLe := law.bottom_le
  have fits := law.fits
  rw [u32_of_lt (by omega)]
  refine law.advanced rfl ?_ ?_ (by omega) (by omega) trivial
  · rw [DequeShared.contents, isTop]
    have first : List.range' t (shared.bottom - t) =
        t :: List.range' (t + 1) (shared.bottom - (t + 1)) := by
      rw [show shared.bottom - t = shared.bottom - (t + 1) + 1 by omega, List.range'_succ]
    rw [first, List.map_cons, ← Multiset.cons_coe, ← Multiset.singleton_add]
    show (↑(shared.current.load t :: shared.returned) : Multiset (Option Task)) + _ + 0 =
      _ + ({shared.current.load t} + _) + 0
    rw [← Multiset.cons_coe, ← Multiset.singleton_add]
    abel
  · intro index others single above between
    refine ⟨single, fun top => above (by omega), fun bottom below => ?_⟩
    omega

/-- The compare-exchange of `stealBatch` claims a range. -/
theorem claimed (law : DequeLaw shared (here ::ₘ rest)) {t stealCount buf : Nat}
    (isHere : here = .batchExchanging t stealCount buf) (isTop : shared.m_top = t)
    (sameTasks : ∀ index ∈ List.range' t (min stealCount (shared.bottom - t)),
      (shared.rings buf).load index = shared.current.load index) :
    DequeLaw { shared with m_top := u32 (t + stealCount) }
      (.rechecking t stealCount buf ::ₘ rest) := by
  subst isHere
  have few := law.few
  have fits := law.fits
  obtain ⟨positive, bounded, inUse⟩ := law.knows _ (Multiset.mem_cons_self _ _)
  rw [u32_of_lt (by omega)]
  refine law.advanced rfl ?_ ?_ bounded (by omega) ⟨positive, bounded, inUse⟩
  · have split : List.range' t (shared.bottom - t) =
        List.range' t (min stealCount (shared.bottom - t)) ++
          List.range' (t + stealCount) (shared.bottom - (t + stealCount)) := by
      rcases Nat.le_total stealCount (shared.bottom - t) with within | beyond
      · rw [Nat.min_eq_left within, List.range'_append_1]
        congr 1
        omega
      · rw [Nat.min_eq_right beyond, show shared.bottom - (t + stealCount) = 0 by omega]
        exact (List.append_nil _).symm
    rw [DequeShared.contents, isTop, split, List.map_append, ← Multiset.coe_add]
    show (↑shared.returned : Multiset (Option Task)) + _ +
      ↑((List.range' t (min stealCount (shared.bottom - t))).map (shared.rings buf).load) =
      ↑shared.returned + _ + 0
    rw [List.map_congr_left sameTasks]
    abel
  · intro index others single above between
    simp only [ThiefCall.covers, Nat.add_zero] at single above between ⊢
    split
    next inRange =>
      have none := above (by omega)
      exact ⟨by omega, fun top => by omega, fun _ _ => by omega⟩
    next outside =>
      exact ⟨single, fun top => above (by omega), fun bottom below => between bottom (by omega)⟩

/-- The second look at `m_bottom`. -/
theorem rechecked (law : DequeLaw shared (here ::ₘ rest)) {t stealCount buf : Nat}
    (isHere : here = .rechecking t stealCount buf) {spurious : Bool} {next : DequeShared Task}
    {there : ThiefCall Task} (stepped : here.go shared spurious = some (next, there)) :
    DequeLaw next (there ::ₘ rest) := by
  subst isHere
  have few := law.few
  obtain ⟨positive, bounded, inUse⟩ := law.knows _ (Multiset.mem_cons_self _ _)
  have noWrap : u32 (t + stealCount) = t + stealCount := u32_of_lt (by omega)
  have bottomLe : shared.m_bottom ≤ shared.bottom := Nat.le_add_right _ _
  simp only [ThiefCall.go, noWrap] at stepped
  split at stepped
  next short =>
    cases stepped
    refine law.onward rfl (fun _ => le_rfl) (fun _ _ => rfl) ?_
    split
    next some =>
      rw [u32Sub_of_le some.le]
      exact ⟨by omega, bounded, inUse, by omega⟩
    next none => exact ⟨positive, bounded, inUse, by omega⟩
  next enough =>
    cases stepped
    refine law.onward ?_ (fun _ => Nat.zero_le _) (fun index bottom => ?_)
      ⟨positive, bounded, inUse⟩
    · rw [ThiefCall.hands, ThiefCall.hands, ThiefCall.pending, ThiefCall.pending, Nat.add_zero,
        Nat.sub_zero, Nat.min_eq_left (by omega)]
      rfl
    · exact (if_neg (by omega)).symm

/-- The store that gives back what was claimed too much. -/
theorem rolledBack (law : DequeLaw shared (here ::ₘ rest)) {t stealCount actualSteal buf : Nat}
    (isHere : here = .rollingBack t stealCount actualSteal buf)
    (isTop : shared.m_top = t + stealCount)
    (sameTasks : ∀ index ∈ List.range' (t + actualSteal)
        (min stealCount (shared.bottom - t) - actualSteal),
      (shared.rings buf).load index = shared.current.load index ∧
        shared.bottom + shared.owner.stored ≤ index + shared.current.m_capacity) :
    DequeLaw { shared with m_top := u32 (t + actualSteal) }
      ((if actualSteal = 0 then .idle else .copying t 0 actualSteal buf) ::ₘ rest) := by
  subst isHere
  have few := law.few
  obtain ⟨less, bounded, inUse, below⟩ := law.knows _ (Multiset.mem_cons_self _ _)
  have within : actualSteal ≤ min stealCount (shared.bottom - t) := by omega
  rw [u32_of_lt (by omega)]
  refine law.advanced rfl ?_ ?_ (by omega) ?_ ?_
  · have taken : List.range' t (min stealCount (shared.bottom - t)) = List.range' t actualSteal ++
        List.range' (t + actualSteal) (min stealCount (shared.bottom - t) - actualSteal) := by
      rw [List.range'_append_1, Nat.add_sub_cancel' within]
    have given : List.range' (t + actualSteal) (shared.bottom - (t + actualSteal)) =
        List.range' (t + actualSteal) (min stealCount (shared.bottom - t) - actualSteal) ++
          List.range' (t + stealCount) (shared.bottom - (t + stealCount)) := by
      rcases Nat.le_total stealCount (shared.bottom - t) with inside | beyond
      · rw [Nat.min_eq_left inside,
          show t + stealCount = t + actualSteal + (stealCount - actualSteal) by omega,
          List.range'_append_1]
        congr 1
        omega
      · rw [Nat.min_eq_right beyond, show shared.bottom - (t + stealCount) = 0 by omega,
          Nat.sub_sub]
        exact (List.append_nil _).symm
    have copies : ThiefCall.hands shared
        (if actualSteal = 0 then .idle else .copying t 0 actualSteal buf) =
        ↑((List.range' t actualSteal).map (shared.rings buf).load) := by
      split
      next none =>
        rw [none]
        rfl
      next => rfl
    rw [copies, given, List.map_append, ← Multiset.coe_add, DequeShared.contents, isTop,
      ThiefCall.hands, ThiefCall.pending, ThiefCall.buffer, taken, List.map_append,
      ← Multiset.coe_add, List.map_congr_left fun index member => (sameTasks index member).1]
    show (↑shared.returned : Multiset (Option Task)) + _ + _ = _
    abel
  · intro index others single above between
    have noClaim : ThiefCall.covers index
        (if actualSteal = 0 then .idle else .copying t 0 actualSteal buf : ThiefCall Task) = 0 := by
      split <;> rfl
    rw [noClaim]
    simp only [ThiefCall.covers] at single above between
    split at single
    next inRange =>
      rw [if_pos inRange] at above between
      exact ⟨by omega, fun _ => by omega, fun bottom below => by omega⟩
    next outside =>
      rw [if_neg outside] at above between
      refine ⟨single, fun top => above (by omega), fun bottom below => between bottom ?_⟩
      omega
  · by_cases some : actualSteal < min stealCount (shared.bottom - t)
    · refine (sameTasks (t + actualSteal) ?_).2
      rw [List.mem_range'_1]
      omega
    · have positive := (law.sized shared.m_buffer).positive
      have stored := shared.owner.stored_le
      change 0 < shared.current.m_capacity at positive
      omega
  · split
    next => trivial
    next some => exact ⟨Nat.pos_of_ne_zero some, by omega, inUse⟩

/-- `stealBatch` copies a task. -/
theorem copied (law : DequeLaw shared (here ::ₘ rest)) {t i stealCount buf : Nat}
    (isHere : here = .copying t i stealCount buf) :
    DequeLaw (shared.record (.copied (u32 (t + i)) ((shared.rings buf).load (u32 (t + i)))))
      ((if i + 1 < stealCount then .copying t (i + 1) stealCount buf else .idle) ::ₘ rest) := by
  subst isHere
  have few := law.few
  obtain ⟨less, bounded, inUse⟩ := law.knows _ (Multiset.mem_cons_self _ _)
  rw [u32_of_lt (by omega)]
  refine law.advanced rfl ?_ ?_ law.top_le law.fits ?_
  · have first : List.range' (t + i) (stealCount - i) =
        (t + i) :: List.range' (t + (i + 1)) (stealCount - (i + 1)) := by
      rw [show stealCount - i = stealCount - (i + 1) + 1 by omega, List.range'_succ]
      rfl
    have left : ThiefCall.hands shared
        (if i + 1 < stealCount then .copying t (i + 1) stealCount buf else .idle) =
        ↑((List.range' (t + (i + 1)) (stealCount - (i + 1))).map (shared.rings buf).load) := by
      split
      next => rfl
      next last =>
        rw [Nat.sub_eq_zero_of_le (Nat.le_of_not_lt last)]
        rfl
    rw [left, ThiefCall.hands, ThiefCall.pending, ThiefCall.buffer, first, List.map_cons,
      ← Multiset.cons_coe, ← Multiset.singleton_add]
    show (↑((shared.rings buf).load (t + i) :: shared.returned) : Multiset (Option Task)) + _ + _ =
      _
    rw [← Multiset.cons_coe, ← Multiset.singleton_add]
    show _ + (↑shared.contents : Multiset (Option Task)) + _ = _
    abel
  · intro index others single above between
    have noClaim : ThiefCall.covers index
        (if i + 1 < stealCount then .copying t (i + 1) stealCount buf else .idle : ThiefCall Task) =
        0 := by
      split <;> rfl
    rw [noClaim]
    exact ⟨single, above, between⟩
  · split
    next more => exact ⟨more, bounded, inUse⟩
    next => trivial

end DequeLaw

end LightFlow
