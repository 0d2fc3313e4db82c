import LightFlow.Scheduler.DequeHands

/-!
# Batches beside the owner

`stealBatch` exchanges `m_top` first, then looks how far the owner has come from below, and copies
last.  Nothing is lost or returned twice as long as nobody relies on what a batch has claimed too
much, and the slots that it copies from stay as they are.
-/

namespace LightFlow

variable {Task : Type}

/-! ## Undisturbed steps -/

/-- The owner is not misled by a claim, and does not spoil one:

* `pushBottom` never reads an `m_top` above `m_bottom`;
* it grows the buffer from a `t` that `m_top` has not gone back below;
* its slot is none of a task in the deque, nor one that a batch has still to copy from;
* a batch that has claimed the index of the new task copies from the buffer that it is in. -/
def OwnerCall.Undisturbed (shared : DequeShared Task) (pool : Multiset (ThiefCall Task)) :
    OwnerCall Task → Prop
  | .pushLoadingTop _ b => shared.m_top ≤ b
  | .growing _ b t => t < b → t ≤ shared.m_top
  | .storing _ b buf =>
      b < shared.m_top + shared.current.m_capacity ∧
        ∀ call ∈ pool, call.buffer = buf → ∀ index ∈ call.pending shared.bottom,
          ¬ index ≡ b [MOD shared.current.m_capacity]
  | .publishing _ b => ∀ call ∈ pool, call.covers b = 1 → call.buffer = shared.m_buffer
  | _ => True

/-- A thief does not mistake an `m_top` that came back for one that stayed, and a batch gives back
only what nobody has claimed after it and what the buffer has:

* `stealTop` wins only a task that is still in the deque;
* `stealBatch` claims tasks that the buffer it has loaded has, too;
* it stores to `m_top` only while `m_top` is what it has exchanged it for. -/
def ThiefCall.Undisturbed (shared : DequeShared Task) (spurious : Bool) : ThiefCall Task → Prop
  | .exchanging t task =>
      shared.m_top = t → t < shared.bottom ∧ task = shared.current.load t
  | .batchExchanging t stealCount buf =>
      shared.m_top = t ∧ spurious = false →
        ∀ index ∈ List.range' t (min stealCount (shared.bottom - t)),
          (shared.rings buf).load index = shared.current.load index
  | .rollingBack t stealCount actualSteal buf =>
      shared.m_top = t + stealCount ∧
        ∀ index ∈ List.range' (t + actualSteal)
            (min stealCount (shared.bottom - t) - actualSteal),
          (shared.rings buf).load index = shared.current.load index ∧
            shared.bottom + shared.owner.stored ≤ index + shared.current.m_capacity
  | _ => True

def OwnerChoice.Undisturbed (shared : DequeShared Task) (pool : Multiset (ThiefCall Task)) :
    OwnerChoice Task → Prop
  | .go => shared.owner.Undisturbed shared pool
  | choice => choice.Few shared

def ThiefChoice.Undisturbed (shared : DequeShared Task) (call : ThiefCall Task) :
    ThiefChoice → Prop
  | .go spurious => call.Undisturbed shared spurious
  | _ => True

section Decidable

variable [DecidableEq Task] (shared : DequeShared Task) (pool : Multiset (ThiefCall Task))

instance : DecidablePred (OwnerCall.Undisturbed shared pool)
  | .pushLoadingTop _ _ => inferInstanceAs (Decidable (_ ≤ _))
  | .growing _ _ _ => inferInstanceAs (Decidable (_ < _ → _ ≤ _))
  | .storing _ _ _ => inferInstanceAs (Decidable (_ < _ ∧ ∀ call ∈ pool, _ = _ → ∀ index ∈ _, ¬ _))
  | .publishing _ _ => inferInstanceAs (Decidable (∀ call ∈ pool, _ = _ → _ = _))
  | .idle | .pushLoadingBottom _ | .pushLoadingBuffer _ _ _ | .snapping _ _ _ | .popLoadingBottom
  | .popLoadingBuffer _ | .popLoadingTop _ _ | .lowering _ _ | .popReloadingTop _ _
  | .popLoadingTask _ _ _ | .popExchanging _ _ | .restoring _ => inferInstanceAs (Decidable True)

instance (spurious : Bool) : DecidablePred (ThiefCall.Undisturbed shared spurious)
  | .exchanging _ _ => inferInstanceAs (Decidable (_ = _ → _ < _ ∧ _ = _))
  | .batchExchanging _ _ _ => inferInstanceAs (Decidable (_ ∧ _ → ∀ index ∈ _, _ = _))
  | .rollingBack _ _ _ _ => inferInstanceAs (Decidable (_ = _ ∧ ∀ index ∈ _, _ = _ ∧ _ ≤ _))
  | .idle | .loadingTop | .loadingBottom _ | .loadingBuffer _ | .loadingTask _ _
  | .batchLoadingTop _ | .batchLoadingBottom _ _ | .batchLoadingBuffer _ _ | .rechecking _ _ _
  | .copying _ _ _ _ => inferInstanceAs (Decidable True)

instance : DecidablePred (OwnerChoice.Undisturbed shared pool)
  | .go => inferInstanceAs (Decidable (shared.owner.Undisturbed shared pool))
  | .pushBottom task => inferInstanceAs (Decidable (OwnerChoice.Few shared (.pushBottom task)))
  | .popBottom => inferInstanceAs (Decidable (OwnerChoice.Few shared .popBottom))

instance (call : ThiefCall Task) : DecidablePred (ThiefChoice.Undisturbed shared call)
  | .go spurious => inferInstanceAs (Decidable (call.Undisturbed shared spurious))
  | .stealTop | .stealBatch _ => inferInstanceAs (Decidable True)

end Decidable

abbrev undisturbed {thieves : Nat} :
    Program.State (DequeShared Task) (ThiefCall Task) thieves →
      Program.Action (OwnerChoice Task) ThiefChoice thieves → Prop :=
  Program.AllowedAmong OwnerChoice.Undisturbed ThiefChoice.Undisturbed

/-! ## Undisturbed steps keep the law -/

namespace DequeLaw

variable {shared next : DequeShared Task} {here there : ThiefCall Task}
  {rest pool : Multiset (ThiefCall Task)}

/-- Where `pushBottom` goes on after it has loaded the buffer. -/
theorem checkedRoom (law : DequeLaw shared pool) {task : Task} {b t : Nat}
    (isLoading : shared.owner = .pushLoadingBuffer task b t) :
    DequeLaw { shared with owner := shared.checkRoom task b t shared.m_buffer } pool := by
  have knows := law.owner
  rw [isLoading] at knows
  have bottom : shared.bottom = shared.m_bottom := by
    rw [DequeShared.bottom, isLoading]
    rfl
  rw [DequeShared.checkRoom]
  split
  next =>
    exact law.owned bottom.symm (by rw [isLoading]; rfl) (by rw [isLoading]; rfl)
      (by rw [isLoading]; rfl) knows
  next =>
    exact law.owned bottom.symm (by rw [isLoading]; rfl) (by rw [isLoading]; rfl)
      (by rw [isLoading]; rfl) ⟨knows.1, rfl⟩

/-- A step of a call of the owner. -/
theorem own (law : DequeLaw shared pool) (calm : shared.owner.Undisturbed shared pool)
    (stepped : shared.own shared.owner = some next) : DequeLaw next pool := by
  have knows := law.owner
  have few := law.few
  have bottomLe := law.bottom_le
  rw [DequeShared.bottom] at bottomLe
  cases isOwner : shared.owner with
  | idle =>
      rw [isOwner] at stepped
      cases stepped
  | pushLoadingBottom task =>
      rw [isOwner] at stepped
      cases stepped
      exact law.owned (by rw [DequeShared.bottom, isOwner]; rfl) (by rw [isOwner]; rfl)
        (by rw [isOwner]; rfl) (by rw [isOwner]; rfl) rfl
  | pushLoadingTop task b =>
      rw [isOwner] at stepped knows calm
      cases stepped
      have fits := law.fits
      rw [DequeShared.bottom, isOwner] at fits
      have near : b ≤ shared.m_top + shared.current.m_capacity := by
        rw [show b = shared.m_bottom from knows]
        exact fits
      exact law.owned (by rw [DequeShared.bottom, isOwner]; rfl) (by rw [isOwner]; rfl)
        (by rw [isOwner]; rfl) (by rw [isOwner]; rfl) ⟨knows, calm, near⟩
  | pushLoadingBuffer task b t =>
      rw [isOwner] at stepped knows
      rw [DequeShared.own, if_neg (Nat.not_lt.mpr knows.2.1)] at stepped
      cases stepped
      exact law.checkedRoom isOwner
  | snapping task t buf =>
      rw [isOwner] at knows
      exact knows.elim
  | growing task b t =>
      rw [isOwner] at stepped calm
      cases stepped
      exact law.grown isOwner calm
  | storing task b buf =>
      rw [isOwner] at stepped calm
      cases stepped
      exact law.stored isOwner calm.1 calm.2
  | publishing task b =>
      rw [isOwner] at stepped calm
      cases stepped
      exact law.published isOwner calm
  | popLoadingBottom =>
      rw [isOwner] at stepped
      cases stepped
      exact law.owned (by rw [DequeShared.bottom, isOwner]; rfl) (by rw [isOwner]; rfl)
        (by rw [isOwner]; rfl) (by rw [isOwner]; rfl) rfl
  | popLoadingBuffer b =>
      rw [isOwner] at stepped knows
      cases stepped
      exact law.owned (by rw [DequeShared.bottom, isOwner]; rfl) (by rw [isOwner]; rfl)
        (by rw [isOwner]; rfl) (by rw [isOwner]; rfl) ⟨knows, rfl⟩
  | popLoadingTop b buf =>
      rw [isOwner] at stepped knows
      rw [DequeShared.own] at stepped
      split at stepped
      next =>
        cases stepped
        exact law.owned (by rw [DequeShared.bottom, isOwner]; rfl) (by rw [isOwner]; rfl)
          (by rw [isOwner]; rfl) (by rw [isOwner]; rfl) trivial
      next some =>
        cases stepped
        rw [u32Sub_of_le (by omega)]
        refine law.owned (by rw [DequeShared.bottom, isOwner]; rfl) (by rw [isOwner]; rfl)
          (by rw [isOwner]; rfl) (by rw [isOwner]; rfl) ⟨?_, knows.2⟩
        have isBottom : b = shared.m_bottom := knows.1
        show b - 1 + 1 = shared.m_bottom
        omega
  | lowering b buf =>
      rw [isOwner] at stepped knows
      cases stepped
      exact law.owned (by rw [DequeShared.bottom, isOwner]; exact knows.1) (by rw [isOwner]; rfl)
        (by rw [isOwner]; rfl) (by rw [isOwner]; rfl) ⟨rfl, knows.2⟩
  | popReloadingTop b buf =>
      rw [isOwner] at stepped knows
      rw [DequeShared.own] at stepped
      split at stepped
      next some =>
        cases stepped
        rcases Nat.eq_or_lt_of_le some with single | less
        · refine law.owned ?_ ?_ (by rw [isOwner]; rfl) (by rw [isOwner]; rfl)
            ⟨knows.1, knows.2, some⟩
          · rw [DequeShared.bottom, isOwner]
            exact congrArg (shared.m_bottom + ·) (if_pos single)
          · rw [isOwner, OwnerCall.hands, if_pos single]
            rfl
        · exact law.popTaken isOwner less
      next =>
        cases stepped
        exact law.owned (by rw [DequeShared.bottom, isOwner]; rfl) (by rw [isOwner]; rfl)
          (by rw [isOwner]; rfl) (by rw [isOwner]; rfl) knows.1
  | popLoadingTask b t buf =>
      rw [isOwner] at stepped knows
      rw [DequeShared.own] at stepped
      split at stepped
      next single =>
        cases stepped
        refine law.owned ?_ ?_ (by rw [isOwner]; rfl) (by rw [isOwner]; rfl) ⟨knows.1, ?_⟩
        · rw [DequeShared.bottom, isOwner]
          exact (congrArg (shared.m_bottom + ·) (if_pos single)).symm
        · rw [isOwner, OwnerCall.hands.eq_def]
          exact (if_pos single).symm
        · rw [knows.2.1]
          rfl
      next different =>
        cases stepped
        exact law.popReturned isOwner different
  | popExchanging b task =>
      rw [isOwner] at stepped knows
      rw [DequeShared.own] at stepped
      split at stepped
      next isTop =>
        cases stepped
        exact law.popWon isOwner isTop
      next =>
        cases stepped
        exact law.owned (by rw [DequeShared.bottom, isOwner]; rfl) (by rw [isOwner]; rfl)
          (by rw [isOwner]; rfl) (by rw [isOwner]; rfl) knows.1
  | restoring b =>
      rw [isOwner] at stepped knows bottomLe
      cases stepped
      have isBottom : b = shared.m_bottom := knows
      simp only [OwnerCall.lowered] at bottomLe
      rw [u32_of_lt (by omega)]
      exact law.owned (by rw [DequeShared.bottom, isOwner, ← isBottom]; rfl) (by rw [isOwner]; rfl)
        (by rw [isOwner]; rfl) (by rw [isOwner]; rfl) trivial

/-- A step of the owner. -/
theorem ownerStep (law : DequeLaw shared pool) {choice : OwnerChoice Task}
    (calm : choice.Undisturbed shared pool) (stepped : shared.ownerStep choice = some next) :
    DequeLaw next pool := by
  cases choice with
  | go => exact law.own calm stepped
  | pushBottom task =>
      rw [DequeShared.ownerStep] at stepped
      cases isOwner : shared.owner with
      | idle =>
          rw [isOwner] at stepped
          cases stepped
          exact law.called isOwner calm
      | _ =>
          rw [isOwner] at stepped
          cases stepped
  | popBottom =>
      rw [DequeShared.ownerStep] at stepped
      cases isOwner : shared.owner with
      | idle =>
          rw [isOwner] at stepped
          cases stepped
          exact law.owned (by rw [DequeShared.bottom, isOwner]; rfl) (by rw [isOwner]; rfl)
            (by rw [isOwner]; rfl) (by rw [isOwner]; rfl) trivial
      | _ =>
          rw [isOwner] at stepped
          cases stepped

/-- A thief goes on where it has claimed nothing. -/
theorem searched (law : DequeLaw shared (here ::ₘ rest))
    (hands : here.hands shared = 0) (noClaim : ∀ index, here.covers index = 0)
    (nothing : there.hands shared = 0) (noNewClaim : ∀ index, there.covers index = 0)
    (knows : there.Knows shared) : DequeLaw shared (there ::ₘ rest) :=
  law.onward (nothing.trans hands.symm) (fun index => (noNewClaim index).trans_le (Nat.zero_le _))
    (fun index _ => (noNewClaim index).trans (noClaim index).symm) knows

/-- `stealBatch` wants no more than it has seen. -/
theorem batchCount_le {size t b : Nat} (some : t < b) (small : b < 2 ^ 31) :
    t + batchCount size t b ≤ b := by
  rw [batchCount, u32Sub_of_le some.le, u32_of_lt (by omega : b - t + 1 < 2 ^ 32)]
  split <;> omega

/-- A step of a call of a thief. -/
theorem go (law : DequeLaw shared (here ::ₘ rest)) {spurious : Bool}
    (calm : here.Undisturbed shared spurious)
    (stepped : here.go shared spurious = some (next, there)) : DequeLaw next (there ::ₘ rest) := by
  have knows := law.knows here (Multiset.mem_cons_self _ _)
  have few := law.few
  have bottomLe := law.bottom_le
  rw [DequeShared.bottom] at bottomLe
  cases here with
  | idle => cases stepped
  | loadingTop =>
      cases stepped
      exact law.searched rfl (fun _ => rfl) rfl (fun _ => rfl) trivial
  | loadingBottom t =>
      rw [ThiefCall.go] at stepped
      split at stepped
      next =>
        cases stepped
        exact law.searched rfl (fun _ => rfl) rfl (fun _ => rfl) trivial
      next some =>
        cases stepped
        refine law.searched rfl (fun _ => rfl) rfl (fun _ => rfl) ?_
        show t < shared.pushed.length
        omega
  | loadingBuffer | loadingTask =>
      cases stepped
      exact law.searched rfl (fun _ => rfl) rfl (fun _ => rfl) knows
  | exchanging t task =>
      rw [ThiefCall.go] at stepped
      split at stepped
      next isTop =>
        cases stepped
        obtain ⟨some, isTask⟩ := calm isTop
        exact law.stole rfl isTop some isTask
      next =>
        cases stepped
        exact law.searched rfl (fun _ => rfl) rfl (fun _ => rfl) trivial
  | batchLoadingTop size =>
      cases stepped
      exact law.searched rfl (fun _ => rfl) rfl (fun _ => rfl) trivial
  | batchLoadingBottom size t =>
      simp only [ThiefCall.go] at stepped
      split at stepped
      next =>
        cases stepped
        exact law.searched rfl (fun _ => rfl) rfl (fun _ => rfl) trivial
      next wants =>
        cases stepped
        rw [not_or, Nat.not_le] at wants
        have within : t + batchCount size t shared.m_bottom ≤ shared.m_bottom :=
          batchCount_le wants.1 (by omega)
        exact law.searched rfl (fun _ => rfl) rfl (fun _ => rfl)
          ⟨Nat.pos_of_ne_zero wants.2, by omega⟩
  | batchLoadingBuffer t stealCount =>
      cases stepped
      exact law.searched rfl (fun _ => rfl) rfl (fun _ => rfl) ⟨knows.1, knows.2, le_rfl⟩
  | batchExchanging t stealCount buf =>
      rw [ThiefCall.go] at stepped
      split at stepped
      next won =>
        cases stepped
        exact law.claimed rfl won.1 (calm won)
      next =>
        cases stepped
        exact law.searched rfl (fun _ => rfl) rfl (fun _ => rfl) trivial
  | rechecking t stealCount buf => exact law.rechecked rfl stepped
  | rollingBack t stealCount actualSteal buf =>
      cases stepped
      exact law.rolledBack rfl calm.1 calm.2
  | copying t i stealCount buf =>
      cases stepped
      exact law.copied rfl

/-- A step of a thief. -/
theorem fire (law : DequeLaw shared (here ::ₘ rest)) {choice : ThiefChoice}
    (calm : choice.Undisturbed shared here)
    (stepped : here.fire shared choice = some (next, there)) :
    DequeLaw next (there ::ₘ rest) := by
  cases choice with
  | go spurious =>
      refine law.go calm ?_
      cases here <;> exact stepped
  | stealTop =>
      cases here with
      | idle =>
          cases stepped
          exact law.searched rfl (fun _ => rfl) rfl (fun _ => rfl) trivial
      | _ => cases stepped
  | stealBatch size =>
      cases here with
      | idle =>
          rw [ThiefCall.fire] at stepped
          split at stepped
          next =>
            cases stepped
            exact law
          next =>
            cases stepped
            exact law.searched rfl (fun _ => rfl) rfl (fun _ => rfl) trivial
      | _ => cases stepped

/-- The law holds of a new deque. -/
theorem initial (fresh : shared.Fresh) (idle : ∀ call ∈ pool, call = .idle) :
    DequeLaw shared pool := by
  obtain ⟨initialCapacity, rfl⟩ := fresh
  have nothing : ∀ call ∈ pool, call.hands
      { rings := fun _ => (ChaseLevDeque.create initialCapacity : ChaseLevDeque Task).m_buffer } =
        0 := by
    intro call member
    rw [idle call member]
    rfl
  constructor
  case accounted =>
    rw [Multiset.map_congr rfl nothing, Multiset.sum_map_zero]
    rfl
  case covered =>
    intro index
    have none : (pool.map (·.covers index)).sum = 0 := Program.sum_idle idle rfl
    rw [none]
    exact ⟨Nat.zero_le _, fun _ => rfl, fun _ below => absurd below (Nat.not_lt_zero _)⟩
  case few => exact Nat.two_pow_pos 31
  case bottom_le => exact le_rfl
  case top_le => exact le_rfl
  case fits => exact Nat.zero_le _
  case sized => exact fun _ => ⟨_, rfl⟩
  case owner => trivial
  case knows =>
    intro call member
    rw [idle call member]
    trivial

end DequeLaw

theorem dequeLaw_of_reachable {thieves : Nat}
    {state : Program.State (DequeShared Task) (ThiefCall Task) thieves}
    (reachable : (dequeMachine Task thieves).ReachableBy undisturbed state) :
    DequeLaw state.shared state.pool := by
  refine Program.invariant_among (motive := DequeLaw) ?_ ?_ ?_ reachable
  · exact fun shared pool fresh idle => .initial fresh idle
  · exact fun shared pool choice next law calm stepped => law.ownerStep calm stepped
  · exact fun shared here rest choice next there law calm fired => law.fire calm fired

/-! ## Nothing is lost -/

/-- No task is lost or returned twice. -/
structure NothingLost {thieves : Nat}
    (state : Program.State (DequeShared Task) (ThiefCall Task) thieves) : Prop where
  /-- What is returned was pushed, and is not returned more often. -/
  once : (↑state.shared.returned : Multiset (Option Task)) ≤ ↑state.shared.pushed
  /-- Outside of all calls, the rest is in the buffer, between top and bottom. -/
  kept : state.shared.owner = .idle → (∀ thief, state.here thief = .idle) →
    (↑state.shared.pushed : Multiset (Option Task)) = ↑state.shared.returned +
      ↑((List.range' state.shared.m_top (state.shared.m_bottom - state.shared.m_top)).map
        state.shared.current.load)

/-- In every undisturbed run nothing is lost, whatever the thieves steal. -/
theorem undisturbed_batches_lose_nothing {thieves : Nat}
    {state : Program.State (DequeShared Task) (ThiefCall Task) thieves}
    (reachable : (dequeMachine Task thieves).ReachableBy undisturbed state) :
    NothingLost state := by
  have law := dequeLaw_of_reachable reachable
  refine ⟨?_, fun idle quiet => ?_⟩
  · rw [law.accounted, add_assoc, add_assoc]
    exact Multiset.le_add_right _ _
  · have nothing : ∀ call ∈ state.pool, call.hands state.shared = 0 := by
      intro call member
      rw [Program.State.idle_of_quiet quiet call member]
      rfl
    have accounted := law.accounted
    rw [Multiset.map_congr rfl nothing, Multiset.sum_map_zero, add_zero, idle,
      DequeShared.contents, DequeShared.bottom, idle] at accounted
    refine accounted.trans ?_
    show _ + (0 : Multiset (Option Task)) + _ = _
    rw [add_zero]
    rfl

/-- The owner pushes two tasks, a batch claims one of them before the owner pops the other, and
copies it after that. -/
theorem undisturbed_batches_lose_nothing_two :
    ∃ state : Program.State (DequeShared Nat) (ThiefCall Nat) 1,
      state.shared.returned = [some 7, some 8] ∧ NothingLost state := by
  have fresh : (dequeMachine Nat 1).ReachableBy undisturbed
      { shared := { rings := fun _ => { m_capacity := 16 } }
        here := fun _ => .idle } :=
    .start ⟨⟨16, by rw [ChaseLevDeque.create_sixteen]⟩, fun _ => rfl⟩
  obtain ⟨state, reachable, happened⟩ : ∃ state,
      (dequeMachine Nat 1).ReachableBy undisturbed state ∧
        state.shared.returned = [some 7, some 8] :=
    fresh.exists_of_run
      ([.solo (.pushBottom 7)] ++ List.replicate 5 (.solo .go) ++
        [.solo (.pushBottom 8)] ++ List.replicate 5 (.solo .go) ++
        [.thread 0 (.stealBatch 4), .solo .popBottom] ++ List.replicate 5 (.thread 0 (.go false)) ++
        List.replicate 8 (.solo .go) ++ [.thread 0 (.go false)])
      (by decide +kernel)
  exact ⟨state, happened, undisturbed_batches_lose_nothing reachable⟩

end LightFlow
