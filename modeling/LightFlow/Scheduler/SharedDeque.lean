import LightFlow.Lib.Threads
import LightFlow.Scheduler.DequeLists
import Mathlib.Data.Nat.ModEq

/-!
# A deque with an owner and thieves

`pushBottom` and `popBottom` of one thread, with any number of threads in `stealTop` and
`stealBatch`, one access to the shared state at a time.  A ring buffer that was replaced stays in
memory, and only the owner writes to the slots.
-/

namespace LightFlow

/-- Where the owner is. -/
inductive OwnerCall (Task : Type) where
  /-- In no call. -/
  | idle
  /-- At `m_bottom.load` of `pushBottom`. -/
  | pushLoadingBottom (task : Task)
  /-- At `m_top.load` of `pushBottom`. -/
  | pushLoadingTop (task : Task) (b : Nat)
  /-- At `m_buffer.load` of `pushBottom`. -/
  | pushLoadingBuffer (task : Task) (b t : Nat)
  /-- At `m_bottom.store(t)`. -/
  | snapping (task : Task) (t buf : Nat)
  /-- At `grow`, whose copies go to slots that no other thread can see before the exchange of the
  buffer. -/
  | growing (task : Task) (b t : Nat)
  /-- At `buf->store`. -/
  | storing (task : Task) (b buf : Nat)
  /-- At `m_bottom.store(b + 1)` of `pushBottom`. -/
  | publishing (task : Task) (b : Nat)
  /-- At `m_bottom.load` of `popBottom`. -/
  | popLoadingBottom
  /-- At `m_buffer.load` of `popBottom`. -/
  | popLoadingBuffer (b : Nat)
  /-- At the first `m_top.load` of `popBottom`. -/
  | popLoadingTop (b buf : Nat)
  /-- At `m_bottom.store(b)`, after `b = b - 1`. -/
  | lowering (b buf : Nat)
  /-- At the second `m_top.load` of `popBottom`. -/
  | popReloadingTop (b buf : Nat)
  /-- At `buf->load(b)`. -/
  | popLoadingTask (b t buf : Nat)
  /-- At the compare-exchange of `m_top` in `popBottom`. -/
  | popExchanging (b : Nat) (task : Option Task)
  /-- At `m_bottom.store(b + 1)` of `popBottom`. -/
  | restoring (b : Nat)
  deriving DecidableEq, Repr

/-- Where a thief is. -/
inductive ThiefCall (Task : Type) where
  /-- In no call. -/
  | idle
  /-- At `m_top.load` of `stealTop`. -/
  | loadingTop
  /-- At `m_bottom.load` of `stealTop`. -/
  | loadingBottom (t : Nat)
  /-- At `m_buffer.load` of `stealTop`. -/
  | loadingBuffer (t : Nat)
  /-- At `buf->load(t)`. -/
  | loadingTask (t buf : Nat)
  /-- At the compare-exchange of `m_top` in `stealTop`. -/
  | exchanging (t : Nat) (task : Option Task)
  /-- At `m_top.load` of `stealBatch`. -/
  | batchLoadingTop (size : Nat)
  /-- At the first `m_bottom.load` of `stealBatch`. -/
  | batchLoadingBottom (size t : Nat)
  /-- At `m_buffer.load` of `stealBatch`. -/
  | batchLoadingBuffer (t stealCount : Nat)
  /-- At the weak compare-exchange of `m_top`. -/
  | batchExchanging (t stealCount buf : Nat)
  /-- At the second `m_bottom.load` of `stealBatch`. -/
  | rechecking (t stealCount buf : Nat)
  /-- At `m_top.store(t + actualSteal)`. -/
  | rollingBack (t stealCount actualSteal buf : Nat)
  /-- At `buf->load(t + i)`. -/
  | copying (t i stealCount buf : Nat)
  deriving DecidableEq, Repr

/-- What happened, for the history; a result is a slot that was read for it. -/
inductive DequeEvent (Task : Type) where
  /-- `pushBottom` was called. -/
  | pushed (task : Task)
  /-- `popBottom` took what was at an index. -/
  | popped (index : Nat) (task : Option Task)
  /-- `stealTop` took what was at an index. -/
  | stolen (index : Nat) (task : Option Task)
  /-- `stealBatch` wrote what was at an index to its destination. -/
  | copied (index : Nat) (task : Option Task)
  deriving DecidableEq, Repr

/-- The deque, its owner, and the history. -/
structure DequeShared (Task : Type) where
  m_top : Nat := 0
  m_bottom : Nat := 0
  /-- The ring buffers are numbered in the order in which they are made. -/
  m_buffer : Nat := 0
  rings : Nat → RingBuffer Task
  owner : OwnerCall Task := .idle
  /-- Newest event first. -/
  log : List (DequeEvent Task) := []

inductive OwnerChoice (Task : Type) where
  | pushBottom (task : Task)
  | popBottom
  /-- Go on with the call. -/
  | go
  deriving DecidableEq, Repr

inductive ThiefChoice where
  | stealTop
  /-- `stealBatch` into a span of some size. -/
  | stealBatch (size : Nat)
  /-- Go on with the call; `spurious` lets a weak compare-exchange fail. -/
  | go (spurious : Bool)
  deriving DecidableEq, Repr

namespace DequeShared

variable {Task : Type}

def record (shared : DequeShared Task) (event : DequeEvent Task) : DequeShared Task :=
  { shared with log := event :: shared.log }

def setRing (shared : DequeShared Task) (buf : Nat) (ring : RingBuffer Task) : DequeShared Task :=
  { shared with rings := Function.update shared.rings buf ring }

/-- `grow(bottom, top)`, which returns the buffer that is current afterwards. -/
def grow (shared : DequeShared Task) (bottom top : Nat) : DequeShared Task :=
  if bottom ≤ top then shared
  else
    let newBuf := shared.m_buffer + 1
    { shared.setRing newBuf ((shared.rings shared.m_buffer).grow top bottom) with
      m_buffer := newBuf }

/-- The check of `pushBottom` for room in the buffer. -/
def checkRoom (shared : DequeShared Task) (task : Task) (b t buf : Nat) : OwnerCall Task :=
  if u32 (shared.rings buf).m_capacity ≤ u32Sub b t then .growing task b t else .storing task b buf

/-- The next step of the owner. -/
def own (shared : DequeShared Task) : OwnerCall Task → Option (DequeShared Task)
  | .idle => none
  | .pushLoadingBottom task => some { shared with owner := .pushLoadingTop task shared.m_bottom }
  | .pushLoadingTop task b => some { shared with owner := .pushLoadingBuffer task b shared.m_top }
  | .pushLoadingBuffer task b t =>
      if b < t then some { shared with owner := .snapping task t shared.m_buffer }
      else some { shared with owner := shared.checkRoom task b t shared.m_buffer }
  | .snapping task t buf =>
      some { shared with m_bottom := t, owner := shared.checkRoom task t t buf }
  | .growing task b t =>
      let grown := shared.grow b t
      some { grown with owner := .storing task b grown.m_buffer }
  | .storing task b buf =>
      some
        { shared.setRing buf ((shared.rings buf).store b (some task)) with
          owner := .publishing task b }
  | .publishing _ b => some { shared with m_bottom := u32 (b + 1), owner := .idle }
  | .popLoadingBottom => some { shared with owner := .popLoadingBuffer shared.m_bottom }
  | .popLoadingBuffer b => some { shared with owner := .popLoadingTop b shared.m_buffer }
  | .popLoadingTop b buf =>
      if b ≤ shared.m_top then some { shared with owner := .idle }
      else some { shared with owner := .lowering (u32Sub b 1) buf }
  | .lowering b buf => some { shared with m_bottom := b, owner := .popReloadingTop b buf }
  | .popReloadingTop b buf =>
      if shared.m_top ≤ b then some { shared with owner := .popLoadingTask b shared.m_top buf }
      else some { shared with owner := .restoring b }
  | .popLoadingTask b t buf =>
      let task := (shared.rings buf).load b
      if t = b then some { shared with owner := .popExchanging b task }
      else some { shared.record (.popped b task) with owner := .idle }
  | .popExchanging b task =>
      if shared.m_top = b then
        some { shared.record (.popped b task) with m_top := u32 (b + 1), owner := .restoring b }
      else some { shared with owner := .restoring b }
  | .restoring b => some { shared with m_bottom := u32 (b + 1), owner := .idle }

/-- One step of the owner. -/
def ownerStep (shared : DequeShared Task) : OwnerChoice Task → Option (DequeShared Task)
  | .pushBottom task =>
      if shared.owner matches .idle then
        some { shared.record (.pushed task) with owner := .pushLoadingBottom task }
      else none
  | .popBottom =>
      if shared.owner matches .idle then some { shared with owner := .popLoadingBottom } else none
  | .go => shared.own shared.owner

end DequeShared

/-- How many tasks `stealBatch` wants to steal. -/
def batchCount (size t b : Nat) : Nat :=
  let half := u32 (u32Sub b t + 1) / 2
  if u32 size < half then u32 size else half

/-- The next step of a thief. -/
def ThiefCall.go {Task : Type} (shared : DequeShared Task) (spurious : Bool) :
    ThiefCall Task → Option (DequeShared Task × ThiefCall Task)
  | .idle => none
  | .loadingTop => some (shared, .loadingBottom shared.m_top)
  | .loadingBottom t =>
      if shared.m_bottom ≤ t then some (shared, .idle) else some (shared, .loadingBuffer t)
  | .loadingBuffer t => some (shared, .loadingTask t shared.m_buffer)
  | .loadingTask t buf => some (shared, .exchanging t ((shared.rings buf).load t))
  | .exchanging t task =>
      if shared.m_top = t then
        some ({ shared.record (.stolen t task) with m_top := u32 (t + 1) }, .idle)
      else some (shared, .idle)
  | .batchLoadingTop size => some (shared, .batchLoadingBottom size shared.m_top)
  | .batchLoadingBottom size t =>
      let stealCount := batchCount size t shared.m_bottom
      if shared.m_bottom ≤ t ∨ stealCount = 0 then some (shared, .idle)
      else some (shared, .batchLoadingBuffer t stealCount)
  | .batchLoadingBuffer t stealCount =>
      some (shared, .batchExchanging t stealCount shared.m_buffer)
  | .batchExchanging t stealCount buf =>
      if shared.m_top = t ∧ spurious = false then
        some ({ shared with m_top := u32 (t + stealCount) }, .rechecking t stealCount buf)
      else some (shared, .idle)
  | .rechecking t stealCount buf =>
      let b := shared.m_bottom
      if b < u32 (t + stealCount) then
        let actualSteal := if t < b then u32Sub b t else 0
        some (shared, .rollingBack t stealCount actualSteal buf)
      else some (shared, .copying t 0 stealCount buf)
  | .rollingBack t _ actualSteal buf =>
      some ({ shared with m_top := u32 (t + actualSteal) },
        if actualSteal = 0 then .idle else .copying t 0 actualSteal buf)
  | .copying t i stealCount buf =>
      let index := u32 (t + i)
      some (shared.record (.copied index ((shared.rings buf).load index)),
        if i + 1 < stealCount then .copying t (i + 1) stealCount buf else .idle)

/-- One step of a thief. -/
def ThiefCall.fire {Task : Type} (shared : DequeShared Task) :
    ThiefCall Task → ThiefChoice → Option (DequeShared Task × ThiefCall Task)
  | .idle, .stealTop => some (shared, .loadingTop)
  | .idle, .stealBatch size =>
      if size = 0 then some (shared, .idle) else some (shared, .batchLoadingTop size)
  | call, .go spurious => call.go shared spurious
  | _, _ => none

/-- An owner and thieves. -/
def dequeProgram (Task : Type) :
    Program (DequeShared Task) (ThiefCall Task) (OwnerChoice Task) ThiefChoice where
  solo := DequeShared.ownerStep
  fire := ThiefCall.fire

/-- A deque was constructed. -/
def DequeShared.Fresh {Task : Type} (shared : DequeShared Task) : Prop :=
  ∃ initialCapacity : Nat, shared =
    { rings := fun _ => (ChaseLevDeque.create initialCapacity).m_buffer }

abbrev dequeMachine (Task : Type) (thieves : Nat) :
    Machine (Program.State (DequeShared Task) (ThiefCall Task) thieves)
      (Program.Action (OwnerChoice Task) ThiefChoice thieves) :=
  (dequeProgram Task).machine DequeShared.Fresh .idle thieves

/-! ## What is in the deque -/

/-- The owner has lowered `m_bottom` below an index that it has not taken. -/
def OwnerCall.lowered {Task : Type} : OwnerCall Task → Nat
  | .popReloadingTop _ _ | .popExchanging _ _ | .restoring _ => 1
  | .popLoadingTask b t _ => if t = b then 1 else 0
  | _ => 0

namespace DequeShared

variable {Task : Type}

/-- The end of the deque. -/
def bottom (shared : DequeShared Task) : Nat :=
  shared.m_bottom + shared.owner.lowered

def current (shared : DequeShared Task) : RingBuffer Task :=
  shared.rings shared.m_buffer

/-- What the deque contains. -/
def contents (shared : DequeShared Task) : List (Option Task) :=
  (List.range' shared.m_top (shared.bottom - shared.m_top)).map shared.current.load

end DequeShared

namespace DequeEvent

variable {Task : Type}

def pushes : DequeEvent Task → Option (Option Task)
  | .pushed task => some (some task)
  | _ => none

def returns : DequeEvent Task → Option (Option Task)
  | .popped _ task | .stolen _ task | .copied _ task => some task
  | .pushed _ => none

end DequeEvent

namespace DequeShared

variable {Task : Type}

/-- All tasks that were pushed. -/
def pushed (shared : DequeShared Task) : List (Option Task) :=
  shared.log.filterMap DequeEvent.pushes

/-- All results. -/
def returned (shared : DequeShared Task) : List (Option Task) :=
  shared.log.filterMap DequeEvent.returns

end DequeShared

/-- There are fewer than 2^31 pushes. -/
def OwnerChoice.Few {Task : Type} (shared : DequeShared Task) : OwnerChoice Task → Prop
  | .pushBottom _ => shared.pushed.length + 1 < 2 ^ 31
  | _ => True

instance {Task : Type} (shared : DequeShared Task) :
    DecidablePred (OwnerChoice.Few shared)
  | .pushBottom _ => inferInstanceAs (Decidable (_ < _))
  | .popBottom | .go => inferInstanceAs (Decidable True)

end LightFlow
