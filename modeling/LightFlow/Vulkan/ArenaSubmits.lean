import LightFlow.Memory.BlocksApart
import LightFlow.Vulkan.ReadBack

/-!
# Submissions in arenas

Any number of arenas give the tables of submissions, and the arrays of batches, in runs in which
they are also used, reset, moved and destroyed for other things.  What was translated is recorded
with the arena that it lies in.
-/

namespace LightFlow

/-- An array of `VkSubmitInfo2` for some submissions. -/
structure SubmitBatch where
  out : Nat
  submissions : List GpuSubmission
  deriving DecidableEq, Repr

/-- What was translated in an arena since it was reset. -/
structure SubmitRecords where
  infos : List (GpuSubmission × VkSubmitInfo2) := []
  batches : List SubmitBatch := []
  deriving DecidableEq, Repr

/-- Arenas, and the objects that live in their blocks. -/
structure VulkanMemory where
  granted : GrantedMemory
  objects : Objects VkObject := fun _ => none
  records : Nat → SubmitRecords := fun _ => {}

/-- What the callbacks return while one submission is translated. -/
structure SubmitAnswers where
  waits : MemoryAnswers := {}
  commands : MemoryAnswers := {}
  signals : MemoryAnswers := {}
  deriving DecidableEq, Repr

namespace VulkanMemory

/-- What lies in the blocks of an arena goes to another address. -/
def handOn (state : VulkanMemory) (arena other : Nat) : Nat → SubmitRecords :=
  Function.update (Function.update state.records arena (state.records other)) other {}

/-- The records after a call. -/
def kept (state : VulkanMemory) : MemoryCall → Nat → SubmitRecords
  | .reset arena | .destroyArena arena => Function.update state.records arena {}
  | .moveArena other => state.handOn state.granted.system.arenas.length other
  | .assignArena arena other =>
      if arena = other then state.records else state.handOn arena other
  | _ => state.records

/-- A call for which the promises are kept. -/
def perform (state : VulkanMemory) (call : MemoryCall) : Option VulkanMemory :=
  if call.Allowed state.granted.system then
    (state.granted.perform call).map fun granted =>
      { state with granted, records := state.kept call }
  else none

/-- `arena.allocate_span<T>(count)`. -/
def allocateSpan (state : VulkanMemory) (arena size alignment count : Nat)
    (answers : MemoryAnswers) : Option (Span × VulkanMemory) :=
  (state.granted.system.liveArena arena).bind fun value =>
    (state.perform (.allocateSpan arena size alignment count answers)).map fun next =>
      let around := state.granted.system.around value answers
      let mem := (value.allocateSpanIn around size alignment count).result
      (if mem = 0 then {} else ⟨mem, count⟩, next)

/-- An object is constructed. -/
def write (state : VulkanMemory) (address : Nat) (value : VkObject) : VulkanMemory :=
  { state with objects := state.objects.write address value }

/-- A submission is recorded with its arena. -/
def recordInfo (state : VulkanMemory) (arena : Nat) (submission : GpuSubmission)
    (info : VkSubmitInfo2) : VulkanMemory :=
  { state with
    records := Function.update state.records arena
      { state.records arena with infos := (submission, info) :: (state.records arena).infos } }

/-- A batch is recorded with its arena. -/
def recordBatch (state : VulkanMemory) (arena out : Nat) (submissions : List GpuSubmission) :
    VulkanMemory :=
  { state with
    records := Function.update state.records arena
      { state.records arena with batches := ⟨out, submissions⟩ :: (state.records arena).batches } }

/-- `toVkSubmitInfo2(submission, arena)`. -/
def toVkSubmitInfo2 (state : VulkanMemory) (arena : Nat) (submission : GpuSubmission)
    (answers : SubmitAnswers) : Option (VkSubmitInfo2 × VulkanMemory) := do
  let (outWaits, state) ←
    state.allocateSpan arena semaphoreInfoSize 8 submission.totalWaits answers.waits
  let (outCmds, state) ←
    state.allocateSpan arena commandInfoSize 8 submission.totalCmds answers.commands
  let (outSignals, state) ←
    state.allocateSpan arena semaphoreInfoSize 8 submission.totalSignals answers.signals
  let (info, objects) ← submission.toVkSubmitInfo2 outWaits outCmds outSignals state.objects
  some (info, { state with objects }.recordInfo arena submission info)

/-- The loop of `toVkSubmitInfo2Batch`. -/
def toVkSubmitInfo2Each (arena out : Nat) :
    List (GpuSubmission × SubmitAnswers) → Nat → VulkanMemory → Option VulkanMemory
  | [], _, state => some state
  | (submission, answers) :: rest, index, state => do
      let (info, state) ← state.toVkSubmitInfo2 arena submission answers
      toVkSubmitInfo2Each arena out rest (index + 1)
        (state.write (out + index * submitInfoSize) (.submit info))

/-- `toVkSubmitInfo2Batch(submissions, outSubmits, arena)`. -/
def toVkSubmitInfo2BatchInto (state : VulkanMemory) (arena : Nat)
    (submissions : List (GpuSubmission × SubmitAnswers)) (outSubmits : Span) :
    Option (Nat × VulkanMemory) :=
  let count := min submissions.length outSubmits.size
  (toVkSubmitInfo2Each arena outSubmits.data (submissions.take count) 0 state).map (count, ·)

/-- `toVkSubmitInfo2Batch(submissions, arena)`. -/
def toVkSubmitInfo2Batch (state : VulkanMemory) (arena : Nat)
    (submissions : List (GpuSubmission × SubmitAnswers)) (answers : MemoryAnswers) :
    Option (Span × VulkanMemory) :=
  if submissions.isEmpty then some ({}, state)
  else do
    let (outSubmits, state) ←
      state.allocateSpan arena submitInfoSize 8 submissions.length answers
    if outSubmits.size = 0 then some ({}, state)
    else
      let (_, state) ← state.toVkSubmitInfo2BatchInto arena submissions outSubmits
      some (outSubmits, state.recordBatch arena outSubmits.data (submissions.map Prod.fst))

end VulkanMemory

/-- What threads do. -/
inductive VulkanCall where
  | memory (call : MemoryCall)
  | translate (arena : Nat) (submission : GpuSubmission) (answers : SubmitAnswers)
  | translateBatch (arena : Nat) (submissions : List (GpuSubmission × SubmitAnswers))
      (answers : MemoryAnswers)
  deriving DecidableEq, Repr

namespace VulkanMemory

/-- The state after a call; `none` where it is not possible, breaks a promise or fails an
assertion. -/
def step (state : VulkanMemory) : VulkanCall → Option VulkanMemory
  | .memory call => state.perform call
  | .translate arena submission answers =>
      (state.toVkSubmitInfo2 arena submission answers).map Prod.snd
  | .translateBatch arena submissions answers =>
      (state.toVkSubmitInfo2Batch arena submissions answers).map Prod.snd

end VulkanMemory

/-- The runs begin without pools and arenas. -/
def vulkanMemory : Machine VulkanMemory VulkanCall where
  initial := fun state => ∃ next, state = { granted := { system := { next } } }
  step := VulkanMemory.step

/-- A queue reads an array of submissions. -/
def readSubmits (objects : Objects VkObject) (out count : Nat) : Option (List QueueWork) :=
  objects.readEach (fun value => value.submit?.bind fun info => info.read objects) out
    submitInfoSize 0 count

/-! ## What an allocation gives -/

namespace VulkanMemory

/-- The area is a block that the arena has returned. -/
def Granted (state : VulkanMemory) (arena : Nat) (area : Area) : Prop :=
  ∃ grant ∈ state.granted.grants arena, grant.area = area

end VulkanMemory

end LightFlow
