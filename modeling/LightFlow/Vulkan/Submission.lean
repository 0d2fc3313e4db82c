import LightFlow.Core.Types
import LightFlow.Gpu.Reactor
import LightFlow.Lib.Objects
import LightFlow.Vulkan.Stages

/-!
# Submissions

A submission to a queue is written out as tables of semaphores and command buffers, which a
`VkSubmitInfo2` refers to.  The tables lie in memory of the caller; what the queue reads from them
is what the submission says.
-/

namespace LightFlow

inductive GpuQueue where
  | graphics
  | compute
  | transfer
  deriving DecidableEq, Repr

structure GpuSyncDesc where
  syncPoint : TimelineSyncPoint
  stage : GpuStage := GpuStage.none
  stageMaskOverride : VkPipelineStageFlags2 := 0
  deviceIndex : Nat := 0
  deriving DecidableEq, Repr

structure GpuSubmission where
  queue : GpuQueue := .graphics
  submitFlags : Nat := 0
  commandBuffers : List Nat := []
  waits : List GpuSyncDesc := []
  signals : List GpuSyncDesc := []
  waitSyncPoints : List TimelineSyncPoint := []
  signalSyncPoints : List TimelineSyncPoint := []
  defaultWaitStageMask : VkPipelineStageFlags2 := 0
  defaultSignalStageMask : VkPipelineStageFlags2 := 0
  deriving DecidableEq, Repr

/-! ## Structures of Vulkan -/

/-- `VK_STRUCTURE_TYPE_COMMAND_BUFFER_SUBMIT_INFO`. -/
def commandBufferSubmitInfoType : Nat := 1000314000

/-- `VK_STRUCTURE_TYPE_SEMAPHORE_SUBMIT_INFO`. -/
def semaphoreSubmitInfoType : Nat := 1000314001

/-- `VK_STRUCTURE_TYPE_SUBMIT_INFO_2`. -/
def submitInfo2Type : Nat := 1000314004

structure VkSemaphoreSubmitInfo where
  sType : Nat := 0
  pNext : Nat := 0
  semaphore : Nat := 0
  value : Nat := 0
  stageMask : VkPipelineStageFlags2 := 0
  deviceIndex : Nat := 0
  deriving DecidableEq, Repr

structure VkCommandBufferSubmitInfo where
  sType : Nat := 0
  pNext : Nat := 0
  commandBuffer : Nat := 0
  deviceMask : Nat := 0
  deriving DecidableEq, Repr

structure VkSubmitInfo2 where
  sType : Nat := 0
  pNext : Nat := 0
  flags : Nat := 0
  waitSemaphoreInfoCount : Nat := 0
  pWaitSemaphoreInfos : Nat := 0
  commandBufferInfoCount : Nat := 0
  pCommandBufferInfos : Nat := 0
  signalSemaphoreInfoCount : Nat := 0
  pSignalSemaphoreInfos : Nat := 0
  deriving DecidableEq, Repr

/-- `sizeof(VkSemaphoreSubmitInfo)`. -/
def semaphoreInfoSize : Nat := 48

/-- `sizeof(VkCommandBufferSubmitInfo)`. -/
def commandInfoSize : Nat := 32

/-- `sizeof(VkSubmitInfo2)`. -/
def submitInfoSize : Nat := 64

/-- What is constructed in memory. -/
inductive VkObject where
  | semaphore (info : VkSemaphoreSubmitInfo)
  | command (info : VkCommandBufferSubmitInfo)
  | submit (info : VkSubmitInfo2)
  deriving DecidableEq, Repr

namespace VkObject

def semaphore? : VkObject → Option VkSemaphoreSubmitInfo
  | semaphore info => some info
  | _ => none

def command? : VkObject → Option VkCommandBufferSubmitInfo
  | command info => some info
  | _ => none

def submit? : VkObject → Option VkSubmitInfo2
  | submit info => some info
  | _ => none

def bytes : VkObject → Nat
  | semaphore _ => semaphoreInfoSize
  | command _ => commandInfoSize
  | submit _ => submitInfoSize

theorem bytes_pos (value : VkObject) : 0 < value.bytes := by
  cases value <;> exact Nat.succ_pos _

instance : Sized VkObject where
  bytes := bytes
  positive := bytes_pos

theorem submit_sized (value : VkObject) (isSome : value.submit?.isSome) :
    Sized.bytes value = submitInfoSize := by
  cases value with
  | submit info => rfl
  | _ => cases isSome

end VkObject

/-- A `std::span`; the null pointer is 0. -/
structure Span where
  data : Nat := 0
  size : Nat := 0
  deriving DecidableEq, Repr

/-! ## Translation -/

def getDefaultWaitStage : GpuQueue → VkPipelineStageFlags2
  | .graphics => VkPipelineStageFlags2.allCommands
  | .compute => VkPipelineStageFlags2.computeShader
  | .transfer => VkPipelineStageFlags2.transfer

def getDefaultSignalStage : GpuQueue → VkPipelineStageFlags2
  | .graphics => VkPipelineStageFlags2.allCommands
  | .compute => VkPipelineStageFlags2.computeShader
  | .transfer => VkPipelineStageFlags2.transfer

/-- `toVkSemaphoreSubmitInfo(syncPoint, stageMask, deviceIndex)`. -/
def TimelineSyncPoint.toVkSemaphoreSubmitInfo (syncPoint : TimelineSyncPoint)
    (stageMask : VkPipelineStageFlags2) (deviceIndex : Nat) : VkSemaphoreSubmitInfo where
  sType := semaphoreSubmitInfoType
  semaphore := syncPoint.handle
  value := syncPoint.value
  stageMask := stageMask
  deviceIndex := deviceIndex

/-- `toVkSemaphoreSubmitInfo(desc, defaultStage)`. -/
def GpuSyncDesc.toVkSemaphoreSubmitInfo (desc : GpuSyncDesc)
    (defaultStage : VkPipelineStageFlags2) : VkSemaphoreSubmitInfo :=
  let stage :=
    if desc.stageMaskOverride = 0 then
      let stage := toVkPipelineStageFlags2 desc.stage
      if stage = 0 then defaultStage else stage
    else desc.stageMaskOverride
  desc.syncPoint.toVkSemaphoreSubmitInfo stage desc.deviceIndex

def toVkCommandBufferSubmitInfo (cmd deviceMask : Nat) : VkCommandBufferSubmitInfo where
  sType := commandBufferSubmitInfoType
  commandBuffer := cmd
  deviceMask := deviceMask

namespace GpuSubmission

variable (submission : GpuSubmission)

def totalWaits : Nat := submission.waits.length + submission.waitSyncPoints.length

def totalCmds : Nat := submission.commandBuffers.length

def totalSignals : Nat := submission.signals.length + submission.signalSyncPoints.length

def waitDefault : VkPipelineStageFlags2 :=
  if submission.defaultWaitStageMask ≠ 0 then submission.defaultWaitStageMask
  else getDefaultWaitStage submission.queue

def signalDefault : VkPipelineStageFlags2 :=
  if submission.defaultSignalStageMask ≠ 0 then submission.defaultSignalStageMask
  else getDefaultSignalStage submission.queue

/-- Two loops over descriptors and sync points fill a table of semaphores. -/
def fillSemaphores (out : Span) (descs : List GpuSyncDesc) (points : List TimelineSyncPoint)
    (defaultStage : VkPipelineStageFlags2) (objects : Objects VkObject) : Objects VkObject :=
  let (objects, index) := objects.writeEach out.data semaphoreInfoSize 0
    (descs.map fun desc => .semaphore (desc.toVkSemaphoreSubmitInfo defaultStage))
  (objects.writeEach out.data semaphoreInfoSize index
    (points.map fun point => .semaphore (point.toVkSemaphoreSubmitInfo defaultStage 0))).1

/-- `toVkSubmitInfo2(submission, outWaits, outCmds, outSignals)`; `none` where an assertion about
the capacity of a span fails. -/
def toVkSubmitInfo2 (outWaits outCmds outSignals : Span) (objects : Objects VkObject) :
    Option (VkSubmitInfo2 × Objects VkObject) :=
  if submission.totalWaits ≤ outWaits.size ∧ submission.totalCmds ≤ outCmds.size ∧
      submission.totalSignals ≤ outSignals.size then
    let objects := fillSemaphores outWaits submission.waits submission.waitSyncPoints
      submission.waitDefault objects
    let objects := (objects.writeEach outCmds.data commandInfoSize 0
      (submission.commandBuffers.map fun cmd => .command (toVkCommandBufferSubmitInfo cmd 0))).1
    let objects := fillSemaphores outSignals submission.signals submission.signalSyncPoints
      submission.signalDefault objects
    some
      ({ sType := submitInfo2Type
         flags := submission.submitFlags
         waitSemaphoreInfoCount := u32 submission.totalWaits
         pWaitSemaphoreInfos := if 0 < submission.totalWaits then outWaits.data else 0
         commandBufferInfoCount := u32 submission.totalCmds
         pCommandBufferInfos := if 0 < submission.totalCmds then outCmds.data else 0
         signalSemaphoreInfoCount := u32 submission.totalSignals
         pSignalSemaphoreInfos := if 0 < submission.totalSignals then outSignals.data else 0 },
       objects)
  else none

end GpuSubmission

/-! ## What a queue is told -/

/-- A semaphore that is waited for or signalled. -/
structure SemaphoreOperation where
  semaphore : Nat
  value : Nat
  stages : VkPipelineStageFlags2
  device : Nat
  deriving DecidableEq, Repr

/-- The work that is submitted to a queue. -/
structure QueueWork where
  flags : Nat
  waits : List SemaphoreOperation
  commands : List Nat
  signals : List SemaphoreOperation
  deriving DecidableEq, Repr

/-- The stages of a descriptor: a mask of Vulkan, else the named stages, else a default. -/
def GpuSyncDesc.stages (desc : GpuSyncDesc) (defaultStage : VkPipelineStageFlags2) :
    VkPipelineStageFlags2 :=
  if desc.stageMaskOverride ≠ 0 then desc.stageMaskOverride
  else if desc.stage &&& GpuStage.known ≠ 0 then
    desc.stage &&& 0x1FFFF#64 ||| (desc.stage &&& 0xFE0000#64) <<< 15
  else defaultStage

def GpuSyncDesc.operation (defaultStage : VkPipelineStageFlags2) (desc : GpuSyncDesc) :
    SemaphoreOperation :=
  ⟨desc.syncPoint.handle, desc.syncPoint.value, desc.stages defaultStage, desc.deviceIndex⟩

def TimelineSyncPoint.operation (defaultStage : VkPipelineStageFlags2)
    (point : TimelineSyncPoint) : SemaphoreOperation :=
  ⟨point.handle, point.value, defaultStage, 0⟩

/-- What a submission says. -/
def GpuSubmission.work (submission : GpuSubmission) : QueueWork where
  flags := submission.submitFlags
  waits := submission.waits.map (GpuSyncDesc.operation submission.waitDefault) ++
    submission.waitSyncPoints.map (TimelineSyncPoint.operation submission.waitDefault)
  commands := submission.commandBuffers
  signals := submission.signals.map (GpuSyncDesc.operation submission.signalDefault) ++
    submission.signalSyncPoints.map (TimelineSyncPoint.operation submission.signalDefault)

/-- The counts have 32 bits. -/
def QueueWork.counted (work : QueueWork) : QueueWork where
  flags := work.flags
  waits := work.waits.take (u32 work.waits.length)
  commands := work.commands.take (u32 work.commands.length)
  signals := work.signals.take (u32 work.signals.length)

def VkSemaphoreSubmitInfo.operation? (info : VkSemaphoreSubmitInfo) : Option SemaphoreOperation :=
  if info.sType = semaphoreSubmitInfoType ∧ info.pNext = 0 then
    some ⟨info.semaphore, info.value, info.stageMask, info.deviceIndex⟩
  else none

def VkCommandBufferSubmitInfo.command? (info : VkCommandBufferSubmitInfo) : Option Nat :=
  if info.sType = commandBufferSubmitInfoType ∧ info.pNext = 0 ∧ info.deviceMask = 0 then
    some info.commandBuffer
  else none

def VkObject.operation? (value : VkObject) : Option SemaphoreOperation :=
  value.semaphore?.bind VkSemaphoreSubmitInfo.operation?

def VkObject.commandBuffer? (value : VkObject) : Option Nat :=
  value.command?.bind VkCommandBufferSubmitInfo.command?

/-- A queue reads a table of semaphores. -/
def readSemaphores (objects : Objects VkObject) (data count : Nat) :
    Option (List SemaphoreOperation) :=
  objects.readEach VkObject.operation? data semaphoreInfoSize 0 count

/-- A queue reads a table of command buffers. -/
def readCommands (objects : Objects VkObject) (data count : Nat) : Option (List Nat) :=
  objects.readEach VkObject.commandBuffer? data commandInfoSize 0 count

/-- A queue reads a submission. -/
def VkSubmitInfo2.read (info : VkSubmitInfo2) (objects : Objects VkObject) : Option QueueWork :=
  if info.sType = submitInfo2Type ∧ info.pNext = 0 then do
    let waits ← readSemaphores objects info.pWaitSemaphoreInfos info.waitSemaphoreInfoCount
    let commands ← readCommands objects info.pCommandBufferInfos info.commandBufferInfoCount
    let signals ← readSemaphores objects info.pSignalSemaphoreInfos info.signalSemaphoreInfoCount
    some ⟨info.flags, waits, commands, signals⟩
  else none

end LightFlow
