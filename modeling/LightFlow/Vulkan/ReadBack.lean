import LightFlow.Vulkan.Submission

/-!
# Submissions that are read back

A queue reads from the tables what the submission says, and nothing else in memory has changed.
-/

namespace LightFlow

/-- Destination slices. -/
structure SubmitStorage where
  waitInfos : Span := {}
  commandInfos : Span := {}
  signalInfos : Span := {}
  deriving DecidableEq, Repr

/-- `toVkSubmitInfo2(submission, storage)`. -/
def GpuSubmission.toVkSubmitInfo2InStorage (submission : GpuSubmission) (storage : SubmitStorage)
    (objects : Objects VkObject) : Option (VkSubmitInfo2 × Objects VkObject) :=
  submission.toVkSubmitInfo2 storage.waitInfos storage.commandInfos storage.signalInfos objects

/-- `FixedSubmitStorage<MaxWaits, MaxCmds, MaxSignals>` at an address. -/
structure FixedSubmitStorage where
  address : Nat
  maxWaits : Nat
  maxCmds : Nat
  maxSignals : Nat
  deriving DecidableEq, Repr

/-- The arrays follow each other. -/
def FixedSubmitStorage.asStorage (fixed : FixedSubmitStorage) : SubmitStorage :=
  let commands := fixed.address + fixed.maxWaits * semaphoreInfoSize
  { waitInfos := ⟨fixed.address, fixed.maxWaits⟩
    commandInfos := ⟨commands, fixed.maxCmds⟩
    signalInfos := ⟨commands + fixed.maxCmds * commandInfoSize, fixed.maxSignals⟩ }

/-- The tables that a translated submission refers to. -/
def VkSubmitInfo2.tables (info : VkSubmitInfo2) (submission : GpuSubmission) : List Area :=
  [⟨info.pWaitSemaphoreInfos, submission.totalWaits * semaphoreInfoSize⟩,
    ⟨info.pCommandBufferInfos, submission.totalCmds * commandInfoSize⟩,
    ⟨info.pSignalSemaphoreInfos, submission.totalSignals * semaphoreInfoSize⟩]

/-! ## Objects that say what a queue is told -/

/-- How an operation is written. -/
def SemaphoreOperation.object (operation : SemaphoreOperation) : VkObject :=
  .semaphore
    { sType := semaphoreSubmitInfoType
      semaphore := operation.semaphore
      value := operation.value
      stageMask := operation.stages
      deviceIndex := operation.device }

/-- How a command buffer is written. -/
def commandObject (cmd : Nat) : VkObject := .command (toVkCommandBufferSubmitInfo cmd 0)

theorem toVkPipelineStageFlags2_eq_zero (stage : GpuStage) :
    toVkPipelineStageFlags2 stage = 0 ↔ stage &&& GpuStage.known = 0 :=
  toVkPipelineStageFlags2_inj stage 0

theorem GpuSyncDesc.object_eq (desc : GpuSyncDesc) (defaultStage : VkPipelineStageFlags2) :
    VkObject.semaphore (desc.toVkSemaphoreSubmitInfo defaultStage) =
      (desc.operation defaultStage).object := by
  have stages : (if desc.stageMaskOverride = 0 then
      if toVkPipelineStageFlags2 desc.stage = 0 then defaultStage
      else toVkPipelineStageFlags2 desc.stage
    else desc.stageMaskOverride) = desc.stages defaultStage := by
    rw [GpuSyncDesc.stages, ite_not, ite_not, ← toVkPipelineStageFlags2_eq_shift]
    simp only [toVkPipelineStageFlags2_eq_zero]
  exact congrArg (fun stage => VkObject.semaphore
    (desc.syncPoint.toVkSemaphoreSubmitInfo stage desc.deviceIndex)) stages

theorem operation?_object (operation : SemaphoreOperation) :
    operation.object.operation? = some operation := by
  simp only [SemaphoreOperation.object, VkObject.operation?, VkObject.semaphore?,
    Option.bind_some, VkSemaphoreSubmitInfo.operation?, and_self, if_true]

theorem commandBuffer?_commandObject (cmd : Nat) :
    (commandObject cmd).commandBuffer? = some cmd := by
  simp only [commandObject, toVkCommandBufferSubmitInfo, VkObject.commandBuffer?,
    VkObject.command?, Option.bind_some, VkCommandBufferSubmitInfo.command?, and_self, if_true]

theorem operation?_sized (value : VkObject) (isSome : value.operation?.isSome) :
    Sized.bytes value = semaphoreInfoSize := by
  cases value with
  | semaphore info => rfl
  | _ => cases isSome

theorem commandBuffer?_sized (value : VkObject) (isSome : value.commandBuffer?.isSome) :
    Sized.bytes value = commandInfoSize := by
  cases value with
  | command info => rfl
  | _ => cases isSome

/-- A filled table holds the operations of the descriptors, then those of the sync points. -/
theorem fillSemaphores_eq (out : Span) (descs : List GpuSyncDesc)
    (points : List TimelineSyncPoint) (defaultStage : VkPipelineStageFlags2)
    (objects : Objects VkObject) :
    GpuSubmission.fillSemaphores out descs points defaultStage objects =
      (objects.writeEach out.data semaphoreInfoSize 0
        ((descs.map (GpuSyncDesc.operation defaultStage) ++
          points.map (TimelineSyncPoint.operation defaultStage)).map
            SemaphoreOperation.object)).1 := by
  have first : (descs.map fun desc =>
      VkObject.semaphore (desc.toVkSemaphoreSubmitInfo defaultStage)) =
      (descs.map (GpuSyncDesc.operation defaultStage)).map SemaphoreOperation.object := by
    rw [List.map_map]
    exact List.map_congr_left fun desc _ => desc.object_eq defaultStage
  have second : (points.map fun point =>
      VkObject.semaphore (point.toVkSemaphoreSubmitInfo defaultStage 0)) =
      (points.map (TimelineSyncPoint.operation defaultStage)).map SemaphoreOperation.object := by
    rw [List.map_map]
    rfl
  rw [GpuSubmission.fillSemaphores, first, second, List.map_append, Objects.writeEach_append]

/-! ## Round trip -/

section Tables

variable {objects after : Objects VkObject} {areas : List Area}

/-- A table of semaphores was written; an empty one is referred to by null. -/
theorem semaphores_written (data : Nat) (operations : List SemaphoreOperation)
    (objects : Objects VkObject) :
    let pointer := if 0 < operations.length then data else 0
    let after := (objects.writeEach data semaphoreInfoSize 0
      (operations.map SemaphoreOperation.object)).1
    readSemaphores after pointer operations.length = some operations ∧
      Objects.Keeps [⟨pointer, operations.length * semaphoreInfoSize⟩] objects after := by
  dsimp only
  split
  next =>
    refine ⟨Objects.readEach_writeEach operation?_object operation?_sized operations objects 0, ?_⟩
    have keeps := @Objects.writeEach_keeps _ _ data semaphoreInfoSize
      (operations.map SemaphoreOperation.object) (by
        intro value member
        obtain ⟨operation, -, rfl⟩ := List.mem_map.mp member
        rfl) objects 0
    rwa [Objects.row, Nat.zero_mul, Nat.add_zero, List.length_map] at keeps
  next empty =>
    obtain rfl := List.length_eq_zero_iff.mp (Nat.eq_zero_of_not_pos empty)
    exact ⟨rfl, .refl _⟩

/-- A table of command buffers was written; an empty one is referred to by null. -/
theorem commands_written (data : Nat) (commands : List Nat) (objects : Objects VkObject) :
    let pointer := if 0 < commands.length then data else 0
    let after := (objects.writeEach data commandInfoSize 0 (commands.map commandObject)).1
    readCommands after pointer commands.length = some commands ∧
      Objects.Keeps [⟨pointer, commands.length * commandInfoSize⟩] objects after := by
  dsimp only
  split
  next =>
    refine ⟨Objects.readEach_writeEach commandBuffer?_commandObject commandBuffer?_sized commands
      objects 0, ?_⟩
    have keeps := @Objects.writeEach_keeps _ _ data commandInfoSize (commands.map commandObject) (by
      intro value member
      obtain ⟨cmd, -, rfl⟩ := List.mem_map.mp member
      rfl) objects 0
    rwa [Objects.row, Nat.zero_mul, Nat.add_zero, List.length_map] at keeps
  next empty =>
    obtain rfl := List.length_eq_zero_iff.mp (Nat.eq_zero_of_not_pos empty)
    exact ⟨rfl, .refl _⟩

theorem readSemaphores_of_keeps (keeps : Objects.Keeps areas objects after) {data count : Nat}
    (apart : ∀ area ∈ areas, (Area.mk data (count * semaphoreInfoSize)).Apart area)
    {operations : List SemaphoreOperation}
    (isRead : readSemaphores objects data count = some operations) :
    readSemaphores after data count = some operations := by
  refine Objects.readEach_of_keeps keeps operation?_sized ?_ isRead
  rwa [Objects.row, Nat.zero_mul, Nat.add_zero]

theorem readCommands_of_keeps (keeps : Objects.Keeps areas objects after) {data count : Nat}
    (apart : ∀ area ∈ areas, (Area.mk data (count * commandInfoSize)).Apart area)
    {commands : List Nat} (isRead : readCommands objects data count = some commands) :
    readCommands after data count = some commands := by
  refine Objects.readEach_of_keeps keeps commandBuffer?_sized ?_ isRead
  rwa [Objects.row, Nat.zero_mul, Nat.add_zero]

/-- The reads of a queue. -/
theorem VkSubmitInfo2.read_of_tables {info : VkSubmitInfo2} (isType : info.sType = submitInfo2Type)
    (isLast : info.pNext = 0) {waits signals : List SemaphoreOperation} {commands : List Nat}
    (readWaits : readSemaphores objects info.pWaitSemaphoreInfos info.waitSemaphoreInfoCount =
      some waits)
    (readCmds : readCommands objects info.pCommandBufferInfos info.commandBufferInfoCount =
      some commands)
    (readSignals : readSemaphores objects info.pSignalSemaphoreInfos
      info.signalSemaphoreInfoCount = some signals) :
    info.read objects = some ⟨info.flags, waits, commands, signals⟩ := by
  rw [VkSubmitInfo2.read, if_pos ⟨isType, isLast⟩, readWaits, readCmds, readSignals]
  rfl

end Tables

/-- The counts are those of the submission. -/
structure VkSubmitInfo2.Counts (info : VkSubmitInfo2) (submission : GpuSubmission) : Prop where
  waits : info.waitSemaphoreInfoCount = u32 submission.totalWaits
  commands : info.commandBufferInfoCount = u32 submission.totalCmds
  signals : info.signalSemaphoreInfoCount = u32 submission.totalSignals

/-- A table is apart from areas as far as it is read. -/
theorem counted_apart {pointer count total stride : Nat} {areas : List Area}
    (isCount : count = u32 total)
    (apart : ∀ area ∈ areas, (Area.mk pointer (total * stride)).Apart area) :
    ∀ area ∈ areas, (Area.mk pointer (count * stride)).Apart area := by
  intro area member
  refine (apart area member).within ⟨Nat.le_refl _, ?_⟩ (.refl _)
  rw [isCount]
  exact Nat.add_le_add_left (Nat.mul_le_mul_right _ (Nat.mod_le _ _)) _

/-- A queue still reads a submission after changes that are apart from its tables. -/
theorem VkSubmitInfo2.read_of_keeps {info : VkSubmitInfo2} {submission : GpuSubmission}
    {areas : List Area} {objects after : Objects VkObject} (counts : info.Counts submission)
    (keeps : Objects.Keeps areas objects after)
    (apart : ∀ table ∈ info.tables submission, ∀ area ∈ areas, table.Apart area)
    {work : QueueWork} (isRead : info.read objects = some work) :
    info.read after = some work := by
  rw [VkSubmitInfo2.read, Option.ite_none_right_eq_some] at isRead
  obtain ⟨⟨isType, isLast⟩, isRead⟩ := isRead
  obtain ⟨waits, readWaits, isRead⟩ := Option.bind_eq_some_iff.mp isRead
  obtain ⟨commands, readCmds, isRead⟩ := Option.bind_eq_some_iff.mp isRead
  obtain ⟨signals, readSignals, isRead⟩ := Option.bind_eq_some_iff.mp isRead
  obtain rfl := Option.some.inj isRead
  obtain ⟨waitsApart, apart⟩ := List.forall_mem_cons.mp apart
  obtain ⟨cmdsApart, apart⟩ := List.forall_mem_cons.mp apart
  obtain ⟨signalsApart, -⟩ := List.forall_mem_cons.mp apart
  exact read_of_tables isType isLast
    (readSemaphores_of_keeps keeps (counted_apart counts.waits waitsApart) readWaits)
    (readCommands_of_keeps keeps (counted_apart counts.commands cmdsApart) readCmds)
    (readSemaphores_of_keeps keeps (counted_apart counts.signals signalsApart) readSignals)

namespace GpuSubmission

variable {submission : GpuSubmission} {outWaits outCmds outSignals : Span}
  {objects after : Objects VkObject} {info : VkSubmitInfo2}

theorem length_waits (submission : GpuSubmission) :
    submission.work.waits.length = submission.totalWaits := by
  simp only [work, List.length_append, List.length_map, totalWaits]

theorem length_signals (submission : GpuSubmission) :
    submission.work.signals.length = submission.totalSignals := by
  simp only [work, List.length_append, List.length_map, totalSignals]

/-- A translation succeeds when the spans are large enough. -/
theorem toVkSubmitInfo2_isSome :
    (submission.toVkSubmitInfo2 outWaits outCmds outSignals objects).isSome ↔
    submission.totalWaits ≤ outWaits.size ∧ submission.totalCmds ≤ outCmds.size ∧
      submission.totalSignals ≤ outSignals.size := by
  rw [toVkSubmitInfo2]
  split
  next room => exact iff_of_true rfl room
  next noRoom => exact iff_of_false Bool.false_ne_true noRoom

/-- Where the tables are. -/
theorem toVkSubmitInfo2_tables
    (translated : submission.toVkSubmitInfo2 outWaits outCmds outSignals objects =
      some (info, after)) :
    (submission.totalWaits ≤ outWaits.size ∧ submission.totalCmds ≤ outCmds.size ∧
        submission.totalSignals ≤ outSignals.size) ∧
      info.tables submission =
        [⟨if 0 < submission.totalWaits then outWaits.data else 0,
            submission.totalWaits * semaphoreInfoSize⟩,
          ⟨if 0 < submission.totalCmds then outCmds.data else 0,
            submission.totalCmds * commandInfoSize⟩,
          ⟨if 0 < submission.totalSignals then outSignals.data else 0,
            submission.totalSignals * semaphoreInfoSize⟩] := by
  rw [toVkSubmitInfo2, Option.ite_none_right_eq_some] at translated
  obtain ⟨room, isSome⟩ := translated
  obtain ⟨rfl, -⟩ := Prod.mk.inj (Option.some.inj isSome)
  exact ⟨room, rfl⟩

/-- Three areas are apart. -/
theorem pairwise_three {first second third : Area} (one : first.Apart second)
    (two : first.Apart third) (three : second.Apart third) :
    [first, second, third].Pairwise Area.Apart := by
  refine .cons ?_ (.cons three.singleton (.cons ?_ .nil))
  · exact List.forall_mem_cons.mpr ⟨one, two.singleton⟩
  · exact fun _ member => absurd member List.not_mem_nil

/-- A queue reads what the submission says, and objects apart from the tables are kept. -/
theorem toVkSubmitInfo2_read
    (translated : submission.toVkSubmitInfo2 outWaits outCmds outSignals objects =
      some (info, after))
    (apart : (info.tables submission).Pairwise Area.Apart) :
    info.Counts submission ∧ info.read after = some submission.work.counted ∧
      Objects.Keeps (info.tables submission) objects after := by
  rw [toVkSubmitInfo2, Option.ite_none_right_eq_some] at translated
  obtain ⟨-, isSome⟩ := translated
  obtain ⟨rfl, isAfter⟩ := Prod.mk.inj (Option.some.inj isSome)
  rw [fillSemaphores_eq, fillSemaphores_eq] at isAfter
  obtain ⟨readWaits, keepsWaits⟩ := semaphores_written outWaits.data submission.work.waits objects
  generalize isFirst : (objects.writeEach outWaits.data semaphoreInfoSize 0
    (submission.work.waits.map SemaphoreOperation.object)).1 = first at readWaits keepsWaits
  obtain ⟨readCmds, keepsCmds⟩ := commands_written outCmds.data submission.commandBuffers first
  generalize isSecond : (first.writeEach outCmds.data commandInfoSize 0
    (submission.commandBuffers.map commandObject)).1 = second at readCmds keepsCmds
  obtain ⟨readSignals, keepsSignals⟩ :=
    semaphores_written outSignals.data submission.work.signals second
  have isLast : (second.writeEach outSignals.data semaphoreInfoSize 0
      (submission.work.signals.map SemaphoreOperation.object)).1 = after := by
    rw [← isAfter, ← isSecond, ← isFirst]
    rfl
  rw [isLast] at readSignals keepsSignals
  rw [submission.length_waits] at readWaits keepsWaits
  rw [submission.length_signals] at readSignals keepsSignals
  obtain ⟨fromWaits, fromCmds, -⟩ := List.pairwise_cons.mp apart |>.imp id List.pairwise_cons.mp
  have waitsCmds := (fromWaits _ (List.mem_cons_self ..)).singleton
  have waitsSignals := (fromWaits _ (List.mem_cons_of_mem _ (List.mem_cons_self ..))).singleton
  have cmdsSignals := (fromCmds _ (List.mem_cons_self ..)).singleton
  refine ⟨⟨rfl, rfl, rfl⟩, ?_, ?_⟩
  · have waits := readSemaphores_of_keeps keepsSignals waitsSignals
      (readSemaphores_of_keeps keepsCmds waitsCmds readWaits)
    have cmds := readCommands_of_keeps keepsSignals cmdsSignals readCmds
    rw [QueueWork.counted, submission.length_waits, submission.length_signals]
    exact VkSubmitInfo2.read_of_tables rfl rfl (Objects.readEach_take waits (Nat.mod_le _ _))
      (Objects.readEach_take cmds (Nat.mod_le _ _))
      (Objects.readEach_take readSignals (Nat.mod_le _ _))
  · refine (keepsWaits.mono ?_).trans ((keepsCmds.mono ?_).trans (keepsSignals.mono ?_))
    · exact List.cons_subset.mpr ⟨List.mem_cons_self .., List.nil_subset _⟩
    · exact List.cons_subset.mpr ⟨List.mem_cons_of_mem _ (List.mem_cons_self ..), List.nil_subset _⟩
    · exact List.cons_subset.mpr ⟨List.mem_cons_of_mem _ (List.mem_cons_of_mem _
        (List.mem_cons_self ..)), List.nil_subset _⟩

end GpuSubmission

/-! ## Storage of the caller -/

namespace SubmitStorage

/-- The bytes of the three slices. -/
def areas (storage : SubmitStorage) : List Area :=
  [⟨storage.waitInfos.data, storage.waitInfos.size * semaphoreInfoSize⟩,
    ⟨storage.commandInfos.data, storage.commandInfos.size * commandInfoSize⟩,
    ⟨storage.signalInfos.data, storage.signalInfos.size * semaphoreInfoSize⟩]

end SubmitStorage

/-- A table lies in its slice, or is empty. -/
theorem table_inside {pointer total size stride : Nat} (fits : total ≤ size) :
    (Area.mk (if 0 < total then pointer else 0) (total * stride)).Inside
      ⟨pointer, size * stride⟩ := by
  split
  next =>
    refine .inr ⟨Nat.le_refl _, ?_⟩
    exact Nat.add_le_add_left (Nat.mul_le_mul_right _ fits) _
  next empty =>
    obtain rfl := Nat.eq_zero_of_not_pos empty
    exact .inl (by rw [Nat.zero_mul, Area.null])

namespace GpuSubmission

variable {submission : GpuSubmission} {storage : SubmitStorage} {objects after : Objects VkObject}
  {info : VkSubmitInfo2}

/-- Tables in slices that are apart are apart. -/
theorem tables_apart
    (translated : submission.toVkSubmitInfo2InStorage storage objects = some (info, after))
    (apart : storage.areas.Pairwise Area.Apart) :
    (info.tables submission).Pairwise Area.Apart := by
  obtain ⟨⟨waitsFit, cmdsFit, signalsFit⟩, isTables⟩ := toVkSubmitInfo2_tables translated
  obtain ⟨fromWaits, fromCmds, -⟩ := List.pairwise_cons.mp apart |>.imp id List.pairwise_cons.mp
  have waitsCmds := fromWaits _ (List.mem_cons_self ..)
  have waitsSignals := fromWaits _ (List.mem_cons_of_mem _ (List.mem_cons_self ..))
  have cmdsSignals := fromCmds _ (List.mem_cons_self ..)
  have waits := @table_inside storage.waitInfos.data _ _ semaphoreInfoSize waitsFit
  have cmds := @table_inside storage.commandInfos.data _ _ commandInfoSize cmdsFit
  have signals := @table_inside storage.signalInfos.data _ _ semaphoreInfoSize signalsFit
  rw [isTables]
  exact pairwise_three (waitsCmds.inside waits cmds) (waitsSignals.inside waits signals)
    (cmdsSignals.inside cmds signals)

end GpuSubmission

namespace FixedSubmitStorage

/-- The arrays of a fixed storage are apart. -/
theorem asStorage_apart (fixed : FixedSubmitStorage) :
    fixed.asStorage.areas.Pairwise Area.Apart := by
  refine GpuSubmission.pairwise_three (.inl (Nat.le_refl _)) (.inl ?_) (.inl (Nat.le_refl _))
  exact Nat.le_add_right _ _

end FixedSubmitStorage

/-- Fewer than 2^32 entries are all counted. -/
theorem GpuSubmission.counted_eq {submission : GpuSubmission}
    (fewWaits : submission.totalWaits < 2 ^ 32) (fewCmds : submission.totalCmds < 2 ^ 32)
    (fewSignals : submission.totalSignals < 2 ^ 32) :
    submission.work.counted = submission.work := by
  have cmds : u32 submission.work.commands.length = submission.work.commands.length :=
    u32_of_lt fewCmds
  rw [QueueWork.counted, cmds, submission.length_waits, submission.length_signals,
    u32_of_lt fewWaits, u32_of_lt fewSignals, List.take_length, ← submission.length_waits,
    List.take_length, ← submission.length_signals, List.take_length]

/-- A submission is translated exactly when the slices have room.  If they are apart, a queue reads
what the submission says as far as 32 bits count, and nothing apart from the tables has changed. -/
theorem submission_read_back (submission : GpuSubmission) (storage : SubmitStorage)
    (apart : storage.areas.Pairwise Area.Apart) (objects : Objects VkObject) :
    ((submission.toVkSubmitInfo2InStorage storage objects).isSome ↔
      submission.totalWaits ≤ storage.waitInfos.size ∧
        submission.totalCmds ≤ storage.commandInfos.size ∧
        submission.totalSignals ≤ storage.signalInfos.size) ∧
      (submission.totalWaits < 2 ^ 32 → submission.totalCmds < 2 ^ 32 →
        submission.totalSignals < 2 ^ 32 → submission.work.counted = submission.work) ∧
      ∀ info after,
        submission.toVkSubmitInfo2InStorage storage objects = some (info, after) →
        info.read after = some submission.work.counted ∧
          Objects.Keeps (info.tables submission) objects after := by
  refine ⟨GpuSubmission.toVkSubmitInfo2_isSome, GpuSubmission.counted_eq, ?_⟩
  intro info after translated
  exact (GpuSubmission.toVkSubmitInfo2_read translated
    (GpuSubmission.tables_apart translated apart)).2

/-- A wait for two stages, one for the default of its queue, and a signal for a mask of Vulkan. -/
theorem submission_read_back_fixed :
    ∃ (info : VkSubmitInfo2) (after : Objects VkObject), info.read after = some
      { flags := 1
        waits := [⟨5, 10, 0x100000001, 0⟩, ⟨6, 11, VkPipelineStageFlags2.computeShader, 0⟩]
        commands := [4096]
        signals := [⟨5, 20, 0x2, 3⟩] } := by
  let submission : GpuSubmission :=
    { queue := .compute
      submitFlags := 1
      commandBuffers := [4096]
      waits := [{ syncPoint := { handle := 5, value := 10 }
                  stage := GpuStage.topOfPipe ||| GpuStage.copy }]
      signals := [{ syncPoint := { handle := 5, value := 20 }
                    stageMaskOverride := 0x2
                    deviceIndex := 3 }]
      waitSyncPoints := [{ handle := 6, value := 11 }] }
  let storage := FixedSubmitStorage.asStorage ⟨65536, 4, 1, 1⟩
  obtain ⟨translates, -, reads⟩ := submission_read_back submission storage
    (FixedSubmitStorage.asStorage_apart _) fun _ => none
  obtain ⟨⟨info, after⟩, translated⟩ := Option.isSome_iff_exists.mp (translates.mpr (by decide))
  exact ⟨info, after, (reads info after translated).1⟩

end LightFlow
