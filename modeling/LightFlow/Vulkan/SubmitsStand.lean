import LightFlow.Vulkan.ArenaSubmits

/-!
# Submissions stand until their arena is reset

Every table lies in a block of its arena, blocks are apart, and a translation writes only to the
blocks that it was just given.
-/

namespace LightFlow

/-- A translated submission: its tables are blocks that are held, or empty. -/
structure InfoLaw (objects : Objects VkObject) (held : Area → Prop) (submission : GpuSubmission)
    (info : VkSubmitInfo2) : Prop where
  counts : info.Counts submission
  tables : ∀ table ∈ info.tables submission, table = Area.null ∨ held table
  read : info.read objects = some submission.work.counted

/-- The array of a batch holds the records of its submissions. -/
structure SubmitBatchLaw (objects : Objects VkObject) (held : Area → Prop)
    (infos : List (GpuSubmission × VkSubmitInfo2)) (batch : SubmitBatch) : Prop where
  held : held ⟨batch.out, batch.submissions.length * submitInfoSize⟩
  found : ∃ entries, objects.readEach VkObject.submit? batch.out submitInfoSize 0
      batch.submissions.length = some entries ∧
    List.Forall₂ (fun submission info => (submission, info) ∈ infos) batch.submissions entries

structure RecordsLaw (objects : Objects VkObject) (held : Area → Prop) (records : SubmitRecords) :
    Prop where
  infos : ∀ submission info, (submission, info) ∈ records.infos →
    InfoLaw objects held submission info
  batches : ∀ batch ∈ records.batches, SubmitBatchLaw objects held records.infos batch

/-- `held` are some blocks of each arena. -/
structure VulkanLaw (state : VulkanMemory) (held : Nat → Area → Prop) : Prop where
  memory : ∃ owner, MemoryLaw state.granted owner
  granted : ∀ arena area, held arena area → state.Granted arena area
  records : ∀ arena, RecordsLaw state.objects (held arena) (state.records arena)

section Records

variable {objects after : Objects VkObject} {held more : Area → Prop} {records : SubmitRecords}
  {areas : List Area}

theorem recordsLaw_empty : RecordsLaw objects held {} :=
  ⟨fun _ _ member => absurd member List.not_mem_nil, fun _ member => absurd member List.not_mem_nil⟩

theorem RecordsLaw.mono (law : RecordsLaw objects held records)
    (holds : ∀ area, held area → more area) : RecordsLaw objects more records where
  infos submission info member :=
    { law.infos submission info member with
      tables := fun table isTable =>
        ((law.infos submission info member).tables table isTable).imp id (holds table) }
  batches batch member :=
    { law.batches batch member with held := holds _ (law.batches batch member).held }

/-- A change that is apart from the blocks leaves the records. -/
theorem RecordsLaw.keeps (law : RecordsLaw objects held records)
    (keeps : Objects.Keeps areas objects after)
    (apart : ∀ outer, held outer → ∀ area ∈ areas, outer.Apart area) :
    RecordsLaw after held records where
  infos submission info member := by
    have isLaw := law.infos submission info member
    refine { isLaw with read := VkSubmitInfo2.read_of_keeps isLaw.counts keeps ?_ isLaw.read }
    intro table isTable area isArea
    rcases isLaw.tables table isTable with rfl | isHeld
    · exact Area.null_apart area
    · exact apart table isHeld area isArea
  batches batch member := by
    have isLaw := law.batches batch member
    obtain ⟨entries, isRead, isRecorded⟩ := isLaw.found
    refine { isLaw with found := ⟨entries, ?_, isRecorded⟩ }
    refine Objects.readEach_of_keeps keeps VkObject.submit_sized ?_ isRead
    rw [Objects.row, Nat.zero_mul, Nat.add_zero]
    exact apart _ isLaw.held

/-- A submission is recorded. -/
theorem RecordsLaw.recordInfo (law : RecordsLaw objects held records) {submission : GpuSubmission}
    {info : VkSubmitInfo2} (isLaw : InfoLaw objects held submission info) :
    RecordsLaw objects held { records with infos := (submission, info) :: records.infos } where
  infos other entry member := by
    rcases List.mem_cons.mp member with same | member
    · obtain ⟨rfl, rfl⟩ := Prod.mk.inj same
      exact isLaw
    · exact law.infos other entry member
  batches batch member := by
    obtain ⟨isHeld, entries, isRead, isRecorded⟩ := law.batches batch member
    exact ⟨isHeld, entries, isRead,
      isRecorded.imp fun _ _ isEntry => List.mem_cons_of_mem _ isEntry⟩

/-- A batch is recorded. -/
theorem RecordsLaw.recordBatch (law : RecordsLaw objects held records) {batch : SubmitBatch}
    (isLaw : SubmitBatchLaw objects held records.infos batch) :
    RecordsLaw objects held { records with batches := batch :: records.batches } where
  infos := law.infos
  batches other member := by
    rcases List.mem_cons.mp member with rfl | member
    · exact isLaw
    · exact law.batches other member

end Records

/-- All blocks may be held. -/
theorem VulkanLaw.all {state : VulkanMemory} {held : Nat → Area → Prop}
    (law : VulkanLaw state held) : VulkanLaw state state.Granted where
  memory := law.memory
  granted _ _ isGranted := isGranted
  records arena := (law.records arena).mono (law.granted arena)

/-! ## Calls of arenas -/

namespace VulkanMemory

variable {state next : VulkanMemory}

/-- The records go where the blocks go. -/
theorem kept_granted {law : SubmitRecords → List Grant → Prop}
    (empty : ∀ grants, law {} grants)
    (mono : ∀ records grant grants, law records grants → law records (grant :: grants))
    (before : ∀ arena, law (state.records arena) (state.granted.grants arena)) (call : MemoryCall)
    (arena : Nat) : law (state.kept call arena) (state.granted.granted call arena) := by
  have grant (other result bytes alignment : Nat) : law (state.records arena)
      (state.granted.grant other result bytes alignment arena) := by
    rw [GrantedMemory.grant]
    split
    next => exact before arena
    next =>
      by_cases same : arena = other
      · subst same
        rw [Function.update_self]
        exact mono _ _ _ (before arena)
      · rw [Function.update_of_ne same]
        exact before arena
  have emptied (other : Nat) : law (Function.update state.records other {} arena)
      (Function.update state.granted.grants other [] arena) := by
    by_cases same : arena = other
    · subst same
      rw [Function.update_self, Function.update_self]
      exact empty _
    · rw [Function.update_of_ne same, Function.update_of_ne same]
      exact before arena
  have handed (place other : Nat) : law (state.handOn place other arena)
      (state.granted.handOn place other arena) := by
    rw [VulkanMemory.handOn, GrantedMemory.handOn]
    by_cases last : arena = other
    · subst last
      rw [Function.update_self, Function.update_self]
      exact empty _
    · rw [Function.update_of_ne last, Function.update_of_ne last]
      by_cases same : arena = place
      · subst same
        rw [Function.update_self, Function.update_self]
        exact before other
      · rw [Function.update_of_ne same, Function.update_of_ne same]
        exact before arena
  cases call with
  | allocate other bytes alignment answers =>
      cases found : state.granted.system.liveArena other with
      | none =>
          rw [GrantedMemory.granted, found]
          exact before arena
      | some value =>
          rw [GrantedMemory.granted, found]
          exact grant ..
  | allocateSpan other size alignment count answers =>
      cases found : state.granted.system.liveArena other with
      | none =>
          rw [GrantedMemory.granted, found]
          exact before arena
      | some value =>
          rw [GrantedMemory.granted, found]
          exact grant ..
  | reset other => exact emptied other
  | destroyArena other => exact emptied other
  | moveArena other => exact handed _ other
  | assignArena place other =>
      rw [VulkanMemory.kept, GrantedMemory.granted]
      split
      next => exact before arena
      next => exact handed place other
  | _ => exact before arena

/-- What a call keeps. -/
theorem perform_law {held : Nat → Area → Prop} (law : VulkanLaw state held) {call : MemoryCall}
    (performed : state.perform call = some next) : VulkanLaw next next.Granted := by
  rw [perform, Option.ite_none_right_eq_some] at performed
  obtain ⟨allowed, performed⟩ := performed
  obtain ⟨granted, isGranted, rfl⟩ := Option.map_eq_some_iff.mp performed
  obtain ⟨owner, memory⟩ := law.memory
  refine ⟨memory.perform allowed isGranted, fun _ _ isHeld => isHeld, ?_⟩
  obtain ⟨system, -, rfl⟩ := Option.map_eq_some_iff.mp isGranted
  refine @kept_granted state
    (fun records grants =>
      RecordsLaw state.objects (fun area => ∃ grant ∈ grants, grant.area = area) records)
    (fun _ => recordsLaw_empty) ?_ ?_ call
  · exact fun _ grant _ isLaw => isLaw.mono fun _ ⟨other, member, same⟩ =>
      ⟨other, List.mem_cons_of_mem _ member, same⟩
  · exact fun arena => (law.records arena).mono (law.granted arena)

/-- What a span is. -/
structure SpanGiven (state next : VulkanMemory) (arena size count : Nat) (span : Span) : Prop where
  objects : next.objects = state.objects
  records : next.records = state.records
  memory : ∃ owner, MemoryLaw next.granted owner
  granted : ∀ other area, state.Granted other area → next.Granted other area
  /-- Nothing, or a block that is apart from all others. -/
  given : span = {} ∨ span.size = count ∧ next.Granted arena ⟨span.data, size * count⟩ ∧
    ∀ other area, state.Granted other area → area.Apart ⟨span.data, size * count⟩

theorem allocateSpan_given {held : Nat → Area → Prop} (law : VulkanLaw state held)
    {arena size alignment count : Nat} {answers : MemoryAnswers} {span : Span}
    (allocated : state.allocateSpan arena size alignment count answers = some (span, next)) :
    SpanGiven state next arena size count span := by
  obtain ⟨value, found, allocated⟩ := Option.bind_eq_some_iff.mp allocated
  obtain ⟨after, performed, same⟩ := Option.map_eq_some_iff.mp allocated
  obtain ⟨rfl, rfl⟩ := Prod.mk.inj same
  have memory := (perform_law law performed).memory
  rw [perform, Option.ite_none_right_eq_some] at performed
  obtain ⟨granted, isGranted, rfl⟩ := Option.map_eq_some_iff.mp performed.2
  obtain ⟨system, -, rfl⟩ := Option.map_eq_some_iff.mp isGranted
  obtain ⟨owner, memoryLaw⟩ := memory
  have grants : state.granted.granted (.allocateSpan arena size alignment count answers) =
      state.granted.grant arena (value.allocateSpanIn (state.granted.system.around value answers)
        size alignment count).result (size * count) alignment := by
    rw [GrantedMemory.granted, found]
  generalize (value.allocateSpanIn (state.granted.system.around value answers) size alignment
    count).result = mem at grants
  rw [grants, GrantedMemory.grant] at memoryLaw
  rw [grants, GrantedMemory.grant]
  split at memoryLaw
  next null =>
    rw [if_pos null, if_pos null]
    exact ⟨rfl, rfl, ⟨owner, memoryLaw⟩, fun _ _ isGranted => isGranted, .inl rfl⟩
  next given =>
    rw [if_neg given, if_neg given]
    have added (other : Nat) (grant : Grant) (member : grant ∈ state.granted.grants other) :
        grant ∈ Function.update state.granted.grants arena
          (⟨⟨mem, size * count⟩, alignment⟩ :: state.granted.grants arena) other := by
      by_cases same : other = arena
      · subst same
        rw [Function.update_self]
        exact List.mem_cons_of_mem _ member
      · rwa [Function.update_of_ne same]
    have isNew : (⟨⟨mem, size * count⟩, alignment⟩ : Grant) ∈
        Function.update state.granted.grants arena
          (⟨⟨mem, size * count⟩, alignment⟩ :: state.granted.grants arena) arena := by
      rw [Function.update_self]
      exact List.mem_cons_self ..
    refine ⟨rfl, rfl, ⟨owner, memoryLaw⟩, ?_, .inr ⟨rfl, ⟨_, isNew, rfl⟩, ?_⟩⟩
    · rintro other area ⟨grant, member, same⟩
      exact ⟨grant, added other grant member, same⟩
    · rintro other area ⟨grant, member, rfl⟩
      by_cases same : other = arena
      · subst same
        have pairwise := memoryLaw.grants_pairwise other
        dsimp only at pairwise
        rw [Function.update_self] at pairwise
        exact ((List.pairwise_cons.mp pairwise).1 grant member).symm
      · exact memoryLaw.grants_apart same (added other grant member) isNew

namespace SpanGiven

variable {held : Nat → Area → Prop} {arena size count : Nat} {span : Span}

/-- What was held is held. -/
theorem law (given : SpanGiven state next arena size count span) (law : VulkanLaw state held) :
    VulkanLaw next held where
  memory := given.memory
  granted other area isHeld := given.granted other area (law.granted other area isHeld)
  records other := by
    rw [given.objects, given.records]
    exact law.records other

/-- A table in the span is empty, or a block that is apart from all others. -/
theorem table (given : SpanGiven state next arena size count span) (fits : count ≤ span.size)
    {table : Area} (isTable : table = ⟨if 0 < count then span.data else 0, count * size⟩) :
    (table = Area.null ∨ next.Granted arena table) ∧
      ∀ other area, state.Granted other area → area.Apart table := by
  by_cases some : 0 < count
  · rw [if_pos some, Nat.mul_comm] at isTable
    rcases given.given with rfl | ⟨-, isGranted, apart⟩
    · exact absurd (Nat.lt_of_lt_of_le some fits) (Nat.lt_irrefl 0)
    · rw [isTable]
      exact ⟨.inr isGranted, apart⟩
  · rw [if_neg some, Nat.eq_zero_of_not_pos some, Nat.zero_mul] at isTable
    rw [isTable]
    exact ⟨.inl rfl, fun _ area _ => (Area.null_apart area).symm⟩

end SpanGiven

/-- A submission was translated in an arena. -/
structure InfoAdded (state next : VulkanMemory) (held : Nat → Area → Prop) (arena : Nat)
    (submission : GpuSubmission) (info : VkSubmitInfo2) : Prop where
  law : VulkanLaw next fun other area =>
    held other area ∨ other = arena ∧ area ∈ info.tables submission ∧ area ≠ Area.null
  granted : ∀ other area, state.Granted other area → next.Granted other area
  apart : ∀ table ∈ info.tables submission, ∀ other area, state.Granted other area →
    area.Apart table
  keeps : Objects.Keeps (info.tables submission) state.objects next.objects
  recorded : (submission, info) ∈ (next.records arena).infos
  records : ∀ entry ∈ (state.records arena).infos, entry ∈ (next.records arena).infos

theorem toVkSubmitInfo2_added {held : Nat → Area → Prop} (law : VulkanLaw state held)
    {arena : Nat} {submission : GpuSubmission} {answers : SubmitAnswers} {info : VkSubmitInfo2}
    (translated : state.toVkSubmitInfo2 arena submission answers = some (info, next)) :
    InfoAdded state next held arena submission info := by
  obtain ⟨⟨outWaits, first⟩, isFirst, translated⟩ := Option.bind_eq_some_iff.mp translated
  obtain ⟨⟨outCmds, second⟩, isSecond, translated⟩ := Option.bind_eq_some_iff.mp translated
  obtain ⟨⟨outSignals, third⟩, isThird, translated⟩ := Option.bind_eq_some_iff.mp translated
  obtain ⟨⟨built, objects⟩, isBuilt, translated⟩ := Option.bind_eq_some_iff.mp translated
  obtain ⟨rfl, rfl⟩ := Prod.mk.inj (Option.some.inj translated)
  have givenWaits := allocateSpan_given law isFirst
  have lawFirst := givenWaits.law law
  have givenCmds := allocateSpan_given lawFirst isSecond
  have lawSecond := givenCmds.law lawFirst
  have givenSignals := allocateSpan_given lawSecond isThird
  have lawThird := givenSignals.law lawSecond
  obtain ⟨⟨waitsFit, cmdsFit, signalsFit⟩, isTables⟩ :=
    GpuSubmission.toVkSubmitInfo2_tables isBuilt
  obtain ⟨waits, waitsApart⟩ := givenWaits.table waitsFit rfl
  obtain ⟨cmds, cmdsApart⟩ := givenCmds.table cmdsFit rfl
  obtain ⟨signals, signalsApart⟩ := givenSignals.table signalsFit rfl
  generalize (⟨if 0 < submission.totalWaits then outWaits.data else 0,
    submission.totalWaits * semaphoreInfoSize⟩ : Area) = waitTable at *
  generalize (⟨if 0 < submission.totalCmds then outCmds.data else 0,
    submission.totalCmds * commandInfoSize⟩ : Area) = cmdTable at *
  generalize (⟨if 0 < submission.totalSignals then outSignals.data else 0,
    submission.totalSignals * semaphoreInfoSize⟩ : Area) = signalTable at *
  have apart : (built.tables submission).Pairwise Area.Apart := by
    rw [isTables]
    refine GpuSubmission.pairwise_three ?_ ?_ ?_
    · rcases waits with rfl | isGranted
      · exact Area.null_apart _
      · exact cmdsApart _ _ isGranted
    · rcases waits with rfl | isGranted
      · exact Area.null_apart _
      · exact signalsApart _ _ (givenCmds.granted _ _ isGranted)
    · rcases cmds with rfl | isGranted
      · exact Area.null_apart _
      · exact signalsApart _ _ isGranted
  obtain ⟨counts, isRead, keeps⟩ := GpuSubmission.toVkSubmitInfo2_read isBuilt apart
  have granted (other : Nat) (area : Area) (isGranted : state.Granted other area) :
      third.Granted other area :=
    givenSignals.granted _ _ (givenCmds.granted _ _ (givenWaits.granted _ _ isGranted))
  have tableGranted : ∀ table ∈ built.tables submission,
      table = Area.null ∨ third.Granted arena table := by
    rw [isTables]
    refine List.forall_mem_cons.mpr ⟨waits.imp id fun isGranted => ?_,
      List.forall_mem_cons.mpr ⟨cmds.imp id (givenSignals.granted _ _),
        List.forall_mem_cons.mpr ⟨signals, fun _ member => absurd member List.not_mem_nil⟩⟩⟩
    exact givenSignals.granted _ _ (givenCmds.granted _ _ isGranted)
  have away : ∀ table ∈ built.tables submission, ∀ other area, state.Granted other area →
      area.Apart table := by
    rw [isTables]
    refine List.forall_mem_cons.mpr ⟨waitsApart, List.forall_mem_cons.mpr ⟨?_,
      List.forall_mem_cons.mpr ⟨?_, fun _ member => absurd member List.not_mem_nil⟩⟩⟩
    · exact fun other area isGranted => cmdsApart _ _ (givenWaits.granted _ _ isGranted)
    · exact fun other area isGranted =>
        signalsApart _ _ (givenCmds.granted _ _ (givenWaits.granted _ _ isGranted))
  have sameObjects : third.objects = state.objects :=
    givenSignals.objects.trans (givenCmds.objects.trans givenWaits.objects)
  have sameRecords : third.records = state.records :=
    givenSignals.records.trans (givenCmds.records.trans givenWaits.records)
  have others (other : Nat) : RecordsLaw objects
      (fun area => held other area ∨ other = arena ∧ area ∈ built.tables submission ∧
        area ≠ Area.null) (third.records other) :=
    ((lawThird.records other).keeps keeps fun outer isHeld table isTable =>
      away table isTable other outer (law.granted other outer isHeld)).mono fun _ => .inl
  refine ⟨⟨lawThird.memory, ?_, ?_⟩, granted, away, sameObjects ▸ keeps, ?_, ?_⟩
  · rintro other area (isHeld | ⟨rfl, isTable, some⟩)
    · exact lawThird.granted other area isHeld
    · exact (tableGranted area isTable).resolve_left some
  · intro other
    by_cases same : other = arena
    · subst same
      show RecordsLaw objects _ (Function.update third.records other _ other)
      rw [Function.update_self]
      refine (others other).recordInfo ⟨counts, fun table isTable => ?_, isRead⟩
      exact (em _).imp id fun some => .inr ⟨rfl, isTable, some⟩
    · show RecordsLaw objects _ (Function.update third.records arena _ other)
      rw [Function.update_of_ne same]
      exact others other
  · show _ ∈ (Function.update third.records arena _ arena).infos
    rw [Function.update_self]
    exact List.mem_cons_self ..
  · intro entry member
    show _ ∈ (Function.update third.records arena _ arena).infos
    rw [Function.update_self]
    exact List.mem_cons_of_mem _ (sameRecords ▸ member)

/-- An object is constructed apart from what is held. -/
theorem write_law {held : Nat → Area → Prop} (law : VulkanLaw state held) {address : Nat}
    {value : VkObject}
    (apart : ∀ other area, held other area → area.Apart (Objects.place address value)) :
    VulkanLaw (state.write address value) held where
  memory := law.memory
  granted := law.granted
  records other :=
    (law.records other).keeps (Objects.write_keeps state.objects address value)
      fun outer isHeld => (apart other outer isHeld).singleton

/-- Some submissions of a batch were translated. -/
structure BatchAdded (state next : VulkanMemory) (held : Nat → Area → Prop) (arena : Nat)
    (outer : Area) (out index : Nat) (submissions : List (GpuSubmission × SubmitAnswers)) :
    Prop where
  law : VulkanLaw next held
  apart : ∀ other area, held other area → area.Apart outer
  granted : ∀ other area, state.Granted other area → next.Granted other area
  records : ∀ entry ∈ (state.records arena).infos, entry ∈ (next.records arena).infos
  /-- What is in the array in front of them stays. -/
  keeps : ∀ address value, state.objects address = some value →
    (Objects.place address value).Within outer →
    (Objects.place address value).Apart (Objects.row out submitInfoSize index submissions.length) →
    next.objects address = some value
  found : ∃ entries, next.objects.readEach VkObject.submit? out submitInfoSize index
      submissions.length = some entries ∧
    List.Forall₂ (fun submission info => (submission.1, info) ∈ (next.records arena).infos)
      submissions entries

theorem toVkSubmitInfo2Each_added {held : Nat → Area → Prop} (law : VulkanLaw state held)
    {arena out index : Nat} {outer : Area} {submissions : List (GpuSubmission × SubmitAnswers)}
    (isOuter : state.Granted arena outer)
    (within : (Objects.row out submitInfoSize index submissions.length).Within outer)
    (apart : ∀ other area, held other area → area.Apart outer)
    (translated : toVkSubmitInfo2Each arena out submissions index state = some next) :
    ∃ more, BatchAdded state next more arena outer out index submissions := by
  induction submissions generalizing state index held with
  | nil =>
      obtain rfl := Option.some.inj translated
      exact ⟨held, law, apart, fun _ _ isGranted => isGranted, fun _ member => member,
        fun _ _ found _ _ => found, [], rfl, .nil⟩
  | cons submission submissions ih =>
      obtain ⟨⟨info, middle⟩, isMiddle, translated⟩ := Option.bind_eq_some_iff.mp translated
      have added := toVkSubmitInfo2_added law isMiddle
      have sized : Sized.bytes (VkObject.submit info) = submitInfoSize := rfl
      have isFirst : Objects.place (out + index * submitInfoSize) (VkObject.submit info) =
          Objects.row out submitInfoSize index 1 := Objects.place_eq_row sized out index
      have inOuter := (Objects.row_first out submitInfoSize index submissions.length).trans within
      have moreApart : ∀ other area, (held other area ∨
          other = arena ∧ area ∈ info.tables submission.1 ∧ area ≠ Area.null) →
          area.Apart outer := by
        rintro other area (isHeld | ⟨rfl, isTable, -⟩)
        · exact apart other area isHeld
        · exact (added.apart area isTable other outer isOuter).symm
      have written : VulkanLaw (middle.write (out + index * submitInfoSize) (.submit info)) _ :=
        write_law added.law fun other area isHeld => by
          rw [isFirst]
          exact (moreApart other area isHeld).within (.refl _) inOuter
      obtain ⟨more, rest⟩ := ih written (added.granted _ _ isOuter)
        ((Objects.row_rest ..).trans within) moreApart translated
      have first : next.objects (out + index * submitInfoSize) = some (.submit info) := by
        refine rest.keeps _ _ (Objects.write_self ..) ?_ ?_
        · rw [isFirst]
          exact inOuter
        · rw [isFirst]
          exact Objects.row_apart ..
      obtain ⟨entries, isRead, areRecorded⟩ := rest.found
      refine ⟨more, rest.law, rest.apart, ?_, ?_, ?_, info :: entries, ?_, ?_⟩
      · exact fun other area isGranted => rest.granted _ _ (added.granted _ _ isGranted)
      · exact fun entry member => rest.records _ (added.records entry member)
      · intro address value found inside away
        refine rest.keeps _ _ ?_ inside (away.within (.refl _) (Objects.row_rest ..))
        refine Objects.write_keeps middle.objects _ _ _ _ ?_ ?_
        · refine added.keeps _ _ found fun table isTable => ?_
          exact (added.apart table isTable arena outer isOuter).within inside (.refl _)
        · rw [isFirst]
          exact (away.within (.refl _) (Objects.row_first ..)).singleton
      · rw [List.length_cons, Objects.readEach, first, Option.bind_some, VkObject.submit?,
          Option.bind_some, isRead]
        rfl
      · exact .cons (rest.records _ added.recorded) areRecorded

/-- A batch was translated in an arena. -/
theorem toVkSubmitInfo2Batch_law {held : Nat → Area → Prop} (law : VulkanLaw state held)
    {arena : Nat} {submissions : List (GpuSubmission × SubmitAnswers)} {answers : MemoryAnswers}
    {span : Span}
    (translated : state.toVkSubmitInfo2Batch arena submissions answers = some (span, next)) :
    VulkanLaw next next.Granted := by
  rw [toVkSubmitInfo2Batch] at translated
  split at translated
  next =>
    obtain ⟨-, rfl⟩ := Prod.mk.inj (Option.some.inj translated)
    exact law.all
  next some =>
    obtain ⟨⟨outSubmits, middle⟩, isMiddle, translated⟩ := Option.bind_eq_some_iff.mp translated
    have given := allocateSpan_given law isMiddle
    dsimp only at translated
    split at translated
    next =>
      obtain ⟨-, rfl⟩ := Prod.mk.inj (Option.some.inj translated)
      exact (given.law law).all
    next some =>
      obtain ⟨⟨count, last⟩, isLast, translated⟩ := Option.bind_eq_some_iff.mp translated
      obtain ⟨rfl, rfl⟩ := Prod.mk.inj (Option.some.inj translated)
      rcases given.given with rfl | ⟨isSize, isOuter, apart⟩
      · exact absurd rfl some
      rw [Nat.mul_comm] at isOuter apart
      obtain ⟨final, isFinal, same⟩ := Option.map_eq_some_iff.mp isLast
      obtain ⟨-, rfl⟩ := Prod.mk.inj same
      rw [isSize, Nat.min_self, List.take_length] at isFinal
      have row : Objects.row outSubmits.data submitInfoSize 0 submissions.length =
          ⟨outSubmits.data, submissions.length * submitInfoSize⟩ := by
        rw [Objects.row, Nat.zero_mul, Nat.add_zero]
      obtain ⟨more, added⟩ := toVkSubmitInfo2Each_added (given.law law) isOuter
        (row ▸ Area.Within.refl _)
        (fun other area isHeld => apart other area (law.granted other area isHeld)) isFinal
      obtain ⟨entries, isRead, areRecorded⟩ := added.found
      have all := added.law.all
      refine ⟨all.memory, all.granted, fun other => ?_⟩
      by_cases same : other = arena
      · subst same
        show RecordsLaw _ _ (Function.update final.records other _ other)
        rw [Function.update_self]
        refine (all.records other).recordBatch ⟨?_, entries, ?_, ?_⟩
        · rw [List.length_map]
          exact added.granted _ _ isOuter
        · rw [List.length_map]
          exact isRead
        · exact List.forall₂_map_left_iff.mpr areRecorded
      · show RecordsLaw _ _ (Function.update final.records arena _ other)
        rw [Function.update_of_ne same]
        exact all.records other

end VulkanMemory

theorem vulkanLaw_of_reachable {state : VulkanMemory} (reachable : vulkanMemory.Reachable state) :
    VulkanLaw state state.Granted := by
  refine reachable.invariant (motive := fun state => VulkanLaw state state.Granted) ?_ ?_
  · rintro state ⟨next, rfl⟩
    refine ⟨memoryLaw_of_reachable (.start ⟨next, rfl⟩), fun _ _ isGranted => isGranted, ?_⟩
    exact fun _ => recordsLaw_empty
  · rintro state call next law - stepped
    cases call with
    | memory call => exact VulkanMemory.perform_law law stepped
    | translate arena submission answers =>
        obtain ⟨⟨info, after⟩, translated, rfl⟩ := Option.map_eq_some_iff.mp stepped
        exact (VulkanMemory.toVkSubmitInfo2_added law translated).law.all
    | translateBatch arena submissions answers =>
        obtain ⟨⟨span, after⟩, translated, rfl⟩ := Option.map_eq_some_iff.mp stepped
        exact VulkanMemory.toVkSubmitInfo2Batch_law law translated

/-- What was translated in arenas can be read by a queue. -/
structure SubmitsStand (state : VulkanMemory) : Prop where
  infos : ∀ arena submission info, (submission, info) ∈ (state.records arena).infos →
    info.read state.objects = some submission.work.counted
  batches : ∀ arena, ∀ batch ∈ (state.records arena).batches,
    readSubmits state.objects batch.out batch.submissions.length =
      some (batch.submissions.map fun submission => submission.work.counted)
  blocks : ∀ arena submission info, (submission, info) ∈ (state.records arena).infos →
    ∀ table ∈ info.tables submission, table = Area.null ∨ state.Granted arena table

/-- In every run, what was translated in an arena since it was reset can be read as the submission
says, whatever was translated or allocated since. -/
theorem submits_stand {state : VulkanMemory} (reachable : vulkanMemory.Reachable state) :
    SubmitsStand state := by
  have law := vulkanLaw_of_reachable reachable
  constructor
  case infos =>
    intro arena submission info member
    exact ((law.records arena).infos submission info member).read
  case batches =>
    intro arena batch member
    obtain ⟨-, entries, isRead, areRecorded⟩ := (law.records arena).batches batch member
    refine Objects.readEach_bind isRead (List.forall₂_map_right_iff.mpr (areRecorded.imp ?_).flip)
    exact fun submission info isEntry =>
      ((law.records arena).infos submission info isEntry).read
  case blocks =>
    intro arena submission info member
    exact ((law.records arena).infos submission info member).tables

/-- One submission and a batch of two in one arena, which is then moved, and one in another. -/
theorem submits_stand_batch : ∃ state,
    (state.records 2).infos.length = 3 ∧ (state.records 2).batches.length = 1 ∧
      SubmitsStand state := by
  have fresh : vulkanMemory.Reachable { granted := { system := { next := fun _ => none } } } :=
    .start ⟨_, rfl⟩
  let point : TimelineSyncPoint := { handle := 999, value := 5 }
  let first : GpuSubmission :=
    { commandBuffers := [4096]
      waits := [{ syncPoint := point, stage := GpuStage.vertexShader }]
      signals := [{ syncPoint := point, stage := GpuStage.fragmentShader }] }
  let second : GpuSubmission := { queue := .transfer, waitSyncPoints := [point, point] }
  obtain ⟨state, reachable, happened⟩ : ∃ state, vulkanMemory.Reachable state ∧
      (state.records 2).infos.length = 3 ∧ (state.records 2).batches.length = 1 :=
    fresh.exists_of_run
      [.memory (.constructPool { alloc := some 1, free := some 2 } 1 1 true
          { memory := some 65536 }),
        .memory (.constructArena 0), .translate 0 first {}, .memory (.constructArena 0),
        .translate 1 second { waits := { memory := some 131072 } },
        .translateBatch 0 [(first, {}), (second, {})] {}, .memory (.moveArena 0),
        .memory (.allocate 2 100 8 {}), .memory (.reset 1)]
      (by decide +kernel)
  exact ⟨state, happened.1, happened.2, submits_stand reachable⟩

end LightFlow
