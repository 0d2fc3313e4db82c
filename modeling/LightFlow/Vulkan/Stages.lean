import LightFlow.Lib.Flags

/-!
# Pipeline stages

A mask of stages of the library and the mask of stages of Vulkan that it is translated to.
-/

namespace LightFlow

/-- A mask of `GpuStage` flags. -/
abbrev GpuStage := BitVec 64

namespace GpuStage

def none : GpuStage := 0
def topOfPipe : GpuStage := 1 <<< 0
def drawIndirect : GpuStage := 1 <<< 1
def vertexInput : GpuStage := 1 <<< 2
def vertexShader : GpuStage := 1 <<< 3
def tessellationControl : GpuStage := 1 <<< 4
def tessellationEval : GpuStage := 1 <<< 5
def geometryShader : GpuStage := 1 <<< 6
def fragmentShader : GpuStage := 1 <<< 7
def earlyFragmentTests : GpuStage := 1 <<< 8
def lateFragmentTests : GpuStage := 1 <<< 9
def colorAttachmentOutput : GpuStage := 1 <<< 10
def computeShader : GpuStage := 1 <<< 11
def transfer : GpuStage := 1 <<< 12
def bottomOfPipe : GpuStage := 1 <<< 13
def host : GpuStage := 1 <<< 14
def allGraphics : GpuStage := 1 <<< 15
def allCommands : GpuStage := 1 <<< 16
def copy : GpuStage := 1 <<< 17
def resolve : GpuStage := 1 <<< 18
def blit : GpuStage := 1 <<< 19
def clear : GpuStage := 1 <<< 20
def indexInput : GpuStage := 1 <<< 21
def vertexAttributeInput : GpuStage := 1 <<< 22
def preRasterizationShaders : GpuStage := 1 <<< 23

end GpuStage

/-- A mask of `VK_PIPELINE_STAGE_2` bits. -/
abbrev VkPipelineStageFlags2 := BitVec 64

namespace VkPipelineStageFlags2

def topOfPipe : VkPipelineStageFlags2 := 0x00000001
def drawIndirect : VkPipelineStageFlags2 := 0x00000002
def vertexInput : VkPipelineStageFlags2 := 0x00000004
def vertexShader : VkPipelineStageFlags2 := 0x00000008
def tessellationControlShader : VkPipelineStageFlags2 := 0x00000010
def tessellationEvaluationShader : VkPipelineStageFlags2 := 0x00000020
def geometryShader : VkPipelineStageFlags2 := 0x00000040
def fragmentShader : VkPipelineStageFlags2 := 0x00000080
def earlyFragmentTests : VkPipelineStageFlags2 := 0x00000100
def lateFragmentTests : VkPipelineStageFlags2 := 0x00000200
def colorAttachmentOutput : VkPipelineStageFlags2 := 0x00000400
def computeShader : VkPipelineStageFlags2 := 0x00000800
def transfer : VkPipelineStageFlags2 := 0x00001000
def bottomOfPipe : VkPipelineStageFlags2 := 0x00002000
def host : VkPipelineStageFlags2 := 0x00004000
def allGraphics : VkPipelineStageFlags2 := 0x00008000
def allCommands : VkPipelineStageFlags2 := 0x00010000
def copy : VkPipelineStageFlags2 := 0x100000000
def resolve : VkPipelineStageFlags2 := 0x200000000
def blit : VkPipelineStageFlags2 := 0x400000000
def clear : VkPipelineStageFlags2 := 0x800000000
def indexInput : VkPipelineStageFlags2 := 0x1000000000
def vertexAttributeInput : VkPipelineStageFlags2 := 0x2000000000
def preRasterizationShaders : VkPipelineStageFlags2 := 0x4000000000

end VkPipelineStageFlags2

def hasStage (mask flag : GpuStage) : Bool := mask &&& flag ≠ 0

open VkPipelineStageFlags2 in
/-- The stages in the order of `toVkPipelineStageFlags2`. -/
def stageFlags : List (GpuStage × VkPipelineStageFlags2) :=
  [(.topOfPipe, topOfPipe), (.drawIndirect, drawIndirect), (.vertexInput, vertexInput),
    (.vertexShader, vertexShader), (.tessellationControl, tessellationControlShader),
    (.tessellationEval, tessellationEvaluationShader), (.geometryShader, geometryShader),
    (.fragmentShader, fragmentShader), (.earlyFragmentTests, earlyFragmentTests),
    (.lateFragmentTests, lateFragmentTests), (.colorAttachmentOutput, colorAttachmentOutput),
    (.computeShader, computeShader), (.transfer, transfer), (.bottomOfPipe, bottomOfPipe),
    (.host, host), (.allGraphics, allGraphics), (.allCommands, allCommands), (.copy, copy),
    (.resolve, resolve), (.blit, blit), (.clear, clear), (.indexInput, indexInput),
    (.vertexAttributeInput, vertexAttributeInput),
    (.preRasterizationShaders, preRasterizationShaders)]

def toVkPipelineStageFlags2 (stage : GpuStage) : VkPipelineStageFlags2 :=
  stageFlags.foldl
    (fun flags entry => if hasStage stage entry.1 then flags ||| entry.2 else flags) 0#64

/-! ## What is translated -/

/-- All stages that have a name. -/
def GpuStage.known : GpuStage := 0xFFFFFF

/-- The bits of the stages, and those that they go to. -/
def stageBits : List (Nat × Nat) :=
  (List.range 17).map (fun bit => (bit, bit)) ++ (List.range 7).map fun bit => (bit + 17, bit + 32)

theorem stageFlags_eq : stageFlags = flagTable 64 64 stageBits := by decide

theorem toVkPipelineStageFlags2_eq (stage : GpuStage) :
    toVkPipelineStageFlags2 stage = translateFlags stageFlags stage 0#64 := by
  simp only [toVkPipelineStageFlags2, translateFlags, hasStage, decide_eq_true_eq]

/-- The first 17 stages keep their bit, the other 7 move up by 15. -/
theorem getLsbD_toVkPipelineStageFlags2 (stage : GpuStage) (place : Nat) :
    (toVkPipelineStageFlags2 stage).getLsbD place = true ↔
      place < 17 ∧ stage.getLsbD place = true ∨
        32 ≤ place ∧ place < 39 ∧ stage.getLsbD (place - 15) = true := by
  rw [toVkPipelineStageFlags2_eq, stageFlags_eq, getLsbD_translateFlags (by decide)]
  simp only [stageBits, BitVec.getLsbD_zero, Bool.false_eq_true, false_or, List.mem_append,
    List.mem_map, List.mem_range]
  constructor
  · rintro ⟨inWord, bit, ⟨low, isLow, rfl⟩ | ⟨high, isHigh, rfl⟩, rfl, has⟩
    · exact .inl ⟨isLow, has⟩
    · exact .inr ⟨by omega, by omega, has⟩
  · rintro (⟨isLow, has⟩ | ⟨above, isHigh, has⟩)
    · exact ⟨by omega, _, .inl ⟨place, isLow, rfl⟩, rfl, has⟩
    · refine ⟨by omega, _, .inr ⟨place - 32, by omega, rfl⟩, by omega, ?_⟩
      rwa [show place - 32 + 17 = place - 15 by omega]

/-- The translation moves the two groups of bits. -/
theorem toVkPipelineStageFlags2_eq_shift (stage : GpuStage) :
    toVkPipelineStageFlags2 stage = stage &&& 0x1FFFF#64 ||| (stage &&& 0xFE0000#64) <<< 15 := by
  have bits : ∀ place < 64, (0x1FFFF#64).getLsbD place = decide (place < 17) ∧
      (0xFE0000#64).getLsbD place = decide (17 ≤ place ∧ place < 24) := by decide
  refine BitVec.eq_of_getLsbD_eq fun place inWord => ?_
  rw [Bool.eq_iff_iff, getLsbD_toVkPipelineStageFlags2, BitVec.getLsbD_or, BitVec.getLsbD_and,
    BitVec.getLsbD_shiftLeft, BitVec.getLsbD_and, (bits place inWord).1,
    (bits (place - 15) (by omega)).2]
  simp only [Bool.or_eq_true, Bool.and_eq_true, decide_eq_true_eq, Bool.not_eq_true',
    decide_eq_false_iff_not]
  grind

/-- A named stage is in a mask when its bit is in the translation. -/
theorem getLsbD_known (stage : GpuStage) {place : Nat} (isKnown : place < 24) :
    stage.getLsbD place =
      (toVkPipelineStageFlags2 stage).getLsbD (if place < 17 then place else place + 15) := by
  rw [Bool.eq_iff_iff, getLsbD_toVkPipelineStageFlags2]
  split
  next low => grind
  next high => grind

theorem getLsbD_and_known (stage : GpuStage) (place : Nat) :
    (stage &&& GpuStage.known).getLsbD place = true ↔
      place < 24 ∧ stage.getLsbD place = true := by
  have known : ∀ place < 64, GpuStage.known.getLsbD place = decide (place < 24) := by decide
  rw [BitVec.getLsbD_and, Bool.and_eq_true, and_comm]
  by_cases inWord : place < 64
  · rw [known place inWord, decide_eq_true_eq]
  · rw [BitVec.getLsbD_of_ge stage place (Nat.le_of_not_lt inWord)]
    simp

/-- Masks have the same translation when they have the same named stages. -/
theorem toVkPipelineStageFlags2_inj (stage other : GpuStage) :
    toVkPipelineStageFlags2 stage = toVkPipelineStageFlags2 other ↔
      stage &&& GpuStage.known = other &&& GpuStage.known := by
  constructor
  · intro same
    refine BitVec.eq_of_getLsbD_eq fun place _ => ?_
    rw [Bool.eq_iff_iff, getLsbD_and_known, getLsbD_and_known]
    refine and_congr_right fun isKnown => ?_
    rw [getLsbD_known stage isKnown, getLsbD_known other isKnown, same]
  · intro same
    have kept (place : Nat) (isKnown : place < 24) :
        stage.getLsbD place = true ↔ other.getLsbD place = true := by
      have bit := congrArg (BitVec.getLsbD · place = true) same
      simp only [getLsbD_and_known, isKnown, true_and, eq_iff_iff] at bit
      exact bit
    refine BitVec.eq_of_getLsbD_eq fun place _ => ?_
    rw [Bool.eq_iff_iff, getLsbD_toVkPipelineStageFlags2, getLsbD_toVkPipelineStageFlags2]
    refine or_congr (and_congr_right fun low => kept place (by omega)) ?_
    refine and_congr_right fun above => and_congr_right fun high => kept _ (by omega)

/-- Unions, intersections and complements of stages are those of their translations, and masks with
one translation have the same named stages. -/
theorem stages_translated (stage other : GpuStage) :
    toVkPipelineStageFlags2 (stage ||| other) =
        toVkPipelineStageFlags2 stage ||| toVkPipelineStageFlags2 other ∧
      toVkPipelineStageFlags2 (stage &&& other) =
        toVkPipelineStageFlags2 stage &&& toVkPipelineStageFlags2 other ∧
      toVkPipelineStageFlags2 (~~~stage) =
        toVkPipelineStageFlags2 GpuStage.known &&& ~~~toVkPipelineStageFlags2 stage ∧
      (toVkPipelineStageFlags2 stage = toVkPipelineStageFlags2 other ↔
        stage &&& GpuStage.known = other &&& GpuStage.known) := by
  refine ⟨?_, ?_, ?_, toVkPipelineStageFlags2_inj stage other⟩
  · refine BitVec.eq_of_getLsbD_eq fun place _ => ?_
    rw [Bool.eq_iff_iff, BitVec.getLsbD_or]
    simp only [BitVec.getLsbD_or, Bool.or_eq_true, getLsbD_toVkPipelineStageFlags2]
    grind
  · refine BitVec.eq_of_getLsbD_eq fun place _ => ?_
    rw [Bool.eq_iff_iff, BitVec.getLsbD_and]
    simp only [BitVec.getLsbD_and, Bool.and_eq_true, getLsbD_toVkPipelineStageFlags2]
    grind
  · have known : ∀ place < 64, (toVkPipelineStageFlags2 GpuStage.known).getLsbD place =
        decide (place < 17 ∨ 32 ≤ place ∧ place < 39) := by decide
    refine BitVec.eq_of_getLsbD_eq fun place inWord => ?_
    have complement (bit : Nat) (isBit : bit < 64) :
        (~~~stage).getLsbD bit = true ↔ ¬ stage.getLsbD bit = true := by
      rw [BitVec.getLsbD_not, decide_eq_true isBit, Bool.true_and, Bool.not_eq_true']
      exact Bool.not_eq_true _ ▸ Iff.rfl
    rw [Bool.eq_iff_iff, BitVec.getLsbD_and, known place inWord, BitVec.getLsbD_not,
      getLsbD_toVkPipelineStageFlags2]
    simp only [Bool.and_eq_true, decide_eq_true_eq, Bool.not_eq_true', ← Bool.not_eq_true,
      getLsbD_toVkPipelineStageFlags2, inWord, true_and]
    grind

end LightFlow
