/-
# The options of a performance comparison, as one mask

`gpu/nb_command_processor.cpp`: `CurrentPerfOptions` (lines 349-402),
`ApplyPerfOptions` (lines 403-452) and their use at setup (line 502) and after a
frame (lines 1152-1154); `runtime/watch_control.cpp`: `SetWatchFastpathMode`.

A comparison runs windows of frames under different options, each window a mask
whose bits switch optimisations.  The options the run started with are kept as a
mask too, `perf_default_options_`, and applied in every frame that no window
owns.  Most options are switches with a bit each, and the placement mode has
three.  The spin time of a blocked wait and the size of a replay chunk are
numbers with one bit and two, which stand for 5000 microseconds and for 1024 and
2048 draws.

`applyPerfOptions_current`: what the start mask brings back.
-/

import BoltsRebuilt.Lib.Bits
import Mathlib.Data.List.Nodup
import Mathlib.Tactic.IntervalCases

namespace BoltsRebuilt
namespace PerfOptions

open Bits

/-- The boolean options, in the order of `CurrentPerfOptions`. -/
inductive Flag
  | nativeDeferGuestPipeline | rangeBatchOptimize | nativeEffectiveSamplers | nativeStaticBindings
  | nativeSkipGuestPipeline | nativeConstantReuse | nativeRegisterFastpath | nativeGpuPcores
  | nativeHardwareIndices | shaderLoadMemo | nativeMinimalDiagnostics | nativeUploadShadow
  | nativeTextureBindingCache | nativePairLookupMemo | nativeMinimalCommandDiagnostics
  | nativePreciseWait | nativeTextureDescriptorMemo | nativeTranslationLookupMemo
  | nativeStageVertexConstants | nativeDoublePixelPackets | nativeDeferredStorage | nativeRootCbv
  | rangeSingleFastpath | nativePixelBindingCache | nativeEarlyWaitPoll | nativeDirectGuestReads
  | nativeNarrowInvalidation | nativeVertexConstantReuse | nativePipelineKeyNormalize
  | nativeSharedResidencyMirror | nativeEmptyConstantLayout | nativeConstantBindingPacket
  | nativeConstantGpuUpload | nativeAvx2ShaderHash | nativeAsyncReplay | nativeUnusedPixelConstants
  | nativeTextureOutdatedLoadFirst | nativeAlphaTestVariant | rtOwnershipFastpath
  deriving DecidableEq

/-- The bit that `CurrentPerfOptions` sets for an option. -/
def currentMask : Flag → BitVec 64
  | .nativeDeferGuestPipeline => 1
  | .rangeBatchOptimize => 2
  | .nativeEffectiveSamplers => 4
  | .nativeStaticBindings => 8
  | .nativeSkipGuestPipeline => 16
  | .nativeConstantReuse => 32
  | .nativeRegisterFastpath => 64
  | .nativeGpuPcores => 128
  | .nativeHardwareIndices => 256
  | .shaderLoadMemo => 512
  | .nativeMinimalDiagnostics => 1024
  | .nativeUploadShadow => 2048
  | .nativeTextureBindingCache => 4096
  | .nativePairLookupMemo => 8192
  | .nativeMinimalCommandDiagnostics => 16384
  | .nativePreciseWait => 32768
  | .nativeTextureDescriptorMemo => 65536
  | .nativeTranslationLookupMemo => 131072
  | .nativeStageVertexConstants => 262144
  | .nativeDoublePixelPackets => 524288
  | .nativeDeferredStorage => 1048576
  | .nativeRootCbv => 8388608
  | .rangeSingleFastpath => 16777216
  | .nativePixelBindingCache => 33554432
  | .nativeEarlyWaitPoll => 134217728
  | .nativeDirectGuestReads => 268435456
  | .nativeNarrowInvalidation => 536870912
  | .nativeVertexConstantReuse => 1073741824
  | .nativePipelineKeyNormalize => 2147483648
  | .nativeSharedResidencyMirror => 4294967296
  | .nativeEmptyConstantLayout => 8589934592
  | .nativeConstantBindingPacket => 17179869184
  | .nativeConstantGpuUpload => 34359738368
  | .nativeAvx2ShaderHash => 274877906944
  | .nativeAsyncReplay => 549755813888
  | .nativeUnusedPixelConstants => 4398046511104
  | .nativeTextureOutdatedLoadFirst => 8796093022208
  | .nativeAlphaTestVariant => 35184372088832
  | .rtOwnershipFastpath => 70368744177664

/-- The bit that `ApplyPerfOptions` tests for an option. -/
def applyMask : Flag → BitVec 64
  | .nativeDeferGuestPipeline => 1
  | .rangeBatchOptimize => 2
  | .nativeEffectiveSamplers => 4
  | .nativeStaticBindings => 8
  | .nativeSkipGuestPipeline => 16
  | .nativeConstantReuse => 32
  | .nativeRegisterFastpath => 64
  | .nativeGpuPcores => 128
  | .nativeHardwareIndices => 256
  | .shaderLoadMemo => 512
  | .nativeMinimalDiagnostics => 1024
  | .nativeUploadShadow => 2048
  | .nativeTextureBindingCache => 4096
  | .nativePairLookupMemo => 8192
  | .nativeMinimalCommandDiagnostics => 16384
  | .nativePreciseWait => 32768
  | .nativeTextureDescriptorMemo => 65536
  | .nativeTranslationLookupMemo => 131072
  | .nativeStageVertexConstants => 262144
  | .nativeDoublePixelPackets => 524288
  | .nativeDeferredStorage => 1048576
  | .nativeRootCbv => 8388608
  | .rangeSingleFastpath => 16777216
  | .nativePixelBindingCache => 33554432
  | .nativeEarlyWaitPoll => 134217728
  | .nativeDirectGuestReads => 268435456
  | .nativeNarrowInvalidation => 536870912
  | .nativeVertexConstantReuse => 1073741824
  | .nativePipelineKeyNormalize => 2147483648
  | .nativeSharedResidencyMirror => 4294967296
  | .nativeEmptyConstantLayout => 8589934592
  | .nativeConstantBindingPacket => 17179869184
  | .nativeConstantGpuUpload => 34359738368
  | .nativeAvx2ShaderHash => 274877906944
  | .nativeAsyncReplay => 549755813888
  | .nativeUnusedPixelConstants => 4398046511104
  | .nativeTextureOutdatedLoadFirst => 8796093022208
  | .nativeAlphaTestVariant => 35184372088832
  | .rtOwnershipFastpath => 70368744177664

/-- Every boolean option. -/
def flags : List Flag :=
  [.nativeDeferGuestPipeline, .rangeBatchOptimize, .nativeEffectiveSamplers, .nativeStaticBindings,
    .nativeSkipGuestPipeline, .nativeConstantReuse, .nativeRegisterFastpath, .nativeGpuPcores,
    .nativeHardwareIndices, .shaderLoadMemo, .nativeMinimalDiagnostics, .nativeUploadShadow,
    .nativeTextureBindingCache, .nativePairLookupMemo, .nativeMinimalCommandDiagnostics,
    .nativePreciseWait, .nativeTextureDescriptorMemo, .nativeTranslationLookupMemo,
    .nativeStageVertexConstants, .nativeDoublePixelPackets, .nativeDeferredStorage, .nativeRootCbv,
    .rangeSingleFastpath, .nativePixelBindingCache, .nativeEarlyWaitPoll, .nativeDirectGuestReads,
    .nativeNarrowInvalidation, .nativeVertexConstantReuse, .nativePipelineKeyNormalize,
    .nativeSharedResidencyMirror, .nativeEmptyConstantLayout, .nativeConstantBindingPacket,
    .nativeConstantGpuUpload, .nativeAvx2ShaderHash, .nativeAsyncReplay,
    .nativeUnusedPixelConstants, .nativeTextureOutdatedLoadFirst, .nativeAlphaTestVariant,
    .rtOwnershipFastpath]

/-- How the program was built: with `NB_HAS_RUNTIME_WATCH_CONTROL`, and on a
runtime with `NB_RUNTIME_WATCH_FASTPATH`. -/
structure Build where
  watchControl : Bool
  watchFastpath : Bool

/-- The options that a mask is about. -/
@[ext] structure Options where
  flag : Flag → Bool
  nativeGpuPlacement : ℤ
  nativeWaitSpinUs : ℤ
  nativeReplayChunkDraws : ℤ
  watchFastpathMode : BitVec 32

/-- `std::clamp(placement, 0, 7)`. -/
def clampPlacement (placement : ℤ) : BitVec 64 := BitVec.ofInt 64 (max 0 (min placement 7))

def flagsWord (flag : Flag → Bool) : BitVec 64 :=
  flags.foldl (fun word f => word ||| if flag f then currentMask f else 0) 0

def placementWord (placement : ℤ) : BitVec 64 :=
  (clampPlacement placement &&& 3) <<< 21 ||| (clampPlacement placement &&& 4) <<< 24

def waitSpinWord (waitSpinUs : ℤ) : BitVec 64 := if 0 < waitSpinUs then 17592186044416 else 0

def replayChunkWord (chunkDraws : ℤ) : BitVec 64 :=
  if 2048 ≤ chunkDraws then 2199023255552 else if 0 < chunkDraws then 1099511627776 else 0

def watchWord (build : Build) (mode : BitVec 32) : BitVec 64 :=
  if build.watchControl then
    (if mode &&& 1 ≠ 0 then 68719476736 else 0) ||| if mode &&& 2 ≠ 0 then 137438953472 else 0
  else 0

/-- `CurrentPerfOptions`. -/
def currentPerfOptions (build : Build) (o : Options) : BitVec 64 :=
  flagsWord o.flag ||| placementWord o.nativeGpuPlacement ||| waitSpinWord o.nativeWaitSpinUs |||
    replayChunkWord o.nativeReplayChunkDraws ||| watchWord build o.watchFastpathMode

/-- What `SetWatchFastpathMode` stores. -/
def storedWatchMode (build : Build) (mode : BitVec 32) : BitVec 32 :=
  if build.watchFastpath then mode &&& (1 ||| 2) else 0

/-- `ApplyPerfOptions`. -/
def applyPerfOptions (build : Build) (options : BitVec 64) (o : Options) : Options where
  flag f := options &&& applyMask f ≠ 0
  nativeGpuPlacement := ((options.sshiftRight 21 &&& 3) ||| (options.sshiftRight 24 &&& 4)).toInt
  nativeWaitSpinUs := if options &&& 17592186044416 ≠ 0 then 5000 else 0
  nativeReplayChunkDraws :=
    if options &&& 2199023255552 ≠ 0 then 2048 else if options &&& 1099511627776 ≠ 0 then 1024 else 0
  watchFastpathMode :=
    if build.watchControl then
      storedWatchMode build ((if options &&& 68719476736 ≠ 0 then 1 else 0) |||
        if options &&& 137438953472 ≠ 0 then 2 else 0)
    else o.watchFastpathMode

/-- What the configuration can hold when the run starts. -/
structure Configured (build : Build) (o : Options) : Prop where
  placement : 0 ≤ o.nativeGpuPlacement ∧ o.nativeGpuPlacement ≤ 7
  waitSpin : 0 ≤ o.nativeWaitSpinUs
  replayChunk : 0 ≤ o.nativeReplayChunkDraws
  watch : ∃ mode, o.watchFastpathMode = storedWatchMode build mode

/-! ### The bits of a mask -/

/-- The bit of an option. -/
def flagBit (f : Flag) : ℕ := (currentMask f).toNat.log2

/-- The bits of the options that are not switches. -/
def numberBits : List ℕ := [21, 22, 26, 36, 37, 40, 41, 44]

/-- The table has every flag. -/
theorem mem_flags (f : Flag) : f ∈ flags := by
  cases f <;> simp [flags]

/-- The table of the switches' bits: one bit to each, below 64, none of them a number's, and no two
the same. -/
theorem flags_table :
    (∀ f ∈ flags, currentMask f = BitVec.twoPow 64 (flagBit f) ∧ flagBit f < 64 ∧
      flagBit f ∉ numberBits) ∧ (flags.map flagBit).Nodup := by
  decide +kernel

/-- The mask a flag is read with is its one bit. -/
theorem currentMask_eq (f : Flag) : currentMask f = BitVec.twoPow 64 (flagBit f) :=
  (flags_table.1 f (mem_flags f)).1

/-- And so is the mask it is applied with. -/
theorem applyMask_eq (f : Flag) : applyMask f = BitVec.twoPow 64 (flagBit f) := by
  rw [← currentMask_eq f]
  cases f <;> rfl

/-- The bit of a flag is one of 64. -/
theorem flagBit_lt (f : Flag) : flagBit f < 64 := (flags_table.1 f (mem_flags f)).2.1

/-- And it is none of the bits that carry numbers. -/
theorem flagBit_notMem (f : Flag) : flagBit f ∉ numberBits := (flags_table.1 f (mem_flags f)).2.2

/-- No two options share a bit, so the mask tells them apart. -/
theorem flagBit_injective {f g : Flag} (h : flagBit f = flagBit g) : f = g :=
  List.inj_on_of_nodup_map flags_table.2 (mem_flags f) (mem_flags g) h

/-- A bit of the word is set when it is that of a flag that is on. -/
theorem getLsbD_flagsWord (flag : Flag → Bool) (i : ℕ) :
    (flagsWord flag).getLsbD i = true ↔ ∃ f, flag f = true ∧ flagBit f = i := by
  have hfold : ∀ (l : List Flag) (word : BitVec 64),
      (l.foldl (fun word f => word ||| if flag f then currentMask f else 0) word).getLsbD i = true ↔
        word.getLsbD i = true ∨ ∃ f ∈ l, flag f = true ∧ flagBit f = i := by
    intro l
    induction l with
    | nil => simp
    | cons f l ih =>
        intro word
        rw [List.foldl_cons, ih, BitVec.getLsbD_or, Bool.or_eq_true, or_assoc, List.exists_mem_cons_iff]
        refine or_congr_right (or_congr_left ?_)
        cases hf : flag f with
        | false => simp
        | true =>
            rw [if_pos rfl, currentMask_eq, getLsbD_twoPow_of_lt (flagBit_lt f), decide_eq_true_eq]
            exact eq_comm.trans (and_iff_right rfl).symm
  rw [flagsWord, hfold]
  simp [mem_flags]

/-- The bits that carry numbers are left free. -/
theorem getLsbD_flagsWord_number (flag : Flag → Bool) {i : ℕ} (hi : i ∈ numberBits) :
    (flagsWord flag).getLsbD i = false := by
  refine Bool.eq_false_iff.2 fun h => ?_
  obtain ⟨f, -, rfl⟩ := (getLsbD_flagsWord flag _).1 h
  exact flagBit_notMem f hi

/-- The placement mode is written in three bits, two together and one apart. -/
theorem getLsbD_placementWord {placement : ℤ} (h : 0 ≤ placement ∧ placement ≤ 7) (i : ℕ) :
    (placementWord placement).getLsbD i = true ↔
      i = 21 ∧ (placement = 1 ∨ placement = 3 ∨ placement = 5 ∨ placement = 7) ∨
      i = 22 ∧ (placement = 2 ∨ placement = 3 ∨ placement = 6 ∨ placement = 7) ∨
      i = 26 ∧ 4 ≤ placement := by
  obtain ⟨hlow, hhigh⟩ := h
  by_cases hi : i < 64
  · have hall : ∀ p : Fin 8, ∀ i : Fin 64, (placementWord (p.val : ℤ)).getLsbD i.val = true ↔
        i.val = 21 ∧ ((p.val : ℤ) = 1 ∨ (p.val : ℤ) = 3 ∨ (p.val : ℤ) = 5 ∨ (p.val : ℤ) = 7) ∨
        i.val = 22 ∧ ((p.val : ℤ) = 2 ∨ (p.val : ℤ) = 3 ∨ (p.val : ℤ) = 6 ∨ (p.val : ℤ) = 7) ∨
        i.val = 26 ∧ 4 ≤ (p.val : ℤ) := by decide +kernel
    have hp := hall ⟨placement.toNat, by omega⟩ ⟨i, hi⟩
    rwa [Int.toNat_of_nonneg hlow] at hp
  · rw [BitVec.getLsbD_of_ge _ _ (not_lt.1 hi)]
    exact iff_of_false Bool.false_ne_true (by omega)

/-- The spin time sets its bit when it is positive. -/
theorem getLsbD_waitSpinWord (waitSpinUs : ℤ) (i : ℕ) :
    (waitSpinWord waitSpinUs).getLsbD i = true ↔ i = 44 ∧ 0 < waitSpinUs := by
  rw [waitSpinWord, show (17592186044416 : BitVec 64) = BitVec.twoPow 64 44 from rfl]
  split
  · rename_i h
    rw [getLsbD_twoPow_of_lt (by decide), decide_eq_true_eq]
    exact (and_iff_left h).symm
  · rename_i h
    exact iff_of_false (fun hz => Bool.false_ne_true (BitVec.getLsbD_zero.symm.trans hz)) fun hi => h hi.2

/-- The chunk size sets one bit below 2048 draws, another from there on, and none when it is zero. -/
theorem getLsbD_replayChunkWord (chunkDraws : ℤ) (i : ℕ) :
    (replayChunkWord chunkDraws).getLsbD i = true ↔
      i = 41 ∧ 2048 ≤ chunkDraws ∨ i = 40 ∧ 0 < chunkDraws ∧ chunkDraws < 2048 := by
  rw [replayChunkWord, show (2199023255552 : BitVec 64) = BitVec.twoPow 64 41 from rfl,
    show (1099511627776 : BitVec 64) = BitVec.twoPow 64 40 from rfl]
  split
  · rw [getLsbD_twoPow_of_lt (by decide), decide_eq_true_eq]
    omega
  · split
    · rw [getLsbD_twoPow_of_lt (by decide), decide_eq_true_eq]
      omega
    · exact iff_of_false (fun hz => Bool.false_ne_true (BitVec.getLsbD_zero.symm.trans hz)) (by omega)

/-- The watch mode sets its two bits where the build has the watch control. -/
theorem getLsbD_watchWord (build : Build) (mode : BitVec 32) (i : ℕ) :
    (watchWord build mode).getLsbD i = true ↔ build.watchControl = true ∧
      (i = 36 ∧ mode.getLsbD 0 = true ∨ i = 37 ∧ mode.getLsbD 1 = true) := by
  have hzero : ∀ {P : Prop}, ¬ P → ((0 : BitVec 64).getLsbD i = true ↔ P) := fun hP =>
    iff_of_false (fun hz => Bool.false_ne_true (BitVec.getLsbD_zero.symm.trans hz)) hP
  have hbit : ∀ (k j : ℕ), k < 64 → j < 32 →
      ((if mode &&& BitVec.twoPow 32 j ≠ 0 then BitVec.twoPow 64 k else 0).getLsbD i = true ↔
        i = k ∧ mode.getLsbD j = true) := by
    intro k j hk hj
    split
    · rename_i h
      rw [getLsbD_twoPow_of_lt hk, decide_eq_true_eq]
      exact (and_iff_left ((and_twoPow_ne_zero hj).1 h)).symm
    · rename_i h
      exact hzero fun hi => h ((and_twoPow_ne_zero hj).2 hi.2)
  rw [watchWord]
  cases build.watchControl with
  | false => exact hzero fun h => Bool.false_ne_true h.1
  | true =>
      rw [if_pos rfl, BitVec.getLsbD_or, Bool.or_eq_true, and_iff_right rfl]
      exact or_congr (hbit 36 0 (by decide) (by decide)) (hbit 37 1 (by decide) (by decide))

/-- The mask of a configuration, bit by bit: a switch, the placement, the watch mode, or one of the
numbers' summaries. -/
theorem getLsbD_currentPerfOptions (build : Build) (o : Options) (i : ℕ) :
    (currentPerfOptions build o).getLsbD i = true ↔
      (flagsWord o.flag).getLsbD i = true ∨ (placementWord o.nativeGpuPlacement).getLsbD i = true ∨
        (waitSpinWord o.nativeWaitSpinUs).getLsbD i = true ∨
        (replayChunkWord o.nativeReplayChunkDraws).getLsbD i = true ∨
        (watchWord build o.watchFastpathMode).getLsbD i = true := by
  rw [currentPerfOptions, BitVec.getLsbD_or, BitVec.getLsbD_or, BitVec.getLsbD_or, BitVec.getLsbD_or]
  simp only [Bool.or_eq_true, or_assoc]

/-! ### What a mask brings back -/

/-- The placement bits as `ApplyPerfOptions` reads them, put together from their two places. -/
theorem placement_read (x : BitVec 64) :
    (x.sshiftRight 21 &&& 3) ||| (x.sshiftRight 24 &&& 4) =
      (if x.getLsbD 21 then 1 else 0) ||| (if x.getLsbD 22 then 2 else 0) |||
        if x.getLsbD 26 then 4 else 0 := by
  have hshift : ∀ k i, k + i < 64 → (x.sshiftRight k).getLsbD i = x.getLsbD (k + i) := by
    intro k i h
    rw [BitVec.getLsbD_sshiftRight, if_pos h, decide_eq_false (by omega), Bool.not_false, Bool.true_and]
  rw [show (3 : BitVec 64) = BitVec.twoPow 64 0 ||| BitVec.twoPow 64 1 by decide,
    show (4 : BitVec 64) = BitVec.twoPow 64 2 by decide, BitVec.and_or_distrib_left, BitVec.and_twoPow,
    BitVec.and_twoPow, BitVec.and_twoPow, hshift 21 0 (by decide), hshift 21 1 (by decide),
    hshift 24 2 (by decide)]
  rfl

variable {build : Build} {o : Options}

/-- A bit that is no option's is a bit of the numbers. -/
theorem getLsbD_current_number (build : Build) (o : Options) {i : ℕ} (hi : i ∈ numberBits) :
    (currentPerfOptions build o).getLsbD i = true ↔
      (placementWord o.nativeGpuPlacement).getLsbD i = true ∨
        i = 44 ∧ 0 < o.nativeWaitSpinUs ∨
        (i = 41 ∧ 2048 ≤ o.nativeReplayChunkDraws ∨
          i = 40 ∧ 0 < o.nativeReplayChunkDraws ∧ o.nativeReplayChunkDraws < 2048) ∨
        build.watchControl = true ∧ (i = 36 ∧ o.watchFastpathMode.getLsbD 0 = true ∨
          i = 37 ∧ o.watchFastpathMode.getLsbD 1 = true) := by
  rw [getLsbD_currentPerfOptions, getLsbD_flagsWord_number o.flag hi, getLsbD_waitSpinWord,
    getLsbD_replayChunkWord, getLsbD_watchWord]
  exact or_iff_right Bool.false_ne_true

/-- The bit of an option in the mask is the option, whatever the numbers are. -/
theorem getLsbD_current_flag (h : Configured build o) (f : Flag) :
    (currentPerfOptions build o).getLsbD (flagBit f) = o.flag f := by
  have hnot := flagBit_notMem f
  simp only [numberBits, List.mem_cons, List.not_mem_nil, or_false, not_or] at hnot
  rw [Bool.eq_iff_iff, getLsbD_currentPerfOptions, getLsbD_flagsWord,
    getLsbD_placementWord h.placement, getLsbD_waitSpinWord, getLsbD_replayChunkWord, getLsbD_watchWord]
  constructor
  · rintro (⟨g, hg, hbit⟩ | hnum)
    · exact flagBit_injective hbit ▸ hg
    · omega
  · exact fun hf => .inl ⟨f, hf, rfl⟩

/-- The placement mode comes back from the mask of a configuration. -/
theorem placement_current (h : Configured build o) :
    (((currentPerfOptions build o).sshiftRight 21 &&& 3) |||
      ((currentPerfOptions build o).sshiftRight 24 &&& 4)).toInt = o.nativeGpuPlacement := by
  have hbit : ∀ i, i ∈ [21, 22, 26] → ((currentPerfOptions build o).getLsbD i = true ↔
      (placementWord o.nativeGpuPlacement).getLsbD i = true) := by
    intro i hi
    have hmem : i ∈ numberBits := by
      simp only [List.mem_cons, List.not_mem_nil, or_false] at hi
      rcases hi with rfl | rfl | rfl <;> decide
    rw [getLsbD_current_number build o hmem]
    refine or_iff_left fun hrest => ?_
    simp only [List.mem_cons, List.not_mem_nil, or_false] at hi
    omega
  have h21 := hbit 21 (by decide)
  have h22 := hbit 22 (by decide)
  have h26 := hbit 26 (by decide)
  rw [getLsbD_placementWord h.placement] at h21 h22 h26
  rw [placement_read]
  obtain ⟨hlow, hhigh⟩ := h.placement
  obtain ⟨p, hp⟩ : ∃ p, o.nativeGpuPlacement = p := ⟨_, rfl⟩
  rw [hp] at h21 h22 h26 hlow hhigh ⊢
  interval_cases p <;> simp at h21 h22 h26 <;> simp [h21, h22, h26]

/-- The two bits of a stored mode are the mode, as far as the build has the control. -/
theorem storedWatchMode_bits (build : Build) (mode : BitVec 32) :
    storedWatchMode build ((if (storedWatchMode build mode).getLsbD 0 then 1 else 0) |||
      if (storedWatchMode build mode).getLsbD 1 then 2 else 0) = storedWatchMode build mode := by
  rw [storedWatchMode, storedWatchMode]
  cases build.watchFastpath with
  | false => rfl
  | true =>
      have hbits : mode &&& (1 ||| 2) =
          (if mode.getLsbD 0 then 1 else 0) ||| if mode.getLsbD 1 then 2 else 0 := by
        rw [show (1 : BitVec 32) = BitVec.twoPow 32 0 by decide,
          show (2 : BitVec 32) = BitVec.twoPow 32 1 by decide, BitVec.and_or_distrib_left,
          BitVec.and_twoPow, BitVec.and_twoPow]
        rfl
      rw [if_pos rfl, if_pos rfl, hbits]
      cases mode.getLsbD 0 <;> cases mode.getLsbD 1 <;> decide

/-- The runtime's mode comes back where the build has the control, and stays as it is elsewhere. -/
theorem watch_current (h : Configured build o) {o' : Options}
    (hkeep : build.watchControl = false → o'.watchFastpathMode = o.watchFastpathMode) :
    (applyPerfOptions build (currentPerfOptions build o) o').watchFastpathMode = o.watchFastpathMode := by
  rw [applyPerfOptions]
  dsimp only
  cases hcontrol : build.watchControl with
  | false => exact hkeep hcontrol
  | true =>
      have hbit : ∀ i, i ∈ [36, 37] → ((currentPerfOptions build o).getLsbD i = true ↔
          i = 36 ∧ o.watchFastpathMode.getLsbD 0 = true ∨ i = 37 ∧ o.watchFastpathMode.getLsbD 1 = true) := by
        intro i hi
        have hmem : i ∈ numberBits := by
          simp only [List.mem_cons, List.not_mem_nil, or_false] at hi
          rcases hi with rfl | rfl <;> decide
        rw [getLsbD_current_number build o hmem, getLsbD_placementWord h.placement, hcontrol]
        simp only [List.mem_cons, List.not_mem_nil, or_false] at hi
        constructor
        · rintro (hp | hs | hc | hw)
          · omega
          · omega
          · omega
          · exact hw.2
        · exact fun hw => .inr (.inr (.inr ⟨rfl, hw⟩))
      have h36 : (currentPerfOptions build o).getLsbD 36 = o.watchFastpathMode.getLsbD 0 := by
        rw [Bool.eq_iff_iff, hbit 36 (by decide)]
        simp
      have h37 : (currentPerfOptions build o).getLsbD 37 = o.watchFastpathMode.getLsbD 1 := by
        rw [Bool.eq_iff_iff, hbit 37 (by decide)]
        simp
      have hmask : ∀ i < 64, ∀ a : BitVec 32, (if currentPerfOptions build o &&& BitVec.twoPow 64 i ≠ 0
          then a else 0) = if (currentPerfOptions build o).getLsbD i then a else 0 :=
        fun i hi a => if_congr (and_twoPow_ne_zero hi) rfl rfl
      obtain ⟨mode, hmode⟩ := h.watch
      rw [if_pos rfl, show (68719476736 : BitVec 64) = BitVec.twoPow 64 36 from rfl,
        show (137438953472 : BitVec 64) = BitVec.twoPow 64 37 from rfl, hmask 36 (by decide),
        hmask 37 (by decide), h36, h37, hmode]
      exact storedWatchMode_bits build mode

/-- What the start mask brings back: every option but the spin time and the chunk
size, of which it keeps the class. -/
theorem applyPerfOptions_current (h : Configured build o) {o' : Options}
    (hkeep : build.watchControl = false → o'.watchFastpathMode = o.watchFastpathMode) :
    applyPerfOptions build (currentPerfOptions build o) o' =
      { o with
        nativeWaitSpinUs := if 0 < o.nativeWaitSpinUs then 5000 else 0
        nativeReplayChunkDraws :=
          if 2048 ≤ o.nativeReplayChunkDraws then 2048
          else if 0 < o.nativeReplayChunkDraws then 1024 else 0 } := by
  have hbit : ∀ i, i ∈ numberBits → i ∉ [21, 22, 26, 36, 37] →
      ((currentPerfOptions build o).getLsbD i = true ↔ i = 44 ∧ 0 < o.nativeWaitSpinUs ∨
        (i = 41 ∧ 2048 ≤ o.nativeReplayChunkDraws ∨
          i = 40 ∧ 0 < o.nativeReplayChunkDraws ∧ o.nativeReplayChunkDraws < 2048)) := by
    intro i hi hnot
    rw [getLsbD_current_number build o hi, getLsbD_placementWord h.placement]
    simp only [List.mem_cons, List.not_mem_nil, or_false, not_or] at hnot
    omega
  refine Options.ext (funext fun f => ?_) (placement_current h) ?_ ?_ (watch_current h hkeep)
  · rw [applyPerfOptions]
    dsimp only
    rw [applyMask_eq, ← getLsbD_current_flag h f, Bool.eq_iff_iff, decide_eq_true_eq]
    exact and_twoPow_ne_zero (flagBit_lt f)
  · refine if_congr ?_ rfl rfl
    rw [show (17592186044416 : BitVec 64) = BitVec.twoPow 64 44 from rfl,
      and_twoPow_ne_zero (by decide), hbit 44 (by decide) (by decide)]
    omega
  · have h41 : currentPerfOptions build o &&& 2199023255552 ≠ 0 ↔ 2048 ≤ o.nativeReplayChunkDraws := by
      rw [show (2199023255552 : BitVec 64) = BitVec.twoPow 64 41 from rfl,
        and_twoPow_ne_zero (by decide), hbit 41 (by decide) (by decide)]
      omega
    have h40 : currentPerfOptions build o &&& 1099511627776 ≠ 0 ↔
        0 < o.nativeReplayChunkDraws ∧ o.nativeReplayChunkDraws < 2048 := by
      rw [show (1099511627776 : BitVec 64) = BitVec.twoPow 64 40 from rfl,
        and_twoPow_ne_zero (by decide), hbit 40 (by decide) (by decide)]
      omega
    rw [applyPerfOptions]
    dsimp only
    by_cases hbig : 2048 ≤ o.nativeReplayChunkDraws
    · rw [if_pos (h41.2 hbig), if_pos hbig]
    · rw [if_neg (mt h41.1 hbig), if_neg hbig]
      exact if_congr (h40.trans (and_iff_left (not_le.1 hbig))) rfl rfl

/-- Masks leave the runtime's mode alone in a build without watch control. -/
theorem watchFastpathMode_apply_foldl (hcontrol : build.watchControl = false) (masks : List (BitVec 64)) :
    (masks.foldl (fun o mask => applyPerfOptions build mask o) o).watchFastpathMode =
      o.watchFastpathMode := by
  induction masks generalizing o with
  | nil => rfl
  | cons mask masks ih =>
      rw [List.foldl_cons, ih, applyPerfOptions]
      dsimp only
      rw [if_neg (by rw [hcontrol]; exact Bool.false_ne_true)]

/-- **Which configurations survive a comparison.** After any masks, the start mask
brings back every option exactly when the spin time is 0 or 5000 and the chunk
size 0, 1024 or 2048. -/
theorem perfOptions_restored_iff {build : Build} {o : Options} (h : Configured build o)
    (masks : List (BitVec 64)) :
    applyPerfOptions build (currentPerfOptions build o)
        (masks.foldl (fun o mask => applyPerfOptions build mask o) o) = o ↔
      (o.nativeWaitSpinUs = 0 ∨ o.nativeWaitSpinUs = 5000) ∧
        (o.nativeReplayChunkDraws = 0 ∨ o.nativeReplayChunkDraws = 1024 ∨
          o.nativeReplayChunkDraws = 2048) := by
  rw [applyPerfOptions_current h fun hcontrol => watchFastpathMode_apply_foldl hcontrol masks,
    Options.ext_iff]
  have hspin := h.waitSpin
  have hchunk := h.replayChunk
  constructor
  · rintro ⟨-, -, hs, hc, -⟩
    dsimp only at hs hc
    constructor
    · split at hs <;> omega
    · split at hc
      · omega
      · split at hc <;> omega
  · rintro ⟨hs, hc⟩
    refine ⟨rfl, rfl, ?_, ?_, rfl⟩
    · dsimp only
      split <;> omega
    · dsimp only
      split
      · omega
      · split <;> omega

/-- A build without watch control. -/
def plainBuild : Build := ⟨false, false⟩

/-- Everything off, the spin time at 100 microseconds. -/
def shortSpin : Options := ⟨fun _ => false, 0, 100, 0, 0⟩

/-- **The spin time comes back as 5000**, whatever positive number it was before the comparison. -/
theorem perfOptions_not_restored :
    ¬ ∀ (build : Build) (o : Options), Configured build o → ∀ masks : List (BitVec 64),
      applyPerfOptions build (currentPerfOptions build o)
        (masks.foldl (fun o mask => applyPerfOptions build mask o) o) = o := by
  intro hall
  have hshort : Configured plainBuild shortSpin := ⟨by decide, by decide, by decide, 0, by decide⟩
  have hspin := congrArg Options.nativeWaitSpinUs (hall plainBuild shortSpin hshort [0])
  exact absurd hspin (by decide +kernel)

/-- The hypotheses are satisfiable, and the shipped numbers survive: no spinning, whole submissions. -/
theorem perfOptions_restored_off :
    applyPerfOptions plainBuild (currentPerfOptions plainBuild ⟨fun _ => true, 5, 0, 0, 0⟩)
      ([3, 281474976710655].foldl (fun o mask => applyPerfOptions plainBuild mask o)
        ⟨fun _ => true, 5, 0, 0, 0⟩) = ⟨fun _ => true, 5, 0, 0, 0⟩ :=
  (perfOptions_restored_iff ⟨by decide, by decide, by decide, 0, by decide⟩ _).2
    ⟨.inl rfl, .inl rfl⟩

end PerfOptions
end BoltsRebuilt
