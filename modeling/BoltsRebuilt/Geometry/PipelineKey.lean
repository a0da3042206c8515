/-
# Pipeline keys and what a pipeline is built from

`src/gpu/native/native_pipeline_key.h`: `NormalizeNativePipelineKey`;
`src/gpu/native/native_geometry_pass.cpp`: `MapBlendFactor`, `MapBlendOp`,
`PipelineKeyFor`, `CreatePipeline` up to the complete descriptor.

A key is the raw target formats, registers and switches of a draw.  Normalizing
drops what the descriptor does not depend on: registers of unbound targets, fields
of a disabled test, padding.  The builder reads registers field by field, so for
each rule there is a lemma that the fields the builder still reads are the ones
the mask keeps (`field_and`, `bit_and`).

`normalizeNativePipelineKey_sound`: a key and its normal form have one descriptor
or are both refused; so keys with one normal form have one descriptor.

Formats are their numbers, a float is its bits, and the shaders and root
signatures of the pass are values of any type.  The layouts of the registers are
those of the guest.
-/

import BoltsRebuilt.Lib.Bits
import Mathlib.Data.Fin.VecNotation
import Mathlib.Logic.Function.Basic
import Mathlib.Tactic.FinCases

namespace BoltsRebuilt
namespace GeometryPass

abbrev Reg := BitVec 32

/-- A bit field of a register. -/
def field (r : Reg) (first count : ℕ) : ℕ := (r.extractLsb' first count).toNat

/-- A flag of a register. -/
def bit (r : Reg) (i : ℕ) : Bool := r.getLsbD i

/-! ### The key -/

/-- The words of a `PipelineKey`. -/
abbrev KeyWords := Fin 20 → Reg

/-- The words, and the bits changed so far. -/
structure Normalizing where
  words : KeyWords
  changed : Reg

/-- `replace`. -/
def Normalizing.replace (n : Normalizing) (index : Fin 20) (value : Reg) : Normalizing :=
  ⟨Function.update n.words index value, n.changed ||| (n.words index ^^^ value)⟩

/-- The words of target `i`. -/
def rtvWord (i : Fin 4) : Fin 20 := ⟨i, by omega⟩
def blendWord (i : Fin 4) : Fin 20 := ⟨6 + i, by omega⟩

/-- A round of the loop over the targets. -/
def normalizeTarget (acc : Normalizing × Reg) (i : Fin 4) : Normalizing × Reg :=
  if acc.1.words (rtvWord i) ≠ 0 then
    (acc.1.replace (blendWord i) (acc.1.words (blendWord i) &&& 0x1FFF1FFF),
      acc.2 ||| (0xF <<< (4 * i.val)))
  else (acc.1.replace (blendWord i) 0, acc.2)

/-- The depth and stencil words. -/
def normalizeDepth (n : Normalizing) : Normalizing :=
  let originalDepth := n.words 10
  let depth := originalDepth &&& ~~~0x8
  let (n, depth) :=
    if originalDepth &&& 0x1 = 0 then (n.replace 13 0, depth &&& 0x76)
    else
      (n.replace 13 (n.words 13 &&& 0x00FFFF00),
        if originalDepth &&& 0x80 = 0 then depth &&& 0x000FFFFF else depth)
  let depth := if n.words 4 = 0 then depth &&& ~~~0x2 else depth
  n.replace 10 depth

/-- `NormalizeNativePipelineKey`: the words it leaves and whether one changed. -/
def normalizeNativePipelineKey (words : KeyWords) : KeyWords × Bool :=
  let (n, colorMask) := [0, 1, 2, 3].foldl normalizeTarget (⟨words, 0⟩, 0)
  let n := n.replace 12 (n.words 12 &&& colorMask)
  let n := normalizeDepth n
  let n := n.replace 11 (n.words 11 &&& 0x7)
  let n := if n.words 5 ≤ 1 then n.replace 16 (n.words 16 &&& ~~~0x2) else n
  (n.words, n.changed != 0)

/-! ### The draw -/

/-- The parts of `NativeDrawContext` a pipeline depends on. -/
@[ext] structure NativeDrawContext where
  rtvFormats : Fin 4 → Reg
  dsvFormat : Reg
  sampleCount : Reg
  sampleMask : Reg

@[ext] structure GuestState where
  blendcontrol : Fin 4 → Reg
  depthcontrol : Reg
  suModeCntl : Reg
  colorMask : Reg
  stencilRefMask : Reg
  depthBias : Reg
  depthBiasSlope : Reg
  depthClip : Bool
  alphaToMask : Bool

/-- A C++ `?:` on a flag. -/
def flag (b : Bool) (value : Reg) : Reg := if b then value else 0

def pipelineKeyFor (context : NativeDrawContext) (state : GuestState) (rootCbv noAlphaTest : Bool) :
    KeyWords :=
  ![context.rtvFormats 0, context.rtvFormats 1, context.rtvFormats 2, context.rtvFormats 3,
    context.dsvFormat, context.sampleCount,
    state.blendcontrol 0, state.blendcontrol 1, state.blendcontrol 2, state.blendcontrol 3,
    state.depthcontrol, state.suModeCntl, state.colorMask, state.stencilRefMask, state.depthBias,
    state.depthBiasSlope,
    flag state.depthClip 1 ||| flag state.alphaToMask 2 ||| flag rootCbv 4,
    context.sampleMask, flag noAlphaTest 1, 0]

/-! ### The descriptor -/

inductive Blend where
  | zero | one | srcColor | invSrcColor | srcAlpha | invSrcAlpha | destAlpha | invDestAlpha
  | destColor | invDestColor | srcAlphaSat | blendFactor | invBlendFactor
  deriving DecidableEq

inductive BlendOp where
  | add | subtract | revSubtract | min | max
  deriving DecidableEq

inductive CullMode where
  | none | front | back
  deriving DecidableEq

/-- `MapBlendFactor` of the guest's number. -/
def mapBlendFactor (f : ℕ) (alpha : Bool) : Blend :=
  match f with
  | 0 => .zero
  | 1 => .one
  | 4 => if alpha then .srcAlpha else .srcColor
  | 5 => if alpha then .invSrcAlpha else .invSrcColor
  | 6 => .srcAlpha
  | 7 => .invSrcAlpha
  | 8 => if alpha then .destAlpha else .destColor
  | 9 => if alpha then .invDestAlpha else .invDestColor
  | 10 => .destAlpha
  | 11 => .invDestAlpha
  | 12 => .blendFactor
  | 13 => .invBlendFactor
  | 14 => .blendFactor
  | 15 => .invBlendFactor
  | 16 => .srcAlphaSat
  | _ => .one

def mapBlendOp (op : ℕ) : BlendOp :=
  match op with
  | 1 => .subtract
  | 2 => .min
  | 3 => .max
  | 4 => .revSubtract
  | _ => .add

/-- `D3D12_RENDER_TARGET_BLEND_DESC`. -/
structure TargetBlend where
  blendEnable : Bool
  srcBlend : Blend
  destBlend : Blend
  blendOp : BlendOp
  srcBlendAlpha : Blend
  destBlendAlpha : Blend
  blendOpAlpha : BlendOp
  renderTargetWriteMask : ℕ
  deriving DecidableEq

/-- `D3D12_DEPTH_STENCILOP_DESC`, zero where the builder leaves it so. -/
structure StencilFace where
  failOp : ℕ := 0
  depthFailOp : ℕ := 0
  passOp : ℕ := 0
  func : ℕ := 0
  deriving DecidableEq

/-- `D3D12_DEPTH_STENCIL_DESC`. -/
structure DepthStencil where
  depthEnable : Bool
  depthWriteAll : Bool
  depthFunc : ℕ
  stencilEnable : Bool := false
  stencilReadMask : ℕ := 0
  stencilWriteMask : ℕ := 0
  frontFace : StencilFace := {}
  backFace : StencilFace := {}
  deriving DecidableEq

/-- `D3D12_RASTERIZER_DESC`; the fill mode and the bias clamp are constant. -/
structure Rasterizer where
  cullMode : CullMode
  frontCounterClockwise : Bool
  depthBias : Reg
  slopeScaledDepthBias : Reg
  depthClipEnable : Bool
  deriving DecidableEq

/-- The shaders and root signatures of a pass. -/
structure Pass (Blob : Type*) where
  rootSignature : Blob
  rootCbvSignature : Blob
  vs : Blob
  ps : Option Blob
  psNoAlphaTest : Option Blob

/-- `D3D12_GRAPHICS_PIPELINE_STATE_DESC`, less its constant fields. -/
structure PipelineDesc (Blob : Type*) where
  rootSignature : Blob
  vs : Blob
  ps : Option Blob
  alphaToCoverageEnable : Bool
  renderTarget : Fin 4 → TargetBlend
  sampleMask : Reg
  rasterizer : Rasterizer
  depthStencil : DepthStencil
  numRenderTargets : ℕ
  rtvFormats : Fin 4 → Reg
  dsvFormat : Reg
  sampleCount : Reg

/-! ### The builder -/

/-- "One + zero, add" is no blending; `RB_BLENDCONTROL`. -/
def blendEnabled (blend : Reg) : Bool :=
  !(field blend 0 5 == 1 && field blend 8 5 == 0 && field blend 5 3 == 0 &&
    field blend 16 5 == 1 && field blend 24 5 == 0 && field blend 21 3 == 0)

/-- A target's round of the blend loop. -/
def targetBlend (rtvFormat blend colorMask : Reg) (i : Fin 4) : TargetBlend :=
  if rtvFormat = 0 then
    { blendEnable := false
      srcBlend := .one, destBlend := .zero, blendOp := .add
      srcBlendAlpha := .one, destBlendAlpha := .zero, blendOpAlpha := .add
      renderTargetWriteMask := 0 }
  else
    { blendEnable := blendEnabled blend
      srcBlend := mapBlendFactor (field blend 0 5) false
      destBlend := mapBlendFactor (field blend 8 5) false
      blendOp := mapBlendOp (field blend 5 3)
      srcBlendAlpha := mapBlendFactor (field blend 16 5) true
      destBlendAlpha := mapBlendFactor (field blend 24 5) true
      blendOpAlpha := mapBlendOp (field blend 21 3)
      renderTargetWriteMask := field colorMask (4 * i) 4 }

/-- `PA_SU_SC_MODE_CNTL`. -/
def suCullFront (su : Reg) : Bool := bit su 0
def suCullBack (su : Reg) : Bool := bit su 1
def suFace (su : Reg) : Bool := bit su 2

def rasterizer (state : GuestState) : Rasterizer where
  cullMode := if suCullFront state.suModeCntl then .front
    else if suCullBack state.suModeCntl then .back else .none
  frontCounterClockwise := !suFace state.suModeCntl
  depthBias := state.depthBias
  slopeScaledDepthBias := state.depthBiasSlope
  depthClipEnable := state.depthClip

/-- The faces of `RB_DEPTHCONTROL`. -/
def frontFace (depth : Reg) : StencilFace where
  failOp := 1 + field depth 11 3
  depthFailOp := 1 + field depth 17 3
  passOp := 1 + field depth 14 3
  func := 1 + field depth 8 3

def backFace (depth : Reg) : StencilFace :=
  if bit depth 7 then
    { failOp := 1 + field depth 23 3
      depthFailOp := 1 + field depth 29 3
      passOp := 1 + field depth 26 3
      func := 1 + field depth 20 3 }
  else frontFace depth

/-- The depth and stencil part, before the target is looked at. -/
def depthStencilOf (depth stencilRefMask : Reg) : DepthStencil :=
  let ds : DepthStencil :=
    { depthEnable := bit depth 1
      depthWriteAll := bit depth 2
      depthFunc := field depth 4 3 + 1 }
  if bit depth 0 then
    { ds with
      stencilEnable := true
      stencilReadMask := field stencilRefMask 8 8
      stencilWriteMask := field stencilRefMask 16 8
      frontFace := frontFace depth
      backFace := backFace depth }
  else ds

/-- The depth and stencil part of the descriptor. -/
def depthStencil (dsvFormat depth stencilRefMask : Reg) : DepthStencil :=
  let ds := depthStencilOf depth stencilRefMask
  if dsvFormat = 0 then { ds with depthEnable := false, stencilEnable := false } else ds

/-- Alpha to coverage needs samples. -/
def alphaToCoverage (alphaToMask : Bool) (sampleCount : Reg) : Bool :=
  alphaToMask && decide (1 < sampleCount)

def numRenderTargets (rtvFormats : Fin 4 → Reg) : ℕ :=
  [0, 1, 2, 3].foldl (fun n i => if rtvFormats i ≠ 0 then i.val + 1 else n) 0

variable {Blob : Type*}

/-- `CreatePipeline`: the descriptor, none where it refuses. -/
def createPipeline (pass : Pass Blob) (context : NativeDrawContext) (state : GuestState)
    (rootCbv noAlphaTest : Bool) : Option (PipelineDesc Blob) :=
  if noAlphaTest && pass.psNoAlphaTest.isNone then none
  else if suCullFront state.suModeCntl && suCullBack state.suModeCntl then none
  else
    some
      { rootSignature := if rootCbv then pass.rootCbvSignature else pass.rootSignature
        vs := pass.vs
        ps := if noAlphaTest then pass.psNoAlphaTest else pass.ps
        alphaToCoverageEnable := alphaToCoverage state.alphaToMask context.sampleCount
        renderTarget := fun i =>
          targetBlend (context.rtvFormats i) (state.blendcontrol i) state.colorMask i
        sampleMask := context.sampleMask
        rasterizer := rasterizer state
        depthStencil := depthStencil context.dsvFormat state.depthcontrol state.stencilRefMask
        numRenderTargets := numRenderTargets context.rtvFormats
        rtvFormats := context.rtvFormats
        dsvFormat := context.dsvFormat
        sampleCount := context.sampleCount }

/-! ### The draw a key stands for -/

def contextOf (words : KeyWords) : NativeDrawContext where
  rtvFormats i := words (rtvWord i)
  dsvFormat := words 4
  sampleCount := words 5
  sampleMask := words 17

def stateOf (words : KeyWords) : GuestState where
  blendcontrol i := words (blendWord i)
  depthcontrol := words 10
  suModeCntl := words 11
  colorMask := words 12
  stencilRefMask := words 13
  depthBias := words 14
  depthBiasSlope := words 15
  depthClip := bit (words 16) 0
  alphaToMask := bit (words 16) 1

/-- The descriptor of a key. -/
def descriptor (pass : Pass Blob) (words : KeyWords) : Option (PipelineDesc Blob) :=
  createPipeline pass (contextOf words) (stateOf words) (bit (words 16) 2) (words 18 != 0)

/-! ### Masks of the normal form -/

/-- A field all of whose bits the mask keeps reads the same after masking. -/
theorem field_and {r mask : Reg} {first count : ℕ}
    (h : ∀ i < count, mask.getLsbD (first + i) = true) :
    field (r &&& mask) first count = field r first count := by
  rw [field, field]
  congr 1
  refine BitVec.eq_of_getLsbD_eq fun i hi => ?_
  rw [BitVec.getLsbD_extractLsb', BitVec.getLsbD_extractLsb', BitVec.getLsbD_and, h i hi,
    Bool.and_true]

/-- A bit the mask keeps reads the same after masking. -/
theorem bit_and {r mask : Reg} {i : ℕ} (h : mask.getLsbD i = true) : bit (r &&& mask) i = bit r i := by
  rw [bit, bit, BitVec.getLsbD_and, h, Bool.and_true]

/-- Masking with nothing leaves nothing, as a fact about registers. -/
theorem and_zero (r : Reg) : r &&& 0 = 0 := BitVec.and_zero

/-- Masking with all 32 bits changes nothing. -/
theorem and_all (r : Reg) : r &&& BitVec.allOnes 32 = r := BitVec.and_allOnes

/-- The bits of the bound targets among some of them. -/
def targetMask (rtvFormats : Fin 4 → Reg) : List (Fin 4) → Reg
  | [] => 0
  | i :: l => (if rtvFormats i ≠ 0 then 0xF <<< (4 * i.val) else 0) ||| targetMask rtvFormats l

/-- Each colour target has four bits of the write mask to itself. -/
theorem getLsbD_nibble : ∀ i b : Fin 4,
    ((0xF : Reg) <<< (4 * i.val)).getLsbD (4 * i.val + b.val) = true := by decide

/-- The mask built from the bound targets keeps all four bits of each of them. -/
theorem getLsbD_targetMask {rtvFormats : Fin 4 → Reg} {l : List (Fin 4)} {i : Fin 4} (hi : i ∈ l)
    (hbound : rtvFormats i ≠ 0) {b : ℕ} (hb : b < 4) :
    (targetMask rtvFormats l).getLsbD (4 * i + b) = true := by
  induction l with
  | nil => exact absurd hi List.not_mem_nil
  | cons t l ih =>
      rw [targetMask, BitVec.getLsbD_or, Bool.or_eq_true]
      rcases List.mem_cons.1 hi with rfl | hi
      · rw [if_pos hbound]
        exact .inl (getLsbD_nibble i ⟨b, hb⟩)
      · exact .inr (ih hi)

/-! ### The normal form -/

/-- Replacing a word changes that word of the key and no other. -/
theorem words_replace (n : Normalizing) (index : Fin 20) (value : Reg) (j : Fin 20) :
    (n.replace index value).words j = if j = index then value else n.words j :=
  Function.update_apply ..

/-- Normalising a target changes its blend word alone: masked to the blend bits when the target is
bound, zero otherwise. -/
theorem words_normalizeTarget (acc : Normalizing × Reg) (i : Fin 4) (j : Fin 20) :
    (normalizeTarget acc i).1.words j =
      if j = blendWord i then
        if acc.1.words (rtvWord i) ≠ 0 then acc.1.words (blendWord i) &&& 0x1FFF1FFF else 0
      else acc.1.words j := by
  unfold normalizeTarget
  split <;> exact words_replace ..

/-- A format word is never a blend word. -/
theorem rtvWord_ne_blendWord : ∀ i t : Fin 4, rtvWord i ≠ blendWord t := by decide

/-- Every one of the four targets is visited. -/
theorem mem_targets : ∀ i : Fin 4, i ∈ [0, 1, 2, 3] := by decide

/-- Different targets have different blend words. -/
theorem blendWord_injective : ∀ i t : Fin 4, blendWord i = blendWord t → i = t := by decide

/-- The loop over the targets, for words not of a target left. -/
theorem words_foldl_target (l : List (Fin 4)) (acc : Normalizing × Reg) {j : Fin 20}
    (hj : ∀ i ∈ l, j ≠ blendWord i) : (l.foldl normalizeTarget acc).1.words j = acc.1.words j := by
  induction l generalizing acc with
  | nil => rfl
  | cons t l ih =>
      rw [List.forall_mem_cons] at hj
      rw [List.foldl_cons, ih _ hj.2, words_normalizeTarget, if_neg hj.1]

/-- The loop over the targets, for the blend word of one. -/
theorem blend_foldl_target (l : List (Fin 4)) (hl : l.Nodup) (acc : Normalizing × Reg) {i : Fin 4}
    (hi : i ∈ l) :
    (l.foldl normalizeTarget acc).1.words (blendWord i) =
      if acc.1.words (rtvWord i) ≠ 0 then acc.1.words (blendWord i) &&& 0x1FFF1FFF else 0 := by
  induction l generalizing acc with
  | nil => exact absurd hi List.not_mem_nil
  | cons t l ih =>
      rw [List.nodup_cons] at hl
      rw [List.foldl_cons]
      rcases List.mem_cons.1 hi with rfl | hi
      · rw [words_foldl_target l _ fun t ht h => hl.1 (by rwa [blendWord_injective _ _ h]),
          words_normalizeTarget, if_pos rfl]
      · have hne : blendWord i ≠ blendWord t := fun h => hl.1 (blendWord_injective _ _ h ▸ hi)
        rw [ih hl.2 _ hi, words_normalizeTarget, words_normalizeTarget, if_neg hne,
          if_neg (rtvWord_ne_blendWord i t)]

/-- Normalising several targets collects the colour mask bits of those that are bound. -/
theorem mask_foldl_target (l : List (Fin 4)) (acc : Normalizing × Reg) :
    (l.foldl normalizeTarget acc).2 =
      acc.2 ||| targetMask (fun i => acc.1.words (rtvWord i)) l := by
  induction l generalizing acc with
  | nil => rw [targetMask, List.foldl_nil]; exact (BitVec.or_zero).symm
  | cons t l ih =>
      rw [List.foldl_cons, ih, targetMask, ← BitVec.or_assoc]
      congr 1
      · unfold normalizeTarget
        by_cases h : acc.1.words (rtvWord t) ≠ 0
        · rw [if_pos h, if_pos h]
        · rw [if_neg h, if_neg h]
          exact (BitVec.or_zero).symm
      · congr 1
        funext i
        rw [words_normalizeTarget, if_neg (rtvWord_ne_blendWord i t)]

/-- What the depth rules keep of the depth register. -/
def depthMask (dsvFormat depth : Reg) : Reg :=
  (if depth &&& 0x1 = 0 then 0x76 else if depth &&& 0x80 = 0 then 0x000FFFF7 else 0xFFFFFFF7) &&&
    (if dsvFormat = 0 then ~~~0x2 else BitVec.allOnes 32)

/-- What they keep of the stencil masks. -/
def stencilMask (depth : Reg) : Reg := if depth &&& 0x1 = 0 then 0 else 0x00FFFF00

/-- What they keep of the blend register of a target. -/
def blendMask (rtvFormat : Reg) : Reg := if rtvFormat ≠ 0 then 0x1FFF1FFF else 0

/-- What they keep of the switches. -/
def switchMask (sampleCount : Reg) : Reg := if sampleCount ≤ 1 then ~~~0x2 else BitVec.allOnes 32

/-- The mask of each word. -/
def keyMask (words : KeyWords) : KeyWords :=
  ![BitVec.allOnes 32, BitVec.allOnes 32, BitVec.allOnes 32, BitVec.allOnes 32,
    BitVec.allOnes 32, BitVec.allOnes 32,
    blendMask (words 0), blendMask (words 1), blendMask (words 2), blendMask (words 3),
    depthMask (words 4) (words 10), 0x7,
    targetMask (fun i => words (rtvWord i)) [0, 1, 2, 3], stencilMask (words 10),
    BitVec.allOnes 32, BitVec.allOnes 32, switchMask (words 5),
    BitVec.allOnes 32, BitVec.allOnes 32, BitVec.allOnes 32]

/-- The depth rules change two words, depth control and stencil reference, and leave the others. -/
theorem words_normalizeDepth (n : Normalizing) (j : Fin 20) :
    (normalizeDepth n).words j =
      if j = 10 then n.words 10 &&& depthMask (n.words 4) (n.words 10)
      else if j = 13 then n.words 13 &&& stencilMask (n.words 10) else n.words j := by
  have hmask : ∀ d : Reg, (d &&& ~~~0x8) &&& 0x76 = d &&& 0x76 := fun d => by
    rw [BitVec.and_assoc]; rfl
  have hface : ∀ d : Reg, (d &&& ~~~0x8) &&& 0x000FFFFF = d &&& 0x000FFFF7 := fun d => by
    rw [BitVec.and_assoc]; rfl
  have hpadding : ∀ d : Reg, d &&& ~~~0x8 = d &&& 0xFFFFFFF7 := fun d => rfl
  have hdsv : ∀ d m : Reg, (if n.words 4 = 0 then (d &&& m) &&& ~~~0x2 else d &&& m) =
      d &&& (m &&& if n.words 4 = 0 then ~~~0x2 else BitVec.allOnes 32) := fun d m => by
    split
    · rw [BitVec.and_assoc]
    · rw [BitVec.and_allOnes]
  have hwords : ∀ v, (n.replace 13 v).words 4 = n.words 4 := fun v => by
    rw [words_replace, if_neg (by decide)]
  unfold normalizeDepth depthMask stencilMask
  dsimp only
  by_cases hstencil : n.words 10 &&& 0x1 = 0
  · simp only [if_pos hstencil, hmask, hwords, words_replace, hdsv]
    rw [and_zero]
  · simp only [if_neg hstencil, hwords, words_replace]
    by_cases hback : n.words 10 &&& 0x80 = 0
    · simp only [if_pos hback, hface, hdsv]
    · simp only [if_neg hback, hpadding, hdsv]

/-- The last rule clears the coverage switch where there is one sample at most. -/
theorem words_normalizeSwitches (n : Normalizing) (j : Fin 20) :
    (if n.words 5 ≤ 1 then n.replace 16 (n.words 16 &&& ~~~0x2) else n).words j =
      if j = 16 then n.words 16 &&& switchMask (n.words 5) else n.words j := by
  unfold switchMask
  by_cases h : n.words 5 ≤ 1
  · rw [if_pos h, if_pos h, words_replace]
  · rw [if_neg h, if_neg h, and_all]
    split
    · rename_i hj
      rw [hj]
    · rfl

/-- What the loop over the targets leaves: the four blend words masked, all others as they were. -/
theorem words_targets (words : KeyWords) (j : Fin 20) :
    ([0, 1, 2, 3].foldl normalizeTarget (⟨words, 0⟩, 0)).1.words j =
      if 6 ≤ j ∧ j < 10 then words j &&& keyMask words j else words j := by
  have hblend : ∀ i : Fin 4,
      ([0, 1, 2, 3].foldl normalizeTarget (⟨words, 0⟩, 0)).1.words (blendWord i) =
        words (blendWord i) &&& blendMask (words (rtvWord i)) := fun i => by
    rw [blend_foldl_target _ (by decide) _ (mem_targets i), blendMask]
    split
    · rfl
    · exact (and_zero _).symm
  have hframe : (∀ i ∈ [0, 1, 2, 3], j ≠ blendWord i) →
      ([0, 1, 2, 3].foldl normalizeTarget (⟨words, 0⟩, 0)).1.words j = words j := fun hj =>
    words_foldl_target _ _ hj
  by_cases hj : 6 ≤ j ∧ j < 10
  · rw [if_pos hj]
    obtain rfl | rfl | rfl | rfl : j = 6 ∨ j = 7 ∨ j = 8 ∨ j = 9 := by omega
    · exact hblend 0
    · exact hblend 1
    · exact hblend 2
    · exact hblend 3
  · rw [if_neg hj]
    have hblends : ∀ i : Fin 4, 6 ≤ blendWord i ∧ blendWord i < 10 := by decide
    exact hframe fun i _ h => hj (h ▸ hblends i)

/-- **The normal form is the key under a mask.** -/
theorem words_normalizeNativePipelineKey (words : KeyWords) (j : Fin 20) :
    (normalizeNativePipelineKey words).1 j = words j &&& keyMask words j := by
  have hwords := words_targets words
  have hmask := mask_foldl_target [0, 1, 2, 3] (⟨words, 0⟩, 0)
  rw [show ((⟨words, 0⟩, 0) : Normalizing × Reg).2 = 0#32 from rfl, BitVec.zero_or] at hmask
  unfold normalizeNativePipelineKey
  generalize [0, 1, 2, 3].foldl normalizeTarget (⟨words, 0⟩, 0) = t at hwords hmask ⊢
  obtain ⟨n, colorMask⟩ := t
  dsimp only at hwords hmask ⊢
  rw [words_normalizeSwitches]
  simp only [words_replace, words_normalizeDepth, hwords, hmask]
  fin_cases j <;> simp <;> first | rfl | exact (and_all _).symm

/-! ### What the builder reads -/

/-- The source's test of the lowest bit is that bit. -/
theorem bit_eq_false_iff_one {r : Reg} : r &&& 0x1 = 0 ↔ bit r 0 = false :=
  Bits.and_twoPow_eq_zero (i := 0) (by omega)

/-- The source's test `0x80` is bit 7, back-face stencil. -/
theorem bit_eq_false_iff_backface {r : Reg} : r &&& 0x80 = 0 ↔ bit r 7 = false :=
  Bits.and_twoPow_eq_zero (i := 7) (by omega)

/-- The blend description of a target reads only bits of its blend word and its write mask that
normalising keeps. -/
theorem targetBlend_and (rtvFormat blend colorMask : Reg) (i : Fin 4) {mask : Reg}
    (hmask : rtvFormat ≠ 0 → ∀ b < 4, mask.getLsbD (4 * i + b) = true) :
    targetBlend rtvFormat (blend &&& blendMask rtvFormat) (colorMask &&& mask) i =
      targetBlend rtvFormat blend colorMask i := by
  unfold targetBlend
  by_cases h : rtvFormat = 0
  · rw [if_pos h, if_pos h]
  · rw [if_neg h, if_neg h]
    have hread : ∀ first count, (∀ b < count, (0x1FFF1FFF : Reg).getLsbD (first + b) = true) →
        field (blend &&& blendMask rtvFormat) first count = field blend first count :=
      fun first count hbits => by
        rw [blendMask, if_pos h]
        exact field_and hbits
    unfold blendEnabled
    rw [hread 0 5 (by decide), hread 5 3 (by decide), hread 8 5 (by decide), hread 16 5 (by decide),
      hread 21 3 (by decide), hread 24 5 (by decide), field_and (hmask h)]

/-- The front-face stencil description reads bits 8 to 19 of the depth control alone. -/
theorem frontFace_and {depth mask : Reg} (h : ∀ b, 8 ≤ b → b < 20 → mask.getLsbD b = true) :
    frontFace (depth &&& mask) = frontFace depth := by
  unfold frontFace
  rw [field_and fun b hb => h _ (by omega) (by omega),
    field_and fun b hb => h _ (by omega) (by omega),
    field_and fun b hb => h _ (by omega) (by omega),
    field_and fun b hb => h _ (by omega) (by omega)]

/-- The back face is the front face, or has its own fields in the mask. -/
theorem backFace_and {depth mask : Reg} (h : ∀ b, 7 ≤ b → b < 20 → mask.getLsbD b = true)
    (hback : bit depth 7 = true → ∀ b, 20 ≤ b → b < 32 → mask.getLsbD b = true) :
    backFace (depth &&& mask) = backFace depth := by
  unfold backFace
  rw [bit_and (h 7 (by omega) (by omega)), frontFace_and fun b hb => h b (by omega)]
  by_cases h7 : bit depth 7 = true
  · have hread : ∀ first, 20 ≤ first → first < 30 →
        field (depth &&& mask) first 3 = field depth first 3 := fun first hfirst hlast =>
      field_and fun b hb => hback h7 _ (by omega) (by omega)
    rw [if_pos h7, if_pos h7, hread 23 (by omega) (by omega), hread 29 (by omega) (by omega),
      hread 26 (by omega) (by omega), hread 20 (by omega) (by omega)]
  · rw [if_neg h7, if_neg h7]

section Depth

variable (dsvFormat depth : Reg)

/-- Normalising keeps the depth write bit and the depth function. -/
theorem getLsbD_depthMask_zfunc :
    ∀ b < 7, b = 2 ∨ 4 ≤ b → (depthMask dsvFormat depth).getLsbD b = true := by
  unfold depthMask
  split_ifs <;> decide

/-- With a depth format bound it keeps the depth test. -/
theorem getLsbD_depthMask_enable (h : dsvFormat ≠ 0) :
    (depthMask dsvFormat depth).getLsbD 1 = true := by
  unfold depthMask
  rw [if_neg h]
  split_ifs <;> decide

/-- It keeps the stencil bit exactly as the register had it. -/
theorem getLsbD_depthMask_stencil :
    (depthMask dsvFormat depth).getLsbD 0 = bit depth 0 := by
  unfold depthMask
  cases h : bit depth 0 with
  | false =>
      rw [if_pos (bit_eq_false_iff_one.2 h)]
      split_ifs <;> decide
  | true =>
      rw [if_neg fun h' => Bool.false_ne_true ((bit_eq_false_iff_one.1 h').symm.trans h)]
      split_ifs <;> decide

/-- With stencil on, it keeps everything the front face reads. -/
theorem getLsbD_depthMask_front (h : bit depth 0 = true) :
    ∀ b < 20, 7 ≤ b → (depthMask dsvFormat depth).getLsbD b = true := by
  unfold depthMask
  rw [if_neg fun h' => Bool.false_ne_true ((bit_eq_false_iff_one.1 h').symm.trans h)]
  split_ifs <;> decide

/-- With back-face stencil on as well, it keeps everything the back face reads. -/
theorem getLsbD_depthMask_back (h : bit depth 0 = true) (hback : bit depth 7 = true) :
    ∀ b < 32, 20 ≤ b → (depthMask dsvFormat depth).getLsbD b = true := by
  unfold depthMask
  rw [if_neg fun h' => Bool.false_ne_true ((bit_eq_false_iff_one.1 h').symm.trans h),
    if_neg fun h' => Bool.false_ne_true ((bit_eq_false_iff_backface.1 h').symm.trans hback)]
  split_ifs <;> decide

/-- So the stencil bit is read the same before and after. -/
theorem bit_and_depthMask : bit (depth &&& depthMask dsvFormat depth) 0 = bit depth 0 := by
  rw [bit, BitVec.getLsbD_and, getLsbD_depthMask_stencil, bit, Bool.and_self]

/-- **The depth rules keep what the builder reads**: the depth-stencil description of the masked
words is that of the raw ones. -/
theorem depthStencil_and (stencilRefMask : Reg) :
    depthStencil dsvFormat (depth &&& depthMask dsvFormat depth)
        (stencilRefMask &&& stencilMask depth) =
      depthStencil dsvFormat depth stencilRefMask := by
  have hwrite : bit (depth &&& depthMask dsvFormat depth) 2 = bit depth 2 :=
    bit_and (getLsbD_depthMask_zfunc dsvFormat depth 2 (by omega) (.inl rfl))
  have hfunc : field (depth &&& depthMask dsvFormat depth) 4 3 = field depth 4 3 :=
    field_and fun b hb => getLsbD_depthMask_zfunc dsvFormat depth _ (by omega) (.inr (by omega))
  have hstencil : depthStencilOf (depth &&& depthMask dsvFormat depth)
      (stencilRefMask &&& stencilMask depth) =
      { depthStencilOf depth stencilRefMask with
        depthEnable := bit (depth &&& depthMask dsvFormat depth) 1 } := by
    unfold depthStencilOf
    rw [bit_and_depthMask, hwrite, hfunc]
    by_cases h : bit depth 0 = true
    · have hmask : stencilMask depth = 0x00FFFF00 :=
        if_neg fun h' => Bool.false_ne_true ((bit_eq_false_iff_one.1 h').symm.trans h)
      have hfront := getLsbD_depthMask_front dsvFormat depth h
      rw [if_pos h, if_pos h, hmask, field_and (by decide), field_and (by decide),
        frontFace_and fun b hb hb' => hfront b hb' (by omega),
        backFace_and (fun b hb hb' => hfront b hb' hb)
          fun hback b hb hb' => getLsbD_depthMask_back dsvFormat depth h hback b hb' hb]
    · rw [if_neg h, if_neg h]
  unfold depthStencil
  rw [hstencil]
  by_cases hdsv : dsvFormat = 0
  · rw [if_pos hdsv, if_pos hdsv]
  · rw [if_neg hdsv, if_neg hdsv, bit_and (getLsbD_depthMask_enable dsvFormat depth hdsv)]
    unfold depthStencilOf
    split <;> rfl

end Depth

/-! ### Whether a word changed -/

/-- The bits changed so far are zero as long as the words are the first ones. -/
def Normalizing.Tracks (words : KeyWords) (n : Normalizing) : Prop := n.changed = 0 ↔ n.words = words

/-- Replacing a word that was still the raw one keeps the record of what has been replaced true. -/
theorem Normalizing.Tracks.replace {words : KeyWords} {n : Normalizing} (h : n.Tracks words)
    {index : Fin 20} (hfresh : n.words index = words index) (value : Reg) :
    (n.replace index value).Tracks words := by
  unfold Normalizing.Tracks Normalizing.replace
  dsimp only
  rw [show (0 : Reg) = 0#32 from rfl, BitVec.or_eq_zero_iff, BitVec.xor_eq_zero_iff, hfresh]
  rw [Normalizing.Tracks, show (0 : Reg) = 0#32 from rfl] at h
  rw [h]
  constructor
  · rintro ⟨hwords, hvalue⟩
    rw [hwords, ← hvalue, Function.update_eq_self]
  · intro hupdate
    have hvalue : value = words index := by rw [← hupdate, Function.update_self]
    refine ⟨?_, hvalue.symm⟩
    rw [← hupdate, hvalue, ← hfresh, Function.update_eq_self]

/-- Normalising the targets one after the other keeps it true, each blend word being raw when its
turn comes. -/
theorem tracks_foldl_target {words : KeyWords} (l : List (Fin 4)) (hl : l.Nodup)
    (acc : Normalizing × Reg) (h : acc.1.Tracks words)
    (hfresh : ∀ i ∈ l, acc.1.words (blendWord i) = words (blendWord i)) :
    (l.foldl normalizeTarget acc).1.Tracks words := by
  induction l generalizing acc with
  | nil => exact h
  | cons t l ih =>
      rw [List.nodup_cons] at hl
      rw [List.forall_mem_cons] at hfresh
      refine ih hl.2 _ ?_ fun i hi => ?_
      · unfold normalizeTarget
        split <;> exact h.replace hfresh.1 _
      · have hne : blendWord i ≠ blendWord t := fun h => hl.1 (blendWord_injective _ _ h ▸ hi)
        rw [words_normalizeTarget, if_neg hne, hfresh.2 i hi]

/-- So does normalising the depth and stencil words. -/
theorem tracks_normalizeDepth {words : KeyWords} {n : Normalizing} (h : n.Tracks words)
    (hstencil : n.words 13 = words 13) (hdepth : n.words 10 = words 10) :
    (normalizeDepth n).Tracks words := by
  have hfresh : ∀ v, (n.replace 13 v).words 10 = words 10 := fun v => by
    rw [words_replace, if_neg (by decide), hdepth]
  unfold normalizeDepth
  dsimp only
  split <;> exact (h.replace hstencil _).replace (hfresh _) _

/-- `NormalizeNativePipelineKey` returns whether an input word changed, not merely whether a rule
was applied. -/
theorem changed_normalizeNativePipelineKey (words : KeyWords) :
    (normalizeNativePipelineKey words).2 = true ↔ (normalizeNativePipelineKey words).1 ≠ words := by
  have htracks : ([0, 1, 2, 3].foldl normalizeTarget (⟨words, 0⟩, 0)).1.Tracks words :=
    tracks_foldl_target _ (by decide) _ ⟨fun _ => rfl, fun _ => rfl⟩ fun _ _ => rfl
  have hwords := words_targets words
  unfold normalizeNativePipelineKey
  generalize [0, 1, 2, 3].foldl normalizeTarget (⟨words, 0⟩, 0) = t at htracks hwords ⊢
  obtain ⟨n, colorMask⟩ := t
  dsimp only at htracks hwords ⊢
  have h12 := htracks.replace (hwords 12) (n.words 12 &&& colorMask)
  have hdepth := tracks_normalizeDepth h12 (by rw [words_replace]; exact hwords 13)
    (by rw [words_replace]; exact hwords 10)
  have hrest : ∀ j : Fin 20, 10 < j → j ≠ 12 → j ≠ 13 →
      (normalizeDepth (n.replace 12 (n.words 12 &&& colorMask))).words j = words j := by
    intro j hj h12 h13
    rw [words_normalizeDepth, if_neg (by omega), if_neg h13, words_replace, if_neg h12, hwords,
      if_neg (by omega)]
  have h11 := hdepth.replace (hrest 11 (by decide) (by decide) (by decide))
    ((normalizeDepth (n.replace 12 (n.words 12 &&& colorMask))).words 11 &&& 0x7)
  have h16 := words_replace (normalizeDepth (n.replace 12 (n.words 12 &&& colorMask))) 11
    ((normalizeDepth (n.replace 12 (n.words 12 &&& colorMask))).words 11 &&& 0x7) 16
  rw [if_neg (by decide), hrest 16 (by decide) (by decide) (by decide)] at h16
  generalize (normalizeDepth (n.replace 12 (n.words 12 &&& colorMask))).replace 11
    ((normalizeDepth (n.replace 12 (n.words 12 &&& colorMask))).words 11 &&& 0x7) = m at h11 h16 ⊢
  have hall : (if m.words 5 ≤ 1 then m.replace 16 (m.words 16 &&& ~~~0x2) else m).Tracks words := by
    split
    · exact h11.replace h16 _
    · exact h11
  rw [bne_iff_ne]
  exact not_congr hall

/-! ### The result -/

/-- The mask of a blend word depends on whether its target is bound. -/
theorem keyMask_blend (words : KeyWords) (i : Fin 4) :
    keyMask words (blendWord i) = blendMask (words (rtvWord i)) := by
  fin_cases i <;> rfl

/-- The format words are never masked. -/
theorem keyMask_rtv (words : KeyWords) (i : Fin 4) : keyMask words (rtvWord i) = BitVec.allOnes 32 := by
  fin_cases i <;> rfl

/-- The masks of the normal form are those of the key. -/
theorem keyMask_normal (words : KeyWords) :
    keyMask (normalizeNativePipelineKey words).1 = keyMask words := by
  have hkeep : ∀ j, keyMask words j = BitVec.allOnes 32 →
      (normalizeNativePipelineKey words).1 j = words j := fun j hj => by
    rw [words_normalizeNativePipelineKey, hj, and_all]
  have h10 : (normalizeNativePipelineKey words).1 10 =
      words 10 &&& depthMask (words 4) (words 10) := words_normalizeNativePipelineKey words 10
  have hrtv : (fun i => (normalizeNativePipelineKey words).1 (rtvWord i)) =
      fun i => words (rtvWord i) := funext fun i => hkeep _ (keyMask_rtv words i)
  have hbit : words 10 &&& depthMask (words 4) (words 10) &&& 0x1 = 0 ↔ words 10 &&& 0x1 = 0 := by
    rw [bit_eq_false_iff_one, bit_eq_false_iff_one, bit_and_depthMask]
  have hdepth : depthMask (words 4) (words 10 &&& depthMask (words 4) (words 10)) =
      depthMask (words 4) (words 10) := by
    by_cases h : words 10 &&& 0x1 = 0
    · rw [depthMask, if_pos (hbit.2 h)]
      rw [depthMask, if_pos h]
    · have h0 : bit (words 10) 0 = true := by
        rwa [bit_eq_false_iff_one, Bool.not_eq_false] at h
      have hback : words 10 &&& depthMask (words 4) (words 10) &&& 0x80 = 0 ↔
          words 10 &&& 0x80 = 0 := by
        rw [bit_eq_false_iff_backface, bit_eq_false_iff_backface,
          bit_and (getLsbD_depthMask_front _ _ h0 7 (by omega) (by omega))]
      generalize hd : words 10 &&& depthMask (words 4) (words 10) = d at hbit hback ⊢
      rw [depthMask, depthMask, if_neg h, if_neg fun h' => h (hbit.1 h')]
      simp only [hback]
  have hstencil : stencilMask (words 10 &&& depthMask (words 4) (words 10)) =
      stencilMask (words 10) := by
    unfold stencilMask
    simp only [hbit]
  have hwords : ∀ j : Fin 20, j ≤ 5 → (normalizeNativePipelineKey words).1 j = words j := by
    intro j hj
    refine hkeep j ?_
    obtain rfl | rfl | rfl | rfl | rfl | rfl : j = 0 ∨ j = 1 ∨ j = 2 ∨ j = 3 ∨ j = 4 ∨ j = 5 := by
      omega
    all_goals rfl
  unfold keyMask
  rw [h10, hrtv, hwords 0 (by decide), hwords 1 (by decide), hwords 2 (by decide),
    hwords 3 (by decide), hwords 4 (by decide), hwords 5 (by decide), hdepth, hstencil]

/-- **Normalizing again changes nothing**, and says so. -/
theorem normalizeNativePipelineKey_idempotent (words : KeyWords) :
    normalizeNativePipelineKey (normalizeNativePipelineKey words).1 =
      ((normalizeNativePipelineKey words).1, false) := by
  have hfst : (normalizeNativePipelineKey (normalizeNativePipelineKey words).1).1 =
      (normalizeNativePipelineKey words).1 := by
    funext j
    rw [words_normalizeNativePipelineKey, keyMask_normal, words_normalizeNativePipelineKey,
      BitVec.and_assoc, BitVec.and_self]
  refine Prod.ext hfst ?_
  rw [← Bool.not_eq_true, changed_normalizeNativePipelineKey, ne_eq, not_not]
  exact hfst

/-- The rasterizer state reads three bits of the mode register. -/
theorem rasterizer_and (state : GuestState) :
    rasterizer { state with suModeCntl := state.suModeCntl &&& 0x7 } = rasterizer state := by
  unfold rasterizer suCullFront suCullBack suFace
  rw [bit_and (by decide), bit_and (by decide), bit_and (by decide)]

/-- The draw the normal form stands for is the raw one with the words that no description reads
cleared. -/
theorem stateOf_normal (words : KeyWords) :
    stateOf (normalizeNativePipelineKey words).1 =
      { blendcontrol := fun i => words (blendWord i) &&& blendMask (words (rtvWord i))
        depthcontrol := words 10 &&& depthMask (words 4) (words 10)
        suModeCntl := words 11 &&& 0x7
        colorMask := words 12 &&& targetMask (fun i => words (rtvWord i)) [0, 1, 2, 3]
        stencilRefMask := words 13 &&& stencilMask (words 10)
        depthBias := words 14
        depthBiasSlope := words 15
        depthClip := bit (words 16 &&& switchMask (words 5)) 0
        alphaToMask := bit (words 16 &&& switchMask (words 5)) 1 } := by
  unfold stateOf
  simp only [words_normalizeNativePipelineKey, keyMask_blend]
  ext1
  all_goals first | rfl | exact and_all _

/-- A key and its normal form have one descriptor, or are both refused. -/
theorem descriptor_normal (pass : Pass Blob) (words : KeyWords) :
    descriptor pass (normalizeNativePipelineKey words).1 = descriptor pass words := by
  have hcontext : contextOf (normalizeNativePipelineKey words).1 = contextOf words := by
    unfold contextOf
    simp only [words_normalizeNativePipelineKey, keyMask_rtv, and_all]
    ext1
    all_goals first | rfl | exact and_all _
  have hroot : bit ((normalizeNativePipelineKey words).1 16) 2 = bit (words 16) 2 := by
    rw [words_normalizeNativePipelineKey]
    refine bit_and ?_
    change (switchMask (words 5)).getLsbD 2 = true
    unfold switchMask
    split <;> decide
  have hshader : (normalizeNativePipelineKey words).1 18 = words 18 := by
    rw [words_normalizeNativePipelineKey]
    exact and_all _
  have hclip : bit (words 16 &&& switchMask (words 5)) 0 = bit (words 16) 0 := by
    refine bit_and ?_
    unfold switchMask
    split <;> decide
  have hcoverage : alphaToCoverage (bit (words 16 &&& switchMask (words 5)) 1) (words 5) =
      alphaToCoverage (bit (words 16) 1) (words 5) := by
    unfold alphaToCoverage
    by_cases h : words 5 ≤ 1
    · rw [decide_eq_false (BitVec.not_lt.2 h), Bool.and_false, Bool.and_false]
    · rw [switchMask, if_neg h, and_all]
  have htargets : (fun i => targetBlend (words (rtvWord i))
      (words (blendWord i) &&& blendMask (words (rtvWord i)))
      (words 12 &&& targetMask (fun i => words (rtvWord i)) [0, 1, 2, 3]) i) =
      fun i => targetBlend (words (rtvWord i)) (words (blendWord i)) (words 12) i :=
    funext fun i => targetBlend_and _ _ _ i fun hbound b hb =>
      getLsbD_targetMask (mem_targets i) hbound hb
  have hraster : rasterizer (stateOf (normalizeNativePipelineKey words).1) =
      rasterizer (stateOf words) := by
    rw [stateOf_normal, hclip]
    exact rasterizer_and (stateOf words)
  have hcull : (suCullFront (words 11 &&& 0x7) && suCullBack (words 11 &&& 0x7)) =
      (suCullFront (words 11) && suCullBack (words 11)) := by
    rw [suCullFront, suCullBack, bit_and (by decide), bit_and (by decide)]
    rfl
  unfold descriptor createPipeline
  rw [hcontext, hroot, hshader, hraster, stateOf_normal]
  dsimp only [contextOf, stateOf]
  rw [hcull, hcoverage, htargets, depthStencil_and]
  rfl

/-- The context is read back from the raw key. -/
theorem contextOf_pipelineKeyFor (context : NativeDrawContext) (state : GuestState)
    (rootCbv noAlphaTest : Bool) :
    contextOf (pipelineKeyFor context state rootCbv noAlphaTest) = context := by
  ext1
  · funext i
    fin_cases i <;> rfl
  all_goals rfl

/-- The flags of the switches word. -/
theorem bit_switches : ∀ clip coverage rootCbv : Bool,
    bit (flag clip 1 ||| flag coverage 2 ||| flag rootCbv 4) 0 = clip ∧
    bit (flag clip 1 ||| flag coverage 2 ||| flag rootCbv 4) 1 = coverage ∧
    bit (flag clip 1 ||| flag coverage 2 ||| flag rootCbv 4) 2 = rootCbv := by decide

/-- The guest state is read back from the raw key. -/
theorem stateOf_pipelineKeyFor (context : NativeDrawContext) (state : GuestState)
    (rootCbv noAlphaTest : Bool) :
    stateOf (pipelineKeyFor context state rootCbv noAlphaTest) = state := by
  obtain ⟨hclip, hcoverage, -⟩ := bit_switches state.depthClip state.alphaToMask rootCbv
  ext1
  · funext i
    fin_cases i <;> rfl
  all_goals first | rfl | exact hclip | exact hcoverage

/-- The descriptor of a draw's key is the draw's. -/
theorem descriptor_pipelineKeyFor (pass : Pass Blob) (context : NativeDrawContext)
    (state : GuestState) (rootCbv noAlphaTest : Bool) :
    descriptor pass (pipelineKeyFor context state rootCbv noAlphaTest) =
      createPipeline pass context state rootCbv noAlphaTest := by
  have hroot : bit (pipelineKeyFor context state rootCbv noAlphaTest 16) 2 = rootCbv :=
    (bit_switches state.depthClip state.alphaToMask rootCbv).2.2
  have hshader : (pipelineKeyFor context state rootCbv noAlphaTest 18 != 0) = noAlphaTest := by
    cases noAlphaTest <;> rfl
  rw [descriptor, contextOf_pipelineKeyFor, stateOf_pipelineKeyFor, hroot, hshader]

/-- **Normalizing never merges different pipelines.**  Draws whose keys have one
normal form get one descriptor or are both refused; a key and its normal form have
the same descriptor, which is the draw's for the key of a draw; and normalizing
again changes nothing. -/
theorem normalizeNativePipelineKey_sound (pass : Pass Blob) :
    (∀ context state rootCbv noAlphaTest context' state' rootCbv' noAlphaTest',
      (normalizeNativePipelineKey (pipelineKeyFor context state rootCbv noAlphaTest)).1 =
          (normalizeNativePipelineKey (pipelineKeyFor context' state' rootCbv' noAlphaTest')).1 →
        createPipeline pass context state rootCbv noAlphaTest =
          createPipeline pass context' state' rootCbv' noAlphaTest') ∧
    (∀ context state rootCbv noAlphaTest,
      descriptor pass (pipelineKeyFor context state rootCbv noAlphaTest) =
        createPipeline pass context state rootCbv noAlphaTest) ∧
    (∀ words, descriptor pass (normalizeNativePipelineKey words).1 = descriptor pass words) ∧
    ∀ words, normalizeNativePipelineKey (normalizeNativePipelineKey words).1 =
      ((normalizeNativePipelineKey words).1, false) := by
  refine ⟨fun c s r n c' s' r' n' h => ?_, descriptor_pipelineKeyFor pass, descriptor_normal pass,
    normalizeNativePipelineKey_idempotent⟩
  rw [← descriptor_pipelineKeyFor, ← descriptor_pipelineKeyFor, ← descriptor_normal, h,
    descriptor_normal]

/-- One bound target, no depth, one sample. -/
def plainContext : NativeDrawContext := ⟨![28, 0, 0, 0], 0, 1, 0xFFFFFFFF⟩

/-- Opaque and without tests, whatever is in the fields nothing reads. -/
def plainState (depthcontrol colorMask : Reg) : GuestState where
  blendcontrol _ := 0x00010001
  depthcontrol
  suModeCntl := 0
  colorMask
  stencilRefMask := 0
  depthBias := 0
  depthBiasSlope := 0
  depthClip := true
  alphaToMask := false

def plainPass : Pass ℕ := ⟨0, 1, 2, some 3, none⟩

/-- The hypotheses are satisfiable: two keys that differ in the masks of unbound targets and in a
back face without stencil test have one normal form. -/
theorem normalizeNativePipelineKey_sound_plain :
    createPipeline plainPass plainContext (plainState 0 0xF) false false =
      createPipeline plainPass plainContext (plainState 0xFFF00080 0xFFFF) false false :=
  (normalizeNativePipelineKey_sound plainPass).1 _ _ _ _ _ _ _ _ (by decide +kernel)

end GeometryPass
end BoltsRebuilt
