/-
# Words packed by the command processor and unpacked by the prelude

`gpu/nb_command_processor.cpp`: the `param_gen` word (lines 1592-1608) and the
word of a texture slot (lines 1843-1869); `gpu/native/shaders/prelude.hlsl`:
`SwizzleComponent` and `ApplySwizzle` (lines 336-344), `TexExpScale` and
`TexLodBiasFor` (lines 351-363), `DrawScale` and `TexResolutionScaled` (lines
391-398), `OffsetsCountGuestTexels` and `TexSize3D` (lines 417-424), `Tex3DImpl`
(line 478) and `ParamGenOverride` (lines 585-593).

A native draw hands its shaders two kinds of packed words.  The word of a texture
slot holds the swizzle, or for a stacked texture its depth and layer filter, with
the exponent and LOD biases of the fetch constant above it, both signed, and a
flag for resolution-scaled resolves.  The other word holds which interpolator the
generated parameters replace and the draw resolution scale.

`textureWord_eq`, `paramGenWord_eq`: each word is its fields side by side, so each
reader in the prelude reads one of them (`Lib/Packing`).
-/

import BoltsRebuilt.Lib.Bits
import BoltsRebuilt.Lib.Packing
import Mathlib.Algebra.Field.Rat

namespace BoltsRebuilt
namespace PackedWords

open Bits Packing

/-! ### The word of a texture slot -/

/-- The fields of a fetch constant that are packed.  The exponent and LOD biases are
signed; the filter may have any width that fits. -/
structure TextureFetch where
  swizzle : BitVec 12
  stackDepth : BitVec 6
  volMagFilter : BitVec 6
  expAdjust : BitVec 6
  lodBias : BitVec 10

/-- `args.texture_swizzle[slot]`, with `nb_native_exp_bias`, whether the shader
fetches the slot as a stack, and `IsActiveTextureResolutionScaled`. -/
def textureWord (expBias stackedFetch resolutionScaled : Bool) (fetch : TextureFetch) : BitVec 32 :=
  let expBits := if expBias then fetch.expAdjust.signExtend 32 &&& 0x3F else 0
  let lowBits :=
    if stackedFetch then fetch.stackDepth.setWidth 32 ||| fetch.volMagFilter.setWidth 32 <<< 6
    else fetch.swizzle.setWidth 32
  let lodBits := fetch.lodBias.signExtend 32 &&& 0x3FF
  let scaledBit := if resolutionScaled then (1 : BitVec 32) <<< 28 else 0
  lowBits ||| expBits <<< 12 ||| lodBits <<< 18 ||| scaledBit

/-- The selector of component `k` in `ApplySwizzle`. -/
def swizzleSelector (swz : BitVec 32) (k : Fin 4) : BitVec 32 := swz >>> (3 * k.val) &&& 7

/-- `bias` in `TexExpScale`. -/
def texExpBias (swz : BitVec 32) : ℤ :=
  let bias := (swz >>> 12 &&& 0x3F).toInt
  if 32 ≤ bias then bias - 64 else bias

/-- `TexExpScale`. -/
def texExpScale (swz : BitVec 32) : ℚ := 2 ^ texExpBias swz

/-- `TexLodBiasFor`, in mip units. -/
def texLodBias (swz : BitVec 32) : ℚ := ((swz <<< 4).sshiftRight 22).toInt / 32

/-- `TexResolutionScaled`. -/
def texResolutionScaled (swz : BitVec 32) : Bool := swz &&& 0x10000000 ≠ 0

/-- The depth in `TexSize3D`. -/
def texLayers (swz : BitVec 32) : ℕ := (swz &&& 63).toNat + 1

/-- `linear_layers` in `Tex3DImpl`. -/
def linearLayers (swz : BitVec 32) : Bool := swz &&& 64 ≠ 0

/-- The low field: the swizzle, or the depth and the filter above it. -/
def lowField (stackedFetch : Bool) (fetch : TextureFetch) : BitVec 12 :=
  if stackedFetch then fetch.stackDepth.setWidth 12 ||| fetch.volMagFilter.setWidth 12 <<< 6
  else fetch.swizzle

/-- The word is its fields, side by side, each in the bits the source shifts it to. -/
theorem textureWord_eq (expBias stackedFetch resolutionScaled : Bool) (fetch : TextureFetch) :
    textureWord expBias stackedFetch resolutionScaled fetch =
      (lowField stackedFetch fetch).setWidth 32 <<< 0 |||
        (if expBias then fetch.expAdjust else 0).setWidth 32 <<< 12 |||
        fetch.lodBias.setWidth 32 <<< 18 |||
        (BitVec.ofBool resolutionScaled).setWidth 32 <<< 28 := by
  have hlow : (if stackedFetch then fetch.stackDepth.setWidth 32 ||| fetch.volMagFilter.setWidth 32 <<< 6
      else fetch.swizzle.setWidth 32) = (lowField stackedFetch fetch).setWidth 32 <<< 0 := by
    rw [BitVec.shiftLeft_zero, lowField]
    cases stackedFetch with
    | false => rfl
    | true =>
        have hdepth : (fetch.stackDepth.setWidth 12 <<< 0).setWidth 32 =
            fetch.stackDepth.setWidth 32 <<< 0 := setWidth_place _ (by decide)
        rw [BitVec.shiftLeft_zero, BitVec.shiftLeft_zero] at hdepth
        rw [if_pos rfl, if_pos rfl, BitVec.setWidth_or, setWidth_place _ (by decide), hdepth]
  have hexp : (if expBias then fetch.expAdjust.signExtend 32 &&& 0x3F else 0) =
      (if expBias then fetch.expAdjust else 0).setWidth 32 := by
    cases expBias with
    | false => rfl
    | true => exact signExtend_and (by decide)
  have hlod : fetch.lodBias.signExtend 32 &&& 0x3FF = fetch.lodBias.setWidth 32 :=
    signExtend_and (by decide)
  have hscaled : (if resolutionScaled then (1 : BitVec 32) <<< 28 else 0) =
      (BitVec.ofBool resolutionScaled).setWidth 32 <<< 28 := by
    cases resolutionScaled <;> rfl
  rw [textureWord, hlow, hexp, hlod, hscaled]

/-- Every field is read back whole, and the top bits are clear. -/
theorem textureWord_fields (expBias stackedFetch resolutionScaled : Bool) (fetch : TextureFetch) :
    (textureWord expBias stackedFetch resolutionScaled fetch).extractLsb' 0 12 =
        lowField stackedFetch fetch ∧
      (textureWord expBias stackedFetch resolutionScaled fetch).extractLsb' 12 6 =
        (if expBias then fetch.expAdjust else 0) ∧
      (textureWord expBias stackedFetch resolutionScaled fetch).extractLsb' 18 10 = fetch.lodBias ∧
      (textureWord expBias stackedFetch resolutionScaled fetch).extractLsb' 28 1 =
        BitVec.ofBool resolutionScaled ∧
      (textureWord expBias stackedFetch resolutionScaled fetch).extractLsb' 29 3 = 0 := by
  rw [textureWord_eq]
  refine ⟨?_, ?_, ?_, ?_, ?_⟩ <;>
    simp (disch := decide) only [BitVec.extractLsb'_or, extract_place, extract_place_above,
      extract_place_below, BitVec.or_zero, BitVec.zero_or]
  rfl

/-! ### The word of the generated parameters -/

/-- A draw resolution scale; the texture cache asserts that it is positive on both
axes. -/
structure DrawResolutionScale where
  x : BitVec 32
  y : BitVec 32
  x_pos : 1 ≤ x.toNat
  y_pos : 1 ≤ y.toNat

/-- `std::min<uint32_t>(scale, 16u)`. -/
def cappedScale (scale : BitVec 32) : BitVec 32 := if 16 < scale then 16 else scale

/-- `root.param_gen`, from `SQ_PROGRAM_CNTL.param_gen`,
`SQ_CONTEXT_MISC.param_gen_pos`, the scale and
`draw_resolution_scaled_texture_offsets`. -/
def paramGenWord (paramGen : Bool) (paramGenPos : BitVec 32) (scale : DrawResolutionScale)
    (scaledTextureOffsets : Bool) : BitVec 32 :=
  let word := if paramGen then 0x100 ||| (paramGenPos &&& 0xFF) else 0
  let word := word ||| ((cappedScale scale.x - 1) <<< 16 ||| (cappedScale scale.y - 1) <<< 20)
  if (1 < scale.x ∨ 1 < scale.y) ∧ scaledTextureOffsets = false then word ||| (1 : BitVec 32) <<< 24
  else word

/-- Whether `ParamGenOverride` replaces an interpolator register. -/
def paramGenOverrides (word reg : BitVec 32) : Bool :=
  ¬ (word &&& 0x100 = 0 ∨ word &&& 0xFF ≠ reg)

/-- `DrawScale`. -/
def drawScale (word : BitVec 32) : ℕ × ℕ :=
  ((word >>> 16 &&& 0xF).toNat + 1, (word >>> 20 &&& 0xF).toNat + 1)

/-- `OffsetsCountGuestTexels`. -/
def offsetsCountGuestTexels (word : BitVec 32) : Bool := word &&& 0x1000000 ≠ 0

/-- Whether the draw's offsets count guest texels. -/
def guestOffsets (scale : DrawResolutionScale) (scaledTextureOffsets : Bool) : Bool :=
  (1 < scale.x ∨ 1 < scale.y) ∧ scaledTextureOffsets = false

/-- A capped scale less one fits the four bits it is given. -/
theorem cappedScale_sub_one {scale : BitVec 32} (h : 1 ≤ scale.toNat) :
    (cappedScale scale - 1).toNat = min scale.toNat 16 - 1 := by
  have hlt := scale.isLt
  have hcapped : (cappedScale scale).toNat = min scale.toNat 16 := by
    rw [cappedScale]
    split
    · rename_i hbig
      have hbig := BitVec.lt_def.1 hbig
      change 16 < scale.toNat at hbig
      change 16 = _
      omega
    · rename_i hsmall
      have hsmall : ¬ 16 < scale.toNat := fun h => hsmall (BitVec.lt_def.2 h)
      omega
  rw [BitVec.toNat_sub_of_le (BitVec.le_def.2 ?_), hcapped]
  · rfl
  · rw [hcapped]
    change 1 ≤ _
    omega

/-- The word is its fields, side by side, each in the bits the source shifts it to. -/
theorem paramGenWord_eq (paramGen : Bool) (paramGenPos : BitVec 32) (scale : DrawResolutionScale)
    (scaledTextureOffsets : Bool) :
    paramGenWord paramGen paramGenPos scale scaledTextureOffsets =
      (if paramGen then paramGenPos.setWidth 8 else 0).setWidth 32 <<< 0 |||
        (BitVec.ofBool paramGen).setWidth 32 <<< 8 |||
        ((cappedScale scale.x - 1).setWidth 4).setWidth 32 <<< 16 |||
        ((cappedScale scale.y - 1).setWidth 4).setWidth 32 <<< 20 |||
        (BitVec.ofBool (guestOffsets scale scaledTextureOffsets)).setWidth 32 <<< 24 := by
  have hfits : ∀ s : BitVec 32, 1 ≤ s.toNat →
      ((cappedScale s - 1).setWidth 4).setWidth 32 = cappedScale s - 1 := by
    intro s hs
    refine setWidth_setWidth_of_lt ?_
    rw [cappedScale_sub_one hs]
    omega
  have hlow : (if paramGen then 0x100 ||| (paramGenPos &&& 0xFF) else 0) =
      (if paramGen then paramGenPos.setWidth 8 else 0).setWidth 32 <<< 0 |||
        (BitVec.ofBool paramGen).setWidth 32 <<< 8 := by
    rw [BitVec.shiftLeft_zero]
    cases paramGen with
    | false =>
        rw [if_neg Bool.false_ne_true, if_neg Bool.false_ne_true]
        rfl
    | true =>
        have hmask : (paramGenPos.setWidth 8).setWidth 32 = paramGenPos &&& 0xFF := by
          refine BitVec.eq_of_getLsbD_eq fun i hi => ?_
          have hbits : ∀ i < 32, (0xFF : BitVec 32).getLsbD i = decide (i < 8) := by decide
          rw [BitVec.getLsbD_setWidth, BitVec.getLsbD_setWidth, BitVec.getLsbD_and, hbits i hi,
            decide_eq_true hi, Bool.true_and, Bool.and_comm]
        rw [if_pos rfl, if_pos rfl, hmask, BitVec.or_comm]
        rfl
  have hflag : ∀ word : BitVec 32, (if (1 < scale.x ∨ 1 < scale.y) ∧ scaledTextureOffsets = false then
      word ||| (1 : BitVec 32) <<< 24 else word) =
        word ||| (BitVec.ofBool (guestOffsets scale scaledTextureOffsets)).setWidth 32 <<< 24 := by
    intro word
    rw [guestOffsets]
    split
    · rename_i h
      rw [decide_eq_true h]
      rfl
    · rename_i h
      rw [decide_eq_false h]
      exact (BitVec.or_zero).symm
  rw [paramGenWord, hlow, hflag, hfits _ scale.x_pos, hfits _ scale.y_pos]
  simp only [BitVec.or_assoc]

/-- Every field is read back whole. -/
theorem paramGenWord_fields (paramGen : Bool) (paramGenPos : BitVec 32) (scale : DrawResolutionScale)
    (scaledTextureOffsets : Bool) :
    (paramGenWord paramGen paramGenPos scale scaledTextureOffsets).extractLsb' 0 8 =
        (if paramGen then paramGenPos.setWidth 8 else 0) ∧
      (paramGenWord paramGen paramGenPos scale scaledTextureOffsets).extractLsb' 8 1 =
        BitVec.ofBool paramGen ∧
      (paramGenWord paramGen paramGenPos scale scaledTextureOffsets).extractLsb' 16 4 =
        (cappedScale scale.x - 1).setWidth 4 ∧
      (paramGenWord paramGen paramGenPos scale scaledTextureOffsets).extractLsb' 20 4 =
        (cappedScale scale.y - 1).setWidth 4 ∧
      (paramGenWord paramGen paramGenPos scale scaledTextureOffsets).extractLsb' 24 1 =
        BitVec.ofBool (guestOffsets scale scaledTextureOffsets) := by
  rw [paramGenWord_eq]
  refine ⟨?_, ?_, ?_, ?_, ?_⟩ <;>
    simp (disch := decide) only [BitVec.extractLsb'_or, extract_place, extract_place_above,
      extract_place_below, BitVec.or_zero, BitVec.zero_or]

/-! ### What the prelude reads -/

/-- The shader's test of a flag's bit reads the flag. -/
theorem and_twoPow_of_field {word : BitVec 32} {k : ℕ} {b : Bool} (hk : k < 32)
    (h : word.extractLsb' k 1 = BitVec.ofBool b) : decide (word &&& BitVec.twoPow 32 k ≠ 0) = b := by
  have hbit : word.getLsbD k = b := by
    have hzero := congrArg (BitVec.getLsbD · 0) h
    simpa [BitVec.getLsbD_extractLsb'] using hzero
  rw [Bool.eq_iff_iff, decide_eq_true_eq, and_twoPow_ne_zero hk, hbit]

/-- A field read by a shift and a mask, as a number. -/
theorem toNat_of_field {word mask : BitVec 32} {k v : ℕ} {x : BitVec v} (hv : v ≤ 32)
    (hmask : ∀ i < 32, mask.getLsbD i = decide (i < v)) (h : word.extractLsb' k v = x) :
    (word >>> k &&& mask).toNat = x.toNat := by
  rw [ushiftRight_and hmask, h, BitVec.toNat_setWidth,
    Nat.mod_eq_of_lt (x.isLt.trans_le (Nat.pow_le_pow_right Nat.two_pos hv))]

/-- The six-bit sign extension of `TexExpScale` is that of the field. -/
theorem texExpBias_eq (swz : BitVec 32) : texExpBias swz = (swz.extractLsb' 12 6).toInt := by
  rw [texExpBias, ushiftRight_and (v := 6) (by decide)]
  obtain ⟨e, he⟩ : ∃ e, swz.extractLsb' 12 6 = e := ⟨_, rfl⟩
  have hlt := e.isLt
  have hword : (e.setWidth 32).toInt = e.toNat := by
    rw [BitVec.toInt_eq_toNat_cond, BitVec.toNat_setWidth, Nat.mod_eq_of_lt (by omega), if_pos (by omega)]
  rw [he, hword, BitVec.toInt_eq_toNat_cond]
  split
  · rw [if_neg (by omega)]
    rfl
  · rw [if_pos (by omega)]

/-- **The packed words agree.** In the word of a texture slot the prelude reads the
swizzle, or the depth and the filter, the two signed biases and the flag that were
packed, for any fetch constant, and nothing above them; in the other word it reads
the register, the enable, the scale on both axes up to 16 and the flag, for any
register value and scale. -/
theorem packed_words_agree :
    (∀ (expBias stackedFetch resolutionScaled : Bool) (fetch : TextureFetch),
      let word := textureWord expBias stackedFetch resolutionScaled fetch
      (if stackedFetch then
        texLayers word = fetch.stackDepth.toNat + 1 ∧ linearLayers word = fetch.volMagFilter.getLsbD 0 ∧
          word.extractLsb' 6 6 = fetch.volMagFilter
      else ∀ k : Fin 4, swizzleSelector word k = (fetch.swizzle.extractLsb' (3 * k.val) 3).setWidth 32) ∧
      texExpScale word = 2 ^ (if expBias then fetch.expAdjust.toInt else 0) ∧
      texLodBias word = fetch.lodBias.toInt / 32 ∧
      texResolutionScaled word = resolutionScaled ∧ word.extractLsb' 29 3 = 0) ∧
    ∀ (paramGen : Bool) (paramGenPos : BitVec 32) (scale : DrawResolutionScale)
      (scaledTextureOffsets : Bool),
      let word := paramGenWord paramGen paramGenPos scale scaledTextureOffsets
      (∀ reg, paramGenOverrides word reg = (paramGen && decide (paramGenPos &&& 0xFF = reg))) ∧
      drawScale word = (min scale.x.toNat 16, min scale.y.toNat 16) ∧
      offsetsCountGuestTexels word =
        ((1 < scale.x ∨ 1 < scale.y) ∧ scaledTextureOffsets = false : Bool) := by
  refine ⟨fun expBias stackedFetch resolutionScaled fetch => ?_, fun paramGen paramGenPos scale offsets => ?_⟩
  · obtain ⟨hlow, hexp, hlod, hscaled, htop⟩ :=
      textureWord_fields expBias stackedFetch resolutionScaled fetch
    obtain ⟨word, hword⟩ : ∃ word, textureWord expBias stackedFetch resolutionScaled fetch = word := ⟨_, rfl⟩
    rw [hword] at hlow hexp hlod hscaled htop
    dsimp only
    rw [hword]
    refine ⟨?_, ?_, ?_, and_twoPow_of_field (k := 28) (by decide) hscaled, htop⟩
    · have hpart : ∀ k v, k + v ≤ 12 →
          word.extractLsb' k v = (lowField stackedFetch fetch).extractLsb' k v := by
        intro k v hk
        rw [← hlow, BitVec.extractLsb'_extractLsb'_of_le hk]
      rw [lowField] at hpart
      cases stackedFetch with
      | false =>
          rw [if_neg Bool.false_ne_true] at hpart ⊢
          intro k
          rw [swizzleSelector, ushiftRight_and (v := 3) (by decide), hpart _ _ (by omega)]
      | true =>
          rw [if_pos rfl] at hpart ⊢
          have hdepth : word.extractLsb' 0 6 = fetch.stackDepth := by
            rw [hpart 0 6 (by decide), BitVec.extractLsb'_or, extract_place_below _ (by decide),
              BitVec.or_zero]
            have hplace := extract_place (n := 12) (k := 0) fetch.stackDepth (by decide)
            rwa [BitVec.shiftLeft_zero] at hplace
          have hfilter : word.extractLsb' 6 6 = fetch.volMagFilter := by
            rw [hpart 6 6 (by decide), BitVec.extractLsb'_or, extract_place _ (by decide)]
            have habove : (fetch.stackDepth.setWidth 12 <<< 0).extractLsb' 6 6 = 0#6 :=
              extract_place_above fetch.stackDepth (by decide)
            rw [BitVec.shiftLeft_zero] at habove
            rw [habove, BitVec.zero_or]
          refine ⟨?_, ?_, hfilter⟩
          · have hlayers : (word >>> 0 &&& 63).toNat = fetch.stackDepth.toNat :=
              toNat_of_field (by decide) (by decide) hdepth
            rw [BitVec.ushiftRight_zero] at hlayers
            rw [texLayers, hlayers]
          · have hbit : word.getLsbD 6 = fetch.volMagFilter.getLsbD 0 := by
              rw [← hfilter, BitVec.getLsbD_extractLsb']
              rfl
            rw [linearLayers, Bool.eq_iff_iff, decide_eq_true_eq, ← hbit]
            exact and_twoPow_ne_zero (i := 6) (by decide)
    · rw [texExpScale, texExpBias_eq, hexp]
      cases expBias <;> rfl
    · rw [texLodBias, sshiftRight_shiftLeft (k := 18) (v := 10) (by decide) (by decide) (by decide), hlod,
        BitVec.toInt_signExtend_of_le (by decide)]
  · obtain ⟨hpos, henable, hx, hy, hflag⟩ := paramGenWord_fields paramGen paramGenPos scale offsets
    obtain ⟨word, hword⟩ : ∃ word, paramGenWord paramGen paramGenPos scale offsets = word := ⟨_, rfl⟩
    rw [hword] at hpos henable hx hy hflag
    dsimp only
    rw [hword]
    have hscale : ∀ s : BitVec 32, 1 ≤ s.toNat →
        ((cappedScale s - 1).setWidth 4).toNat + 1 = min s.toNat 16 := by
      intro s hs
      rw [BitVec.toNat_setWidth, cappedScale_sub_one hs, Nat.mod_eq_of_lt (by omega)]
      omega
    refine ⟨fun reg => ?_, ?_, and_twoPow_of_field (k := 24) (by decide) hflag⟩
    · have hmask : word &&& 0xFF = if paramGen then paramGenPos &&& 0xFF else 0 := by
        have hbits : ∀ i < 32, (0xFF : BitVec 32).getLsbD i = decide (i < 8) := by decide
        have hread : ∀ x : BitVec 32, x &&& 0xFF = (x.extractLsb' 0 8).setWidth 32 := by
          intro x
          rw [← ushiftRight_and hbits, BitVec.ushiftRight_zero]
        rw [hread, hread, hpos]
        cases paramGen <;> rfl
      have hbit : (decide (word &&& 0x100 ≠ 0)) = paramGen := and_twoPow_of_field (k := 8) (by decide) henable
      rw [paramGenOverrides, hmask]
      cases paramGen with
      | false =>
          rw [decide_eq_false_iff_not, not_not] at hbit
          rw [Bool.false_and, decide_eq_false_iff_not, not_not]
          exact .inl hbit
      | true =>
          rw [decide_eq_true_eq] at hbit
          rw [Bool.true_and, if_pos rfl]
          refine decide_eq_decide.2 ⟨fun h => ?_, fun h hor => ?_⟩
          · exact not_not.1 fun hne => h (.inr hne)
          · exact hor.elim hbit fun hne => hne h
    · rw [drawScale, toNat_of_field (by decide) (by decide) hx, toNat_of_field (by decide) (by decide) hy,
        hscale _ scale.x_pos, hscale _ scale.y_pos]

end PackedWords
end BoltsRebuilt
