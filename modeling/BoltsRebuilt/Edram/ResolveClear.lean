/-
# What a resolve clears

`RenderTargetCache::PrepareHostRenderTargetsResolveClear`
(`vendored/src/graphics/pipeline/render_target/cache.cpp`, lines 994-1128) makes of a resolve
the rectangle to clear, and the tiles of the depth and of the color target that are taken over
before: from the tile of the rectangle's first pixel to that of its last, row by row.  Where
the other one starts each is cut short (lines 1104-1128).

The rectangle is not cut with the tiles.  The host clears all of it in both targets
(`D3D12RenderTargetCache::PerformTransfersAndResolveClears`, `d3d12/render_target_cache.cpp`,
lines 4211-4220 and 5023-5147), so after a cut a target is also cleared in tiles it has not
taken over.  If the two have no tile in common nothing is cut (`cutAt_eq`), and every tile the
rectangle meets is one of those taken over (`made_of_prepare`).

The offsets of the rectangle are words that may wrap around.  They are cut to the pitch, which
has been checked, and to the height of the target, so nothing after them gets near 2^32
(`clearRectangle_inWords`).  The fields of `draw_util::ResolveInfo` are the SDK's.
-/

import BoltsRebuilt.Edram.Contents

namespace BoltsRebuilt
namespace Edram

/-- What is read of a `ResolveEdramInfo`, with the resource format its format stands for. -/
structure EdramInfo where
  pitchTiles : ℕ
  baseTiles : ℕ
  msaaSamples : BitVec 2 := 0
  resourceFormat : BitVec 4 := 0
  formatIs64bpp : Bool := false

/-- What is read of a `draw_util::ResolveInfo`. -/
structure ResolveInfo where
  isClearingDepth : Bool := false
  isClearingColor : Bool := false
  depthEdramInfo : EdramInfo
  colorEdramInfo : EdramInfo
  depthOriginalBase : ℕ
  colorOriginalBase : ℕ
  edramOffsetXDiv8 : ℕ := 0
  edramOffsetYDiv8 : ℕ := 0
  widthDiv8 : ℕ
  heightDiv8 : ℕ

/-- `depth_clear_start_tiles_wrapped` and `color_clear_start_tiles_wrapped`. -/
def Clear.startTilesWrapped (clear : Clear) : ℕ :=
  (clear.key.baseTiles.toNat + clear.startTilesBaseRelative) % kEdramTileCount

/-- A clear begins inside the EDRAM. -/
theorem Clear.startTilesWrapped_lt (clear : Clear) : clear.startTilesWrapped < kEdramTileCount :=
  Nat.mod_lt _ (by decide)

/-- The tiles of a clear. -/
def Clear.Covers (clear : Clear) (t : ℕ) : Prop :=
  Claimant.Covers clear.startTilesWrapped clear.lengthTiles t

/-- And covers tiles of it only. -/
theorem Clear.Covers.lt {clear : Clear} {t : ℕ} (h : clear.Covers t) : t < kEdramTileCount := by
  have hstart := clear.startTilesWrapped_lt
  unfold Clear.Covers Claimant.Covers at h
  omega

/-- A clear up to where the other one starts, in these 11 bits of the tile index or the next. -/
def Clear.cutAt (clear other : Clear) : Clear :=
  { clear with
    lengthTiles := min clear.lengthTiles
      ((if other.startTilesWrapped < clear.startTilesWrapped then kEdramTileCount else 0) +
        other.startTilesWrapped - clear.startTilesWrapped) }

/-- `msaa_samples_x_log2` and `msaa_samples_y_log2`. -/
def samplesXLog2 (msaaSamples : BitVec 2) : ℕ := if msaaSamples ≥ 2 then 1 else 0
def samplesYLog2 (msaaSamples : BitVec 2) : ℕ := if msaaSamples ≥ 1 then 1 else 0

namespace ResolveInfo

variable (sdk : Sdk) (config : Config) (info : ResolveInfo)

/-- `pitch_tiles_at_32bpp`, `base_offset_tiles_at_32bpp` and `msaa_samples` (lines 1000-1026). -/
def pitchAndOffset : Option (ℕ × ℕ × BitVec 2) :=
  if info.isClearingDepth then
    some (info.depthEdramInfo.pitchTiles, sub32 info.depthEdramInfo.baseTiles info.depthOriginalBase,
      info.depthEdramInfo.msaaSamples)
  else if info.isClearingColor then
    let is64bpp := info.colorEdramInfo.formatIs64bpp.toNat
    some (info.colorEdramInfo.pitchTiles >>> is64bpp,
      sub32 info.colorEdramInfo.baseTiles info.colorOriginalBase >>> is64bpp, info.colorEdramInfo.msaaSamples)
  else none

/-- `depth_render_target_key` and `color_render_target_key` (lines 1131-1158). -/
def depthKey (pitchTilesAt32bpp : ℕ) (msaaSamples : BitVec 2) : RenderTargetKey where
  baseTiles := BitVec.ofNat 11 info.depthOriginalBase
  pitchTilesAt32bpp := BitVec.ofNat 8 pitchTilesAt32bpp
  msaaSamples := msaaSamples
  isDepth := true
  resourceFormat := info.depthEdramInfo.resourceFormat
def colorKey (pitchTilesAt32bpp : ℕ) (msaaSamples : BitVec 2) : RenderTargetKey where
  baseTiles := BitVec.ofNat 11 info.colorOriginalBase
  pitchTilesAt32bpp := BitVec.ofNat 8 pitchTilesAt32bpp
  msaaSamples := msaaSamples
  isDepth := false
  resourceFormat := info.colorEdramInfo.resourceFormat

/-- `clear_rectangle` (lines 1052-1068). -/
def clearRectangle (pitchTilesAt32bpp baseOffsetTiles : ℕ) (msaaSamples : BitVec 2) : Rectangle :=
  let tileWidth := sdk.kEdramTileWidthSamples >>> samplesXLog2 msaaSamples
  let tileHeight := sdk.kEdramTileHeightSamples >>> samplesYLog2 msaaSamples
  let pitchPixels := pitchTilesAt32bpp * tileWidth
  let height := ({ msaaSamples } : Draw).getRenderTargetHeight sdk config pitchTilesAt32bpp
  let offsetRows := baseOffsetTiles / pitchTilesAt32bpp
  let xPixels := min (add32 (mul32 (sub32 baseOffsetTiles (mul32 offsetRows pitchTilesAt32bpp)) tileWidth)
    (mul32 info.edramOffsetXDiv8 8)) pitchPixels
  let yPixels := min (add32 (mul32 offsetRows tileHeight) (mul32 info.edramOffsetYDiv8 8)) height
  ⟨xPixels, yPixels, min (mul32 info.widthDiv8 8) (pitchPixels - xPixels),
    min (mul32 info.heightDiv8 8) (height - yPixels)⟩

/-- `clear_start_tiles_at_32bpp` (lines 1077-1080). -/
def clearStartTiles (pitchTilesAt32bpp : ℕ) (msaaSamples : BitVec 2) (rectangle : Rectangle) : ℕ :=
  ((rectangle.yPixels <<< samplesYLog2 msaaSamples) / sdk.kEdramTileHeightSamples) * pitchTilesAt32bpp +
    (rectangle.xPixels <<< samplesXLog2 msaaSamples) / sdk.kEdramTileWidthSamples

/-- `clear_start_tiles_at_32bpp + clear_length_tiles_at_32bpp` (lines 1081-1087). -/
def clearEndTiles (pitchTilesAt32bpp : ℕ) (msaaSamples : BitVec 2) (rectangle : Rectangle) : ℕ :=
  (((rectangle.yPixels + rectangle.heightPixels - 1) <<< samplesYLog2 msaaSamples) /
      sdk.kEdramTileHeightSamples) * pitchTilesAt32bpp +
    ((rectangle.xPixels + rectangle.widthPixels - 1) <<< samplesXLog2 msaaSamples) /
      sdk.kEdramTileWidthSamples + 1

/-- The tiles of one target, up to where the tile index is back at its base (lines 1088-1103). -/
def clearOf (key : RenderTargetKey) (clearing : Bool) (startTiles endTiles is64bpp : ℕ) : Clear :=
  if clearing then
    { key
      startTilesBaseRelative := min (startTiles <<< is64bpp) kEdramTileCount
      lengthTiles :=
        min (endTiles <<< is64bpp) kEdramTileCount - min (startTiles <<< is64bpp) kEdramTileCount }
  else ⟨key, 0, 0⟩

/-- The rectangle, and the clears of the depth and of the color target before they are cut; or
nothing where the function returns. -/
def ranges : Option (Rectangle × Clear × Clear) :=
  info.pitchAndOffset.bind fun (pitchTilesAt32bpp, baseOffsetTiles, msaaSamples) =>
    if pitchTilesAt32bpp = 0 then none
    else if pitchTilesAt32bpp > ((sdk.kTexture2DCubeMaxWidthHeight <<< samplesXLog2 msaaSamples) +
        (sdk.kEdramTileWidthSamples - 1)) / sdk.kEdramTileWidthSamples then none
    else if pitchTilesAt32bpp * (sdk.kEdramTileWidthSamples >>> samplesXLog2 msaaSamples) *
        config.drawResolutionScaleX > config.maxRenderTargetWidth then none
    else
      let rectangle := info.clearRectangle sdk config pitchTilesAt32bpp baseOffsetTiles msaaSamples
      if rectangle.widthPixels = 0 ∨ rectangle.heightPixels = 0 then none
      else
        let startTiles := clearStartTiles sdk pitchTilesAt32bpp msaaSamples rectangle
        let endTiles := clearEndTiles sdk pitchTilesAt32bpp msaaSamples rectangle
        some (rectangle,
          clearOf (info.depthKey pitchTilesAt32bpp msaaSamples) info.isClearingDepth startTiles endTiles 0,
          clearOf (info.colorKey pitchTilesAt32bpp msaaSamples) info.isClearingColor startTiles endTiles
            info.colorEdramInfo.formatIs64bpp.toNat)

/-- `PrepareHostRenderTargetsResolveClear` up to the targets (lines 994-1128). -/
def prepare : Option (Rectangle × List Clear) :=
  (info.ranges sdk config).map fun (rectangle, depth, color) =>
    (rectangle, if depth.lengthTiles ≠ 0 ∧ color.lengthTiles ≠ 0 then
      [depth.cutAt color, color.cutAt depth] else [depth, color])

/-- The depth and the color target have no tile to clear in common. -/
def Apart : Prop :=
  ∀ rectangle depth color, info.ranges sdk config = some (rectangle, depth, color) →
    ∀ t, depth.Covers t → ¬color.Covers t

/-- `format_is_64bpp` is what the format says. -/
def Formatted (surface : Surface) : Prop :=
  ∀ pitchTilesAt32bpp msaaSamples, surface.is64bpp (info.colorKey pitchTilesAt32bpp msaaSamples) =
    info.colorEdramInfo.formatIs64bpp

end ResolveInfo

/-! ### Without a cut -/

/-- Ranges that have no tile in common do not reach each other. -/
theorem cutAt_eq {clear other : Clear} (hlength : clear.lengthTiles ≤ kEdramTileCount)
    (hother : other.lengthTiles ≠ 0) (hapart : ∀ t, clear.Covers t → ¬other.Covers t) :
    clear.cutAt other = clear := by
  have hstart := clear.startTilesWrapped_lt
  have hstart' := other.startTilesWrapped_lt
  -- the other one covers its own start
  have hcovers : other.Covers other.startTilesWrapped :=
    .inl ⟨le_rfl, lt_min (Nat.lt_add_of_pos_right (Nat.pos_of_ne_zero hother)) hstart'⟩
  have hnot : ¬Claimant.Covers clear.startTilesWrapped clear.lengthTiles other.startTilesWrapped :=
    fun h => hapart _ h hcovers
  have hreach : clear.lengthTiles ≤
      (if other.startTilesWrapped < clear.startTilesWrapped then kEdramTileCount else 0) +
        other.startTilesWrapped - clear.startTilesWrapped := by
    unfold Claimant.Covers at hnot
    unfold kEdramTileCount at *
    split_ifs <;> omega
  rw [Clear.cutAt, Nat.min_eq_left hreach]

/-! ### The tiles of the rectangle -/

section Tiles

variable {sdk : Sdk} {surface : Surface} {config : Config} {info : ResolveInfo} {rectangle : Rectangle}
  {depth color : Clear} {pitchTiles : ℕ} {msaaSamples : BitVec 2} {p : ℕ × ℕ}

/-- The sample of a pixel and the pixel are in the same tile. -/
theorem shiftLeft_div {x samples : ℕ} {log2 : ℕ} (hdvd : 2 ^ log2 ∣ samples) :
    (x <<< log2) / samples = x / (samples >>> log2) := by
  obtain ⟨k, rfl⟩ := hdvd
  rw [Nat.shiftLeft_eq, Nat.shiftRight_eq_div_pow, Nat.mul_div_cancel_left _ (Nat.two_pow_pos _),
    Nat.mul_comm x, Nat.mul_div_mul_left _ _ (Nat.two_pow_pos _)]

/-- A position in rows is between those of the corners of the rectangle it is in. -/
theorem rows_between (pitch : ℕ) {a b c d e f : ℕ} (hac : a ≤ c) (hce : c ≤ e) (hbd : b ≤ d) (hdf : d ≤ f) :
    a * pitch + b ≤ c * pitch + d ∧ c * pitch + d ≤ e * pitch + f :=
  ⟨Nat.add_le_add (Nat.mul_le_mul_right _ hac) hbd, Nat.add_le_add (Nat.mul_le_mul_right _ hce) hdf⟩

/-- The tile of a pixel of the rectangle, counted at 32 bits a pixel. -/
theorem between_of_contains (hdrawn : sdk.Drawn surface) (pitchTiles : ℕ) (msaaSamples : BitVec 2)
    (hcontains : rectangle.Contains p) :
    ResolveInfo.clearStartTiles sdk pitchTiles msaaSamples rectangle ≤
        p.2 / (sdk.kEdramTileHeightSamples >>> samplesYLog2 msaaSamples) * pitchTiles +
          p.1 / (sdk.kEdramTileWidthSamples >>> samplesXLog2 msaaSamples) ∧
      p.2 / (sdk.kEdramTileHeightSamples >>> samplesYLog2 msaaSamples) * pitchTiles +
          p.1 / (sdk.kEdramTileWidthSamples >>> samplesXLog2 msaaSamples) <
        ResolveInfo.clearEndTiles sdk pitchTiles msaaSamples rectangle := by
  obtain ⟨⟨hleft, hright⟩, htop, hbottom⟩ := hcontains
  have hy : 2 ^ samplesYLog2 msaaSamples ∣ sdk.kEdramTileHeightSamples := by
    rw [hdrawn.height, samplesYLog2]
    split <;> decide
  have hx : 2 ^ samplesXLog2 msaaSamples ∣ sdk.kEdramTileWidthSamples := by
    rw [hdrawn.width, samplesXLog2]
    split <;> decide
  simp only [ResolveInfo.clearStartTiles, ResolveInfo.clearEndTiles, shiftLeft_div hy, shiftLeft_div hx,
    Rectangle.right, Rectangle.bottom] at *
  obtain ⟨hstart, hend⟩ := rows_between pitchTiles
    (Nat.div_le_div_right (c := sdk.kEdramTileHeightSamples >>> samplesYLog2 msaaSamples) htop)
    (Nat.div_le_div_right (Nat.le_sub_one_of_lt hbottom))
    (Nat.div_le_div_right (c := sdk.kEdramTileWidthSamples >>> samplesXLog2 msaaSamples) hleft)
    (Nat.div_le_div_right (Nat.le_sub_one_of_lt hright))
  exact ⟨hstart, Nat.lt_succ_of_le hend⟩

/-- The tile of a pixel of a target, at the bits of the target. -/
theorem tile_between {pitch pitchTiles x y tileWidth startTiles endTiles : ℕ} (is64bpp : Bool)
    (hwidth : tileWidth = 80 ∨ tileWidth = 40) (hpitch : pitchTiles = pitch <<< is64bpp.toNat)
    (hstart : startTiles ≤ y * pitch + x / tileWidth) (hend : y * pitch + x / tileWidth < endTiles) :
    startTiles <<< is64bpp.toNat ≤ y * pitchTiles + x / (tileWidth >>> is64bpp.toNat) ∧
      y * pitchTiles + x / (tileWidth >>> is64bpp.toNat) < endTiles <<< is64bpp.toNat := by
  subst hpitch
  cases is64bpp with
  | false => exact ⟨hstart, hend⟩
  | true =>
    -- two tiles at 64 bits a pixel for one at 32
    have hrow : y * (pitch <<< 1) = 2 * (y * pitch) := by
      rw [Nat.shiftLeft_eq, pow_one, Nat.mul_comm pitch, ← Nat.mul_assoc, Nat.mul_comm y, Nat.mul_assoc]
    have hcolumn : 2 * (x / tileWidth) ≤ x / (tileWidth >>> 1) ∧
        x / (tileWidth >>> 1) ≤ 2 * (x / tileWidth) + 1 := by
      rcases hwidth with rfl | rfl
      · rw [show 80 >>> 1 = 40 from rfl]
        omega
      · rw [show 40 >>> 1 = 20 from rfl]
        omega
    rw [Bool.toNat_true, hrow, Nat.shiftLeft_eq, Nat.shiftLeft_eq]
    omega

/-- A tile between the ends of a claim is covered, through the wrap of the tile index. -/
theorem covers_of_between {base first length tile : ℕ} (hfirst : first ≤ tile)
    (htile : tile < first + length) (hlength : first + length ≤ kEdramTileCount) :
    Claimant.Covers ((base + first) % kEdramTileCount) length ((base + tile) % kEdramTileCount) := by
  unfold Claimant.Covers kEdramTileCount at *
  omega

/-- A clear as it is taken over: a target with a pitch, up to where the tile index is back at
its base, with every tile of the target that the rectangle meets. -/
structure Clear.Made (sdk : Sdk) (surface : Surface) (rectangle : Rectangle) (clear : Clear) : Prop where
  pitch : clear.key.pitchTilesAt32bpp ≠ 0
  length : clear.startTilesBaseRelative + clear.lengthTiles ≤ kEdramTileCount
  meets : clear.lengthTiles ≠ 0 → ∀ t p, surface.InTile sdk clear.key t p → rectangle.Contains p →
    clear.Covers t

/-- The range of one target, before it is cut, has the tiles the rectangle meets. -/
theorem made_clearOf (hdrawn : sdk.Drawn surface) (rectangle : Rectangle) (key : RenderTargetKey)
    (hpitch : key.pitchTilesAt32bpp ≠ 0) (clearing : Bool) :
    (ResolveInfo.clearOf key clearing
      (ResolveInfo.clearStartTiles sdk key.pitchTilesAt32bpp.toNat key.msaaSamples rectangle)
      (ResolveInfo.clearEndTiles sdk key.pitchTilesAt32bpp.toNat key.msaaSamples rectangle)
      (surface.is64bpp key).toNat).Made sdk surface rectangle := by
  cases clearing with
  | false => exact ⟨hpitch, Nat.zero_le _, fun h => absurd rfl h⟩
  | true =>
    refine ⟨hpitch, ?_, fun _ t p hp hcontains => ?_⟩
    · simp only [ResolveInfo.clearOf, if_true]
      omega
    · obtain ⟨-, hturn, hle, hlt⟩ : surface.InTile sdk key t p := hp
      obtain ⟨hstart, hend⟩ := between_of_contains hdrawn key.pitchTilesAt32bpp.toNat key.msaaSamples hcontains
      have hwidth : sdk.kEdramTileWidthSamples >>> samplesXLog2 key.msaaSamples = 80 ∨
          sdk.kEdramTileWidthSamples >>> samplesXLog2 key.msaaSamples = 40 := by
        rw [hdrawn.width, samplesXLog2]
        split
        · exact .inr rfl
        · exact .inl rfl
      obtain ⟨hstart', hend'⟩ := tile_between (surface.is64bpp key) hwidth (hdrawn.pitch key) hstart hend
      rw [← Nat.shiftRight_add] at hstart' hend'
      have htile : t = (key.baseTiles.toNat + (p.2 / sdk.tileHeight key.msaaSamples * surface.pitchTiles key +
          p.1 / sdk.tileWidth key.msaaSamples (surface.is64bpp key))) % kEdramTileCount :=
        Nat.le_antisymm hle (Nat.le_of_lt_succ hlt)
      have hfirst := (Nat.min_le_left _ kEdramTileCount).trans hstart'
      have hstop := lt_min hend' hturn
      rw [htile]
      refine covers_of_between hfirst ?_ ?_
      · exact lt_of_lt_of_le hstop (Nat.sub_le_iff_le_add'.1 le_rfl)
      · simp only [ResolveInfo.clearOf, if_true]
        omega

/-- The rectangle ends with the rows and the height of the target. -/
theorem clearRectangle_inWords (hdrawn : sdk.Drawn surface) {baseOffset : ℕ} (hpitch : pitchTiles < 2 ^ 8) :
    (info.clearRectangle sdk config pitchTiles baseOffset msaaSamples).InWords := by
  have hheight : ({ msaaSamples } : Draw).getRenderTargetHeight sdk config pitchTiles ≤
      kEdramTileCount * 16 := by
    unfold Draw.getRenderTargetHeight
    split
    · exact Nat.zero_le _
    · rename_i hzero
      refine Nat.mul_le_mul ((Nat.min_le_left ..).trans ?_) (hdrawn.height ▸ Nat.shiftRight_le ..)
      rw [Nat.div_le_iff_le_mul_add_pred (Nat.pos_of_ne_zero hzero)]
      have hmul : kEdramTileCount ≤ pitchTiles * kEdramTileCount :=
        Nat.le_mul_of_pos_left _ (Nat.pos_of_ne_zero hzero)
      omega
  have hwidth : pitchTiles * (sdk.kEdramTileWidthSamples >>> samplesXLog2 msaaSamples) ≤ 2 ^ 8 * 80 :=
    Nat.mul_le_mul hpitch.le (hdrawn.width ▸ Nat.shiftRight_le ..)
  unfold kEdramTileCount at hheight
  constructor <;> simp only [ResolveInfo.clearRectangle, Rectangle.right, Rectangle.bottom] <;> omega

/-- The two clears of a resolve share its rectangle, inside 32 bits, and the range of tiles that its
corners name; their keys have a pitch that fits. -/
theorem exists_of_ranges (hdrawn : sdk.Drawn surface) (htargets : sdk.Targets)
    (h : info.ranges sdk config = some (rectangle, depth, color)) :
    ∃ pitchTiles msaaSamples, (0 < pitchTiles ∧ pitchTiles < 2 ^ 8) ∧ rectangle.InWords ∧
      depth = ResolveInfo.clearOf (info.depthKey pitchTiles msaaSamples) info.isClearingDepth
        (ResolveInfo.clearStartTiles sdk pitchTiles msaaSamples rectangle)
        (ResolveInfo.clearEndTiles sdk pitchTiles msaaSamples rectangle) 0 ∧
      color = ResolveInfo.clearOf (info.colorKey pitchTiles msaaSamples) info.isClearingColor
        (ResolveInfo.clearStartTiles sdk pitchTiles msaaSamples rectangle)
        (ResolveInfo.clearEndTiles sdk pitchTiles msaaSamples rectangle)
        info.colorEdramInfo.formatIs64bpp.toNat := by
  obtain ⟨⟨pitchTiles, baseOffset, msaaSamples⟩, -, hranges⟩ := Option.bind_eq_some_iff.1 h
  simp only [Option.ite_none_left_eq_some] at hranges
  obtain ⟨hpitch, hsize, -, -, hranges⟩ := hranges
  have hlt : pitchTiles < 2 ^ 8 := by
    rw [htargets.size, htargets.width, samplesXLog2, Nat.shiftLeft_eq] at hsize
    split_ifs at hsize <;> omega
  simp only [Option.some.injEq, Prod.mk.injEq] at hranges
  obtain ⟨rfl, rfl, rfl⟩ := hranges
  exact ⟨pitchTiles, msaaSamples, ⟨Nat.pos_of_ne_zero hpitch, hlt⟩, clearRectangle_inWords hdrawn hlt,
    rfl, rfl⟩

/-- **What a resolve takes over.**  If the depth and the color target have no tile to clear in
common, nothing is cut, and each takes over all tiles the rectangle meets. -/
theorem made_of_prepare (hdrawn : sdk.Drawn surface) (htargets : sdk.Targets) {clears : List Clear}
    (h : info.prepare sdk config = some (rectangle, clears)) (hapart : info.Apart sdk config)
    (hformatted : info.Formatted surface) :
    rectangle.InWords ∧ ∀ clear ∈ clears, clear.Made sdk surface rectangle := by
  obtain ⟨⟨rectangle', depth, color⟩, hranges, heq⟩ := Option.map_eq_some_iff.1 h
  simp only [Prod.mk.injEq] at heq
  obtain ⟨rfl, rfl⟩ := heq
  have hdisjoint := hapart _ _ _ hranges
  obtain ⟨pitchTiles, msaaSamples, ⟨hpos, hlt⟩, hwords, hdepth, hcolor⟩ :=
    exists_of_ranges hdrawn htargets hranges
  have hbits : (BitVec.ofNat 8 pitchTiles).toNat = pitchTiles := Nat.mod_eq_of_lt hlt
  have hkey : BitVec.ofNat 8 pitchTiles ≠ 0 := fun hzero => by
    have := congrArg BitVec.toNat hzero
    rw [hbits] at this
    exact absurd this (Nat.ne_of_gt hpos)
  have hmade : depth.Made sdk surface rectangle' := by
    have hmade := made_clearOf hdrawn rectangle' (info.depthKey pitchTiles msaaSamples) hkey
      info.isClearingDepth
    rw [hdrawn.depth _ rfl, Bool.toNat_false] at hmade
    rw [hdepth]
    simpa only [ResolveInfo.depthKey, hbits] using hmade
  have hmade' : color.Made sdk surface rectangle' := by
    have hmade := made_clearOf hdrawn rectangle' (info.colorKey pitchTiles msaaSamples) hkey
      info.isClearingColor
    rw [hformatted] at hmade
    rw [hcolor]
    simpa only [ResolveInfo.colorKey, hbits] using hmade
  refine ⟨hwords, fun clear hclear => ?_⟩
  split at hclear
  · rename_i hboth
    have huncut : depth.cutAt color = depth :=
      cutAt_eq ((Nat.le_add_left ..).trans hmade.length) hboth.2 hdisjoint
    have huncut' : color.cutAt depth = color :=
      cutAt_eq ((Nat.le_add_left ..).trans hmade'.length) hboth.1 fun t hc hd => hdisjoint t hd hc
    rw [huncut, huncut'] at hclear
    rcases List.mem_pair.1 hclear with rfl | rfl
    · exact hmade
    · exact hmade'
  · rcases List.mem_pair.1 hclear with rfl | rfl
    · exact hmade
    · exact hmade'

end Tiles

end Edram
end BoltsRebuilt
