/-
# The pixels of a range of tiles

`RenderTargetCache::Transfer::GetRangeRectangles` and `AddRectangle`
(`vendored/src/graphics/pipeline/render_target/cache.cpp`, lines 204-362).

A transfer is a range of EDRAM tiles, and the host draws it into the destination
as rectangles of pixels.  In the destination the tiles run row by row, so a range
is the end of a row, a block of whole rows and the start of a row; rows with the
same columns as the block go into it.  A region that is about to be cleared is cut
out, which leaves up to four rectangles of each.

Every pixel of the range outside the cutout is in exactly one rectangle, and no
other pixel is in any (`rangeRectangles_exact`).  The tiles are counted from the
base of the destination, through the wrap of the tile index: `edramTile` is the tile
of the EDRAM a pixel of the destination is in.

The list of the rectangles stands for the array and its count.  The numbers are
`uint32_t` and wrap around as those do (`add32`, `sub32`, `mul32`), so that a target with
rows of 2^32 pixels, or a cutout with an edge past them, gives other rectangles.  The
range has to be that of a target with shorter rows (`ValidRange`) and the cutout has to
end before 2^32 (`Rectangle.InWords`); then nothing wraps, and the rectangles are those of
the formulas (`addRectangle_some`, `rowRectangles_eq`).
-/

import BoltsRebuilt.Edram.OwnershipMemo
import BoltsRebuilt.Lib.Partition

namespace BoltsRebuilt
namespace Edram

/-! ### `uint32_t` -/

/-- The sum of two words. -/
def add32 (a b : ℕ) : ℕ := (a + b) % 2 ^ 32

/-- The difference of two words. -/
def sub32 (a b : ℕ) : ℕ := (a + (2 ^ 32 - b)) % 2 ^ 32

/-- The product of two words. -/
def mul32 (a b : ℕ) : ℕ := a * b % 2 ^ 32

/-- A 32-bit sum that does not wrap is the sum. -/
theorem add32_eq {a b : ℕ} (h : a + b < 2 ^ 32) : add32 a b = a + b := Nat.mod_eq_of_lt h

/-- A 32-bit difference that does not wrap is the difference. -/
theorem sub32_eq {a b : ℕ} (ha : a < 2 ^ 32) (hle : b ≤ a) : sub32 a b = a - b := by
  rw [sub32]
  omega

/-- A 32-bit product that does not wrap is the product. -/
theorem mul32_eq {a b : ℕ} (h : a * b < 2 ^ 32) : mul32 a b = a * b := Nat.mod_eq_of_lt h

/-! ### Rectangles -/

namespace Rectangle

/-- `rectangle_right` and `rectangle_bottom`, both exclusive. -/
def right (r : Rectangle) : ℕ := r.xPixels + r.widthPixels
def bottom (r : Rectangle) : ℕ := r.yPixels + r.heightPixels

/-- The pixel is in the rectangle. -/
def Contains (r : Rectangle) (p : ℕ × ℕ) : Prop :=
  (r.xPixels ≤ p.1 ∧ p.1 < r.right) ∧ r.yPixels ≤ p.2 ∧ p.2 < r.bottom

instance (r : Rectangle) (p : ℕ × ℕ) : Decidable (r.Contains p) := inferInstanceAs (Decidable (_ ∧ _))

/-- Its edges are words. -/
structure InWords (r : Rectangle) : Prop where
  right : r.right < 2 ^ 32
  bottom : r.bottom < 2 ^ 32

end Rectangle

/-- `AddRectangle`: what is left of a rectangle outside the cutout. -/
def addRectangle (rectangle : Rectangle) (cutout : Option Rectangle) : List Rectangle :=
  match cutout with
  | none => [rectangle]
  | some cutout =>
    let rectangleRight := add32 rectangle.xPixels rectangle.widthPixels
    let rectangleBottom := add32 rectangle.yPixels rectangle.heightPixels
    let cutoutRight := add32 cutout.xPixels cutout.widthPixels
    let cutoutBottom := add32 cutout.yPixels cutout.heightPixels
    if cutout.widthPixels = 0 ∨ cutout.heightPixels = 0 ∨ cutout.xPixels ≥ rectangleRight ∨
        cutoutRight ≤ rectangle.xPixels ∨ cutout.yPixels ≥ rectangleBottom ∨
        cutoutBottom ≤ rectangle.yPixels then [rectangle]
    else
      let middleTop := max cutout.yPixels rectangle.yPixels
      let middleHeight := sub32 (min cutoutBottom rectangleBottom) middleTop
      -- the other differences are of a number and a smaller one
      (if cutout.yPixels > rectangle.yPixels then
        [{ rectangle with heightPixels := cutout.yPixels - rectangle.yPixels }] else []) ++
      (if cutout.xPixels > rectangle.xPixels then
        [⟨rectangle.xPixels, middleTop, cutout.xPixels - rectangle.xPixels, middleHeight⟩] else []) ++
      (if cutoutRight < rectangleRight then
        [⟨cutoutRight, middleTop, rectangleRight - cutoutRight, middleHeight⟩] else []) ++
      (if cutoutBottom < rectangleBottom then
        [⟨rectangle.xPixels, cutoutBottom, rectangle.widthPixels, rectangleBottom - cutoutBottom⟩]
        else [])

/-- `tile_width` and `tile_height`. -/
def Sdk.tileWidth (sdk : Sdk) (msaaSamples : BitVec 2) (is64bpp : Bool) : ℕ :=
  sdk.kEdramTileWidthSamples >>> ((if msaaSamples ≥ 2 then 1 else 0) + is64bpp.toNat)
def Sdk.tileHeight (sdk : Sdk) (msaaSamples : BitVec 2) : ℕ :=
  sdk.kEdramTileHeightSamples >>> (if msaaSamples ≥ 1 then 1 else 0)

/-- The rectangles before anything is cut out, of a range counted from the base of the
destination. -/
def rowRectangles (localStart localEnd pitchTiles tileWidth tileHeight : ℕ) : List Rectangle :=
  let rowsStart := localStart / pitchTiles
  let rowsEnd := add32 localEnd (sub32 pitchTiles 1) / pitchTiles
  let rowFirstStart := sub32 localStart (mul32 rowsStart pitchTiles)
  let rowLastEnd := sub32 pitchTiles (sub32 (mul32 rowsEnd pitchTiles) localEnd)
  let rows := sub32 rowsEnd rowsStart
  let first := if rows = 1 ∨ rowFirstStart ≠ 0 then
      [⟨mul32 rowFirstStart tileWidth, mul32 rowsStart tileHeight,
        mul32 (sub32 (if rows = 1 then rowLastEnd else pitchTiles) rowFirstStart) tileWidth, tileHeight⟩]
      else []
  if rows = 1 then first
  else
    let midRowsStart := if rowFirstStart = 0 then rowsStart else add32 rowsStart 1
    let midRows := add32 (add32 (sub32 rows 2) (if rowFirstStart = 0 then 1 else 0))
      (if rowLastEnd = pitchTiles then 1 else 0)
    let mid := if midRows ≠ 0 then
      [⟨0, mul32 midRowsStart tileHeight, mul32 pitchTiles tileWidth, mul32 midRows tileHeight⟩] else []
    let last := if rowLastEnd ≠ pitchTiles then
      [⟨0, mul32 (sub32 rowsEnd 1) tileHeight, mul32 rowLastEnd tileWidth, tileHeight⟩] else []
    first ++ mid ++ last

/-- `GetRangeRectangles`. -/
def Sdk.rangeRectangles (sdk : Sdk) (startTiles endTiles baseTiles pitchTiles : ℕ)
    (msaaSamples : BitVec 2) (is64bpp : Bool) (cutout : Option Rectangle) : List Rectangle :=
  if startTiles = endTiles then []
  else
    -- before the base, this is the tail after the tile index has wrapped
    let localOffset := if startTiles < baseTiles then kEdramTileCount else 0
    (rowRectangles (sub32 (add32 localOffset startTiles) baseTiles)
      (sub32 (add32 localOffset endTiles) baseTiles) pitchTiles (sdk.tileWidth msaaSamples is64bpp)
      (sdk.tileHeight msaaSamples)).flatMap (addRectangle · cutout)

/-! ### Cutting out -/

variable {r cutout : Rectangle} {p : ℕ × ℕ}

/-- A list of rectangles that has the pixels of an area, each once. -/
abbrev Covers (rs : List Rectangle) (area : ℕ × ℕ → Prop) : Prop :=
  Partitions Rectangle.Contains rs area

/-- What is left of a rectangle outside a cutout, if nothing wraps. -/
theorem addRectangle_some (hr : r.InWords) (hc : cutout.InWords) :
    addRectangle r (some cutout) =
      if cutout.widthPixels = 0 ∨ cutout.heightPixels = 0 ∨ cutout.xPixels ≥ r.right ∨
          cutout.right ≤ r.xPixels ∨ cutout.yPixels ≥ r.bottom ∨ cutout.bottom ≤ r.yPixels then [r]
      else
        let middleTop := max cutout.yPixels r.yPixels
        let middleHeight := min cutout.bottom r.bottom - middleTop
        (if cutout.yPixels > r.yPixels then [{ r with heightPixels := cutout.yPixels - r.yPixels }] else []) ++
        (if cutout.xPixels > r.xPixels then
          [⟨r.xPixels, middleTop, cutout.xPixels - r.xPixels, middleHeight⟩] else []) ++
        (if cutout.right < r.right then
          [⟨cutout.right, middleTop, r.right - cutout.right, middleHeight⟩] else []) ++
        (if cutout.bottom < r.bottom then
          [⟨r.xPixels, cutout.bottom, r.widthPixels, r.bottom - cutout.bottom⟩] else []) := by
  have hright : add32 r.xPixels r.widthPixels = r.right := add32_eq hr.right
  have hbottom : add32 r.yPixels r.heightPixels = r.bottom := add32_eq hr.bottom
  have hright' : add32 cutout.xPixels cutout.widthPixels = cutout.right := add32_eq hc.right
  have hbottom' : add32 cutout.yPixels cutout.heightPixels = cutout.bottom := add32_eq hc.bottom
  rw [addRectangle, hright, hbottom, hright', hbottom']
  refine ite_congr rfl (fun _ => rfl) fun hin => ?_
  have hmiddle : sub32 (min cutout.bottom r.bottom) (max cutout.yPixels r.yPixels) =
      min cutout.bottom r.bottom - max cutout.yPixels r.yPixels := by
    refine sub32_eq (lt_of_le_of_lt (Nat.min_le_left ..) hc.bottom) ?_
    simp only [Rectangle.bottom] at hin ⊢
    omega
  dsimp only
  rw [hmiddle]

/-- **`AddRectangle`** lists rectangles that cover the pixels of the rectangle outside the cutout,
each of them once. -/
theorem covers_addRectangle (hr : r.InWords) {cutout : Option Rectangle} (hc : ∀ c ∈ cutout, c.InWords) :
    Covers (addRectangle r cutout) fun p => r.Contains p ∧ ∀ c ∈ cutout, ¬c.Contains p := by
  cases cutout with
  | none => exact (Partitions.singleton r).congr fun p => by simp
  | some cutout =>
    rw [addRectangle_some hr (hc cutout rfl)]
    split
    · rename_i hout
      refine (Partitions.singleton r).congr fun p => ⟨fun h => ⟨h, ?_⟩, And.left⟩
      rintro c ⟨⟩
      simp only [Rectangle.Contains, Rectangle.right, Rectangle.bottom] at h hout ⊢
      omega
    · rename_i hin
      clear hr hc
      -- above, left, right and below
      refine ((((Partitions.ite _ _).append (Partitions.ite _ _) fun p h h' => ?_).append
        (Partitions.ite _ _) fun p h h' => ?_).append (Partitions.ite _ _) fun p h h' => ?_).congr
        fun p => ?_
      all_goals
        simp only [Rectangle.Contains, Rectangle.right, Rectangle.bottom, Option.mem_some_iff,
          forall_eq'] at *
        omega

/-! ### Rows of tiles -/

variable {pitch tileWidth tileHeight localStart localEnd : ℕ}

/-- Positions in rows of `pitch` are compared row first, then column. -/
theorem row_le_iff {a b c d : ℕ} (hb : b < pitch) (hd : d < pitch) :
    a * pitch + b ≤ c * pitch + d ↔ a < c ∨ a = c ∧ b ≤ d := by
  rcases Nat.lt_trichotomy a c with h | rfl | h
  · have := Nat.mul_le_mul_right pitch (Nat.succ_le_of_lt h)
    rw [Nat.succ_mul] at this
    omega
  · omega
  · have := Nat.mul_le_mul_right pitch (Nat.succ_le_of_lt h)
    rw [Nat.succ_mul] at this
    omega

/-- Where a nonempty range starts, and where it ends: before column `b` of row `re`. -/
theorem exists_rows (hpitch : 0 < pitch) (hlt : localStart < localEnd) : ∃ rs a re b,
    a < pitch ∧ 0 < b ∧ b ≤ pitch ∧ (rs < re ∨ rs = re ∧ a < b) ∧
      localStart = rs * pitch + a ∧ localEnd = re * pitch + b := by
  have hstart := Nat.div_add_mod' localStart pitch
  have hend := Nat.div_add_mod' (localEnd - 1) pitch
  have ha := Nat.mod_lt localStart hpitch
  have hb := Nat.mod_lt (localEnd - 1) hpitch
  have hrows := row_le_iff (a := localStart / pitch) (c := (localEnd - 1) / pitch) ha hb
  exact ⟨localStart / pitch, localStart % pitch, (localEnd - 1) / pitch, (localEnd - 1) % pitch + 1,
    ha, Nat.succ_pos _, hb, by omega, hstart.symm, by omega⟩

/-- A rectangle of whole tiles contains a pixel exactly when it contains the pixel's tile. -/
theorem contains_tiles (htw : 0 < tileWidth) (hth : 0 < tileHeight) (a b w h : ℕ) :
    (⟨a * tileWidth, b * tileHeight, w * tileWidth, h * tileHeight⟩ : Rectangle).Contains p ↔
      (a ≤ p.1 / tileWidth ∧ p.1 / tileWidth < a + w) ∧
        b ≤ p.2 / tileHeight ∧ p.2 / tileHeight < b + h := by
  simp only [Rectangle.Contains, Rectangle.right, Rectangle.bottom, ← Nat.add_mul,
    Nat.le_div_iff_mul_le htw, Nat.le_div_iff_mul_le hth, Nat.div_lt_iff_lt_mul htw,
    Nat.div_lt_iff_lt_mul hth]

/-- The pixel is in a tile of the range, the tiles counted row by row. -/
def InRows (localStart localEnd pitch tileWidth tileHeight : ℕ) (p : ℕ × ℕ) : Prop :=
  p.1 / tileWidth < pitch ∧ localStart ≤ p.2 / tileHeight * pitch + p.1 / tileWidth ∧
    p.2 / tileHeight * pitch + p.1 / tileWidth < localEnd

/-- A nonempty range starts in row `rs` at column `a` and ends in row `re` before column `b`. -/
theorem inRows_iff {rs a re b : ℕ} (ha : a < pitch) (hb : 0 < b) (hb' : b ≤ pitch) :
    InRows (rs * pitch + a) (re * pitch + b) pitch tileWidth tileHeight p ↔
      p.1 / tileWidth < pitch ∧
        (rs < p.2 / tileHeight ∨ rs = p.2 / tileHeight ∧ a ≤ p.1 / tileWidth) ∧
        (p.2 / tileHeight < re ∨ p.2 / tileHeight = re ∧ p.1 / tileWidth < b) := by
  refine and_congr_right fun hx => and_congr (row_le_iff ha hx) ?_
  have hlast := row_le_iff (a := p.2 / tileHeight) (c := re) hx (by omega : b - 1 < pitch)
  omega

/-- Nothing wraps around in the rows up to the end of a range. -/
structure RowsInWords (pitch tileWidth tileHeight localEnd : ℕ) : Prop where
  last : localEnd + (pitch - 1) < 2 ^ 32
  width : pitch * tileWidth < 2 ^ 32
  height : localEnd * tileHeight < 2 ^ 32

namespace RowsInWords

/-- So many columns, up to the pitch, are as wide as they say. -/
theorem mul_width (h : RowsInWords pitch tileWidth tileHeight localEnd) {columns : ℕ}
    (hle : columns ≤ pitch) : mul32 columns tileWidth = columns * tileWidth :=
  mul32_eq (lt_of_le_of_lt (Nat.mul_le_mul_right _ hle) h.width)

/-- So many rows, up to the last one, are as high as they say. -/
theorem mul_height (h : RowsInWords pitch tileWidth tileHeight localEnd) {rows : ℕ}
    (hle : rows ≤ localEnd) : mul32 rows tileHeight = rows * tileHeight :=
  mul32_eq (lt_of_le_of_lt (Nat.mul_le_mul_right _ hle) h.height)

end RowsInWords

/-- The rectangles of a range, by the row and the column where it starts and ends. -/
theorem rowRectangles_eq {rs a re b : ℕ} (ha : a < pitch) (hb : 0 < b) (hb' : b ≤ pitch)
    (hrows : rs < re ∨ rs = re ∧ a < b) (hwords : RowsInWords pitch tileWidth tileHeight (re * pitch + b)) :
    rowRectangles (rs * pitch + a) (re * pitch + b) pitch tileWidth tileHeight =
      let rows := re + 1 - rs
      let first : List Rectangle := if rows = 1 ∨ a ≠ 0 then
        [⟨a * tileWidth, rs * tileHeight, ((if rows = 1 then b else pitch) - a) * tileWidth, tileHeight⟩]
        else []
      if rows = 1 then first
      else
        let midRowsStart := if a = 0 then rs else rs + 1
        let midRows := rows - 2 + (if a = 0 then 1 else 0) + (if b = pitch then 1 else 0)
        first ++
          (if midRows ≠ 0 then
            [⟨0, midRowsStart * tileHeight, pitch * tileWidth, midRows * tileHeight⟩] else []) ++
          (if b ≠ pitch then [⟨0, re * tileHeight, b * tileWidth, tileHeight⟩] else []) := by
  have hpitch : 0 < pitch := by omega
  have hlt := hwords.last
  have hmul : re ≤ re * pitch := Nat.le_mul_of_pos_right _ hpitch
  have hstop : (re + 1) * pitch = re * pitch + pitch := Nat.succ_mul ..
  have hre : re + 1 ≤ re * pitch + b := by omega
  have hfirst : rs * pitch ≤ re * pitch := Nat.mul_le_mul_right _ (by omega)
  have hpitch32 : sub32 pitch 1 = pitch - 1 := sub32_eq (by omega) hpitch
  have hend32 : add32 (re * pitch + b) (pitch - 1) = re * pitch + b + (pitch - 1) := add32_eq hlt
  have hstart : (rs * pitch + a) / pitch = rs := by
    rw [Nat.add_comm, Nat.add_mul_div_right _ _ hpitch, Nat.div_eq_of_lt ha, Nat.zero_add]
  have hend : (re * pitch + b + (pitch - 1)) / pitch = re + 1 := by
    rw [show re * pitch + b + (pitch - 1) = b - 1 + (re + 1) * pitch by rw [Nat.succ_mul]; omega,
      Nat.add_mul_div_right _ _ hpitch, Nat.div_eq_of_lt (by omega), Nat.zero_add]
  have hcolumn : sub32 (rs * pitch + a) (mul32 rs pitch) = a := by
    rw [mul32_eq (by omega), sub32_eq (by omega) (Nat.le_add_right ..), Nat.add_sub_cancel_left]
  have hlast : sub32 pitch (sub32 (mul32 (re + 1) pitch) (re * pitch + b)) = b := by
    have hrest : sub32 ((re + 1) * pitch) (re * pitch + b) = pitch - b := by
      rw [sub32_eq (by omega) (by omega)]
      omega
    rw [mul32_eq (by omega), hrest, sub32_eq (by omega) (Nat.sub_le ..)]
    omega
  have hrows32 : sub32 (re + 1) rs = re + 1 - rs := sub32_eq (by omega) (by omega)
  rw [rowRectangles, hpitch32, hend32, hstart, hend, hcolumn, hlast, hrows32]
  dsimp only
  rw [hwords.mul_width ha.le, hwords.mul_height (show rs ≤ re * pitch + b by omega)]
  by_cases hone : re + 1 - rs = 1
  · have hcolumns : sub32 b a = b - a := sub32_eq (by omega) (by omega)
    simp only [if_pos hone, hcolumns, hwords.mul_width (show b - a ≤ pitch by omega)]
  · have hcolumns : sub32 pitch a = pitch - a := sub32_eq (by omega) ha.le
    have hmore : sub32 (re + 1 - rs) 2 = re + 1 - rs - 2 := sub32_eq (by omega) (by omega)
    have hmidFirst : add32 (re + 1 - rs - 2) (if a = 0 then 1 else 0) =
        re + 1 - rs - 2 + if a = 0 then 1 else 0 := add32_eq (by split_ifs <;> omega)
    have hmid : add32 (re + 1 - rs - 2 + if a = 0 then 1 else 0) (if b = pitch then 1 else 0) =
        re + 1 - rs - 2 + (if a = 0 then 1 else 0) + if b = pitch then 1 else 0 :=
      add32_eq (by split_ifs <;> omega)
    have hmidStart : mul32 (if a = 0 then rs else add32 rs 1) tileHeight =
        (if a = 0 then rs else rs + 1) * tileHeight := by
      rw [add32_eq (by omega)]
      exact hwords.mul_height (by split_ifs <;> omega)
    have hmidHeight := hwords.mul_height
      (show re + 1 - rs - 2 + (if a = 0 then 1 else 0) + (if b = pitch then 1 else 0) ≤ re * pitch + b by
        split_ifs <;> omega)
    have hlastRow : sub32 (re + 1) 1 = re := sub32_eq (by omega) (by omega)
    simp only [if_neg hone, hcolumns, hmore, hmidFirst, hmid, hmidStart, hmidHeight, hlastRow,
      hwords.mul_width (Nat.sub_le pitch a), hwords.mul_width le_rfl, hwords.mul_width hb',
      hwords.mul_height (show re ≤ re * pitch + b by omega)]

/-- **The rectangles of a range** before anything is cut out. -/
theorem covers_rowRectangles (htw : 0 < tileWidth) (hth : 0 < tileHeight) (hpitch : 0 < pitch)
    (hlt : localStart < localEnd) (hwords : RowsInWords pitch tileWidth tileHeight localEnd) :
    Covers (rowRectangles localStart localEnd pitch tileWidth tileHeight)
      (InRows localStart localEnd pitch tileWidth tileHeight) := by
  obtain ⟨rs, a, re, b, ha, hb, hb', hrows, rfl, rfl⟩ := exists_rows hpitch hlt
  have htiles := fun p => contains_tiles (p := p) htw hth
  have hrow := fun p x y w => contains_tiles (p := p) htw hth x y w 1
  simp only [Nat.one_mul] at hrow
  have hcolumns := fun p y w h => contains_tiles (p := p) htw hth 0 y w h
  have hcolumn := fun p y w => contains_tiles (p := p) htw hth 0 y w 1
  simp only [Nat.zero_mul, Nat.one_mul] at hcolumns hcolumn
  rw [rowRectangles_eq ha hb hb' hrows hwords]
  dsimp only
  split
  · -- one row
    rename_i hone
    refine (Partitions.ite _ _).congr fun p => ?_
    rw [hrow, inRows_iff ha hb hb']
    generalize p.1 / tileWidth = x, p.2 / tileHeight = y
    omega
  · rename_i hmore
    refine (((Partitions.ite _ _).append (Partitions.ite _ _) fun p h h' => ?_).append
      (Partitions.ite _ _) fun p h h' => ?_).congr fun p => ?_
    · rw [hrow] at h
      rw [hcolumns] at h'
      generalize p.1 / tileWidth = x, p.2 / tileHeight = y at h h'
      split_ifs at h' <;> omega
    · rw [hrow, hcolumns] at h
      rw [hcolumn] at h'
      generalize p.1 / tileWidth = x, p.2 / tileHeight = y at h h'
      split_ifs at h <;> omega
    · rw [hrow, hcolumns, hcolumn, inRows_iff ha hb hb']
      generalize p.1 / tileWidth = x, p.2 / tileHeight = y
      split_ifs <;> omega

/-! ### The size of the list -/

/-- A rectangle with at least one pixel. -/
def Rectangle.Proper (r : Rectangle) : Prop := 0 < r.widthPixels ∧ 0 < r.heightPixels

/-- A rectangle that is not empty has a pixel. -/
theorem Rectangle.Proper.exists_contains (h : r.Proper) : ∃ p, r.Contains p := by
  refine ⟨(r.xPixels, r.yPixels), ?_⟩
  simp only [Rectangle.Contains, Rectangle.right, Rectangle.bottom]
  exact ⟨⟨le_rfl, Nat.lt_add_of_pos_right h.1⟩, le_rfl, Nat.lt_add_of_pos_right h.2⟩

/-- No empty rectangle is ever listed, neither beside a cutout nor without one. -/
theorem addRectangle_proper (hr : r.Proper) (hwords : r.InWords) {cutout : Option Rectangle}
    (hc : ∀ c ∈ cutout, c.InWords) : ∀ r' ∈ addRectangle r cutout, r'.Proper := by
  intro r' hr'
  cases cutout with
  | none =>
    obtain rfl := List.mem_singleton.1 hr'
    exact hr
  | some cutout =>
    rw [addRectangle_some hwords (hc cutout rfl)] at hr'
    split at hr'
    · obtain rfl := List.mem_singleton.1 hr'
      exact hr
    · rename_i hin
      obtain ⟨hw, hh⟩ := hr
      simp only [List.mem_append, List.mem_ite_nil_right, List.mem_singleton] at hr'
      rcases hr' with ((⟨hc, rfl⟩ | ⟨hc, rfl⟩) | ⟨hc, rfl⟩) | ⟨hc, rfl⟩
      all_goals
        simp only [Rectangle.Proper, Rectangle.right, Rectangle.bottom] at hc hin ⊢
        omega

/-- A rectangle is cut into four at most. -/
theorem length_addRectangle (r : Rectangle) (cutout : Option Rectangle) :
    (addRectangle r cutout).length ≤ if cutout.isSome then 4 else 1 := by
  cases cutout with
  | none => exact le_rfl
  | some cutout =>
    rw [addRectangle, Option.isSome_some, if_pos rfl]
    split
    · exact Nat.le_of_ble_eq_true rfl
    · simp only [List.length_append]
      exact Nat.add_le_add (Nat.add_le_add (Nat.add_le_add (Partitions.length_ite_le _ _)
        (Partitions.length_ite_le _ _)) (Partitions.length_ite_le _ _)) (Partitions.length_ite_le _ _)

/-- The rectangles of a range end with its rows. -/
theorem rowRectangles_proper (htw : 0 < tileWidth) (hth : 0 < tileHeight) (hpitch : 0 < pitch)
    (hlt : localStart < localEnd) (hwords : RowsInWords pitch tileWidth tileHeight localEnd) :
    (∀ r ∈ rowRectangles localStart localEnd pitch tileWidth tileHeight, r.Proper ∧ r.InWords) ∧
      (rowRectangles localStart localEnd pitch tileWidth tileHeight).length ≤ 3 := by
  obtain ⟨rs, a, re, b, ha, hb, hb', hrows, rfl, rfl⟩ := exists_rows hpitch hlt
  have hre : re + 1 ≤ re * pitch + b := by
    have hmul : re ≤ re * pitch := Nat.le_mul_of_pos_right _ hpitch
    omega
  -- whole tiles up to the last column and the last row
  have htiles : ∀ x y w h, x + w ≤ pitch → y + h ≤ re + 1 →
      (⟨x * tileWidth, y * tileHeight, w * tileWidth, h * tileHeight⟩ : Rectangle).InWords := by
    intro x y w h hx hy
    constructor
    · rw [Rectangle.right, ← Nat.add_mul]
      exact lt_of_le_of_lt (Nat.mul_le_mul_right _ hx) hwords.width
    · rw [Rectangle.bottom, ← Nat.add_mul]
      exact lt_of_le_of_lt (Nat.mul_le_mul_right _ (hy.trans hre)) hwords.height
  have hrow := fun x y w hx hy => htiles x y w 1 hx hy
  have hcolumns := fun y w h hx hy => htiles 0 y w h hx hy
  have hcolumn := fun y w hx hy => htiles 0 y w 1 hx hy
  simp only [Nat.one_mul, Nat.zero_mul, Nat.zero_add] at hrow hcolumns hcolumn
  rw [rowRectangles_eq ha hb hb' hrows hwords]
  dsimp only
  split
  · rename_i hone
    rw [if_pos (.inl hone)]
    refine ⟨fun r hr => ?_, Nat.le_of_ble_eq_true rfl⟩
    obtain rfl := List.mem_singleton.1 hr
    exact ⟨⟨Nat.mul_pos (by omega) htw, hth⟩, hrow _ _ _ (by omega) (by omega)⟩
  · constructor
    · intro r hr
      simp only [List.mem_append, List.mem_ite_nil_right, List.mem_singleton] at hr
      rcases hr with (⟨hc, rfl⟩ | ⟨hc, rfl⟩) | ⟨hc, rfl⟩
      · exact ⟨⟨Nat.mul_pos (by omega) htw, hth⟩, hrow _ _ _ (by omega) (by omega)⟩
      · refine ⟨⟨Nat.mul_pos hpitch htw, Nat.mul_pos (Nat.pos_of_ne_zero hc) hth⟩, hcolumns _ _ _ le_rfl ?_⟩
        split_ifs <;> omega
      · exact ⟨⟨Nat.mul_pos hb htw, hth⟩, hcolumn _ _ hb' le_rfl⟩
    · simp only [List.length_append]
      exact Nat.add_le_add (Nat.add_le_add (Partitions.length_ite_le _ _)
        (Partitions.length_ite_le _ _)) (Partitions.length_ite_le _ _)

/-! ### The range -/

/-- The tile of the EDRAM that a pixel of a target is in. -/
def edramTile (baseTiles pitch tileWidth tileHeight : ℕ) (p : ℕ × ℕ) : ℕ :=
  (baseTiles + (p.2 / tileHeight * pitch + p.1 / tileWidth)) % kEdramTileCount

/-- The pixel is in the target's first turn through the EDRAM, and its tile is in the range. -/
def InRange (startTiles endTiles baseTiles pitch tileWidth tileHeight : ℕ) (p : ℕ × ℕ) : Prop :=
  p.1 / tileWidth < pitch ∧ p.2 / tileHeight * pitch + p.1 / tileWidth < kEdramTileCount ∧
    startTiles ≤ edramTile baseTiles pitch tileWidth tileHeight p ∧
    edramTile baseTiles pitch tileWidth tileHeight p < endTiles

/-- What the asserts at the start of `GetRangeRectangles` ask for, with the tile a size; and the
rows are less than 2^32 pixels wide, and those of two turns through the EDRAM as high. -/
structure ValidRange (sdk : Sdk) (startTiles endTiles baseTiles pitch : ℕ) : Prop where
  le : startTiles ≤ endTiles
  stop : endTiles ≤ kEdramTileCount
  base : baseTiles < kEdramTileCount
  wrap : baseTiles ≤ startTiles ∨ endTiles ≤ baseTiles
  rowWidth : pitch * sdk.kEdramTileWidthSamples < 2 ^ 32
  rowsHeight : 2 * kEdramTileCount * sdk.kEdramTileHeightSamples < 2 ^ 32
  pitch : 0 < pitch
  width : 4 ≤ sdk.kEdramTileWidthSamples
  height : 2 ≤ sdk.kEdramTileHeightSamples

namespace ValidRange

variable {sdk : Sdk} {startTiles endTiles baseTiles : ℕ} {msaaSamples : BitVec 2} {is64bpp : Bool}

/-- A tile is at least one pixel wide. -/
theorem tileWidth_pos (h : ValidRange sdk startTiles endTiles baseTiles pitch)
    (msaaSamples : BitVec 2) (is64bpp : Bool) : 0 < sdk.tileWidth msaaSamples is64bpp := by
  have hwidth := h.width
  rw [Sdk.tileWidth, Nat.shiftRight_eq_div_pow]
  refine Nat.div_pos ?_ (Nat.two_pow_pos _)
  split_ifs <;> cases is64bpp <;> simp only [Bool.toNat_true, Bool.toNat_false] <;> omega

/-- And at least one pixel high. -/
theorem tileHeight_pos (h : ValidRange sdk startTiles endTiles baseTiles pitch)
    (msaaSamples : BitVec 2) : 0 < sdk.tileHeight msaaSamples := by
  have hheight := h.height
  rw [Sdk.tileHeight, Nat.shiftRight_eq_div_pow]
  refine Nat.div_pos ?_ (Nat.two_pow_pos _)
  split_ifs <;> omega

/-- A tile of the range counted from the base of the target, through the wrap of the tile index. -/
theorem local_eq (h : ValidRange sdk startTiles endTiles baseTiles pitch) {tiles : ℕ}
    (hle : startTiles ≤ tiles) (hstop : tiles ≤ kEdramTileCount) :
    let localOffset := if startTiles < baseTiles then kEdramTileCount else 0
    sub32 (add32 localOffset tiles) baseTiles = localOffset + tiles - baseTiles := by
  obtain ⟨-, -, hbase, -, -, -, -, -, -⟩ := h
  intro localOffset
  have hoffset : localOffset ≤ kEdramTileCount := by
    simp only [localOffset]
    split_ifs <;> omega
  have hpast : baseTiles ≤ localOffset + tiles := by
    simp only [localOffset]
    split_ifs <;> omega
  unfold kEdramTileCount at hoffset hstop
  rw [add32_eq (by omega), sub32_eq (by omega) hpast]

/-- The range counted from the base of the target. -/
theorem inRows (h : ValidRange sdk startTiles endTiles baseTiles pitch)
    (hlt : startTiles < endTiles) (tileWidth tileHeight : ℕ) (p : ℕ × ℕ) :
    let localOffset := if startTiles < baseTiles then kEdramTileCount else 0
    InRows (localOffset + startTiles - baseTiles) (localOffset + endTiles - baseTiles) pitch tileWidth
      tileHeight p ↔ InRange startTiles endTiles baseTiles pitch tileWidth tileHeight p := by
  obtain ⟨hle, hstop, hbase, hwrap, -, -, -, -, -⟩ := h
  simp only [InRows, InRange, edramTile, kEdramTileCount] at hstop hbase ⊢
  refine and_congr_right fun _ => ?_
  generalize p.2 / tileHeight * pitch + p.1 / tileWidth = tile
  split_ifs <;> omega

/-- Nothing wraps around in the rows of the range. -/
theorem rowsInWords (h : ValidRange sdk startTiles endTiles baseTiles pitch) (msaaSamples : BitVec 2)
    (is64bpp : Bool) {localEnd : ℕ} (hend : localEnd ≤ 2 * kEdramTileCount) :
    RowsInWords pitch (sdk.tileWidth msaaSamples is64bpp) (sdk.tileHeight msaaSamples) localEnd := by
  have hwidth : sdk.tileWidth msaaSamples is64bpp ≤ sdk.kEdramTileWidthSamples := Nat.shiftRight_le ..
  have hheight : sdk.tileHeight msaaSamples ≤ sdk.kEdramTileHeightSamples := Nat.shiftRight_le ..
  have hpitch : pitch * 4 ≤ pitch * sdk.kEdramTileWidthSamples := Nat.mul_le_mul_left _ h.width
  have hrowWidth := h.rowWidth
  constructor
  · unfold kEdramTileCount at hend
    omega
  · exact lt_of_le_of_lt (Nat.mul_le_mul_left _ hwidth) hrowWidth
  · exact lt_of_le_of_lt (Nat.mul_le_mul hend hheight) h.rowsHeight

end ValidRange

variable {sdk : Sdk} {startTiles endTiles baseTiles : ℕ}

/-- **The rectangles of a range of tiles**: every pixel of the range outside the cutout is
in exactly one of them and no other pixel in any, none is empty, and there are at most three,
each in up to four pieces around the cutout.  The rows of the target and the edges of the
cutout are below 2^32. -/
theorem rangeRectangles_exact (msaaSamples : BitVec 2) (is64bpp : Bool) (cutout : Option Rectangle)
    (h : ValidRange sdk startTiles endTiles baseTiles pitch) (hcutout : ∀ c ∈ cutout, c.InWords) :
    let rectangles := sdk.rangeRectangles startTiles endTiles baseTiles pitch msaaSamples is64bpp cutout
    Covers rectangles (fun p =>
        InRange startTiles endTiles baseTiles pitch (sdk.tileWidth msaaSamples is64bpp)
          (sdk.tileHeight msaaSamples) p ∧ ∀ c ∈ cutout, ¬c.Contains p) ∧
      (∀ r ∈ rectangles, r.Proper) ∧
      rectangles.length ≤ if cutout.isSome then 12 else 3 := by
  intro rectangles
  have htw := h.tileWidth_pos msaaSamples is64bpp
  have hth := h.tileHeight_pos msaaSamples
  by_cases hempty : startTiles = endTiles
  · rw [show rectangles = [] from if_pos hempty]
    refine ⟨Partitions.nil fun p hp => ?_, fun r hr => absurd hr List.not_mem_nil, Nat.zero_le _⟩
    have := hp.1.2.2
    omega
  have hlt : startTiles < endTiles := lt_of_le_of_ne h.le hempty
  have hstart := h.local_eq le_rfl (h.le.trans h.stop)
  have hend := h.local_eq h.le h.stop
  dsimp only at hstart hend
  rw [show rectangles = _ from if_neg hempty]
  dsimp only
  rw [hstart, hend]
  have hlocal : (if startTiles < baseTiles then kEdramTileCount else 0) + startTiles - baseTiles <
      (if startTiles < baseTiles then kEdramTileCount else 0) + endTiles - baseTiles := by
    have hbase := h.base
    split_ifs <;> omega
  have hwords := h.rowsInWords msaaSamples is64bpp
    (show (if startTiles < baseTiles then kEdramTileCount else 0) + endTiles - baseTiles ≤
        2 * kEdramTileCount by
      have hstop := h.stop
      split_ifs <;> omega)
  obtain ⟨hproper, hlength⟩ := rowRectangles_proper htw hth h.pitch hlocal hwords
  refine ⟨?_, fun r hr => ?_, ?_⟩
  · refine ((covers_rowRectangles htw hth h.pitch hlocal hwords).flatMap fun r hr =>
      covers_addRectangle (hproper r hr).2 hcutout).congr fun p => ?_
    exact and_congr_left fun _ => h.inRows hlt _ _ p
  · obtain ⟨row, hrow, hr⟩ := List.mem_flatMap.1 hr
    exact addRectangle_proper (hproper row hrow).1 (hproper row hrow).2 hcutout r hr
  · refine (Partitions.length_flatMap_le fun r _ => length_addRectangle r cutout).trans ?_
    refine (Nat.mul_le_mul_right _ hlength).trans ?_
    cases cutout <;> exact le_rfl

/-- The hypotheses are satisfiable: tiles 2045 to 2047 of a target of four tiles a row with its
base at 2043, with a cutout in the last row.  The range starts in the third column, and the
cutout takes half of its last tile. -/
theorem rangeRectangles_exact_twoRows :
    hostSdk.rangeRectangles 2045 2048 2043 4 0 false (some ⟨0, 16, 40, 16⟩) =
        [⟨160, 0, 160, 16⟩, ⟨40, 16, 40, 16⟩] ∧
      Covers (hostSdk.rangeRectangles 2045 2048 2043 4 0 false (some ⟨0, 16, 40, 16⟩)) fun p =>
        InRange 2045 2048 2043 4 80 16 p ∧ ∀ c ∈ some (Rectangle.mk 0 16 40 16), ¬c.Contains p := by
  have hvalid : ValidRange hostSdk 2045 2048 2043 4 :=
    { le := by decide
      stop := by decide
      base := by decide
      wrap := .inl (by decide)
      pitch := by decide
      width := by decide
      height := by decide
      rowWidth := by decide
      rowsHeight := by decide }
  have hcutout : ∀ c ∈ some (Rectangle.mk 0 16 40 16), c.InWords := by
    rintro c ⟨⟩
    exact ⟨by decide, by decide⟩
  exact ⟨rfl, (rangeRectangles_exact 0 false _ hvalid hcutout).1⟩

/-- A range has no rectangles just when the cutout has all its pixels. -/
theorem rangeRectangles_eq_nil_iff (msaaSamples : BitVec 2) (is64bpp : Bool) (cutout : Option Rectangle)
    (h : ValidRange sdk startTiles endTiles baseTiles pitch) (hcutout : ∀ c ∈ cutout, c.InWords) :
    sdk.rangeRectangles startTiles endTiles baseTiles pitch msaaSamples is64bpp cutout = [] ↔
      ∀ p, InRange startTiles endTiles baseTiles pitch (sdk.tileWidth msaaSamples is64bpp)
        (sdk.tileHeight msaaSamples) p → ∃ c ∈ cutout, c.Contains p := by
  obtain ⟨hcovers, hproper, -⟩ := rangeRectangles_exact msaaSamples is64bpp cutout h hcutout
  rw [hcovers.eq_nil_iff fun r hr => (hproper r hr).exists_contains]
  refine forall_congr' fun p => ?_
  rw [not_and, not_forall]
  simp only [Classical.not_imp, not_not]

end Edram
end BoltsRebuilt
