/-
# Who owns the tiles of the EDRAM

`RenderTargetCache` (`vendored/src/graphics/pipeline/render_target/cache.cpp`)
keeps for every one of the 2048 EDRAM tiles which host render target holds its
current contents, and for depth data which targets hold the two host
encodings.  The map is a `std::map` of ranges; here it is a list of pieces.
`changeOwnership` (lines 1367-1529) claims an extent for a render target: it
walks the ranges of the extent, splits the ranges at its ends, records the
copies that are needed, and merges ranges whose owners have become equal.

The class definition is the SDK's and not part of this repository, so the
small predicates of its header are parameters (`Sdk`), with what the code
relies on in `Sdk.Documented`.

`at_changeOwnership` is the specification: seen tile by tile, the call claims
the tiles of the extent that are not owned yet and nothing else.  From it, an
extent that is owned already is not changed at all (`changeOwnership_of_owned`).
-/

import BoltsRebuilt.Lib.Tiling
import Mathlib.Data.List.TakeWhile

namespace BoltsRebuilt
namespace Edram

/-- `xenos::kEdramTileCount`. -/
def kEdramTileCount : ℕ := 2048

/-- `RenderTargetKey`: a union of these fields with one `uint32_t`. -/
structure RenderTargetKey where
  baseTiles : BitVec 11 := 0
  pitchTilesAt32bpp : BitVec 8 := 0
  msaaSamples : BitVec 2 := 0
  isDepth : Bool := false
  resourceFormat : BitVec 4 := 0
deriving DecidableEq

/-- The `uint32_t` of the union. -/
def RenderTargetKey.key (k : RenderTargetKey) : ℕ :=
  k.baseTiles.toNat + 2 ^ 11 * k.pitchTilesAt32bpp.toNat + 2 ^ 19 * k.msaaSamples.toNat +
    2 ^ 21 * k.isDepth.toNat + 2 ^ 22 * k.resourceFormat.toNat

/-- A key is known from the word it is packed into. -/
theorem RenderTargetKey.key_injective {a b : RenderTargetKey} (h : a.key = b.key) : a = b := by
  obtain ⟨base, pitch, msaa, depth, format⟩ := a
  obtain ⟨base', pitch', msaa', depth', format'⟩ := b
  have hbase := base.isLt
  have hbase' := base'.isLt
  have hpitch := pitch.isLt
  have hpitch' := pitch'.isLt
  have hmsaa := msaa.isLt
  have hmsaa' := msaa'.isLt
  have hdepth := depth.toNat_lt
  have hdepth' := depth'.toNat_lt
  have hformat := format.isLt
  have hformat' := format'.isLt
  simp only [key] at h
  obtain rfl : base = base' := BitVec.eq_of_toNat_eq (by omega)
  obtain rfl : pitch = pitch' := BitVec.eq_of_toNat_eq (by omega)
  obtain rfl : msaa = msaa' := BitVec.eq_of_toNat_eq (by omega)
  obtain rfl : format = format' := BitVec.eq_of_toNat_eq (by omega)
  have hsame : depth.toNat = depth'.toNat := by omega
  obtain rfl : depth = depth' := by
    cases depth <;> cases depth' <;> simp_all
  rfl

/-- A `RenderTarget*` that is not null: the target's key and the pointer. -/
structure RenderTarget where
  key : RenderTargetKey
  pointer : ℕ
deriving DecidableEq

/-- `render_targets_`: the targets by key, null where the creation failed. -/
abbrev RenderTargets := List (RenderTargetKey × Option RenderTarget)

inductive DepthRenderTargetFormat
  | kD24S8
  | kD24FS8
deriving DecidableEq

/-- The owners of an `OwnershipRange`. -/
structure Owners where
  renderTarget : RenderTargetKey := {}
  hostDepthRenderTargetUnorm24 : RenderTargetKey := {}
  hostDepthRenderTargetFloat24 : RenderTargetKey := {}
deriving DecidableEq

/-- An `OwnershipRange` and its key in the map: the first tile, the tile past
the last, and the owners. -/
abbrev OwnershipRange := Piece Owners

/-- `Transfer::Rectangle`. -/
structure Rectangle where
  xPixels : ℕ
  yPixels : ℕ
  widthPixels : ℕ
  heightPixels : ℕ
deriving DecidableEq

/-- `Transfer`: the tiles to copy and the targets to copy them from. -/
structure Transfer where
  startTiles : ℕ
  endTiles : ℕ
  source : Option RenderTarget
  hostDepthSource : Option RenderTarget
deriving DecidableEq

/-- What the claim code uses of the SDK's headers, and the geometry of a
transfer (`Transfer::GetRangeRectangles`), which decides no ownership. -/
structure Sdk where
  /-- `RenderTargetKey::IsEmpty`. -/
  isEmpty : RenderTargetKey → Bool
  /-- `RenderTargetKey::GetDepthFormat`. -/
  getDepthFormat : RenderTargetKey → DepthRenderTargetFormat
  /-- Which of the two host depth owners `GetHostDepthRenderTarget` refers to. -/
  hostDepthIsFloat24 : DepthRenderTargetFormat → Bool
  /-- `OwnershipRange::IsOwnedBy`. -/
  isOwnedBy : Owners → RenderTargetKey → Bool → Bool
  /-- `OwnershipRange::AreOwnersSame`. -/
  areOwnersSame : Owners → Owners → Bool
  /-- How many rectangles `GetRangeRectangles` gives outside the cutout. -/
  getRangeRectangles : ℕ → ℕ → RenderTargetKey → Rectangle → ℕ
  /-- `xenos::IsColorRenderTargetFormat64bpp`. -/
  isColorRenderTargetFormat64bpp : BitVec 4 → Bool
  /-- `GetColorResourceFormat` of `xenos::GetStorageColorFormat`. -/
  colorResourceFormat : BitVec 4 → BitVec 4
  /-- `ColorRenderTargetFormat::k_8_8_8_8` and `k_16_16_16_16`. -/
  k8888 : BitVec 4
  k16161616 : BitVec 4
  /-- `xenos::kEdramTileWidthSamples`, `kEdramTileHeightSamples` and
  `kTexture2DCubeMaxWidthHeight`. -/
  kEdramTileWidthSamples : ℕ
  kEdramTileHeightSamples : ℕ
  kTexture2DCubeMaxWidthHeight : ℕ

namespace Sdk

variable (sdk : Sdk)

/-- `GetHostDepthRenderTarget`, read. -/
def getHostDepthRenderTarget (o : Owners) (format : DepthRenderTargetFormat) : RenderTargetKey :=
  if sdk.hostDepthIsFloat24 format then o.hostDepthRenderTargetFloat24
  else o.hostDepthRenderTargetUnorm24

/-- Claim a range: lines 1485-1488. -/
def claim (o : Owners) (dest : RenderTargetKey) (hostDepthEncodingDifferent : Bool) : Owners :=
  let o := { o with renderTarget := dest }
  if hostDepthEncodingDifferent then
    if sdk.hostDepthIsFloat24 (sdk.getDepthFormat dest) then
      { o with hostDepthRenderTargetFloat24 := dest }
    else { o with hostDepthRenderTargetUnorm24 := dest }
  else o

/-- What the code relies on: a claimed range is owned by who claimed it, and
ranges with the same owners have the same three owners. -/
structure Documented : Prop where
  owned_claim : ∀ o dest hostDepth, sdk.isOwnedBy (sdk.claim o dest hostDepth) dest hostDepth = true
  same_eq : ∀ a b, sdk.areOwnersSame a b = true → a = b

end Sdk

/-! ### `ChangeOwnership` -/

/-- The arguments of `ChangeOwnership` its walk does not change:
`render_targets_`, the claiming target, whether its host depth encoding
differs, and the cutout. -/
structure Claimant where
  renderTargets : RenderTargets
  dest : RenderTargetKey
  hostDepth : Bool
  cutout : Option Rectangle := none

namespace Claimant

variable (sdk : Sdk) (c : Claimant)

def owns (o : Owners) : Bool := sdk.isOwnedBy o c.dest c.hostDepth

def claim (o : Owners) : Owners := sdk.claim o c.dest c.hostDepth

/-- The transfer a range needs before it is taken over (lines 1428-1482):
appended to the transfers or, where the last one goes on, extending it. -/
def transfer (extentEnd : ℕ) (it : OwnershipRange) (out : List Transfer) : List Transfer :=
  let transferSource := it.value.renderTarget
  if sdk.isEmpty transferSource ∨ transferSource = c.dest then out
  else
    let transferEndTiles := min it.stop extentEnd
    if c.cutout.any fun cutout =>
        sdk.getRangeRectangles it.first transferEndTiles c.dest cutout == 0 then out
    else
      let hostDepthSource :=
        if c.hostDepth then sdk.getHostDepthRenderTarget it.value (sdk.getDepthFormat c.dest)
        else {}
      let hostDepthSource := if hostDepthSource = transferSource then {} else hostDepthSource
      let continued := out.getLast?.any fun back =>
        back.endTiles = it.first ∧ back.source.map RenderTarget.key = some transferSource ∧
          (back.hostDepthSource.isNone = sdk.isEmpty hostDepthSource) ∧
          (sdk.isEmpty hostDepthSource ∨
            back.hostDepthSource.map RenderTarget.key = some hostDepthSource)
      if continued then
        out.dropLast ++ (out.getLast?.map fun back =>
          { back with endTiles := transferEndTiles }).toList
      else
        match c.renderTargets.lookup transferSource with
        | none => out
        | some source =>
          if sdk.isEmpty hostDepthSource then
            out ++ [⟨it.first, transferEndTiles, source, none⟩]
          else
            match c.renderTargets.lookup hostDepthSource with
            | none => out
            | some hostDepth => out ++ [⟨it.first, transferEndTiles, source, hostDepth⟩]

/-- Merge a claimed range with the next one if their owners are the same. -/
def mergeNext (it : OwnershipRange) :
    List OwnershipRange → OwnershipRange × List OwnershipRange
  | [] => (it, [])
  | next :: after =>
    if sdk.areOwnersSame next.value it.value then ({ it with stop := next.stop }, after)
    else (it, next :: after)

/-- Merge a claimed range with the previous one if their owners are the same;
the ranges before it are in reverse. -/
def mergePrevious (it : OwnershipRange) : List OwnershipRange → List OwnershipRange
  | [] => [it]
  | previous :: before =>
    if sdk.areOwnersSame previous.value it.value then
      { previous with stop := it.stop } :: before
    else it :: previous :: before

/-- The walk of `change_ownership_in_extent` from an iterator on: the ranges
before it in reverse, and the ranges from it on. -/
def walk (extentEnd : ℕ) (before : List OwnershipRange) :
    List OwnershipRange → Option (List Transfer) → List OwnershipRange × Option (List Transfer)
  | [], out => (before.reverse, out)
  | it :: after, out =>
    if extentEnd ≤ it.first then (before.reverse ++ it :: after, out)
    else if c.owns sdk it.value then walk extentEnd (it :: before) after out
    else
      let out := out.map (c.transfer sdk extentEnd it)
      if extentEnd < it.stop then
        -- The tail is split off and starts at the end of the extent, so the
        -- next iteration leaves the loop.
        let tail : OwnershipRange := { it with first := extentEnd }
        let merged := mergeNext sdk ⟨it.first, extentEnd, c.claim sdk it.value⟩ (tail :: after)
        ((mergePrevious sdk merged.1 before).reverse ++ merged.2, out)
      else
        let it : OwnershipRange := { it with value := c.claim sdk it.value }
        match after with
        | [] => ((mergePrevious sdk it before).reverse, out)
        | next :: rest =>
          if sdk.areOwnersSame next.value it.value then
            walk extentEnd (mergePrevious sdk { it with stop := next.stop } before) rest out
          else walk extentEnd (mergePrevious sdk it before) (next :: rest) out

/-- Cut the range before the extent if it reaches into it and is not owned
(lines 1397-1409), and walk on from the first range of the extent. -/
def enter (extentStart extentEnd : ℕ) (before after : List OwnershipRange)
    (out : Option (List Transfer)) : List OwnershipRange × Option (List Transfer) :=
  match before with
  | [] => c.walk sdk extentEnd [] after out
  | previous :: before =>
    if extentStart < previous.stop ∧ ¬ c.owns sdk previous.value then
      c.walk sdk extentEnd ({ previous with stop := extentStart } :: before)
        ({ previous with first := extentStart } :: after) out
    else c.walk sdk extentEnd (previous :: before) after out

/-- `change_ownership_in_extent` (lines 1391-1516). -/
def changeOwnershipInExtent (extentStart extentEnd : ℕ) (ranges : List OwnershipRange)
    (out : Option (List Transfer)) : List OwnershipRange × Option (List Transfer) :=
  c.enter sdk extentStart extentEnd (ranges.takeWhile fun it => it.first < extentStart).reverse
    (ranges.dropWhile fun it => it.first < extentStart) out

/-- The first tile of a claim. -/
def startTiles (startTilesBaseRelative : ℕ) : ℕ :=
  (c.dest.baseTiles.toNat + startTilesBaseRelative) % kEdramTileCount

/-- `ChangeOwnership` (lines 1367-1529), apart from the generation it bumps. -/
def changeOwnership (startTilesBaseRelative lengthTiles : ℕ) (ranges : List OwnershipRange)
    (out : Option (List Transfer)) : List OwnershipRange × Option (List Transfer) :=
  if lengthTiles = 0 then (ranges, out)
  else
    let startTiles := c.startTiles startTilesBaseRelative
    let endTiles := startTiles + lengthTiles
    let first := c.changeOwnershipInExtent sdk startTiles (min endTiles kEdramTileCount) ranges out
    if kEdramTileCount < endTiles then
      c.changeOwnershipInExtent sdk 0 (min (endTiles % kEdramTileCount) startTiles) first.1 first.2
    else first

/-! ### What a claim does to the tiles -/

variable {sdk c} {extentStart extentEnd lo hi t : ℕ} {it : OwnershipRange} {v : Owners}
  {before after ranges : List OwnershipRange} {out : Option (List Transfer)}

/-- A range of the extent after the walk. -/
def taken (sdk : Sdk) (c : Claimant) (inside : Prop) [Decidable inside] (v : Owners) : Owners :=
  if inside ∧ ¬ c.owns sdk v then c.claim sdk v else v

/-- A tile that is owned already is taken without any change. -/
theorem taken_of_owns {inside : Prop} [Decidable inside] (h : c.owns sdk v = true) :
    taken sdk c inside v = v := by
  simp [taken, h]

/-- What is taken depends on whether the tile is inside, however that is said. -/
theorem taken_congr {p q : Prop} [Decidable p] [Decidable q] (h : p ↔ q) :
    taken sdk c p v = taken sdk c q v := by
  simp [taken, h]

/-- A claimant owns what it has claimed. -/
theorem owns_claim (hsdk : sdk.Documented) : c.owns sdk (c.claim sdk v) = true :=
  hsdk.owned_claim _ _ _

/-- Taking tiles twice is taking those of either claim. -/
theorem taken_taken (hsdk : sdk.Documented) {p q : Prop} [Decidable p] [Decidable q] :
    taken sdk c q (taken sdk c p v) = taken sdk c (p ∨ q) v := by
  by_cases howns : c.owns sdk v = true
  · rw [taken_of_owns howns, taken_of_owns howns, taken_of_owns howns]
  · by_cases hp : p
    · simp [taken, hp, howns, owns_claim hsdk]
    · simp [taken, hp]

/-- Merging a range with the next one changes no tile's owners. -/
theorem mergeNext_spec (hsdk : sdk.Documented) (h : Piece.Tiles lo hi (it :: after)) :
    Piece.Tiles lo hi ((mergeNext sdk it after).1 :: (mergeNext sdk it after).2) ∧
      ∀ t v, Piece.At ((mergeNext sdk it after).1 :: (mergeNext sdk it after).2) t v ↔
        Piece.At (it :: after) t v := by
  cases after with
  | nil => exact ⟨h, fun _ _ => .rfl⟩
  | cons next after =>
    by_cases hsame : sdk.areOwnersSame next.value it.value = true
    · rw [mergeNext, if_pos hsame]
      obtain ⟨hfirst, hstop, hnext, hstop', hafter⟩ := h
      refine ⟨⟨hfirst, Nat.lt_trans hstop hstop', hafter⟩, fun t v => ?_⟩
      have hmerge := Piece.at_merge (by omega : it.first ≤ it.stop)
        (by omega : next.first ≤ next.stop) hnext.symm (hsdk.same_eq _ _ hsame).symm
        (t := t) (v := v)
      rw [← List.singleton_append, Piece.at_append, hmerge, ← Piece.at_append]
      rfl
    · rw [mergeNext, if_neg hsame]
      exact ⟨h, fun _ _ => .rfl⟩

/-- Merging a range with the one before changes no tile's owners, and the ranges still lie side by
side. -/
theorem mergePrevious_spec (hsdk : sdk.Documented)
    (h : Piece.Tiles lo hi (before.reverse ++ it :: after)) :
    Piece.Tiles lo hi ((mergePrevious sdk it before).reverse ++ after) ∧
      ∀ t v, Piece.At (mergePrevious sdk it before) t v ↔ Piece.At (it :: before) t v := by
  cases before with
  | nil => exact ⟨h, fun _ _ => .rfl⟩
  | cons previous before =>
    by_cases hsame : sdk.areOwnersSame previous.value it.value = true
    · rw [mergePrevious, if_pos hsame]
      simp only [List.reverse_cons, List.append_assoc, List.singleton_append,
        Piece.tiles_append, Piece.tiles_cons] at h ⊢
      obtain ⟨mid, hbefore, hprevious, hstop, hit, hstop', hafter⟩ := h
      refine ⟨⟨mid, hbefore, hprevious, Nat.lt_trans hstop hstop', hafter⟩, fun t v => ?_⟩
      have hmerge := Piece.at_merge (by omega : previous.first ≤ previous.stop)
        (by omega : it.first ≤ it.stop) hit.symm (hsdk.same_eq _ _ hsame) (t := t) (v := v)
      simp only [Piece.at_cons, Piece.at_nil, or_false] at hmerge ⊢
      rw [hmerge]
      tauto
    · rw [mergePrevious, if_neg hsame]
      exact ⟨by simpa using h, fun _ _ => .rfl⟩

/-- The tiles of changed ranges are those of the first, changed, and those of the others. -/
theorem exists_at_cons {f : Owners → Owners} {v' : Owners} :
    (∃ v, Piece.At (it :: after) t v ∧ v' = f v) ↔
      ((it.first ≤ t ∧ t < it.stop) ∧ f it.value = v') ∨ ∃ v, Piece.At after t v ∧ v' = f v := by
  simp only [Piece.at_cons, or_and_right, exists_or, and_assoc]
  refine or_congr ⟨?_, ?_⟩ .rfl
  · rintro ⟨v, hfirst, hstop, rfl, rfl⟩
    exact ⟨hfirst, hstop, rfl⟩
  · rintro ⟨hfirst, hstop, rfl⟩
    exact ⟨_, hfirst, hstop, rfl, rfl⟩

/-- Past the end of the extent the walk takes nothing. -/
theorem exists_taken_of_le {v' : Owners} (h : Piece.Tiles lo hi after) (hle : extentEnd ≤ lo) :
    (∃ v, Piece.At after t v ∧ v' = taken sdk c (t < extentEnd) v) ↔ Piece.At after t v' := by
  have htaken : ∀ v, Piece.At after t v → taken sdk c (t < extentEnd) v = v := by
    rintro v ⟨p, hp, ht, -⟩
    have := (h.bounds hp).1
    rw [taken, if_neg]
    omega
  constructor
  · rintro ⟨v, hv, rfl⟩
    rwa [htaken v hv]
  · intro hv
    exact ⟨v', hv, (htaken v' hv).symm⟩

/-- Giving a range another owner leaves the ranges side by side as they were. -/
theorem tiles_claim (h : Piece.Tiles lo hi (before.reverse ++ it :: after)) (v : Owners) :
    Piece.Tiles lo hi (before.reverse ++ { it with value := v } :: after) := by
  rw [Piece.tiles_append] at h ⊢
  exact h

/-- A range inside the extent that is not owned yet is claimed as a whole. -/
theorem taken_of_not_owns {v' : Owners} (howns : ¬ c.owns sdk it.value = true)
    (hstop : it.stop ≤ extentEnd) :
    ((it.first ≤ t ∧ t < it.stop) ∧ taken sdk c (t < extentEnd) it.value = v') ↔
      (it.first ≤ t ∧ t < it.stop) ∧ c.claim sdk it.value = v' := by
  refine and_congr_right fun ht => ?_
  rw [taken, if_pos ⟨by omega, howns⟩]

/-- A range that ends past the extent is claimed up to its end. -/
theorem taken_split {v' : Owners} (howns : ¬ c.owns sdk it.value = true)
    (hfirst : it.first < extentEnd) (hstop : extentEnd < it.stop) :
    ((it.first ≤ t ∧ t < it.stop) ∧ taken sdk c (t < extentEnd) it.value = v') ↔
      ((it.first ≤ t ∧ t < extentEnd) ∧ c.claim sdk it.value = v') ∨
        ((extentEnd ≤ t ∧ t < it.stop) ∧ it.value = v') := by
  rcases Nat.lt_or_ge t extentEnd with hlt | hge
  · rw [taken, if_pos ⟨hlt, howns⟩]
    constructor
    · rintro ⟨ht, hv⟩
      exact .inl ⟨⟨ht.1, hlt⟩, hv⟩
    · rintro (⟨ht, hv⟩ | ⟨ht, -⟩)
      · exact ⟨by omega, hv⟩
      · omega
  · rw [taken, if_neg (by omega)]
    constructor
    · rintro ⟨ht, hv⟩
      exact .inr ⟨⟨hge, ht.2⟩, hv⟩
    · rintro (⟨ht, -⟩ | ⟨ht, hv⟩)
      · omega
      · exact ⟨by omega, hv⟩

variable (c extentEnd out) in
/-- **One walk, range by range.**  What is left of the iterator stays, and of
the rest exactly the tiles of the extent that were not owned are claimed. -/
theorem walk_spec (hsdk : sdk.Documented) (h : Piece.Tiles lo hi (before.reverse ++ after)) :
    Piece.Tiles lo hi (c.walk sdk extentEnd before after out).1 ∧
      ∀ t v', Piece.At (c.walk sdk extentEnd before after out).1 t v' ↔
        Piece.At before t v' ∨
          ∃ v, Piece.At after t v ∧ v' = taken sdk c (t < extentEnd) v := by
  fun_induction c.walk sdk extentEnd before after out with
  | case1 before out => exact ⟨by simpa using h, by simp⟩
  | case2 before it after out hend =>
    refine ⟨h, fun t v' => ?_⟩
    obtain ⟨mid, -, hafter⟩ := Piece.tiles_append.mp h
    have hmid : extentEnd ≤ mid := hafter.1 ▸ hend
    rw [exists_taken_of_le hafter hmid, Piece.at_append, Piece.at_reverse]
  | case3 before it after out hend howns ih =>
    obtain ⟨htiles, hat⟩ := ih (by simpa using h)
    refine ⟨htiles, fun t v' => ?_⟩
    rw [hat, exists_at_cons, taken_of_owns howns, Piece.at_cons, or_assoc, or_left_comm]
  | case4 before it after out hend howns out' hstop tail merged =>
    obtain ⟨mid, hbefore, hfirst, -, hafter⟩ := Piece.tiles_append.mp h
    obtain ⟨hnext, hatNext⟩ := mergeNext_spec hsdk
      (show Piece.Tiles mid hi (⟨it.first, extentEnd, c.claim sdk it.value⟩ :: tail :: after) from
        ⟨hfirst, show mid < extentEnd by omega, rfl, hstop, hafter⟩)
    obtain ⟨hprevious, hatPrevious⟩ := mergePrevious_spec hsdk
      (Piece.tiles_append.mpr ⟨mid, hbefore, hnext⟩)
    refine ⟨hprevious, fun t v' => ?_⟩
    have hnext' := hatNext t v'
    rw [Piece.at_cons, Piece.at_cons, Piece.at_cons, ← or_assoc] at hnext'
    rw [exists_at_cons, exists_taken_of_le hafter (Nat.le_of_lt hstop),
      taken_split howns (by omega) hstop, ← hnext', Piece.at_append, Piece.at_reverse, hatPrevious,
      Piece.at_cons, or_assoc, or_left_comm]
  | case5 before it out hend howns out' hstop it' =>
    obtain ⟨hprevious, hatPrevious⟩ := mergePrevious_spec hsdk (tiles_claim h (c.claim sdk it.value))
    refine ⟨by simpa using hprevious, fun t v' => ?_⟩
    rw [exists_at_cons, taken_of_not_owns howns (by omega), Piece.at_reverse, hatPrevious,
      Piece.at_cons, or_comm]
    simp
  | case6 before it out hend howns out' hstop it' next rest hsame ih =>
    have hvalue := hsdk.same_eq _ _ hsame
    obtain ⟨mid, hbefore, hfirst, hmid, hnext, hstop', hrest⟩ :=
      Piece.tiles_append.mp (tiles_claim h (c.claim sdk it.value))
    obtain ⟨hprevious, hatPrevious⟩ := mergePrevious_spec hsdk
      (Piece.tiles_append.mpr ⟨mid, hbefore,
        show Piece.Tiles mid hi ({ it' with stop := next.stop } :: rest) from
          ⟨hfirst, Nat.lt_trans hmid hstop', hrest⟩⟩)
    obtain ⟨htiles, hat⟩ := ih hprevious
    refine ⟨htiles, fun t v' => ?_⟩
    have hmerge := Piece.at_merge (show it'.first ≤ it'.stop from hfirst ▸ Nat.le_of_lt hmid)
      (show next.first ≤ next.stop from hnext ▸ Nat.le_of_lt hstop') hnext.symm hvalue.symm
      (t := t) (v := v')
    have howned : c.owns sdk next.value = true := hvalue ▸ owns_claim hsdk
    simp only [Piece.at_cons, Piece.at_nil, or_false] at hmerge
    rw [exists_at_cons, exists_at_cons, taken_of_not_owns howns (by omega), taken_of_owns howned,
      hat, hatPrevious, Piece.at_cons, hmerge, or_assoc, or_left_comm, or_assoc]
  | case7 before it out hend howns out' hstop it' next rest hsame ih =>
    obtain ⟨hprevious, hatPrevious⟩ := mergePrevious_spec hsdk (tiles_claim h (c.claim sdk it.value))
    obtain ⟨htiles, hat⟩ := ih hprevious
    refine ⟨htiles, fun t v' => ?_⟩
    rw [exists_at_cons, taken_of_not_owns howns (by omega), hat, hatPrevious, Piece.at_cons,
      or_assoc, or_left_comm]

/-- The walk of an extent that is owned leaves every range as it is. -/
theorem walk_of_owned (h : ∀ p ∈ after, p.first < extentEnd → c.owns sdk p.value = true) :
    c.walk sdk extentEnd before after out = (before.reverse ++ after, out) := by
  induction after generalizing before with
  | nil => simp [walk]
  | cons it after ih =>
    rw [walk]
    by_cases hend : extentEnd ≤ it.first
    · rw [if_pos hend]
    · rw [if_neg hend, if_pos (h it (by simp) (by omega)), ih fun p hp => h p (by simp [hp])]
      simp

/-- The ranges before an extent begin before it. -/
theorem first_lt_of_mem_takeWhile {p : OwnershipRange}
    (hp : p ∈ ranges.takeWhile fun it => it.first < extentStart) : p.first < extentStart := by
  simpa using List.mem_takeWhile_imp hp

/-- The others begin inside it or behind it. -/
theorem le_first_of_mem_dropWhile {p : OwnershipRange} (h : Piece.Tiles lo hi ranges)
    (hp : p ∈ ranges.dropWhile fun it => it.first < extentStart) : extentStart ≤ p.first := by
  induction ranges generalizing lo with
  | nil => cases hp
  | cons q ranges ih =>
    by_cases hq : q.first < extentStart
    · rw [List.dropWhile_cons_of_pos (by simpa using hq)] at hp
      exact ih h.2.2 hp
    · rw [List.dropWhile_cons_of_neg (by simpa using hq)] at hp
      have := (h.bounds hp).1
      have := h.1
      omega

/-- The walk from the start of an extent on, where the ranges before it hold
nothing of the extent that would have to be claimed. -/
theorem walk_extent (hsdk : sdk.Documented) (h : Piece.Tiles lo hi (before.reverse ++ after))
    (hbefore : ∀ t v, Piece.At before t v → extentStart ≤ t → c.owns sdk v = true)
    (hafter : ∀ p ∈ after, extentStart ≤ p.first) :
    Piece.Tiles lo hi (c.walk sdk extentEnd before after out).1 ∧
      ∀ t v', Piece.At (c.walk sdk extentEnd before after out).1 t v' ↔
        ∃ v, Piece.At (before.reverse ++ after) t v ∧
          v' = taken sdk c (extentStart ≤ t ∧ t < extentEnd) v := by
  obtain ⟨htiles, hat⟩ := walk_spec c extentEnd out hsdk h
  refine ⟨htiles, fun t v' => ?_⟩
  have hleft : ∀ v, Piece.At before t v →
      taken sdk c (extentStart ≤ t ∧ t < extentEnd) v = v := by
    intro v hv
    by_cases hle : extentStart ≤ t
    · exact taken_of_owns (hbefore t v hv hle)
    · rw [taken, if_neg (by omega)]
  have hright : ∀ v, Piece.At after t v →
      taken sdk c (extentStart ≤ t ∧ t < extentEnd) v = taken sdk c (t < extentEnd) v := by
    rintro v ⟨p, hp, ht, -⟩
    have hle := hafter p hp
    simp only [taken, show extentStart ≤ t by omega, true_and]
  simp only [hat, Piece.at_append, Piece.at_reverse, or_and_right, exists_or]
  refine or_congr ⟨fun hv => ⟨v', hv, (hleft v' hv).symm⟩, ?_⟩ (exists_congr fun v =>
    and_congr_right fun hv => by rw [hright v hv])
  rintro ⟨v, hv, rfl⟩
  rwa [hleft v hv]

variable (c extentStart extentEnd out) in
/-- The extent of one call, tile by tile: a tile inside it is taken by the claimant, every other
keeps its owners. -/
theorem changeOwnershipInExtent_spec (hsdk : sdk.Documented) (h : Piece.Tiles lo hi ranges) :
    Piece.Tiles lo hi (c.changeOwnershipInExtent sdk extentStart extentEnd ranges out).1 ∧
      ∀ t v', Piece.At (c.changeOwnershipInExtent sdk extentStart extentEnd ranges out).1 t v' ↔
        ∃ v, Piece.At ranges t v ∧
          v' = taken sdk c (extentStart ≤ t ∧ t < extentEnd) v := by
  have hranges : (ranges.takeWhile fun it => it.first < extentStart) ++
      (ranges.dropWhile fun it => it.first < extentStart) = ranges :=
    List.takeWhile_append_dropWhile
  have hafter : ∀ p ∈ ranges.dropWhile fun it => it.first < extentStart, extentStart ≤ p.first :=
    fun p => le_first_of_mem_dropWhile h
  have hfront : ∀ p ∈ (ranges.takeWhile fun it => it.first < extentStart).reverse,
      p.first < extentStart :=
    fun p hp => first_lt_of_mem_takeWhile (List.mem_reverse.mp hp)
  unfold changeOwnershipInExtent
  rw [← List.reverse_reverse (ranges.takeWhile _)] at hranges
  generalize (ranges.takeWhile fun it => it.first < extentStart).reverse = front at *
  generalize (ranges.dropWhile fun it => it.first < extentStart) = after at *
  subst hranges
  cases front with
  | nil => exact walk_extent hsdk h (by simp) hafter
  | cons previous before =>
    have hlt : previous.first < extentStart := hfront previous (by simp)
    obtain ⟨mid, hmid, hfirst, hstop, hrest⟩ := Piece.tiles_append.mp
      (show Piece.Tiles lo hi (before.reverse ++ previous :: after) by simpa using h)
    have hbefore : ∀ t v, Piece.At before t v → t < extentStart := by
      rintro t v ⟨p, hp, ht, -⟩
      have := (hmid.bounds (List.mem_reverse.mpr hp)).2.2
      omega
    by_cases hsplit : extentStart < previous.stop ∧ ¬ c.owns sdk previous.value = true
    · rw [enter, if_pos hsplit]
      have hmid' : mid < extentStart := by omega
      have hhead : ∀ t v, Piece.At ({ previous with stop := extentStart } :: before) t v →
          extentStart ≤ t → c.owns sdk v = true := by
        rintro t v hv hle
        rcases Piece.at_cons.mp hv with ⟨ht, -⟩ | hv
        · have : t < extentStart := ht.2
          omega
        · have := hbefore t v hv
          omega
      have htail : ∀ p ∈ ({ previous with first := extentStart } : OwnershipRange) :: after,
          extentStart ≤ p.first := by
        rintro p hp
        rcases List.mem_cons.mp hp with rfl | hp
        · exact Nat.le_refl _
        · exact hafter p hp
      have htiles : Piece.Tiles lo hi (List.reverse ({ previous with stop := extentStart } :: before) ++
          { previous with first := extentStart } :: after) := by
        rw [List.reverse_cons, List.append_assoc, List.singleton_append, Piece.tiles_append]
        exact ⟨mid, hmid, hfirst, hmid', rfl, hsplit.1, hrest⟩
      obtain ⟨htiles', hat⟩ := walk_extent hsdk htiles hhead htail
      refine ⟨htiles', fun t v' =>
        (hat t v').trans (exists_congr fun v => and_congr_left fun _ => ?_)⟩
      have hcut := Piece.at_split (Nat.le_of_lt hlt) (Nat.le_of_lt hsplit.1) (t := t) (v := v)
      simp only [List.reverse_cons, Piece.at_append, Piece.at_reverse, Piece.at_cons, Piece.at_nil,
        or_false] at hcut ⊢
      rw [← hcut]
      simp only [or_assoc]
    · rw [enter, if_neg hsplit]
      refine walk_extent hsdk h ?_ hafter
      intro t v hv hle
      rcases Piece.at_cons.mp hv with ⟨ht, rfl⟩ | hv
      · by_contra howns
        exact hsplit ⟨by omega, howns⟩
      · have := hbefore t v hv
        omega

/-- An extent whose tiles are owned is not changed, not even cut. -/
theorem changeOwnershipInExtent_of_owned (h : Piece.Tiles lo hi ranges)
    (howned : ∀ t v, extentStart ≤ t → t < extentEnd → Piece.At ranges t v →
      c.owns sdk v = true) (hne : extentStart < extentEnd ∨ extentStart = 0) :
    c.changeOwnershipInExtent sdk extentStart extentEnd ranges out = (ranges, out) := by
  have hranges : (ranges.takeWhile fun it => it.first < extentStart) ++
      (ranges.dropWhile fun it => it.first < extentStart) = ranges :=
    List.takeWhile_append_dropWhile
  have hafter : ∀ p ∈ ranges.dropWhile fun it => it.first < extentStart,
      p.first < extentEnd → c.owns sdk p.value = true := by
    intro p hp hlt
    have hmem : p ∈ ranges := hranges ▸ List.mem_append_right _ hp
    exact howned p.first p.value (le_first_of_mem_dropWhile h hp) hlt (h.at_first hmem)
  have hfront : ∀ p ∈ (ranges.takeWhile fun it => it.first < extentStart).reverse,
      extentStart < p.stop → c.owns sdk p.value = true := by
    intro p hp hlt
    have hp := List.mem_reverse.mp hp
    have hmem : p ∈ ranges := hranges ▸ List.mem_append_left _ hp
    have hfirst := first_lt_of_mem_takeWhile hp
    exact howned extentStart p.value (Nat.le_refl _) (by omega) ⟨p, hmem, ⟨by omega, hlt⟩, rfl⟩
  unfold changeOwnershipInExtent
  rw [← List.reverse_reverse (ranges.takeWhile _)] at hranges
  generalize (ranges.takeWhile fun it => it.first < extentStart).reverse = front at *
  generalize (ranges.dropWhile fun it => it.first < extentStart) = after at *
  subst hranges
  cases front with
  | nil => exact walk_of_owned hafter
  | cons previous before =>
    have hwhole : ¬ (extentStart < previous.stop ∧ ¬ c.owns sdk previous.value = true) := by
      rintro ⟨hlt, howns⟩
      exact howns (hfront previous (by simp) hlt)
    rw [enter, if_neg hwhole]
    exact walk_of_owned hafter

/-- The tiles a claim of `length` tiles from `start` on covers: the EDRAM
addressing wraps around, and a claim does not come back to its own start. -/
def Covers (start length t : ℕ) : Prop :=
  (start ≤ t ∧ t < min (start + length) kEdramTileCount) ∨
    (kEdramTileCount < start + length ∧ t < min ((start + length) % kEdramTileCount) start)

instance (start length t : ℕ) : Decidable (Covers start length t) :=
  inferInstanceAs (Decidable (_ ∨ _))

/-- Every extent of a claim begins inside the EDRAM. -/
theorem startTiles_lt (n : ℕ) : c.startTiles n < kEdramTileCount :=
  Nat.mod_lt _ (by decide)

variable (c out) in
/-- **`ChangeOwnership`, tile by tile.**  The call keeps the map without gaps
and claims the tiles it covers, those that are not owned yet. -/
theorem at_changeOwnership (start length : ℕ) (hsdk : sdk.Documented)
    (h : Piece.Tiles lo hi ranges) :
    Piece.Tiles lo hi (c.changeOwnership sdk start length ranges out).1 ∧
      ∀ t v', Piece.At (c.changeOwnership sdk start length ranges out).1 t v' ↔
        ∃ v, Piece.At ranges t v ∧
          v' = taken sdk c (Covers (c.startTiles start) length t) v := by
  unfold changeOwnership
  by_cases hzero : length = 0
  · rw [if_pos hzero]
    refine ⟨h, fun t v' => ?_⟩
    have hnot : ¬ Covers (c.startTiles start) length t := by
      have := c.startTiles_lt start
      unfold Covers
      omega
    simp [taken, hnot]
  · rw [if_neg hzero]
    have hlt := c.startTiles_lt start
    obtain ⟨htiles, hat⟩ := changeOwnershipInExtent_spec c (c.startTiles start)
      (min (c.startTiles start + length) kEdramTileCount) out hsdk h
    dsimp only
    by_cases hwrap : kEdramTileCount < c.startTiles start + length
    · rw [if_pos hwrap]
      obtain ⟨htiles', hat'⟩ := changeOwnershipInExtent_spec c 0
        (min ((c.startTiles start + length) % kEdramTileCount) (c.startTiles start)) _ hsdk htiles
      refine ⟨htiles', fun t v' => ?_⟩
      have hcovers : (c.startTiles start ≤ t ∧
            t < min (c.startTiles start + length) kEdramTileCount) ∨
          (0 ≤ t ∧ t < min ((c.startTiles start + length) % kEdramTileCount) (c.startTiles start)) ↔
          Covers (c.startTiles start) length t := by
        unfold Covers
        simp [hwrap]
      simp only [hat', hat]
      constructor
      · rintro ⟨_, ⟨v, hv, rfl⟩, rfl⟩
        exact ⟨v, hv, by rw [taken_taken hsdk, taken_congr hcovers]⟩
      · rintro ⟨v, hv, rfl⟩
        exact ⟨_, ⟨v, hv, rfl⟩, by rw [taken_taken hsdk, taken_congr hcovers]⟩
    · rw [if_neg hwrap]
      refine ⟨htiles, fun t v' => (hat t v').trans (exists_congr fun v => and_congr_right fun _ => ?_)⟩
      rw [taken_congr (show c.startTiles start ≤ t ∧
          t < min (c.startTiles start + length) kEdramTileCount ↔
          Covers (c.startTiles start) length t by simp [Covers, hwrap])]

variable (c out) in
/-- **A claim that holds already changes nothing**: if every tile it covers is
owned, the ranges stay, none is cut, and no transfer is appended. -/
theorem changeOwnership_of_owned (start length : ℕ) (h : Piece.Tiles lo hi ranges)
    (howned : ∀ t v, Covers (c.startTiles start) length t → Piece.At ranges t v →
      c.owns sdk v = true) :
    c.changeOwnership sdk start length ranges out = (ranges, out) := by
  unfold changeOwnership
  by_cases hzero : length = 0
  · rw [if_pos hzero]
  · rw [if_neg hzero]
    have hlt := c.startTiles_lt start
    have hfirst : c.changeOwnershipInExtent sdk (c.startTiles start)
        (min (c.startTiles start + length) kEdramTileCount) ranges out = (ranges, out) :=
      changeOwnershipInExtent_of_owned h
        (fun t v hle hlt hv => howned t v (.inl ⟨hle, hlt⟩) hv) (.inl (by omega))
    dsimp only
    rw [hfirst]
    by_cases hwrap : kEdramTileCount < c.startTiles start + length
    · rw [if_pos hwrap]
      exact changeOwnershipInExtent_of_owned h
        (fun t v _ hlt hv => howned t v (.inr ⟨hwrap, hlt⟩) hv) (.inr rfl)
    · rw [if_neg hwrap]

end Claimant

end Edram
end BoltsRebuilt
