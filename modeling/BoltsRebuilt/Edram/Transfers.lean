/-
# The transfers of an ownership change

`RenderTargetCache::ChangeOwnership` (`vendored/src/graphics/pipeline/render_target/cache.cpp`,
lines 1367-1529) appends a transfer for what it takes over: the tiles and the target
that held their contents.

`Copies` is what a list of transfers does to one tile: which target it is copied from.
A call copies a tile only if it takes the tile over, and only from the target that owned
it (`Appends.only`); and every tile it takes over from another target is copied, unless
the resolve clear that follows overwrites all of it (`Appends.all`).  For the second the
targets of all owners have to exist, since a transfer whose source is not found is
dropped (`Backed`).

The pixels of a tile are those of `GetRangeRectangles`, which decides whether a range is
overwritten; the small methods of the key that it takes are the SDK's (`Sdk.Drawn`).
-/

import BoltsRebuilt.Edram.Rectangles

namespace BoltsRebuilt
namespace Edram

/-- The methods of `RenderTargetKey` a transfer is drawn with. -/
structure Surface where
  /-- `GetPitchTiles`. -/
  pitchTiles : RenderTargetKey → ℕ
  /-- `Is64bpp`. -/
  is64bpp : RenderTargetKey → Bool

/-- The rectangles of a range in a target (lines 1434-1437). -/
def Surface.rectangles (surface : Surface) (sdk : Sdk) (startTiles endTiles : ℕ)
    (key : RenderTargetKey) (cutout : Option Rectangle) : List Rectangle :=
  sdk.rangeRectangles startTiles endTiles key.baseTiles.toNat (surface.pitchTiles key) key.msaaSamples
    (surface.is64bpp key) cutout

/-- The pixel of a target is in the tile. -/
def Surface.InTile (surface : Surface) (sdk : Sdk) (key : RenderTargetKey) (t : ℕ) (p : ℕ × ℕ) : Prop :=
  InRange t (t + 1) key.baseTiles.toNat (surface.pitchTiles key)
    (sdk.tileWidth key.msaaSamples (surface.is64bpp key)) (sdk.tileHeight key.msaaSamples) p

/-- A claim asks `GetRangeRectangles` how many rectangles a range has; a target of 64 bits a
pixel has twice as many tiles a row, and a depth target is none; a tile has 80 by 16 samples. -/
structure Sdk.Drawn (sdk : Sdk) (surface : Surface) : Prop where
  count : ∀ startTiles endTiles key cutout, sdk.getRangeRectangles startTiles endTiles key cutout =
    (surface.rectangles sdk startTiles endTiles key (some cutout)).length
  pitch : ∀ key : RenderTargetKey,
    surface.pitchTiles key = key.pitchTilesAt32bpp.toNat <<< (surface.is64bpp key).toNat
  depth : ∀ key : RenderTargetKey, key.isDepth = true → surface.is64bpp key = false
  width : sdk.kEdramTileWidthSamples = 80
  height : sdk.kEdramTileHeightSamples = 16

/-- The transfers copy the tile from the target of the key. -/
def Copies (out : List Transfer) (t : ℕ) (key : RenderTargetKey) : Prop :=
  ∃ transfer ∈ out, (transfer.startTiles ≤ t ∧ t < transfer.endTiles) ∧
    transfer.source.map RenderTarget.key = some key

/-- No transfers copy nothing. -/
@[simp] theorem copies_nil {t : ℕ} {key : RenderTargetKey} : Copies [] t key ↔ False := by simp [Copies]

/-- Two lists of transfers copy what each does. -/
@[simp] theorem copies_append {out out' : List Transfer} {t : ℕ} {key : RenderTargetKey} :
    Copies (out ++ out') t key ↔ Copies out t key ∨ Copies out' t key := by
  simp [Copies, or_and_right, exists_or]

/-- One transfer copies its source to its tiles. -/
@[simp] theorem copies_singleton {transfer : Transfer} {t : ℕ} {key : RenderTargetKey} :
    Copies [transfer] t key ↔ (transfer.startTiles ≤ t ∧ t < transfer.endTiles) ∧
      transfer.source.map RenderTarget.key = some key := by
  simp [Copies]

/-- Every owner that is one has a target in the map. -/
def Backed (sdk : Sdk) (renderTargets : RenderTargets) (owners : Owners) : Prop :=
  ∀ key ∈ [owners.renderTarget, owners.hostDepthRenderTargetUnorm24,
      owners.hostDepthRenderTargetFloat24], sdk.isEmpty key = false →
    ∃ target, renderTargets.lookup key = some (some target) ∧ target.key = key

/-- An owner that is not empty has its render target. -/
theorem Backed.renderTarget {sdk : Sdk} {owners : Owners} {targets : RenderTargets}
    (h : Backed sdk targets owners)
    (hne : sdk.isEmpty owners.renderTarget = false) :
    ∃ target, targets.lookup owners.renderTarget = some (some target) ∧
      target.key = owners.renderTarget :=
  h _ (List.mem_cons_self ..) hne

/-- And a host depth copy that is not empty has its own. -/
theorem Backed.hostDepth {sdk : Sdk} {owners : Owners} {targets : RenderTargets}
    (h : Backed sdk targets owners)
    (format : DepthRenderTargetFormat)
    (hne : sdk.isEmpty (sdk.getHostDepthRenderTarget owners format) = false) :
    ∃ target, targets.lookup (sdk.getHostDepthRenderTarget owners format) = some (some target) ∧
      target.key = sdk.getHostDepthRenderTarget owners format := by
  refine h _ ?_ hne
  rw [Sdk.getHostDepthRenderTarget]
  split <;> simp

namespace Claimant

variable {sdk : Sdk} {surface : Surface} {c : Claimant} {extentStart extentEnd lo hi t : ℕ}
  {it : OwnershipRange} {before after ranges : List OwnershipRange} {out out' : List Transfer}

/-- What is cleared right after the claim overwrites the whole tile. -/
def Hidden (sdk : Sdk) (surface : Surface) (c : Claimant) (t : ℕ) : Prop :=
  ∃ cutout ∈ c.cutout, ∀ p, surface.InTile sdk c.dest t p → cutout.Contains p

/-- What is taken over has contents to copy: it is another target's. -/
def Moved (sdk : Sdk) (c : Claimant) (v : Owners) : Prop :=
  sdk.isEmpty v.renderTarget = false ∧ v.renderTarget ≠ c.dest

/-- Transfers with tiles. -/
def Proper (out : List Transfer) : Prop := ∀ transfer ∈ out, transfer.startTiles < transfer.endTiles

/-- What taking over the tiles in `Takes` from their owners appends: a copy from the owner
before, of every tile that does not stay hidden, and nothing else. -/
structure Appends (sdk : Sdk) (surface : Surface) (c : Claimant) (Takes : ℕ → Owners → Prop)
    (out out' : List Transfer) : Prop where
  proper : Proper out'
  keeps : ∀ t key, Copies out t key → Copies out' t key
  only : ∀ t key, Copies out' t key →
    Copies out t key ∨ ∃ v, Takes t v ∧ Moved sdk c v ∧ v.renderTarget = key
  all : ∀ t v, Takes t v → Moved sdk c v → ¬Hidden sdk surface c t → Copies out' t v.renderTarget

/-- Nothing is appended where nothing would be copied: every tile taken was nobody's, or is hidden
from the surface. -/
theorem Appends.refl {Takes : ℕ → Owners → Prop} (hproper : Proper out)
    (hnone : ∀ t v, Takes t v → Moved sdk c v → Hidden sdk surface c t) :
    Appends sdk surface c Takes out out where
  proper := hproper
  keeps _ _ h := h
  only _ _ h := .inl h
  all t v htakes hmoved hhidden := absurd (hnone t v htakes hmoved) hhidden

/-- What is appended is known from the tiles taken, however they are described. -/
theorem Appends.congr {Takes Takes' : ℕ → Owners → Prop} (h : Appends sdk surface c Takes out out')
    (hiff : ∀ t v, Takes' t v ↔ Takes t v) : Appends sdk surface c Takes' out out' := by
  obtain rfl : Takes' = Takes := funext fun t => funext fun v => propext (hiff t v)
  exact h

/-- Transfers appended for two sets of tiles are appended for both. -/
theorem Appends.trans {Takes Takes' : ℕ → Owners → Prop} {out'' : List Transfer}
    (h : Appends sdk surface c Takes out out') (h' : Appends sdk surface c Takes' out' out'') :
    Appends sdk surface c (fun t v => Takes t v ∨ Takes' t v) out out'' where
  proper := h'.proper
  keeps t key hcopies := h'.keeps t key (h.keeps t key hcopies)
  only t key hcopies := by
    rcases h'.only t key hcopies with hcopies | ⟨v, htakes, hmoved⟩
    · rcases h.only t key hcopies with hcopies | ⟨v, htakes, hmoved⟩
      · exact .inl hcopies
      · exact .inr ⟨v, .inl htakes, hmoved⟩
    · exact .inr ⟨v, .inr htakes, hmoved⟩
  all t v htakes hmoved hhidden := by
    rcases htakes with htakes | htakes
    · exact h'.keeps t _ (h.all t v htakes hmoved hhidden)
    · exact h'.all t v htakes hmoved hhidden

/-- The tiles of a range up to an end, with its owners. -/
def Within (it : OwnershipRange) (stop t : ℕ) (v : Owners) : Prop :=
  (it.first ≤ t ∧ t < stop) ∧ it.value = v

/-- A range whose rectangles are all cut out is hidden. -/
theorem hidden_of_no_rectangles {startTiles endTiles : ℕ} {cutout : Rectangle}
    (hcutout : c.cutout = some cutout) (hwords : cutout.InWords)
    (hvalid : ValidRange sdk startTiles endTiles c.dest.baseTiles.toNat (surface.pitchTiles c.dest))
    (hnil : surface.rectangles sdk startTiles endTiles c.dest (some cutout) = []) (hfirst : startTiles ≤ t)
    (hstop : t < endTiles) : Hidden sdk surface c t := by
  refine ⟨cutout, hcutout, fun p hp => ?_⟩
  obtain ⟨hx, hy, hle, hlt⟩ := hp
  have hcovered := (rangeRectangles_eq_nil_iff _ _ (some cutout) hvalid fun c hc => by
    obtain rfl : cutout = c := Option.some.inj hc
    exact hwords).1 hnil p ⟨hx, hy, by omega, by omega⟩
  obtain ⟨cutout', ⟨⟩, hcontains⟩ := hcovered
  exact hcontains

/-- Where a claim may cut rectangles out: in the part of the tile index before it wraps back to
the base of the target, or in the part after. -/
structure InTurn (c : Claimant) (extentStart extentEnd : ℕ) : Prop where
  stop : extentEnd ≤ kEdramTileCount
  wrap : c.dest.baseTiles.toNat ≤ extentStart ∨ extentEnd ≤ c.dest.baseTiles.toNat
  pitch : c.dest.pitchTilesAt32bpp ≠ 0
  cutout : ∀ cutout ∈ c.cutout, cutout.InWords

/-- Tiles taken in turn from a drawn surface make a valid range for the rectangles. -/
theorem InTurn.valid (h : InTurn c extentStart extentEnd) (hdrawn : sdk.Drawn surface)
    {first stop : ℕ} (hfirst : extentStart ≤ first) (hstop : stop ≤ extentEnd) (hle : first ≤ stop) :
    ValidRange sdk first stop c.dest.baseTiles.toNat (surface.pitchTiles c.dest) := by
  obtain ⟨hend, hwrap, hpitch, -⟩ := h
  have hbits := c.dest.pitchTilesAt32bpp.isLt
  have hpos : 0 < c.dest.pitchTilesAt32bpp.toNat :=
    Nat.pos_of_ne_zero fun hzero => hpitch (BitVec.eq_of_toNat_eq hzero)
  -- eight bits, and one more at 64 bits a pixel
  have hrow : 0 < surface.pitchTiles c.dest ∧ surface.pitchTiles c.dest < 2 ^ 9 := by
    rw [hdrawn.pitch, Nat.shiftLeft_eq]
    cases surface.is64bpp c.dest <;> simp only [Bool.toNat_false, Bool.toNat_true] <;> omega
  exact
    { le := hle
      stop := by omega
      base := c.dest.baseTiles.isLt
      wrap := by omega
      pitch := hrow.1
      width := by rw [hdrawn.width]; decide
      height := by rw [hdrawn.height]; decide
      rowWidth := by rw [hdrawn.width]; omega
      rowsHeight := by rw [hdrawn.height]; decide }

/-- The last transfer goes on over the tiles after it. -/
theorem appends_back {back : Transfer} (hproper : Proper (out ++ [back])) {stop : ℕ}
    (hend : back.endTiles = it.first) (hlt : it.first < stop)
    (hsource : back.source.map RenderTarget.key = some it.value.renderTarget)
    (hmoved : Moved sdk c it.value) :
    Appends sdk surface c (Within it stop) (out ++ [back]) (out ++ [{ back with endTiles := stop }]) := by
  have hback : back.startTiles < back.endTiles := hproper back (by simp)
  constructor
  case proper =>
    intro transfer htransfer
    rcases List.mem_append.1 htransfer with hmem | hmem
    · exact hproper transfer (List.mem_append_left _ hmem)
    · obtain rfl := List.mem_singleton.1 hmem
      show back.startTiles < stop
      omega
  case keeps =>
    intro t key h
    simp only [copies_append, copies_singleton] at h ⊢
    exact h.imp_right fun ⟨ht, hkey⟩ => ⟨⟨ht.1, by omega⟩, hkey⟩
  case only =>
    intro t key h
    simp only [copies_append, copies_singleton] at h ⊢
    rcases h with h | ⟨ht, hkey⟩
    · exact .inl (.inl h)
    · obtain rfl : it.value.renderTarget = key := Option.some.inj (hsource.symm.trans hkey)
      rcases Nat.lt_or_ge t it.first with hbefore | hafter
      · exact .inl (.inr ⟨⟨ht.1, by omega⟩, hkey⟩)
      · exact .inr ⟨it.value, ⟨⟨hafter, ht.2⟩, rfl⟩, hmoved, rfl⟩
  case all =>
    rintro t _ ⟨ht, rfl⟩ _ _
    rw [copies_append, copies_singleton]
    exact .inr ⟨⟨show back.startTiles ≤ t by omega, ht.2⟩, hsource⟩

/-- A new transfer is appended if its targets are found. -/
theorem appends_new (hproper : Proper out) {stop : ℕ} (hlt : it.first < stop)
    (hmoved : Moved sdk c it.value) {source : RenderTarget} (hsource : source.key = it.value.renderTarget)
    (hostDepth : Option RenderTarget) :
    Appends sdk surface c (Within it stop) out (out ++ [⟨it.first, stop, some source, hostDepth⟩]) := by
  constructor
  case proper =>
    intro transfer htransfer
    rcases List.mem_append.1 htransfer with hmem | hmem
    · exact hproper transfer hmem
    · obtain rfl := List.mem_singleton.1 hmem
      exact hlt
  case keeps =>
    intro t key h
    exact copies_append.2 (.inl h)
  case only =>
    intro t key h
    rw [copies_append, copies_singleton] at h
    refine h.imp_right fun ⟨ht, hkey⟩ => ?_
    exact ⟨it.value, ⟨ht, rfl⟩, hmoved, hsource.symm.trans (Option.some.inj hkey)⟩
  case all =>
    rintro t _ ⟨ht, rfl⟩ _ _
    exact copies_append.2 (.inr (copies_singleton.2 ⟨ht, congrArg some hsource⟩))

/-- **The transfer of one range**: it is appended to the list, or joined to the last transfer when
it continues it from the same source. -/
theorem appends_transfer (hdrawn : sdk.Drawn surface) (hturn : InTurn c extentStart extentEnd)
    (hdefault : sdk.isEmpty {} = true) (hbacked : Backed sdk c.renderTargets it.value)
    (hproper : Proper out) (hfirst : extentStart ≤ it.first) (hlt : it.first < min it.stop extentEnd) :
    Appends sdk surface c (Within it (min it.stop extentEnd)) out (c.transfer sdk extentEnd it out) := by
  rw [transfer]
  extract_lets stop hostDepth hostDepthSource continued
  -- a host depth source is one of the owners
  have hdepth : sdk.isEmpty hostDepthSource = false →
      ∃ target, c.renderTargets.lookup hostDepthSource = some (some target) := by
    intro hne
    have howner : hostDepthSource = sdk.getHostDepthRenderTarget it.value (sdk.getDepthFormat c.dest) ∨
        hostDepthSource = {} := by
      simp only [hostDepthSource, hostDepth]
      split_ifs <;> simp
    rcases howner with howner | howner
    · rw [howner] at hne ⊢
      obtain ⟨target, hlookup, -⟩ := hbacked.hostDepth _ hne
      exact ⟨target, hlookup⟩
    · rw [howner, hdefault] at hne
      cases hne
  split
  · rename_i hnone
    refine .refl hproper ?_
    rintro t _ ⟨-, rfl⟩ ⟨hempty, hdest⟩
    rcases hnone with hnone | hnone
    · exact absurd (hempty.symm.trans hnone) Bool.false_ne_true
    · exact absurd hnone hdest
  rename_i hsome
  rw [not_or, Bool.not_eq_true] at hsome
  split
  · -- all of the range is about to be cleared
    rename_i hcut
    obtain ⟨cutout, hcutout, hcount⟩ := (Option.any_eq_true _ _).1 hcut
    refine .refl hproper fun t v ⟨ht, _⟩ _ => ?_
    refine hidden_of_no_rectangles hcutout (hturn.cutout _ hcutout)
      (hturn.valid hdrawn hfirst (Nat.min_le_right _ _) hlt.le) ?_
      ht.1 ht.2
    rw [beq_iff_eq, hdrawn.count] at hcount
    exact List.eq_nil_of_length_eq_zero hcount
  split
  · rename_i hcontinued
    obtain ⟨back, hback, hgoes⟩ := (Option.any_eq_true _ _).1 hcontinued
    obtain ⟨hend, hsource, -⟩ := of_decide_eq_true hgoes
    obtain ⟨init, rfl⟩ := List.getLast?_eq_some_iff.1 hback
    rw [List.getLast?_concat, List.dropLast_concat]
    exact appends_back hproper hend hlt hsource hsome
  · obtain ⟨source, hlookup, hsource⟩ := hbacked.renderTarget hsome.1
    rw [show c.renderTargets.lookup it.value.renderTarget = some (some source) from hlookup]
    dsimp only
    split
    · exact appends_new hproper hlt hsome hsource none
    · rename_i hne
      obtain ⟨target, hlookup'⟩ := hdepth (Bool.eq_false_iff.2 hne)
      rw [hlookup']
      exact appends_new hproper hlt hsome hsource (some target)

/-- The tiles of the ranges before an end that are not owned yet. -/
def Left (sdk : Sdk) (c : Claimant) (extentEnd : ℕ) (ranges : List OwnershipRange) (t : ℕ)
    (v : Owners) : Prop :=
  Piece.At ranges t v ∧ t < extentEnd ∧ ¬c.owns sdk v

/-- What is left to take is in the first range, where that is not owned already, or in the others. -/
theorem left_cons {v : Owners} :
    Left sdk c extentEnd (it :: ranges) t v ↔
      (Within it (min it.stop extentEnd) t v ∧ ¬c.owns sdk it.value) ∨ Left sdk c extentEnd ranges t v := by
  rw [Left, Left, Within, Piece.at_cons, or_and_right]
  refine or_congr_left ?_
  constructor
  · rintro ⟨⟨ht, rfl⟩, hend, howns⟩
    exact ⟨⟨⟨ht.1, by omega⟩, rfl⟩, howns⟩
  · rintro ⟨⟨ht, rfl⟩, howns⟩
    exact ⟨⟨⟨ht.1, by omega⟩, rfl⟩, by omega, howns⟩

/-- A range owned already leaves nothing to take. -/
theorem left_cons_owned {v : Owners} (howns : c.owns sdk it.value = true) :
    Left sdk c extentEnd (it :: ranges) t v ↔ Left sdk c extentEnd ranges t v := by
  rw [left_cons, or_iff_right fun h => h.2 howns]

/-- A range of another owner is to be taken up to the end of the extent. -/
theorem left_cons_taken {v : Owners} (howns : ¬c.owns sdk it.value = true) :
    Left sdk c extentEnd (it :: ranges) t v ↔
      Within it (min it.stop extentEnd) t v ∨ Left sdk c extentEnd ranges t v := by
  rw [left_cons, and_iff_left howns]

/-- Ranges from the end of the extent on leave nothing to take. -/
theorem not_left_of_le {v : Owners} (h : Piece.Tiles lo hi ranges) (hle : extentEnd ≤ lo) :
    ¬Left sdk c extentEnd ranges t v := by
  rintro ⟨⟨p, hp, ht, -⟩, hend, -⟩
  have := (h.bounds hp).1
  omega

/-- No ranges leave nothing to take. -/
theorem left_nil {v : Owners} : ¬Left sdk c extentEnd [] t v := by
  rintro ⟨⟨p, hp, -⟩, -⟩
  cases hp

/-- **The transfers of one walk.**  By the recursion of the walk: each range it takes over
appends its transfer, and the ranges it merges or leaves append none. -/
theorem appends_walk (hsdk : sdk.Documented) (hdrawn : sdk.Drawn surface)
    (hturn : InTurn c extentStart extentEnd) (hdefault : sdk.isEmpty {} = true)
    (hbacked : ∀ p ∈ after, Backed sdk c.renderTargets p.value) (h : Piece.Tiles lo hi after)
    (hstart : ∀ p ∈ after, extentStart ≤ p.first) (hproper : Proper out) :
    ∃ out', (c.walk sdk extentEnd before after (some out)).2 = some out' ∧
      Appends sdk surface c (Left sdk c extentEnd after) out out' := by
  generalize hout : some out = o
  fun_induction c.walk sdk extentEnd before after o generalizing out lo with
  | case1 before o => exact ⟨out, hout.symm, .refl hproper fun t v hleft => absurd hleft left_nil⟩
  | case2 before it after o hend =>
    have hfirst : it.first = lo := h.1
    exact ⟨out, hout.symm, .refl hproper fun t v hleft => absurd hleft (not_left_of_le h (by omega))⟩
  | case3 before it after o hend howns ih =>
    obtain ⟨out', heq, happends⟩ := ih (fun p hp => hbacked p (List.mem_cons_of_mem _ hp)) h.2.2
      (fun p hp => hstart p (List.mem_cons_of_mem _ hp)) hproper hout
    exact ⟨out', heq, happends.congr fun _ _ => left_cons_owned howns⟩
  | case4 =>
    rename_i before it after o hend howns o' hstop tail merged
    obtain ⟨hfirst, hlt, hafter⟩ := h
    have happends := appends_transfer hdrawn hturn hdefault
      (hbacked it (List.mem_cons_self ..)) hproper (hstart it (List.mem_cons_self ..)) (by omega)
    refine ⟨c.transfer sdk extentEnd it out, by simp only [o', ← hout, Option.map_some], ?_⟩
    refine happends.congr fun t v => ?_
    rw [left_cons_taken howns, or_iff_left (not_left_of_le hafter (by omega))]
  | case5 =>
    rename_i before it o hend howns o' hstop it'
    obtain ⟨hfirst, hlt, -⟩ := h
    have happends := appends_transfer hdrawn hturn hdefault
      (hbacked it (List.mem_cons_self ..)) hproper (hstart it (List.mem_cons_self ..)) (by omega)
    refine ⟨c.transfer sdk extentEnd it out, by simp only [o', ← hout, Option.map_some], ?_⟩
    refine happends.congr fun t v => ?_
    rw [left_cons_taken howns, or_iff_left left_nil]
  | case6 =>
    rename_i before it o hend howns o' hstop it' next rest hsame ih
    obtain ⟨hfirst, hlt, hnext, hlt', hrest⟩ := h
    have happends := appends_transfer hdrawn hturn hdefault
      (hbacked it (List.mem_cons_self ..)) hproper (hstart it (List.mem_cons_self ..)) (by omega)
    have howned : c.owns sdk next.value = true := hsdk.same_eq _ _ hsame ▸ owns_claim hsdk
    obtain ⟨out', heq, hrest'⟩ := ih
      (fun p hp => hbacked p (List.mem_cons_of_mem _ (List.mem_cons_of_mem _ hp))) hrest
      (fun p hp => hstart p (List.mem_cons_of_mem _ (List.mem_cons_of_mem _ hp)))
      happends.proper (by simp only [o', ← hout, Option.map_some])
    refine ⟨out', heq, (happends.trans hrest').congr fun t v => ?_⟩
    rw [left_cons_taken howns, left_cons_owned howned]
  | case7 =>
    rename_i before it o hend howns o' hstop it' next rest hsame ih
    obtain ⟨hfirst, hlt, hafter⟩ := h
    have happends := appends_transfer hdrawn hturn hdefault
      (hbacked it (List.mem_cons_self ..)) hproper (hstart it (List.mem_cons_self ..)) (by omega)
    obtain ⟨out', heq, hrest'⟩ := ih (fun p hp => hbacked p (List.mem_cons_of_mem _ hp)) hafter
      (fun p hp => hstart p (List.mem_cons_of_mem _ hp))
      happends.proper (by simp only [o', ← hout, Option.map_some])
    refine ⟨out', heq, (happends.trans hrest').congr fun t v => ?_⟩
    rw [left_cons_taken howns]

/-- The tiles of an extent that are taken over, with their owners. -/
def Takes (sdk : Sdk) (c : Claimant) (ranges : List OwnershipRange) (inside : ℕ → Prop) (t : ℕ)
    (v : Owners) : Prop :=
  Piece.At ranges t v ∧ inside t ∧ ¬c.owns sdk v

/-- What is taken from the extent is what is left of it from the first range on. -/
theorem takes_iff_left {v : Owners}
    (hleft : ¬c.owns sdk v → extentStart ≤ t → Piece.At ranges t v → Piece.At after t v)
    (hright : Piece.At after t v → extentStart ≤ t ∧ Piece.At ranges t v) :
    Takes sdk c ranges (fun t => extentStart ≤ t ∧ t < extentEnd) t v ↔ Left sdk c extentEnd after t v := by
  constructor
  · rintro ⟨hat, ⟨hstart, hend⟩, howns⟩
    exact ⟨hleft howns hstart hat, hend, howns⟩
  · rintro ⟨hat, hend, howns⟩
    exact ⟨(hright hat).2, ⟨(hright hat).1, hend⟩, howns⟩

/-- The transfers of one extent, by induction on its ranges: what is appended copies every tile that
was taken from another owner. -/
theorem appends_extent (hsdk : sdk.Documented) (hdrawn : sdk.Drawn surface)
    (hturn : InTurn c extentStart extentEnd) (hdefault : sdk.isEmpty {} = true)
    (hbacked : ∀ p ∈ ranges, Backed sdk c.renderTargets p.value) (h : Piece.Tiles lo hi ranges)
    (hproper : Proper out) :
    ∃ out', (c.changeOwnershipInExtent sdk extentStart extentEnd ranges (some out)).2 = some out' ∧
      Appends sdk surface c (Takes sdk c ranges fun t => extentStart ≤ t ∧ t < extentEnd) out out' := by
  have hranges : (ranges.takeWhile fun it => it.first < extentStart) ++
      (ranges.dropWhile fun it => it.first < extentStart) = ranges :=
    List.takeWhile_append_dropWhile
  have hafter : ∀ p ∈ ranges.dropWhile fun it => it.first < extentStart, extentStart ≤ p.first :=
    fun p => le_first_of_mem_dropWhile h
  have hfront : ∀ p ∈ (ranges.takeWhile fun it => it.first < extentStart).reverse,
      p.first < extentStart :=
    fun p hp => first_lt_of_mem_takeWhile (List.mem_reverse.mp hp)
  rw [changeOwnershipInExtent]
  rw [← List.reverse_reverse (ranges.takeWhile _)] at hranges
  generalize (ranges.takeWhile fun it => it.first < extentStart).reverse = front at *
  generalize (ranges.dropWhile fun it => it.first < extentStart) = after at *
  subst hranges
  obtain ⟨mid, hmid, hrest⟩ := Piece.tiles_append.1 h
  have hle : ∀ {t v}, Piece.At after t v → extentStart ≤ t := by
    rintro t v ⟨p, hp, ht, -⟩
    have := hafter p hp
    omega
  have hbacked' : ∀ p ∈ after, Backed sdk c.renderTargets p.value :=
    fun p hp => hbacked p (List.mem_append_right _ hp)
  cases front with
  | nil =>
    obtain ⟨out', heq, happends⟩ := appends_walk hsdk hdrawn hturn hdefault hbacked' hrest
      hafter hproper
    exact ⟨out', heq, happends.congr fun t v => takes_iff_left (fun _ _ hat => hat)
      fun hat => ⟨hle hat, hat⟩⟩
  | cons previous before =>
    obtain ⟨mid', hbefore, hfirst, hstop, rfl⟩ := Piece.tiles_append.1
      (show Piece.Tiles lo mid (before.reverse ++ [previous]) by simpa using hmid)
    have hlt : previous.first < extentStart := hfront previous (List.mem_cons_self ..)
    have hnot : ∀ {t v}, Piece.At before t v → t < extentStart := by
      rintro t v ⟨p, hp, ht, -⟩
      have := (hbefore.bounds (List.mem_reverse.2 hp)).2.2
      omega
    by_cases hsplit : extentStart < previous.stop ∧ ¬c.owns sdk previous.value = true
    · rw [enter, if_pos hsplit]
      -- the part of the range before that is in the extent starts it
      have hhead : Backed sdk c.renderTargets previous.value := hbacked previous (by simp)
      generalize hpart : ({ previous with first := extentStart } : OwnershipRange) = part
      obtain ⟨hpartFirst, hpartStop, hpartValue⟩ :
          part.first = extentStart ∧ part.stop = previous.stop ∧ part.value = previous.value := by
        rw [← hpart]
        exact ⟨rfl, rfl, rfl⟩
      obtain ⟨out', heq, happends⟩ := appends_walk hsdk hdrawn hturn hdefault
        (List.forall_mem_cons.2 ⟨hpartValue ▸ hhead, hbacked'⟩)
        ⟨hpartFirst, hpartStop ▸ hsplit.1, hpartStop ▸ hrest⟩
        (List.forall_mem_cons.2 ⟨Nat.le_of_eq hpartFirst.symm, hafter⟩) hproper
      refine ⟨out', heq, happends.congr fun t v => takes_iff_left (fun _ hstart hat => ?_) fun hat => ?_⟩
      · simp only [List.reverse_cons, Piece.at_append, Piece.at_reverse, Piece.at_cons, Piece.at_nil,
          or_false] at hat ⊢
        rcases hat with (hat | ⟨ht, hv⟩) | hat
        · have := hnot hat
          omega
        · exact .inl ⟨by omega, hpartValue.trans hv⟩
        · exact .inr hat
      · simp only [List.reverse_cons, Piece.at_append, Piece.at_reverse, Piece.at_cons, Piece.at_nil,
          or_false] at hat ⊢
        rcases hat with ⟨ht, hv⟩ | hat
        · exact ⟨by omega, .inl (.inr ⟨by omega, hpartValue.symm.trans hv⟩)⟩
        · exact ⟨hle hat, .inr hat⟩
    · rw [enter, if_neg hsplit]
      obtain ⟨out', heq, happends⟩ := appends_walk hsdk hdrawn hturn hdefault
        hbacked' hrest hafter hproper
      refine ⟨out', heq, happends.congr fun t v => takes_iff_left (fun howns hstart hat => ?_)
        fun hat => ⟨hle hat, Piece.at_append.2 (.inr hat)⟩⟩
      simp only [List.reverse_cons, Piece.at_append, Piece.at_reverse, Piece.at_cons, Piece.at_nil,
        or_false] at hat
      rcases hat with (hat | ⟨ht, rfl⟩) | hat
      · have := hnot hat
        omega
      · exact absurd ⟨by omega, howns⟩ hsplit
      · exact hat

/-- A claimed tile is backed by the claimant's render target. -/
theorem Backed.claim {v : Owners} (h : Backed sdk c.renderTargets v)
    (hdest : ∃ target, c.renderTargets.lookup c.dest = some (some target) ∧ target.key = c.dest) :
    Backed sdk c.renderTargets (c.claim sdk v) := by
  intro key hkey hne
  by_cases hd : key = c.dest
  · rw [hd]
    exact hdest
  · refine h key ?_ hne
    have hkey' : key = v.hostDepthRenderTargetUnorm24 ∨ key = v.hostDepthRenderTargetFloat24 := by
      rw [Claimant.claim, Sdk.claim] at hkey
      split_ifs at hkey <;> simp [hd] at hkey <;> tauto
    rcases hkey' with rfl | rfl
    · exact List.mem_cons_of_mem _ (List.mem_cons_self ..)
    · exact List.mem_cons_of_mem _ (List.mem_cons_of_mem _ (List.mem_cons_self ..))

/-- What takes over tiles for a target that exists leaves every range backed. -/
theorem backed_of_taken {ranges' : List OwnershipRange} {inside : ℕ → Prop} [DecidablePred inside]
    (hdest : ∃ target, c.renderTargets.lookup c.dest = some (some target) ∧ target.key = c.dest)
    (hbacked : ∀ p ∈ ranges, Backed sdk c.renderTargets p.value) (h : Piece.Tiles lo hi ranges')
    (hat : ∀ t v', Piece.At ranges' t v' → ∃ v, Piece.At ranges t v ∧ v' = taken sdk c (inside t) v) :
    ∀ p ∈ ranges', Backed sdk c.renderTargets p.value := by
  intro p hp
  obtain ⟨v, ⟨q, hq, -, rfl⟩, hv⟩ := hat _ _ (h.at_first hp)
  rw [hv, taken]
  split
  · exact Backed.claim (hbacked q hq) hdest
  · exact hbacked q hq

/-- The extents of a call are in turn: it covers at most the tiles up to where the tile index is
back at the base. -/
theorem inTurn_of_le {start length : ℕ} (hpitch : c.dest.pitchTilesAt32bpp ≠ 0)
    (hcutout : ∀ cutout ∈ c.cutout, cutout.InWords) (hlength : start + length ≤ kEdramTileCount) :
    InTurn c (c.startTiles start) (min (c.startTiles start + length) kEdramTileCount) ∧
      (kEdramTileCount < c.startTiles start + length →
        InTurn c 0 (min ((c.startTiles start + length) % kEdramTileCount) (c.startTiles start))) := by
  have hbase : c.dest.baseTiles.toNat < kEdramTileCount := c.dest.baseTiles.isLt
  unfold startTiles
  unfold kEdramTileCount at *
  exact ⟨⟨by unfold kEdramTileCount; omega, by omega, hpitch, hcutout⟩,
    fun hwrap => ⟨by unfold kEdramTileCount; omega, by omega, hpitch, hcutout⟩⟩

/-- **The transfers of `ChangeOwnership`.**  Every tile that is taken over from another target
is copied from it, unless it stays hidden, and no other tile is copied. -/
theorem appends_changeOwnership {start length : ℕ} (hsdk : sdk.Documented) (hdrawn : sdk.Drawn surface)
    (hdefault : sdk.isEmpty {} = true) (hpitch : c.dest.pitchTilesAt32bpp ≠ 0)
    (hcutout : ∀ cutout ∈ c.cutout, cutout.InWords) (hlength : start + length ≤ kEdramTileCount)
    (hdest : ∃ target, c.renderTargets.lookup c.dest = some (some target) ∧ target.key = c.dest)
    (hbacked : ∀ p ∈ ranges, Backed sdk c.renderTargets p.value) (h : Piece.Tiles lo hi ranges)
    (hproper : Proper out) :
    ∃ out', (c.changeOwnership sdk start length ranges (some out)).2 = some out' ∧
      Appends sdk surface c (Takes sdk c ranges (Covers (c.startTiles start) length)) out out' := by
  have hlt := c.startTiles_lt start
  obtain ⟨hturn, hturn'⟩ := inTurn_of_le hpitch hcutout hlength
  rw [changeOwnership]
  split
  · refine ⟨out, rfl, .refl hproper ?_⟩
    rintro t v ⟨-, hcovers, -⟩
    unfold Covers at hcovers
    omega
  dsimp only
  obtain ⟨out', heq, happends⟩ := appends_extent hsdk hdrawn hturn hdefault hbacked h hproper
  split
  · rename_i hwrap
    obtain ⟨htiles, hat⟩ := changeOwnershipInExtent_spec c (c.startTiles start)
      (min (c.startTiles start + length) kEdramTileCount) (some out) hsdk h
    obtain ⟨out'', heq', happends'⟩ := appends_extent hsdk hdrawn (hturn' hwrap) hdefault
      (backed_of_taken hdest hbacked htiles fun t v' => (hat t v').1)
      htiles happends.proper
    refine ⟨out'', heq ▸ heq', (happends.trans happends').congr fun t v => ?_⟩
    -- the second extent starts over before the first one
    have hsecond : t < c.startTiles start →
        (Piece.At (c.changeOwnershipInExtent sdk (c.startTiles start)
          (min (c.startTiles start + length) kEdramTileCount) ranges (some out)).1 t v ↔
            Piece.At ranges t v) := by
      intro ht
      rw [hat]
      constructor
      · rintro ⟨v, hv, rfl⟩
        rwa [taken, if_neg (by omega)]
      · intro hv
        exact ⟨v, hv, by rw [taken, if_neg (by omega)]⟩
    unfold Takes Covers
    constructor
    · rintro ⟨hv, hin | ⟨-, hin⟩, howns⟩
      · exact .inl ⟨hv, hin, howns⟩
      · exact .inr ⟨(hsecond (by omega)).2 hv, ⟨Nat.zero_le _, hin⟩, howns⟩
    · rintro (⟨hv, hin, howns⟩ | ⟨hv, ⟨-, hin⟩, howns⟩)
      · exact ⟨hv, .inl hin, howns⟩
      · exact ⟨(hsecond (by omega)).1 hv, .inr ⟨hwrap, hin⟩, howns⟩
  · rename_i hwrap
    refine ⟨out', heq, happends.congr fun t v => ?_⟩
    unfold Takes Covers
    rw [or_iff_left fun hin => hwrap hin.1]

/-- A call leaves every range backed: the owners it writes have their render targets in the cache. -/
theorem backed_changeOwnership {start length : ℕ} {o : Option (List Transfer)} (hsdk : sdk.Documented)
    (h : Piece.Tiles lo hi ranges)
    (hdest : ∃ target, c.renderTargets.lookup c.dest = some (some target) ∧ target.key = c.dest)
    (hbacked : ∀ p ∈ ranges, Backed sdk c.renderTargets p.value) :
    ∀ p ∈ (c.changeOwnership sdk start length ranges o).1, Backed sdk c.renderTargets p.value := by
  obtain ⟨htiles, hat⟩ := at_changeOwnership c o start length hsdk h
  exact backed_of_taken hdest hbacked htiles
    fun t v' => (hat t v').1

end Claimant

end Edram
end BoltsRebuilt
