/-
# The contents of the tiles, in textures and in the EDRAM

On the Xenos all render targets share one EDRAM.  `RenderTargetCache` gives every one of
them a texture of its own (`Host`) and copies tiles between the textures when their owner
changes.  The copies are drawn by `PerformTransfersAndResolveClears`
(`d3d12/render_target_cache.cpp`, line 4129), target by target.

What the EDRAM itself would hold has no copies in it: a draw or a clear writes to the tiles
it covers (`learnTiles`).  A tile nothing is known about (never drawn to, or forgotten with
the ownership map) is `none`.  The two agree (`Agrees`) if the target that owns a tile holds
what the EDRAM would hold.  A draw to tiles that are owned keeps this (`Agrees.paintTiles`),
and so do the copies of an update (`agrees_performTransfers`) and of a resolve clear
(`agrees_clearTarget`).
-/

import BoltsRebuilt.Edram.OwnershipMemo
import BoltsRebuilt.Edram.Transfers

namespace BoltsRebuilt
namespace Edram

/-! ### Textures and the EDRAM -/

/-- What a draw or a clear does to a tile: change its contents, or replace all of them. -/
inductive Paint (Content : Type)
  | blend (change : Content → Content)
  | overwrite (content : Content)

variable {Content Address : Type}

/-- The contents after it. -/
def Paint.apply : Paint Content → Content → Content
  | .blend change, content => change content
  | .overwrite content, _ => content

/-- What is known of the tile after it. -/
def Paint.learn : Paint Content → Option Content → Option Content
  | .blend change, known => known.map change
  | .overwrite content, _ => some content

/-- Paint over a known content gives what is known of it. -/
theorem Paint.apply_of_learn {paint : Paint Content} {known : Option Content} {content c : Content}
    (hknown : ∀ c, known = some c → content = c) (h : paint.learn known = some c) :
    paint.apply content = c := by
  cases paint with
  | blend change =>
    obtain ⟨c', hc', rfl⟩ := Option.map_eq_some_iff.1 h
    exact congrArg change (hknown c' hc')
  | overwrite content => exact Option.some.inj h

/-- The textures: the contents of each tile in each target. -/
abbrev Host (Content : Type) := ℕ → RenderTargetKey → Content

/-- The copy of one transfer. -/
def copy (dest : RenderTargetKey) (transfer : Transfer) (host : Host Content) : Host Content := fun t =>
  match transfer.source with
  | none => host t
  | some source =>
    if transfer.startTiles ≤ t ∧ t < transfer.endTiles then
      Function.update (host t) dest (host t source.key)
    else host t

/-- The copies into one target, in order. -/
def copyAll (dest : RenderTargetKey) (transfers : List Transfer) (host : Host Content) : Host Content :=
  transfers.foldl (fun host transfer => copy dest transfer host) host

/-- Paint the tiles of one target. -/
def paintTiles (key : RenderTargetKey) (inside : ℕ → Prop) [DecidablePred inside] (paint : ℕ → Paint Content)
    (host : Host Content) : Host Content := fun t =>
  if inside t then Function.update (host t) key ((paint t).apply (host t key)) else host t

/-- Paint the same tiles of the EDRAM. -/
def learnTiles (inside : ℕ → Prop) [DecidablePred inside] (paint : ℕ → Paint Content)
    (edram : ℕ → Option Content) : ℕ → Option Content := fun t =>
  if inside t then (paint t).learn (edram t) else edram t

section Copies

variable {dest source key : RenderTargetKey} {transfer : Transfer} {transfers : List Transfer}
  {host : Host Content} {t : ℕ}

/-- What transfers copy is what the first does and what the others do. -/
theorem copies_cons :
    Copies (transfer :: transfers) t key ↔ Copies [transfer] t key ∨ Copies transfers t key := by
  rw [← List.singleton_append, copies_append]

/-- A tile that a transfer copies takes the source's content. -/
theorem copy_of_copies (h : Copies [transfer] t source) :
    copy dest transfer host t = Function.update (host t) dest (host t source) := by
  obtain ⟨ht, hsource⟩ := copies_singleton.1 h
  obtain ⟨target, htarget, rfl⟩ := Option.map_eq_some_iff.1 hsource
  simp only [copy, htarget, if_pos ht]

/-- Any other tile keeps its own. -/
theorem copy_of_not_copies (h : ∀ key, ¬Copies [transfer] t key) : copy dest transfer host t = host t := by
  cases hsource : transfer.source with
  | none => simp only [copy, hsource]
  | some source =>
    have ht : ¬(transfer.startTiles ≤ t ∧ t < transfer.endTiles) := fun ht =>
      h source.key (copies_singleton.2 ⟨ht, by rw [hsource]; rfl⟩)
    simp only [copy, hsource, if_neg ht]

/-- Only the contents of the destination change by a transfer; every other texture keeps what it
holds of the tile. -/
theorem copy_other (hkey : key ≠ dest) : copy dest transfer host t key = host t key := by
  by_cases h : ∃ source, Copies [transfer] t source
  · obtain ⟨source, h⟩ := h
    rw [copy_of_copies h, Function.update_of_ne hkey]
  · rw [copy_of_not_copies (not_exists.1 h)]

/-- A tile that none of the transfers of a surface copies keeps its contents through all of them. -/
theorem copyAll_of_not_copies (h : ∀ key, ¬Copies transfers t key) :
    copyAll dest transfers host t = host t := by
  induction transfers generalizing host with
  | nil => rfl
  | cons transfer transfers ih =>
    refine (ih fun key hcopies => h key (copies_cons.2 (.inr hcopies))).trans ?_
    exact copy_of_not_copies fun key hcopies => h key (copies_cons.2 (.inl hcopies))

/-- A tile that is copied from one source only has its contents. -/
theorem copyAll_of_copies (honly : ∀ key, Copies transfers t key → key = source) (hsource : source ≠ dest)
    (h : Copies transfers t source ∨ host t dest = host t source) :
    copyAll dest transfers host t dest = host t source := by
  induction transfers generalizing host with
  | nil => exact h.resolve_left copies_nil.1
  | cons transfer transfers ih =>
    have hsame : copy dest transfer host t source = host t source := copy_other hsource
    have hnext : Copies transfers t source ∨
        copy dest transfer host t dest = copy dest transfer host t source := by
      by_cases hfirst : ∃ key, Copies [transfer] t key
      · obtain ⟨key, hfirst⟩ := hfirst
        obtain rfl := honly key (copies_cons.2 (.inl hfirst))
        rw [hsame, copy_of_copies hfirst, Function.update_self]
        exact .inr rfl
      · rw [copy_of_not_copies (not_exists.1 hfirst)]
        exact h.imp_left fun hcopies => (copies_cons.1 hcopies).resolve_left (not_exists.1 hfirst _)
    exact (ih (fun key hcopies => honly key (copies_cons.2 (.inr hcopies))) hnext).trans hsame

end Copies

/-! ### The invariant -/

/-- What the claims rely on of the SDK's keys: who owns a range is its render target, a key
with a pitch is not the empty one, and the constants of the EDRAM. -/
structure Sdk.Targets (sdk : Sdk) : Prop where
  owned : ∀ o dest hostDepth, sdk.isOwnedBy o dest hostDepth = true → o.renderTarget = dest
  default : sdk.isEmpty {} = true
  pitched : ∀ key : RenderTargetKey, key.pitchTilesAt32bpp ≠ 0 → sdk.isEmpty key = false
  width : sdk.kEdramTileWidthSamples = 80
  size : sdk.kTexture2DCubeMaxWidthHeight = 8192

/-- Every target is in the map under its key. -/
def Cache.Keyed (cache : Cache) : Prop :=
  ∀ entry ∈ cache.renderTargets, ∀ target ∈ entry.2, target.key = entry.1

/-- Every tile something is known about has an owner, whose texture agrees. -/
def Agrees (sdk : Sdk) (ranges : List OwnershipRange) (host : Host Content)
    (edram : ℕ → Option Content) : Prop :=
  ∀ t content, edram t = some content → ∃ v, Piece.At ranges t v ∧
    sdk.isEmpty v.renderTarget = false ∧ host t v.renderTarget = content

/-- The invariant of one cache with its textures. -/
structure Kept (sdk : Sdk) (cache : Cache) (host : Host Content) (edram : ℕ → Option Content) : Prop where
  path : cache.config.path = .kHostRenderTargets
  tiles : cache.ownershipRanges = [] ∨ Piece.Tiles 0 kEdramTileCount cache.ownershipRanges
  keyed : cache.Keyed
  backed : ∀ p ∈ cache.ownershipRanges, Backed sdk cache.renderTargets p.value
  agrees : Agrees sdk cache.ownershipRanges host edram

section Painting

variable {sdk : Sdk} {ranges : List OwnershipRange} {host : Host Content} {edram : ℕ → Option Content}
  {key : RenderTargetKey} {inside : ℕ → Prop} [DecidablePred inside]

/-- **Painting tiles a target owns keeps the agreement**: the texture and the EDRAM are painted
alike, and nobody else is asked for these tiles. -/
theorem Agrees.paintTiles (h : Agrees sdk ranges host edram) (hne : sdk.isEmpty key = false)
    (hinside : ∀ t, inside t → ∃ v, Piece.At ranges t v)
    (howned : ∀ t v, inside t → Piece.At ranges t v → v.renderTarget = key) (paint : ℕ → Paint Content) :
    Agrees sdk ranges (Edram.paintTiles key inside paint host) (learnTiles inside paint edram) := by
  intro t content hcontent
  rw [learnTiles] at hcontent
  unfold Edram.paintTiles
  split at hcontent
  · rename_i ht
    obtain ⟨v, hv⟩ := hinside t ht
    obtain rfl := howned t v ht hv
    refine ⟨v, hv, hne, ?_⟩
    rw [if_pos ht, Function.update_self]
    refine Paint.apply_of_learn (fun c hc => ?_) hcontent
    obtain ⟨w, hw, -, hhost⟩ := h t c hc
    rwa [howned t w ht hw] at hhost
  · rename_i ht
    rw [if_neg ht]
    exact h t content hcontent

end Painting

/-! ### The copies of an update -/

/-- The copies into the used targets, slot by slot. -/
def Cache.performTransfers (cache : Cache) (slots : List Slot) (host : Host Content) : Host Content :=
  slots.foldl (fun host slot =>
    match cache.lastUpdateUsedRenderTargets slot with
    | none => host
    | some target => copyAll target.key (cache.lastUpdateTransfers slot) host) host

section Perform

variable {cache : Cache} {slots slots' : List Slot} {slot : Slot} {host : Host Content} {t : ℕ}

/-- The transfers of some slots, then of others, are those of both. -/
theorem performTransfers_append :
    cache.performTransfers (slots ++ slots') host =
      cache.performTransfers slots' (cache.performTransfers slots host) :=
  List.foldl_append ..

/-- Slots that copy nothing to a tile leave it. -/
theorem performTransfers_of_not_copies (h : ∀ slot ∈ slots, cache.lastUpdateUsedRenderTargets slot ≠ none →
      ∀ key, ¬Copies (cache.lastUpdateTransfers slot) t key) :
    cache.performTransfers slots host t = host t := by
  induction slots generalizing host with
  | nil => rfl
  | cons slot slots ih =>
    refine (ih fun slot hslot => h slot (List.mem_cons_of_mem _ hslot)).trans ?_
    dsimp only
    cases htarget : cache.lastUpdateUsedRenderTargets slot with
    | none => rfl
    | some target =>
      exact copyAll_of_not_copies (h slot (List.mem_cons_self ..) (htarget ▸ Option.some_ne_none _))

/-- If one slot only copies to a tile, the tile is as after its copies. -/
theorem performTransfers_of_slot {target : RenderTarget}
    (htarget : cache.lastUpdateUsedRenderTargets slot = some target)
    (hother : ∀ other, other ≠ slot → cache.lastUpdateUsedRenderTargets other ≠ none →
      ∀ key, ¬Copies (cache.lastUpdateTransfers other) t key) :
    ∃ host', host' t = host t ∧ cache.performTransfers (List.finRange 5) host t =
      copyAll target.key (cache.lastUpdateTransfers slot) host' t := by
  obtain ⟨slots, slots', hslots⟩ := List.append_of_mem (List.mem_finRange slot)
  have hnodup : (slots ++ slot :: slots').Nodup := hslots ▸ List.nodup_finRange 5
  have hnot : ∀ other, other ∈ slots ∨ other ∈ slots' → other ≠ slot := by
    rintro other hmem rfl
    rw [List.nodup_append] at hnodup
    rcases hmem with hmem | hmem
    · exact hnodup.2.2 other hmem other (List.mem_cons_self ..) rfl
    · exact (List.nodup_cons.1 hnodup.2.1).1 hmem
  refine ⟨cache.performTransfers slots host, performTransfers_of_not_copies fun other hmem =>
    hother other (hnot other (.inl hmem)), ?_⟩
  rw [hslots, ← List.singleton_append, performTransfers_append, performTransfers_append,
    performTransfers_of_not_copies fun other hmem => hother other (hnot other (.inr hmem))]
  simp only [Cache.performTransfers, List.foldl_cons, List.foldl_nil, htarget]

end Perform

/-! ### The transfers of all claims -/

section Claims

open Claimant

variable {sdk : Sdk} {surface : Surface} {cache : Cache} {keys : Slot → RenderTargetKey}
  {claims : List ((ℕ × Slot) × ℕ)} {key : RenderTargetKey} {slot : Slot} {length lo hi t : ℕ}

/-- A tile that is not taken over is not copied. -/
theorem not_copies_of_appends {c : Claimant} {ranges : List OwnershipRange} {inside : ℕ → Prop}
    {out : List Transfer} (h : Appends sdk surface c (Takes sdk c ranges inside) [] out) (hnot : ¬inside t)
    (key : RenderTargetKey) : ¬Copies out t key := by
  intro hcopies
  rcases h.only t key hcopies with hcopies | ⟨v, ⟨-, hin, -⟩, -⟩
  · exact copies_nil.1 hcopies
  · exact hnot hin

/-- **The copies into a target that takes over tiles**: what the owner before held of a tile
is now in the target, unless it stays hidden. -/
theorem copyAll_of_appends {c : Claimant} {ranges : List OwnershipRange} {inside : ℕ → Prop}
    {out : List Transfer} {host : Host Content} {v : Owners} (htargets : sdk.Targets)
    (htiles : Piece.Tiles lo hi ranges) (h : Appends sdk surface c (Takes sdk c ranges inside) [] out)
    (hv : Piece.At ranges t v) (hne : sdk.isEmpty v.renderTarget = false) (hin : inside t)
    (hhidden : ¬Hidden sdk surface c t) : copyAll c.dest out host t c.dest = host t v.renderTarget := by
  have honly : ∀ key, Copies out t key → key = v.renderTarget ∧ v.renderTarget ≠ c.dest := by
    intro key hcopies
    rcases h.only t key hcopies with hcopies | ⟨w, ⟨hw, -⟩, hmoved, rfl⟩
    · exact absurd hcopies copies_nil.1
    · obtain rfl := htiles.at_unique hw hv
      exact ⟨rfl, hmoved.2⟩
  by_cases hdest : v.renderTarget = c.dest
  · rw [copyAll_of_not_copies fun key hcopies => (honly key hcopies).2 hdest, hdest]
  · have howns : ¬c.owns sdk v = true := fun howns => hdest (htargets.owned _ _ _ howns)
    exact copyAll_of_copies (fun key hcopies => (honly key hcopies).1) hdest
      (.inl (h.all t v ⟨hv, hin, howns⟩ ⟨hne, hdest⟩ hhidden))

/-- What a claim of an update comes with: a key with a pitch and a target, and at most the EDRAM. -/
structure Claimable (renderTargets : RenderTargets) (key : RenderTargetKey) (length : ℕ) :
    Prop where
  pitch : key.pitchTilesAt32bpp ≠ 0
  short : length ≤ kEdramTileCount
  target : ∃ target, renderTargets.lookup key = some (some target) ∧ target.key = key

/-- One claim: its transfers, the other slots', and the owners after it. -/
theorem transfers_claimSlot (hsdk : sdk.Documented) (htargets : sdk.Targets) (hdrawn : sdk.Drawn surface)
    (hpath : cache.config.path = .kHostRenderTargets) (htiles : Piece.Tiles lo hi cache.ownershipRanges)
    (hbacked : ∀ p ∈ cache.ownershipRanges, Backed sdk cache.renderTargets p.value)
    (hclaim : Claimable cache.renderTargets key length) (hempty : cache.lastUpdateTransfers slot = []) :
    Appends sdk surface (cache.claimant sdk key none)
        (Takes sdk (cache.claimant sdk key none) cache.ownershipRanges
          (Claimant.Covers key.baseTiles.toNat length)) []
        ((cache.claimSlot sdk key slot length).lastUpdateTransfers slot) ∧
      (∀ other, other ≠ slot → (cache.claimSlot sdk key slot length).lastUpdateTransfers other =
        cache.lastUpdateTransfers other) ∧
      ∀ p ∈ (cache.claimSlot sdk key slot length).ownershipRanges,
        Backed sdk (cache.claimSlot sdk key slot length).renderTargets p.value := by
  obtain ⟨hpitch, hshort, hdest⟩ := hclaim
  have hnil : Proper [] := fun transfer htransfer => absurd htransfer List.not_mem_nil
  obtain ⟨out', heq, happends⟩ := appends_changeOwnership hsdk hdrawn htargets.default
    (show (cache.claimant sdk key none).dest.pitchTilesAt32bpp ≠ 0 from hpitch)
    (fun cutout hcutout => absurd hcutout (Option.not_mem_none cutout))
    (show 0 + length ≤ kEdramTileCount by omega) hdest hbacked htiles hnil
  have hout : (if cache.config.path = .kPixelShaderInterlock then none
      else some (cache.lastUpdateTransfers slot)) = some ([] : List Transfer) := by
    rw [if_neg (by rw [hpath]; exact Path.noConfusion), hempty]
  have hchanged : (cache.claimSlot sdk key slot length).lastUpdateTransfers =
      Function.update cache.lastUpdateTransfers slot out' := by
    simp only [Cache.claimSlot, hout, heq]
  rw [Cache.startTiles_claimant] at happends
  refine ⟨?_, fun other hother => ?_, ?_⟩
  · rwa [hchanged, Function.update_self]
  · rw [hchanged, Function.update_of_ne hother]
  · exact backed_changeOwnership hsdk htiles hdest hbacked

/-- Tiles no claim covers keep their owners, and with them the render targets they are read from. -/
theorem at_claimSlot_of_not_covers {v : Owners} (hsdk : sdk.Documented) (h : cache.Mapped)
    (hnot : ¬Claimant.Covers key.baseTiles.toNat length t) :
    Piece.At (cache.claimSlot sdk key slot length).ownershipRanges t v ↔
      Piece.At cache.ownershipRanges t v := by
  rw [(Cache.claimSlot_spec key slot length hsdk h).2]
  constructor
  · rintro ⟨v, hv, rfl⟩
    rwa [taken, if_neg fun hin => hnot hin.1]
  · intro hv
    exact ⟨v, hv, by rw [taken, if_neg fun hin => hnot hin.1]⟩

/-- A tile that no claim covers keeps its owners. -/
theorem at_claimAll_of_not_covers {v : Owners} (hsdk : sdk.Documented) (h : cache.Mapped)
    (hnot : ∀ c ∈ claims, ¬Claimant.Covers (keys c.1.2).baseTiles.toNat c.2 t) :
    Piece.At (cache.claimAll sdk keys claims).ownershipRanges t v ↔
      Piece.At cache.ownershipRanges t v := by
  induction claims generalizing cache with
  | nil => exact .rfl
  | cons c claims ih =>
    refine (ih (Cache.claimSlot_spec _ _ _ hsdk h).1 fun d hd => hnot d (List.mem_cons_of_mem _ hd)).trans ?_
    exact at_claimSlot_of_not_covers hsdk h (hnot c (List.mem_cons_self ..))

/-- The claims keep the ranges side by side. -/
theorem tiles_claimAll (hsdk : sdk.Documented) (htiles : Piece.Tiles lo hi cache.ownershipRanges) :
    Piece.Tiles lo hi (cache.claimAll sdk keys claims).ownershipRanges := by
  induction claims generalizing cache with
  | nil => exact htiles
  | cons c claims ih => exact ih (Claimant.at_changeOwnership _ _ _ _ hsdk htiles).1

/-- **The transfers of all claims.**  By induction on the claims: each appends to the list of
its own slot, and takes over what was there before all of them, since they are apart. -/
theorem transfers_claimAll (hsdk : sdk.Documented) (htargets : sdk.Targets) (hdrawn : sdk.Drawn surface)
    (hpath : cache.config.path = .kHostRenderTargets) (htiles : Piece.Tiles 0 hi cache.ownershipRanges)
    (hbacked : ∀ p ∈ cache.ownershipRanges, Backed sdk cache.renderTargets p.value)
    (hclaims : ∀ c ∈ claims, Claimable cache.renderTargets (keys c.1.2) c.2 ∧
      c.1.1 = (keys c.1.2).baseTiles.toNat)
    (happart : claims.Pairwise Apart) (hslots : claims.Pairwise fun a b => a.1.2 ≠ b.1.2)
    (hempty : ∀ c ∈ claims, cache.lastUpdateTransfers c.1.2 = []) :
    (∀ c ∈ claims, Appends sdk surface (cache.claimant sdk (keys c.1.2) none)
        (Takes sdk (cache.claimant sdk (keys c.1.2) none) cache.ownershipRanges
          (Claimant.Covers (keys c.1.2).baseTiles.toNat c.2)) []
        ((cache.claimAll sdk keys claims).lastUpdateTransfers c.1.2)) ∧
      (∀ slot, (∀ c ∈ claims, c.1.2 ≠ slot) →
        (cache.claimAll sdk keys claims).lastUpdateTransfers slot = cache.lastUpdateTransfers slot) ∧
      ∀ p ∈ (cache.claimAll sdk keys claims).ownershipRanges,
        Backed sdk cache.renderTargets p.value := by
  induction claims generalizing cache with
  | nil => exact ⟨fun c hc => absurd hc List.not_mem_nil, fun _ _ => rfl, hbacked⟩
  | cons c claims ih =>
    obtain ⟨hfirst, hrest⟩ := List.pairwise_cons.1 happart
    obtain ⟨hslot, hslots⟩ := List.pairwise_cons.1 hslots
    obtain ⟨hclaim, hbase⟩ := hclaims c (List.mem_cons_self ..)
    obtain ⟨happends, hother, hbacked'⟩ := transfers_claimSlot hsdk htargets hdrawn hpath htiles hbacked
      hclaim (hempty c (List.mem_cons_self ..))
    have hmapped : cache.Mapped := ⟨hi, htiles⟩
    obtain ⟨htiles', hat⟩ := Claimant.at_changeOwnership (cache.claimant sdk (keys c.1.2) none)
      (if cache.config.path = .kPixelShaderInterlock then none
        else some (cache.lastUpdateTransfers c.1.2)) 0 c.2 hsdk htiles
    obtain ⟨hlater, hlaterOther, hlaterBacked⟩ := @ih (cache.claimSlot sdk (keys c.1.2) c.1.2 c.2) hpath
      htiles' hbacked' (fun d hd => hclaims d (List.mem_cons_of_mem _ hd)) hrest hslots
      fun d hd => (hother d.1.2 (hslot d hd).symm).trans (hempty d (List.mem_cons_of_mem _ hd))
    refine ⟨fun d hd => ?_, fun slot hnot => ?_, hlaterBacked⟩
    · rcases List.mem_cons.1 hd with rfl | hd
      · have hsame : (cache.claimAll sdk keys (d :: claims)).lastUpdateTransfers d.1.2 =
            (cache.claimSlot sdk (keys d.1.2) d.1.2 d.2).lastUpdateTransfers d.1.2 :=
          hlaterOther d.1.2 fun e he => (hslot e he).symm
        rwa [hsame]
      · -- what the later claim takes over, the first one has left
        refine (hlater d hd).congr fun t v => ?_
        have hbase' := (hclaims d (List.mem_cons_of_mem _ hd)).2
        refine and_congr_left fun hin => (at_claimSlot_of_not_covers hsdk hmapped fun hcovers => ?_).symm
        rw [← hbase'] at hin
        rw [← hbase] at hcovers
        exact Cache.not_covers_of_apart (hfirst d hd) (hbase ▸ (keys c.1.2).baseTiles.isLt)
          (hbase' ▸ (keys d.1.2).baseTiles.isLt) t hcovers hin.1
    · exact (hlaterOther slot fun d hd => hnot d (List.mem_cons_of_mem _ hd)).trans
        (hother slot (hnot c (List.mem_cons_self ..)).symm)

/-- Two claims cover a tile. -/
def Meet (keys : Slot → RenderTargetKey) (t : ℕ) (c d : (ℕ × Slot) × ℕ) : Prop :=
  Claimant.Covers (keys c.1.2).baseTiles.toNat c.2 t ∧ Claimant.Covers (keys d.1.2).baseTiles.toNat d.2 t

/-- No two claims of a draw cover one tile. -/
theorem eq_of_meet {c d : (ℕ × Slot) × ℕ} (hbase : ∀ c ∈ claims, c.1.1 = (keys c.1.2).baseTiles.toNat)
    (happart : claims.Pairwise Apart) (hc : c ∈ claims) (hd : d ∈ claims) (hmeet : Meet keys t c d) :
    c = d := by
  by_contra hne
  have hpair : claims.Pairwise fun c d => ¬Meet keys t c d := by
    refine (List.Pairwise.and_mem.1 happart).imp ?_
    rintro a b ⟨ha, hb, hab⟩ ⟨hcoversA, hcoversB⟩
    rw [← hbase a ha] at hcoversA
    rw [← hbase b hb] at hcoversB
    exact Cache.not_covers_of_apart hab (hbase a ha ▸ (keys a.1.2).baseTiles.isLt)
      (hbase b hb ▸ (keys b.1.2).baseTiles.isLt) t hcoversA hcoversB
  have hsymm : Std.Symm fun c d => ¬Meet keys t c d := ⟨fun _ _ h h' => h h'.symm⟩
  exact hpair.forall hc hd hne hmeet

/-- **The copies of an update keep the agreement**: after them each tile's new owner holds what its
old owner held of it. -/
theorem agrees_performTransfers {after : Cache} {host : Host Content} {edram : ℕ → Option Content}
    (hsdk : sdk.Documented) (htargets : sdk.Targets) (hdrawn : sdk.Drawn surface)
    (hpath : cache.config.path = .kHostRenderTargets)
    (htiles : Piece.Tiles 0 kEdramTileCount cache.ownershipRanges)
    (hbacked : ∀ p ∈ cache.ownershipRanges, Backed sdk cache.renderTargets p.value)
    (hclaims : ∀ c ∈ claims, Claimable cache.renderTargets (keys c.1.2) c.2 ∧
      c.1.1 = (keys c.1.2).baseTiles.toNat)
    (happart : claims.Pairwise Apart) (hslots : claims.Pairwise fun a b => a.1.2 ≠ b.1.2)
    (hempty : ∀ c ∈ claims, cache.lastUpdateTransfers c.1.2 = [])
    (htransfers : after.lastUpdateTransfers = (cache.claimAll sdk keys claims).lastUpdateTransfers)
    (hused : ∀ slot, after.lastUpdateUsedRenderTargets slot ≠ none → ∃ c ∈ claims, c.1.2 = slot)
    (hbound : ∀ c ∈ claims, ∃ target, after.lastUpdateUsedRenderTargets c.1.2 = some target ∧
      target.key = keys c.1.2)
    (hagrees : Agrees sdk cache.ownershipRanges host edram) :
    Agrees sdk (cache.claimAll sdk keys claims).ownershipRanges
      (after.performTransfers (List.finRange 5) host) edram := by
  have hmapped : cache.Mapped := ⟨_, htiles⟩
  have hbase : ∀ c ∈ claims, c.1.1 = (keys c.1.2).baseTiles.toNat := fun c hc => (hclaims c hc).2
  obtain ⟨happends, -, -⟩ := transfers_claimAll hsdk htargets hdrawn hpath htiles hbacked hclaims happart
    hslots hempty
  rw [← htransfers] at happends
  intro t content hcontent
  obtain ⟨v, hv, hne, hhost⟩ := hagrees t content hcontent
  -- a slot copies only tiles it covers
  have hcopied : ∀ slot, after.lastUpdateUsedRenderTargets slot ≠ none → ∀ key,
      Copies (after.lastUpdateTransfers slot) t key →
        ∃ c ∈ claims, c.1.2 = slot ∧ Claimant.Covers (keys c.1.2).baseTiles.toNat c.2 t := by
    intro slot hslot key hcopies
    obtain ⟨c, hc, rfl⟩ := hused slot hslot
    refine ⟨c, hc, rfl, ?_⟩
    by_contra hnot
    exact not_copies_of_appends (happends c hc) hnot key hcopies
  by_cases hcovered : ∃ c ∈ claims, Claimant.Covers (keys c.1.2).baseTiles.toNat c.2 t
  · obtain ⟨c, hc, hcovers⟩ := hcovered
    obtain ⟨target, htarget, htargetKey⟩ := hbound c hc
    obtain ⟨w, hw⟩ := (tiles_claimAll hsdk htiles).exists_at (Nat.zero_le t) (htiles.bounds_at hv).2
    have howned : w.renderTarget = keys c.1.2 :=
      htargets.owned _ _ _ (Cache.holds_claimAll hsdk hmapped hbase happart c hc t w hcovers hw)
    obtain ⟨host', hsame, hperform⟩ := performTransfers_of_slot htarget
      fun other hother hslot key hcopies =>
        let ⟨d, hd, hdslot, hdcovers⟩ := hcopied other hslot key hcopies
        hother (hdslot ▸ congrArg (·.1.2) (eq_of_meet hbase happart hd hc ⟨hdcovers, hcovers⟩))
    refine ⟨w, hw, howned ▸ htargets.pitched _ (hclaims c hc).1.pitch, ?_⟩
    have hhidden : ¬Hidden sdk surface (cache.claimant sdk (keys c.1.2) none) t := by
      rintro ⟨cutout, hcutout, -⟩
      cases hcutout
    rw [hperform, howned, htargetKey, ← hhost, ← hsame]
    exact copyAll_of_appends htargets htiles (happends c hc) hv hne hcovers hhidden
  · have hnot : ∀ c ∈ claims, ¬Claimant.Covers (keys c.1.2).baseTiles.toNat c.2 t :=
      fun c hc hcovers => hcovered ⟨c, hc, hcovers⟩
    refine ⟨v, (at_claimAll_of_not_covers hsdk hmapped hnot).2 hv, hne, ?_⟩
    rw [performTransfers_of_not_copies, hhost]
    intro slot _ hslot key hcopies
    obtain ⟨c, hc, -, hcovers⟩ := hcopied slot hslot key hcopies
    exact hnot c hc hcovers

/-- The copies into a target that is cleared, and its clear: `clear` is what the clear does to
each tile of the target. -/
def clearTarget (key : RenderTargetKey) (transfers : List Transfer) (clear : ℕ → Paint Content)
    (host : Host Content) : Host Content :=
  paintTiles key (fun _ => True) clear (copyAll key transfers host)

/-- **A resolve clear keeps the agreement**: it overwrites the tiles that were not copied, since
they are inside its rectangle, and does nothing to tiles it has not taken over. -/
theorem agrees_clearTarget {c : Claimant} {ranges : List OwnershipRange} {out : List Transfer}
    {host : Host Content} {edram : ℕ → Option Content} {start : ℕ} {clear : ℕ → Paint Content}
    (hsdk : sdk.Documented) (htargets : sdk.Targets) (htiles : Piece.Tiles 0 kEdramTileCount ranges)
    (hne : sdk.isEmpty c.dest = false)
    (happends : Appends sdk surface c (Takes sdk c ranges (Claimant.Covers (c.startTiles start) length)) []
      out)
    (hoverwrites : ∀ t, Claimant.Covers (c.startTiles start) length t → Hidden sdk surface c t →
      ∃ content, clear t = .overwrite content)
    (hinside : ∀ t, ¬Claimant.Covers (c.startTiles start) length t → clear t = .blend id)
    (hagrees : Agrees sdk ranges host edram) (o : Option (List Transfer)) :
    Agrees sdk (c.changeOwnership sdk start length ranges o).1 (clearTarget c.dest out clear host)
      (learnTiles (fun _ => True) clear edram) := by
  obtain ⟨htiles', hat⟩ := at_changeOwnership c o start length hsdk htiles
  intro t content hcontent
  rw [learnTiles, if_pos trivial] at hcontent
  rw [clearTarget, paintTiles, if_pos trivial]
  by_cases hcovers : Claimant.Covers (c.startTiles start) length t
  · obtain ⟨w, hw⟩ := htiles'.exists_at (Nat.zero_le t) (by
      have := c.startTiles_lt start
      unfold Claimant.Covers at hcovers
      omega)
    obtain ⟨v, hv, hvw⟩ := (hat t w).1 hw
    have howned : w.renderTarget = c.dest := by
      refine htargets.owned w c.dest c.hostDepth ?_
      by_cases howns : c.owns sdk v = true
      · rw [hvw, taken_of_owns howns]
        exact howns
      · rw [hvw, taken, if_pos ⟨hcovers, howns⟩]
        exact owns_claim hsdk
    refine ⟨w, hw, howned ▸ hne, ?_⟩
    rw [howned, Function.update_self]
    by_cases hhidden : Hidden sdk surface c t
    · obtain ⟨painted, hpainted⟩ := hoverwrites t hcovers hhidden
      rw [hpainted] at hcontent ⊢
      exact Option.some.inj hcontent
    · refine Paint.apply_of_learn (fun content' hcontent' => ?_) hcontent
      obtain ⟨v', hv', hne', hhost⟩ := hagrees t content' hcontent'
      rw [copyAll_of_appends htargets htiles happends hv' hne' hcovers hhidden, hhost]
  · rw [hinside t hcovers] at hcontent ⊢
    obtain ⟨content', hcontent', rfl⟩ := Option.map_eq_some_iff.1 hcontent
    obtain ⟨v, hv, hne', hhost⟩ := hagrees t content' hcontent'
    refine ⟨v, (hat t v).2 ⟨v, hv, by rw [taken, if_neg fun hin => hcovers hin.1]⟩, hne', ?_⟩
    rw [copyAll_of_not_copies (not_copies_of_appends happends hcovers)]
    by_cases hkey : v.renderTarget = c.dest
    · rw [hkey, Function.update_self, ← hkey, hhost]
      rfl
    · rw [Function.update_of_ne hkey, hhost]
      rfl

end Claims

end Edram
end BoltsRebuilt
