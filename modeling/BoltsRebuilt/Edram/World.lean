/-
# What is drawn into the EDRAM stays there

A `World` is the process of `OwnershipMemo` with the textures of its caches, and beside them
the EDRAM the textures stand for.  Its steps are those of the process: after an update has
claimed its tiles the transfers are performed and the draw paints them
(`D3D12RenderTargetCache::Update`, `d3d12/render_target_cache.cpp`, lines 1281-1320), and a
resolve clear copies into and clears one target after the other (`Resolve`, line 1577).

`contentsKept` says that textures and EDRAM agree after any run with host render targets,
with the ownership memo or without: no draw finds stale contents and none are lost.  The
invariant is `Kept`.  Besides the agreement it has that the map has no gaps and that every
owner has a target, for a copy whose source is not found is dropped.

A resolve may clear a depth and a color target.  The run has those whose two targets have no
tile to clear in common (`ResolveInfo.Clears`): where they do, their ranges are cut but not
the rectangle, and a target is cleared in tiles another one owns.

An event that resets the ownership map loses what was drawn, and the run goes on from an
EDRAM nothing is known about.  `PixelShaderInterlockFullEdramBarrierPlaced` is such an event;
its own comment says that it is reached with host render targets too.
-/

import BoltsRebuilt.Edram.ResolveClear

namespace BoltsRebuilt
namespace Edram

/-- The process, the textures of each cache, and the EDRAM they stand for. -/
structure World (Address Content : Type) where
  state : State Address := {}
  host : Address → Host Content
  edram : Address → ℕ → Option Content := fun _ _ => none

/-- An event and what the device does in it: what targets it creates hold at first, what a
draw does to the tiles of each slot, and what a clear does to the tiles of each target. -/
structure Turn (Address Content : Type) where
  event : Event Address
  created : Host Content
  paint : Slot → ℕ → Paint Content := fun _ _ => .blend id
  clear : RenderTargetKey → ℕ → Paint Content := fun _ _ => .blend id

/-- The textures once targets are created: one that was not there holds what it holds. -/
def Cache.created {Content : Type} (before : Cache) (created host : Host Content) : Host Content :=
  fun t key => if (before.renderTargets.lookup key).isNone then created t key else host t key

/-- The textures and the EDRAM. -/
abbrev Contents (Content : Type) := Host Content × (ℕ → Option Content)

variable {Address Content : Type}

/-- A draw paints the tiles its slots have claimed, in the textures and in the EDRAM. -/
def Plan.draw (plan : Plan) (paint : Slot → ℕ → Paint Content) (contents : Contents Content) :
    Contents Content :=
  (plan.sorted.zip plan.lengths).foldl (fun contents claim =>
    let inside := Claimant.Covers (plan.keys claim.1.2).baseTiles.toNat claim.2
    (paintTiles (plan.keys claim.1.2) inside (paint claim.1.2) contents.1,
      learnTiles inside (paint claim.1.2) contents.2)) contents

/-- With nothing claimed nothing is painted. -/
def Prepared.draw (paint : Slot → ℕ → Paint Content) (contents : Contents Content) :
    Prepared → Contents Content
  | .claims _ plan => plan.draw paint contents
  | _ => contents

/-- Copy into each target that was found and clear it. -/
def performClears (clear : RenderTargetKey → ℕ → Paint Content)
    (cleared : List (Option RenderTarget × List Transfer)) (contents : Contents Content) :
    Contents Content :=
  cleared.foldl (fun contents entry =>
    match entry.1 with
    | none => contents
    | some target => (clearTarget target.key entry.2 (clear target.key) contents.1,
        learnTiles (fun _ => True) (clear target.key) contents.2)) contents

namespace World

variable [DecidableEq Address] (sdk : Sdk) (w : World Address Content)

/-- The contents of one cache. -/
def contents (this : Address) : Contents Content := (w.host this, w.edram this)

def set (state : State Address) (this : Address) (contents : Contents Content) : World Address Content where
  state := state
  host := Function.update w.host this contents.1
  edram := Function.update w.edram this contents.2

/-- A draw that is not refused performs the transfers and paints. -/
def update (turn : Turn Address Content) (this : Address) (d : Draw) : World Address Content :=
  let before := w.state.caches this
  let result := w.state.update sdk this d
  let host := before.created turn.created (w.host this)
  w.set result.1 this <|
    if result.2 then
      (d.prepare sdk before.config).draw turn.paint
        ((result.1.caches this).performTransfers (List.finRange 5) host, w.edram this)
    else (host, w.edram this)

def step (turn : Turn Address Content) : World Address Content :=
  let stepped := (Edram.step sdk w.state turn.event).1
  match turn.event with
  | .update this d => w.update sdk turn this d
  | .resolveClear this create clearRectangle clears =>
    let before := w.state.caches this
    w.set stepped this (performClears turn.clear (before.resolveClear sdk create clearRectangle clears).2
      (before.created turn.created (w.host this), w.edram this))
  | .clearCache this => w.set stepped this (w.contents this)
  | .beginFrame this _ => w.set stepped this (w.contents this)
  -- the ownership map is reset
  | .initializeCommon this _ _ => w.set stepped this (w.host this, fun _ => none)
  | .destroyAllRenderTargets this _ => w.set stepped this (w.host this, fun _ => none)
  | .fullEdramBarrierPlaced this => w.set stepped this (w.host this, fun _ => none)

def run (w : World Address Content) : List (Turn Address Content) → World Address Content
  | [] => w
  | turn :: turns => run (w.step sdk turn) turns

end World

/-! ### Runs with host render targets -/

/-- What clearing a rectangle of a target does: the tiles with no pixel in it stay as they are,
and those that are all in it are overwritten. -/
structure Clears (sdk : Sdk) (surface : Surface) (rectangle : Rectangle) (key : RenderTargetKey)
    (paint : ℕ → Paint Content) : Prop where
  outside : ∀ t, (∀ p, surface.InTile sdk key t p → ¬rectangle.Contains p) → paint t = .blend id
  overwrites : ∀ t < kEdramTileCount, (∀ p, surface.InTile sdk key t p → rectangle.Contains p) →
    ∃ content, paint t = .overwrite content

/-- A resolve whose clears `PrepareHostRenderTargetsResolveClear` makes, of a depth and a color
target that have no tile to clear in common; the device clears the rectangle in both. -/
structure ResolveInfo.Clears (sdk : Sdk) (surface : Surface) (config : Config) (clearRectangle : Rectangle)
    (clears : List Clear) (paint : RenderTargetKey → ℕ → Paint Content) (info : ResolveInfo) : Prop where
  prepare : info.prepare sdk config = some (clearRectangle, clears)
  apart : info.Apart sdk config
  formatted : info.Formatted surface
  clears : ∀ clear ∈ clears, clear.lengthTiles ≠ 0 →
    Edram.Clears sdk surface clearRectangle clear.key (paint clear.key)

/-- What a run is made of: caches for host render targets, which draw and clear between their
initialization and their shutdown. -/
def Turn.Allowed (sdk : Sdk) (surface : Surface) (s : State Address) (turn : Turn Address Content) : Prop :=
  match turn.event with
  | .initializeCommon _ config _ => config.path = .kHostRenderTargets
  | .update this _ => (s.caches this).ownershipRanges ≠ []
  | .resolveClear this _ clearRectangle clears => (s.caches this).ownershipRanges ≠ [] ∧
      ∃ info : ResolveInfo,
        info.Clears sdk surface (s.caches this).config clearRectangle clears turn.clear
  | _ => True

/-- Every turn of the run is allowed where it comes. -/
def World.Allowed [DecidableEq Address] (sdk : Sdk) (surface : Surface) :
    World Address Content → List (Turn Address Content) → Prop
  | _, [] => True
  | w, turn :: turns => turn.Allowed sdk surface w.state ∧ World.Allowed sdk surface (w.step sdk turn) turns

/-! ### Targets -/

section Targets

variable {sdk : Sdk} {cache cache' : Cache} {key : RenderTargetKey} {target : RenderTarget}
  {create : RenderTargetKey → Option ℕ} {host fresh : Host Content} {edram : ℕ → Option Content}

/-- What is found in the list of render targets is in it. -/
theorem mem_of_lookup {targets : RenderTargets} {target : Option RenderTarget}
    (h : targets.lookup key = some target) : (key, target) ∈ targets := by
  induction targets with
  | nil => exact absurd h.symm (Option.some_ne_none _)
  | cons entry targets ih =>
    rw [List.lookup_cons] at h
    split at h
    · rename_i heq
      obtain rfl : entry.2 = target := Option.some.inj h
      rw [eq_of_beq heq]
      exact List.mem_cons_self ..
    · exact List.mem_cons_of_mem _ (ih h)

/-- A render target found under a key was made for that key. -/
theorem Cache.Keyed.lookup (h : cache.Keyed) (hlookup : cache.renderTargets.lookup key = some (some target)) :
    target.key = key :=
  h _ (mem_of_lookup hlookup) target rfl

/-- A render target that is made is stored under its own key. -/
theorem Cache.Keyed.getOrCreate (h : cache.Keyed) : (cache.getOrCreateRenderTarget create key).1.Keyed := by
  unfold Cache.getOrCreateRenderTarget
  split
  · exact h
  · intro entry hentry target htarget
    rcases List.mem_append.1 hentry with hentry | hentry
    · exact h entry hentry target htarget
    · obtain rfl := List.mem_singleton.1 hentry
      obtain ⟨pointer, -, rfl⟩ := Option.map_eq_some_iff.1 htarget
      rfl

/-- Finding the targets of a draw one by one keeps every target under its own key. -/
theorem Cache.Keyed.findTargets {keys : Slot → RenderTargetKey} {sorted : List (ℕ × Slot)}
    {rts : Slot → Option RenderTarget} (h : cache.Keyed) :
    (Cache.findTargets create keys sorted cache rts).1.Keyed := by
  induction sorted generalizing cache rts with
  | nil => exact h
  | cons c sorted ih =>
    obtain ⟨base, slot⟩ := c
    have hgot : (cache.getOrCreateRenderTarget create (keys slot)).1.Keyed := h.getOrCreate
    rw [Cache.findTargets]
    split
    · rename_i heq
      rwa [heq] at hgot
    · rename_i heq
      rw [heq] at hgot
      exact ih hgot

/-- Finding targets lists no transfers. -/
theorem transfers_findTargets {keys : Slot → RenderTargetKey} {sorted : List (ℕ × Slot)}
    {rts : Slot → Option RenderTarget} :
    (Cache.findTargets create keys sorted cache rts).1.lastUpdateTransfers = cache.lastUpdateTransfers := by
  induction sorted generalizing cache rts with
  | nil => rfl
  | cons c sorted ih =>
    obtain ⟨base, slot⟩ := c
    have hgot : (cache.getOrCreateRenderTarget create (keys slot)).1.lastUpdateTransfers =
        cache.lastUpdateTransfers := by
      unfold Cache.getOrCreateRenderTarget
      split <;> rfl
    rw [Cache.findTargets]
    split
    · rename_i heq
      rwa [heq] at hgot
    · rename_i heq
      rw [heq] at hgot
      exact ih.trans hgot

/-- Clearing the transfers leaves the targets under their keys. -/
theorem Cache.Keyed.clearTransfers (h : cache.Keyed) : cache.clearTransfers.Keyed := by
  unfold Cache.clearTransfers
  split <;> exact h

/-- Owners backed by a render target are backed by it in any extension of the cache. -/
theorem Backed.extends {owners : Owners} (hextends : Cache.Extends cache cache')
    (h : Backed sdk cache.renderTargets owners) : Backed sdk cache'.renderTargets owners := by
  intro key hkey hne
  obtain ⟨target, hlookup, htarget⟩ := h key hkey hne
  exact ⟨target, hextends.targets _ _ hlookup, htarget⟩

/-- What the surfaces and the EDRAM hold is kept when render targets are only added. -/
theorem Kept.extends (h : Kept sdk cache host edram) (hextends : Cache.Extends cache cache')
    (hkeyed : cache'.Keyed) : Kept sdk cache' host edram where
  path := hextends.config ▸ h.path
  tiles := hextends.ranges ▸ h.tiles
  keyed := hkeyed
  backed := by
    rw [hextends.ranges]
    exact fun p hp => (h.backed p hp).extends hextends
  agrees := hextends.ranges ▸ h.agrees

/-- Creating targets changes no texture with contents: the owner of a tile had its target before. -/
theorem Kept.created (h : Kept sdk cache host edram) : Kept sdk cache (cache.created fresh host) edram where
  path := h.path
  tiles := h.tiles
  keyed := h.keyed
  backed := h.backed
  agrees t content hcontent := by
    obtain ⟨v, hv, hne, hhost⟩ := h.agrees t content hcontent
    refine ⟨v, hv, hne, ?_⟩
    obtain ⟨p, hp, -, rfl⟩ := hv
    obtain ⟨target, hlookup, -⟩ := (h.backed p hp).renderTarget hne
    rw [Cache.created, hlookup, Option.isNone_some, if_neg Bool.false_ne_true, hhost]

end Targets

/-! ### An update -/

section Update

variable {sdk : Sdk} {surface : Surface} {cache : Cache} {plan : Plan} {d : Draw} {pitchTiles : ℕ}
  {host : Host Content} {edram : ℕ → Option Content} {slot : Slot}

/-- The surface of a slot in use has a pitch, which is at least one tile and fits the key. -/
theorem pitch_of_prepare (htargets : sdk.Targets) {config : Config}
    (h : d.prepare sdk config = .claims pitchTiles plan) (hused : plan.used slot = true) :
    (plan.keys slot).pitchTilesAt32bpp ≠ 0 := by
  have hsize : d.surfacePitch.toNat ≤ 8192 := by
    unfold Draw.prepare at h
    rw [htargets.size] at h
    split_ifs at h <;> omega
  obtain ⟨-, rfl⟩ := Draw.prepare_claims h
  have hbits := Draw.eliminate_mono _ hused
  simp only [Draw.usedBits, Bool.and_eq_true, decide_eq_true_eq] at hbits
  have hpitch : 1 ≤ d.pitchTilesAt32bpp sdk ∧ d.pitchTilesAt32bpp sdk < 2 ^ 8 := by
    rw [Draw.pitchTilesAt32bpp, htargets.width]
    split <;> simp only [Nat.shiftLeft_eq] <;> omega
  intro hzero
  have hword : d.pitchTilesAt32bpp sdk % 2 ^ 8 = 0 := congrArg BitVec.toNat hzero
  omega

/-- The claims of a sound plan are those of its used slots, each once. -/
theorem slots_of_sound (h : plan.Sound) :
    ((plan.sorted.zip plan.lengths).Pairwise fun a b => a.1.2 ≠ b.1.2) ∧
      ∀ slot, plan.used slot = true → ∃ c ∈ plan.sorted.zip plan.lengths, c.1.2 = slot := by
  have hfst : (plan.sorted.zip plan.lengths).map Prod.fst = plan.sorted :=
    List.map_fst_zip (Nat.le_of_eq h.length.symm)
  have hslots : (plan.sorted.map Prod.snd).Nodup := by
    rw [h.sorted, Draw.edramBasesSorted, ((List.perm_insertionSort _ _).map Prod.snd).nodup_iff,
      List.map_map]
    exact ((List.nodup_finRange 5).filter _).map fun a b hab => hab
  constructor
  · rw [← hfst, List.map_map] at hslots
    exact List.pairwise_map.1 hslots
  · intro slot hslot
    have hmem := h.slot_mem hslot
    rw [← hfst] at hmem
    obtain ⟨c, hc, heq⟩ := List.mem_map.1 hmem
    exact ⟨c, hc, congrArg Prod.snd heq⟩

/-- **A draw keeps the agreement**, since its slots own what they paint. -/
theorem agrees_draw (htargets : sdk.Targets) (htiles : Piece.Tiles 0 kEdramTileCount cache.ownershipRanges)
    (claims : List ((ℕ × Slot) × ℕ)) {keys : Slot → RenderTargetKey}
    (hclaims : ∀ c ∈ claims, sdk.isEmpty (keys c.1.2) = false ∧ cache.Holds sdk (keys c.1.2) c.2)
    (paint : Slot → ℕ → Paint Content) (contents : Contents Content)
    (hagrees : Agrees sdk cache.ownershipRanges contents.1 contents.2) :
    let painted := claims.foldl (fun contents claim =>
      let inside := Claimant.Covers (keys claim.1.2).baseTiles.toNat claim.2
      (paintTiles (keys claim.1.2) inside (paint claim.1.2) contents.1,
        learnTiles inside (paint claim.1.2) contents.2)) contents
    Agrees sdk cache.ownershipRanges painted.1 painted.2 := by
  induction claims generalizing contents with
  | nil => exact hagrees
  | cons c claims ih =>
    obtain ⟨hne, hholds⟩ := hclaims c (List.mem_cons_self ..)
    refine ih (fun d hd => hclaims d (List.mem_cons_of_mem _ hd)) _ ?_
    refine hagrees.paintTiles hne (fun t ht => htiles.exists_at (Nat.zero_le t) ?_)
      (fun t v ht hv => htargets.owned _ _ _ (hholds t v ht hv)) _
    have hbase := (keys c.1.2).baseTiles.isLt
    unfold Claimant.Covers at ht
    unfold kEdramTileCount at *
    omega

/-- What an update without the memo does to a cache, its textures and its EDRAM. -/
theorem Kept.claimed (hsdk : sdk.Documented) (htargets : sdk.Targets) (hdrawn : sdk.Drawn surface)
    (h : Kept sdk cache host edram) (hne : cache.ownershipRanges ≠ [])
    (htransfers : cache.lastUpdateTransfers = fun _ => [])
    (hprepare : d.prepare sdk cache.config = .claims pitchTiles plan) (paint : Slot → ℕ → Paint Content) :
    let claimed := cache.claimed sdk d plan pitchTiles
    let contents := if claimed.2 then
      plan.draw paint (claimed.1.performTransfers (List.finRange 5) host, edram) else (host, edram)
    Kept sdk claimed.1 contents.1 contents.2 := by
  have hsound := Draw.prepare_sound hprepare
  have hextends := Cache.extends_findTargets cache plan.keys d.create plan.sorted fun _ => none
  have hkeyed : (cache.findTargets d.create plan.keys plan.sorted fun _ => none).1.Keyed :=
    h.keyed.findTargets
  have hempty : (cache.findTargets d.create plan.keys plan.sorted fun _ => none).1.lastUpdateTransfers =
    cache.lastUpdateTransfers := transfers_findTargets
  rw [Cache.claimed]
  rcases hfind : cache.findTargets d.create plan.keys plan.sorted fun _ => none with ⟨found, _ | rts⟩
  · rw [hfind] at hextends hkeyed
    exact h.extends hextends hkeyed
  · have hfound := (Cache.findTargets_found (congrArg Prod.snd hfind)).2
    rw [hfind] at hextends hkeyed hempty hfound
    have hkept := h.extends hextends hkeyed
    have htiles : Piece.Tiles 0 kEdramTileCount found.ownershipRanges :=
      hkept.tiles.resolve_left (hextends.ranges ▸ hne)
    obtain ⟨hslots, hslotClaim⟩ := slots_of_sound hsound
    have hmem : ∀ c ∈ plan.sorted.zip plan.lengths, plan.used c.1.2 = true ∧
        c.1.1 = (plan.keys c.1.2).baseTiles.toNat :=
      fun c hc => hsound.mem_sorted.1 (List.of_mem_zip hc).1
    have hpitch : ∀ c ∈ plan.sorted.zip plan.lengths, (plan.keys c.1.2).pitchTilesAt32bpp ≠ 0 :=
      fun c hc => pitch_of_prepare htargets hprepare (hmem c hc).1
    have hclaims : ∀ c ∈ plan.sorted.zip plan.lengths,
        Claimable found.renderTargets (plan.keys c.1.2) c.2 ∧
          c.1.1 = (plan.keys c.1.2).baseTiles.toNat := by
      intro c hc
      obtain ⟨target, -, hlookup⟩ := hfound _ (List.of_mem_zip hc).1
      exact ⟨⟨hpitch c hc, hsound.short c hc, target, hlookup, hkeyed.lookup hlookup⟩, (hmem c hc).2⟩
    have hnil : ∀ c ∈ plan.sorted.zip plan.lengths, found.lastUpdateTransfers c.1.2 = [] := by
      intro c _
      rw [hempty, htransfers]
    obtain ⟨-, -, hbacked⟩ := transfers_claimAll hsdk htargets hdrawn hkept.path htiles hkept.backed
      hclaims hsound.apart hslots hnil
    have hused : ∀ slot, plan.bound rts slot ≠ none → ∃ c ∈ plan.sorted.zip plan.lengths, c.1.2 = slot := by
      intro slot hslot
      refine hslotClaim slot ?_
      by_contra hnot
      exact hslot (if_neg hnot)
    have hbound : ∀ c ∈ plan.sorted.zip plan.lengths, ∃ target, plan.bound rts c.1.2 = some target ∧
        target.key = plan.keys c.1.2 := by
      intro c hc
      obtain ⟨target, hrts, hlookup⟩ := hfound _ (List.of_mem_zip hc).1
      exact ⟨target, (if_pos (hmem c hc).1).trans hrts, hkeyed.lookup hlookup⟩
    have hperformed : Agrees sdk (found.claimSlots sdk plan).ownershipRanges
        (((found.claimSlots sdk plan).bind plan rts pitchTiles d.msaaSamples).performTransfers
          (List.finRange 5) host) edram :=
      agrees_performTransfers hsdk htargets hdrawn hkept.path htiles hkept.backed hclaims hsound.apart hslots
        hnil rfl hused hbound hkept.agrees
    obtain ⟨hconfig, htargetsFixed⟩ : (found.claimSlots sdk plan).config = found.config ∧
        (found.claimSlots sdk plan).renderTargets = found.renderTargets :=
      ⟨(Cache.claimAll_fixed sdk).1, (Cache.claimAll_fixed sdk).2.1⟩
    have htilesAll : Piece.Tiles 0 kEdramTileCount (found.claimSlots sdk plan).ownershipRanges :=
      tiles_claimAll hsdk htiles
    have hholds := Cache.holds_claimAll hsdk ⟨_, htiles⟩ (fun c hc => (hmem c hc).2) hsound.apart
    constructor
    case path => exact (congrArg Config.path hconfig).trans hkept.path
    case tiles => exact .inr htilesAll
    case keyed =>
      intro entry hentry
      exact hkeyed entry (htargetsFixed ▸ hentry)
    case backed =>
      intro p hp
      show Backed sdk (found.claimSlots sdk plan).renderTargets p.value
      rw [htargetsFixed]
      exact hbacked p hp
    case agrees =>
      exact agrees_draw htargets htilesAll _
        (fun c hc => ⟨htargets.pitched _ (hpitch c hc), hholds c hc⟩) paint _ hperformed

/-- Nothing is claimed and nothing is drawn: the transfers are cleared and the targets unbound. -/
theorem Kept.unbind (h : Kept sdk cache host edram) :
    Kept sdk (cache.clearTransfers.unbind pitchTiles d.msaaSamples)
      ((cache.clearTransfers.unbind pitchTiles d.msaaSamples).performTransfers (List.finRange 5) host)
      edram := by
  have hextends := extends_clearTransfers cache
  have hnone : (cache.clearTransfers.unbind pitchTiles d.msaaSamples).performTransfers (List.finRange 5)
      host = host := by
    funext t
    exact performTransfers_of_not_copies fun slot _ hslot => absurd rfl hslot
  rw [hnone]
  exact h.extends ⟨hextends.config, hextends.ranges, hextends.targets⟩ h.keyed.clearTransfers

variable [DecidableEq Address] {w : World Address Content} {turn : Turn Address Content} {this : Address}

/-- **An update keeps what is drawn**: its claims, its transfers and the draw leave every texture
with the contents of the tiles it owns. -/
theorem World.kept_update (hsdk : sdk.Documented) (htargets : sdk.Targets) (hdrawn : sdk.Drawn surface)
    (hinv : Inv sdk w.state) (hbound : w.state.generation < 2 ^ 64)
    (hkept : Kept sdk (w.state.caches this) (w.host this) (w.edram this))
    (hne : (w.state.caches this).ownershipRanges ≠ []) :
    Kept sdk ((w.update sdk turn this d).state.caches this) ((w.update sdk turn this d).host this)
      ((w.update sdk turn this d).edram this) := by
  have hcreated : Kept sdk (w.state.caches this)
    ((w.state.caches this).created turn.created (w.host this)) (w.edram this) := hkept.created
  unfold World.update
  dsimp only [World.set]
  rw [Function.update_self, Function.update_self]
  cases hprepare : d.prepare sdk (w.state.caches this).config with
  | refused =>
    have hrefused : w.state.update sdk this d = (w.state, false) := by rw [State.update, hprepare]
    rw [hrefused]
    exact hcreated
  | nothingUsed pitchTiles =>
    have hnothing : w.state.update sdk this d = (w.state.setCache this
        ((w.state.caches this).clearTransfers.unbind pitchTiles d.msaaSamples), true) := by
      rw [State.update, hprepare]
    rw [hnothing]
    simp only [State.setCache, Function.update_self, if_true, Prepared.draw]
    exact hcreated.unbind
  | claims pitchTiles plan =>
    have hpath : ¬(w.state.caches this).config.path = .kPixelShaderInterlock := by
      rw [hkept.path]
      exact Path.noConfusion
    have hupdate : w.state.update sdk this d =
        w.state.claimHost sdk this d plan (w.state.caches this).clearTransfers pitchTiles := by
      rw [State.update, hprepare]
      exact if_neg hpath
    have hextends := extends_clearTransfers (w.state.caches this)
    -- with the memo or without, the claim is the same
    have hclaim : (w.state.claimHost sdk this d plan (w.state.caches this).clearTransfers pitchTiles).1.caches =
          Function.update w.state.caches this
            ((w.state.caches this).clearTransfers.claimed sdk d plan pitchTiles).1 ∧
        (w.state.claimHost sdk this d plan (w.state.caches this).clearTransfers pitchTiles).2 =
          ((w.state.caches this).clearTransfers.claimed sdk d plan pitchTiles).2 := by
      refine claimHost_eq (hextends.mapped (hinv.mapped this)) (Draw.prepare_sound hprepare) fun _ hmatch => ?_
      obtain ⟨plan, hplan⟩ := hinv.remembers hbound hmatch
      exact ⟨plan, hplan.extends hextends⟩
    rw [hupdate, hclaim.1, hclaim.2, Function.update_self]
    refine Kept.claimed hsdk htargets hdrawn (hcreated.extends hextends hkept.keyed.clearTransfers)
      (hextends.ranges ▸ hne) ?_ (hextends.config ▸ hprepare) turn.paint
    unfold Cache.clearTransfers
    rw [if_neg hpath]

end Update

/-! ### A resolve clear -/

section Clears

variable {sdk : Sdk} {surface : Surface} {cache : Cache} {create : RenderTargetKey → Option ℕ}
  {clears : List Clear} {clearRectangle : Rectangle} {host : Host Content} {edram : ℕ → Option Content}
  {paint : RenderTargetKey → ℕ → Paint Content}

/-- The targets found are those of the clears, and they are in the map. -/
theorem findClears_found (h : cache.Keyed) :
    (Cache.findClears create clears cache).1.Keyed ∧
      ∀ entry ∈ (Cache.findClears create clears cache).2, entry.1 ∈ clears ∧ ∀ target ∈ entry.2,
        entry.1.lengthTiles ≠ 0 ∧
          (Cache.findClears create clears cache).1.renderTargets.lookup entry.1.key = some (some target) := by
  induction clears generalizing cache with
  | nil => exact ⟨h, fun entry hentry => absurd hentry List.not_mem_nil⟩
  | cons clear clears ih =>
    by_cases hzero : clear.lengthTiles = 0
    · simp only [Cache.findClears, if_pos hzero]
      obtain ⟨hkeyed, hfound⟩ := ih h
      refine ⟨hkeyed, fun entry hentry => ?_⟩
      rcases List.mem_cons.1 hentry with rfl | hentry
      · exact ⟨List.mem_cons_self .., fun target htarget => absurd htarget.symm (Option.some_ne_none _)⟩
      · exact ⟨List.mem_cons_of_mem _ (hfound entry hentry).1, (hfound entry hentry).2⟩
    · simp only [Cache.findClears, if_neg hzero]
      have hgot : (cache.getOrCreateRenderTarget create clear.key).1.Keyed := h.getOrCreate
      obtain ⟨hkeyed, hfound⟩ := ih hgot
      refine ⟨hkeyed, fun entry hentry => ?_⟩
      rcases List.mem_cons.1 hentry with rfl | hentry
      · refine ⟨List.mem_cons_self .., fun target htarget => ?_⟩
        have hlookup := (Cache.getOrCreate_spec cache clear.key create).2
        rw [Option.mem_def.1 htarget] at hlookup
        exact ⟨hzero, (extends_findClears _ create clears).targets _ _ hlookup⟩
      · exact ⟨List.mem_cons_of_mem _ (hfound entry hentry).1, (hfound entry hentry).2⟩

/-- **The ownership changes of a resolve clear, its copies and its clears keep what is drawn.**
By induction on the targets that were found. -/
theorem Kept.changeClears (hsdk : sdk.Documented) (htargets : sdk.Targets) (hdrawn : sdk.Drawn surface)
    (entries : List (Clear × Option RenderTarget)) (h : Kept sdk cache host edram)
    (hne : cache.ownershipRanges ≠ []) (hwords : clearRectangle.InWords)
    (hmade : ∀ entry ∈ entries, entry.1.Made sdk surface clearRectangle)
    (hclears : ∀ entry ∈ entries, entry.1.lengthTiles ≠ 0 →
      Clears sdk surface clearRectangle entry.1.key (paint entry.1.key))
    (hfound : ∀ entry ∈ entries, ∀ target ∈ entry.2, entry.1.lengthTiles ≠ 0 ∧
      cache.renderTargets.lookup entry.1.key = some (some target)) :
    let changed := Cache.changeClears sdk clearRectangle entries cache
    let contents := performClears paint changed.2 (host, edram)
    Kept sdk changed.1 contents.1 contents.2 := by
  induction entries generalizing cache host edram with
  | nil => exact h
  | cons entry entries ih =>
    obtain ⟨clear, found⟩ := entry
    have hmade' : ∀ entry ∈ entries, entry.1.Made sdk surface clearRectangle :=
      fun entry hentry => hmade entry (List.mem_cons_of_mem _ hentry)
    have hclears' : ∀ entry ∈ entries, entry.1.lengthTiles ≠ 0 →
        Clears sdk surface clearRectangle entry.1.key (paint entry.1.key) :=
      fun entry hentry => hclears entry (List.mem_cons_of_mem _ hentry)
    have hfound' : ∀ entry ∈ entries, ∀ target ∈ entry.2, entry.1.lengthTiles ≠ 0 ∧
        cache.renderTargets.lookup entry.1.key = some (some target) :=
      fun entry hentry => hfound entry (List.mem_cons_of_mem _ hentry)
    cases found with
    | none => exact ih h hne hmade' hclears' hfound'
    | some target =>
      have hclear : clear.Made sdk surface clearRectangle := hmade _ (List.mem_cons_self ..)
      obtain ⟨hlength, hlookup⟩ := hfound _ (List.mem_cons_self ..) target rfl
      have hpainted : Clears sdk surface clearRectangle clear.key (paint clear.key) :=
        hclears _ (List.mem_cons_self ..) hlength
      -- the rectangle meets no tile that is not taken over
      have hinside : ∀ t, ¬clear.Covers t → paint clear.key t = .blend id := fun t ht =>
        hpainted.outside t fun p hp hcontains => ht (hclear.meets hlength t p hp hcontains)
      have hkey : target.key = clear.key := h.keyed.lookup hlookup
      have htiles : Piece.Tiles 0 kEdramTileCount cache.ownershipRanges := h.tiles.resolve_left hne
      have hnonempty : sdk.isEmpty clear.key = false := htargets.pitched _ hclear.pitch
      let c := cache.claimant sdk clear.key (some clearRectangle)
      have hdest : ∃ target, c.renderTargets.lookup c.dest = some (some target) ∧ target.key = c.dest :=
        ⟨target, hlookup, hkey⟩
      have hbacked : ∀ p ∈ cache.ownershipRanges, Backed sdk c.renderTargets p.value := h.backed
      have hnil : Claimant.Proper [] := fun transfer htransfer => absurd htransfer List.not_mem_nil
      obtain ⟨out, heq, happends⟩ := Claimant.appends_changeOwnership hsdk hdrawn htargets.default
        (show c.dest.pitchTilesAt32bpp ≠ 0 from hclear.pitch) (fun cutout hcutout => by
          obtain rfl : clearRectangle = cutout := Option.some.inj hcutout
          exact hwords) hclear.length hdest hbacked htiles hnil
      obtain ⟨htiles', -⟩ := Claimant.at_changeOwnership c (some []) clear.startTilesBaseRelative
        clear.lengthTiles hsdk htiles
      have hagrees := agrees_clearTarget hsdk htargets htiles hnonempty happends (fun t ht hhidden => by
        obtain ⟨cutout, hcutout, hcontains⟩ := hhidden
        obtain rfl : clearRectangle = cutout := Option.some.inj hcutout
        exact hpainted.overwrites t (Clear.Covers.lt ht) hcontains) hinside h.agrees (some [])
      have hnext : Kept sdk { cache with ownershipRanges := (c.changeOwnership sdk
            clear.startTilesBaseRelative clear.lengthTiles cache.ownershipRanges (some [])).1 }
          (clearTarget clear.key out (paint clear.key) host)
          (learnTiles (fun _ => True) (paint clear.key) edram) :=
        { path := h.path
          tiles := .inr htiles'
          keyed := h.keyed
          backed := Claimant.backed_changeOwnership hsdk htiles hdest hbacked
          agrees := hagrees }
      have hrest := ih hnext (fun hnil => ?_) hmade' hclears' hfound'
      · simp only [Cache.changeClears, performClears, List.foldl_cons, hkey]
        rw [show (c.changeOwnership sdk clear.startTilesBaseRelative clear.lengthTiles
          cache.ownershipRanges (some [])).2 = some out from heq]
        exact hrest
      · have hempty : Piece.Tiles 0 kEdramTileCount ([] : List OwnershipRange) := hnil ▸ htiles'
        exact absurd (Piece.tiles_nil.1 hempty) (by decide)

/-- **A resolve's clears keep the contents right**: the tiles that are painted are those the clears
have claimed, and all other tiles hold what they held. -/
theorem Kept.resolveClear (hsdk : sdk.Documented) (htargets : sdk.Targets) (hdrawn : sdk.Drawn surface)
    (h : Kept sdk cache host edram) (hne : cache.ownershipRanges ≠ []) {info : ResolveInfo}
    (hclears : info.Clears sdk surface cache.config clearRectangle clears paint) :
    let cleared := cache.resolveClear sdk create clearRectangle clears
    let contents := performClears paint cleared.2 (host, edram)
    Kept sdk cleared.1 contents.1 contents.2 := by
  have hextends := extends_findClears cache create clears
  obtain ⟨hkeyed, hfound⟩ := findClears_found h.keyed
  obtain ⟨hwords, hmade⟩ :=
    made_of_prepare hdrawn htargets hclears.prepare hclears.apart hclears.formatted
  exact Kept.changeClears hsdk htargets hdrawn _ (h.extends hextends hkeyed) (hextends.ranges ▸ hne) hwords
    (fun entry hentry => hmade _ (hfound entry hentry).1)
    (fun entry hentry => hclears.clears _ (hfound entry hentry).1)
    fun entry hentry => (hfound entry hentry).2

end Clears

/-! ### The other events -/

section Events

variable {sdk : Sdk} {surface : Surface} {cache : Cache} {host : Host Content} {edram : ℕ → Option Content}

/-- An entry that a filter keeps is found after it. -/
theorem lookup_filter {targets : RenderTargets} {key : RenderTargetKey} {target : Option RenderTarget}
    {keep : RenderTargetKey × Option RenderTarget → Bool} (h : targets.lookup key = some target)
    (hkeep : keep (key, target) = true) : (targets.filter keep).lookup key = some target := by
  induction targets with
  | nil => exact absurd h.symm (Option.some_ne_none _)
  | cons entry targets ih =>
    rw [List.lookup_cons] at h
    split at h
    · rename_i heq
      obtain rfl : entry = (key, target) := Prod.ext (eq_of_beq heq).symm (Option.some.inj h)
      rw [List.filter_cons_of_pos hkeep, List.lookup_cons, heq]
    · rename_i hne
      rw [List.filter_cons]
      split
      · rw [List.lookup_cons, hne]
        exact ih h
      · exact ih h

/-- The targets that own tiles are kept when the cache is cleared; only the others are destroyed. -/
theorem Kept.clearCache (h : Kept sdk cache host edram) : Kept sdk (cache.clearCache sdk) host edram := by
  unfold Cache.clearCache
  dsimp only
  split
  · refine ⟨h.path, h.tiles, ?_, fun p hp key hkey hne => ?_, h.agrees⟩
    · intro entry hentry
      exact h.keyed entry (List.mem_filter.1 hentry).1
    · obtain ⟨target, hlookup, htarget⟩ := h.backed p hp key hkey hne
      refine ⟨target, lookup_filter hlookup ?_, htarget⟩
      rw [decide_eq_true_eq, List.mem_dedup, List.mem_filter, List.mem_flatMap, htarget]
      exact ⟨⟨p, hp, hkey⟩, by rw [hne]; rfl⟩
  · exact h

/-- No owner is a target, and nothing is known. -/
theorem kept_of_unowned (hdefault : sdk.isEmpty {} = true) (hpath : cache.config.path = .kHostRenderTargets)
    (hkeyed : cache.Keyed) (hranges : cache.ownershipRanges = [] ∨ cache.ownershipRanges = unowned) :
    Kept sdk cache host fun _ => none where
  path := hpath
  tiles := hranges.imp_right fun h => by
    rw [h]
    exact ⟨rfl, by decide, rfl⟩
  keyed := hkeyed
  backed p hp key hkey hne := by
    have hp' : p ∈ unowned := by
      rcases hranges with h | h
      · rw [h] at hp
        exact absurd hp List.not_mem_nil
      · rwa [h] at hp
    obtain rfl := List.mem_singleton.1 hp'
    have hkey' : key = {} := by simpa using hkey
    rw [hkey', hdefault] at hne
    cases hne
  agrees _ _ hcontent := absurd hcontent.symm (Option.some_ne_none _)

/-- Behind the barrier nothing is owned, whether the map was empty or covered the EDRAM. -/
theorem ranges_fullEdramBarrierPlaced (h : cache.ownershipRanges = [] ∨
      Piece.Tiles 0 kEdramTileCount cache.ownershipRanges) :
    cache.fullEdramBarrierPlaced.ownershipRanges = unowned := by
  rcases hranges : cache.ownershipRanges with _ | ⟨range, _ | ⟨next, ranges⟩⟩
  · simp only [Cache.fullEdramBarrierPlaced, hranges]
  · rw [hranges] at h
    have hfirst : range.first = 0 := (h.resolve_left (List.cons_ne_nil _ _)).1
    simp only [Cache.fullEdramBarrierPlaced, hranges, hfirst, unowned]
  · simp only [Cache.fullEdramBarrierPlaced, hranges]

/-- The cache an event is about. -/
def Event.this : Event Address → Address
  | .initializeCommon this _ _ => this
  | .update this _ => this
  | .resolveClear this _ _ _ => this
  | .clearCache this => this
  | .destroyAllRenderTargets this _ => this
  | .fullEdramBarrierPlaced this => this
  | .beginFrame this _ => this

variable [DecidableEq Address] {s : State Address} {e : Event Address} {a : Address}

/-- The other caches stay as they are: an event is one cache's. -/
theorem step_other (h : a ≠ e.this) : (step sdk s e).1.caches a = s.caches a := by
  cases e with
  | update this d =>
    simp only [step, State.update]
    split
    · rfl
    · exact Function.update_of_ne h ..
    · split
      · exact Function.update_of_ne h ..
      · unfold State.claimHost
        split
        · exact Function.update_of_ne h ..
        · split
          · exact Function.update_of_ne h ..
          · exact Function.update_of_ne h ..
  | initializeCommon => exact Function.update_of_ne h ..
  | resolveClear => exact Function.update_of_ne h ..
  | clearCache => exact Function.update_of_ne h ..
  | destroyAllRenderTargets => exact Function.update_of_ne h ..
  | fullEdramBarrierPlaced => exact Function.update_of_ne h ..
  | beginFrame => exact Function.update_of_ne h ..

end Events

/-! ### Runs -/

namespace World

variable [DecidableEq Address] {sdk : Sdk} {surface : Surface} {w : World Address Content}
  {turn : Turn Address Content} {turns : List (Turn Address Content)}

/-- The contents never decide what the caches do: the state of a world steps as it would alone. -/
theorem state_step : (w.step sdk turn).state = (Edram.step sdk w.state turn.event).1 := by
  unfold step
  dsimp only
  split <;> rename_i heq
  · rw [heq]
    rfl
  all_goals rfl

/-- A turn of one cache leaves the surfaces and the EDRAM of the others alone. -/
theorem contents_other {a : Address} (h : a ≠ turn.event.this) :
    (w.step sdk turn).host a = w.host a ∧ (w.step sdk turn).edram a = w.edram a := by
  unfold step
  dsimp only
  split <;> rename_i heq <;> rw [heq] at h
  all_goals exact ⟨Function.update_of_ne h .., Function.update_of_ne h ..⟩

/-- The invariant of a run. -/
structure Sound (sdk : Sdk) (w : World Address Content) : Prop where
  state : Edram.Inv sdk w.state
  kept : ∀ a, Kept sdk (w.state.caches a) (w.host a) (w.edram a)

/-- The cache of the event, after it, one case for each kind of event. -/
theorem kept_step (hsdk : sdk.Documented) (htargets : sdk.Targets) (hdrawn : sdk.Drawn surface)
    (h : w.Sound sdk) (hbound : w.state.generation < 2 ^ 64) (hallowed : turn.Allowed sdk surface w.state) :
    Kept sdk ((w.step sdk turn).state.caches turn.event.this) ((w.step sdk turn).host turn.event.this)
      ((w.step sdk turn).edram turn.event.this) := by
  rw [state_step]
  unfold step
  unfold Turn.Allowed at hallowed
  cases hevent : turn.event with
  | update this d =>
    rw [hevent] at hallowed
    exact kept_update hsdk htargets hdrawn h.state hbound (h.kept this) hallowed
  | resolveClear this create clearRectangle clears =>
    rw [hevent] at hallowed
    simp only [Edram.step, set, State.setCache, Event.this, Function.update_self]
    obtain ⟨hne, info, hclears⟩ := hallowed
    exact (h.kept this).created.resolveClear hsdk htargets hdrawn hne hclears
  | clearCache this =>
    simp only [Edram.step, set, State.setCache, Event.this, Function.update_self, contents]
    exact (h.kept this).clearCache
  | beginFrame this reset =>
    simp only [Edram.step, set, State.setCache, Event.this, Function.update_self, contents]
    exact (h.kept this).extends ⟨rfl, rfl, fun _ _ hlookup => hlookup⟩ (h.kept this).keyed
  | initializeCommon this config accumulated =>
    rw [hevent] at hallowed
    simp only [Edram.step, set, State.setCache, Event.this, Function.update_self]
    exact kept_of_unowned htargets.default hallowed (fun _ hentry => absurd hentry List.not_mem_nil)
      (.inr rfl)
  | destroyAllRenderTargets this shuttingDown =>
    simp only [Edram.step, set, State.setCache, Event.this, Function.update_self]
    refine kept_of_unowned htargets.default (h.kept this).path
      (fun _ hentry => absurd hentry List.not_mem_nil) ?_
    cases shuttingDown
    · exact .inr rfl
    · exact .inl rfl
  | fullEdramBarrierPlaced this =>
    simp only [Edram.step, set, State.setCache, Event.this, Function.update_self]
    exact kept_of_unowned htargets.default (h.kept this).path (h.kept this).keyed
      (.inr (ranges_fullEdramBarrierPlaced (h.kept this).tiles))

/-- One step of a run keeps the world sound, unless the generation has wrapped. -/
theorem Sound.step (hsdk : sdk.Documented) (htargets : sdk.Targets) (hdrawn : sdk.Drawn surface)
    (h : w.Sound sdk) (hbound : (w.step sdk turn).state.generation < 2 ^ 64)
    (hallowed : turn.Allowed sdk surface w.state) : (w.step sdk turn).Sound sdk := by
  have hstate : (w.step sdk turn).state = (Edram.step sdk w.state turn.event).1 := state_step
  constructor
  · rw [hstate] at hbound ⊢
    exact h.state.step hsdk hbound
  · intro a
    by_cases ha : a = turn.event.this
    · subst ha
      refine kept_step hsdk htargets hdrawn h (Nat.lt_of_le_of_lt ?_ hbound) hallowed
      rw [hstate]
      exact step_generation_le
    · rw [(contents_other ha).1, (contents_other ha).2, hstate, step_other ha]
      exact h.kept a

/-- No run lowers the generation. -/
theorem generation_run_le : w.state.generation ≤ (w.run sdk turns).state.generation := by
  induction turns generalizing w with
  | nil => exact Nat.le_refl _
  | cons turn turns ih =>
    refine Nat.le_trans ?_ ih
    rw [state_step]
    exact step_generation_le

/-- **A run of allowed turns keeps the world sound**, by induction on the turns, as long as the
generation has not wrapped. -/
theorem Sound.run (hsdk : sdk.Documented) (htargets : sdk.Targets) (hdrawn : sdk.Drawn surface)
    (h : w.Sound sdk) (hbound : (w.run sdk turns).state.generation < 2 ^ 64)
    (hallowed : w.Allowed sdk surface turns) : (w.run sdk turns).Sound sdk := by
  induction turns generalizing w with
  | nil => exact h
  | cons turn turns ih =>
    have hstep : (w.step sdk turn).state.generation < 2 ^ 64 :=
      Nat.lt_of_le_of_lt generation_run_le hbound
    exact ih (h.step hsdk htargets hdrawn hstep hallowed.1) hbound hallowed.2

omit [DecidableEq Address] in
/-- The world at the start is sound, whatever the surfaces hold. -/
theorem sound_start (hdefault : sdk.isEmpty {} = true) (host : Address → Host Content) :
    Sound sdk { host } where
  state := inv_start
  kept _ := kept_of_unowned hdefault rfl (fun _ hentry => absurd hentry List.not_mem_nil) (.inl rfl)

end World

/-- **What is drawn into the EDRAM stays there.**  Take any run of updates, resolve clears,
cache clears, destructions and barriers with host render targets, whatever the draws paint
and the clears clear to, with the ownership memo or without, in which the ownership changes
fewer than 2^64 times, and a resolve that clears a depth and a color target clears no tile in
both.  Every tile of which the EDRAM would hold known contents is owned by a target,
and the texture of that target holds the same contents. -/
theorem contentsKept [DecidableEq Address] {sdk : Sdk} {surface : Surface} (hsdk : sdk.Documented)
    (htargets : sdk.Targets) (hdrawn : sdk.Drawn surface) (host : Address → Host Content)
    (turns : List (Turn Address Content)) (hallowed : World.Allowed sdk surface { host } turns)
    (hbound : (World.run sdk { host } turns).state.generation < 2 ^ 64) (a : Address) (t : ℕ)
    (content : Content) (hcontent : (World.run sdk { host } turns).edram a t = some content) :
    ∃ v, Piece.At ((World.run sdk { host } turns).state.caches a).ownershipRanges t v ∧
      sdk.isEmpty v.renderTarget = false ∧
      (World.run sdk { host } turns).host a t v.renderTarget = content :=
  (((World.sound_start htargets.default host).run hsdk htargets hdrawn hbound hallowed).kept a).agrees t
    content hcontent

/-- The keys' methods as the SDK has them. -/
def hostSurface : Surface where
  is64bpp key := !key.isDepth && hostSdk.isColorRenderTargetFormat64bpp key.resourceFormat
  pitchTiles key := key.pitchTilesAt32bpp.toNat <<<
    (!key.isDepth && hostSdk.isColorRenderTargetFormat64bpp key.resourceFormat).toNat

/-- The SDK's predicates with the rectangles of `GetRangeRectangles`. -/
def drawnSdk : Sdk :=
  { hostSdk with
    getRangeRectangles := fun startTiles endTiles key cutout =>
      (hostSurface.rectangles hostSdk startTiles endTiles key (some cutout)).length }

/-- The SDK of the witness behaves as the caches rely on. -/
theorem drawnSdk_documented : drawnSdk.Documented :=
  ⟨hostSdk_documented.owned_claim, hostSdk_documented.same_eq⟩

/-- Its surfaces are as large as its render targets say. -/
theorem drawnSdk_drawn : drawnSdk.Drawn hostSurface where
  count _ _ _ _ := rfl
  pitch _ := rfl
  depth key hdepth := by simp only [hostSurface, hdepth, Bool.not_true, Bool.false_and]
  width := rfl
  height := rfl

/-- Its ownership test recognises the owner of a tile. -/
theorem drawnSdk_targets : drawnSdk.Targets where
  owned o dest hostDepth h := of_decide_eq_true (Bool.and_eq_true_iff.1 h).1
  default := rfl
  pitched key hpitch := by
    have hpos : key.pitchTilesAt32bpp.toNat ≠ 0 := fun hzero => hpitch (BitVec.eq_of_toNat_eq hzero)
    refine decide_eq_false fun hzero => ?_
    rw [RenderTargetKey.key] at hzero
    omega
  width := rfl
  size := rfl

/-- A resolve that clears a depth target of one tile at tile 0 and a color target of one tile at
tile 2040, in another format than `oneColor`. -/
def oneTileEach : ResolveInfo where
  isClearingDepth := true
  isClearingColor := true
  depthEdramInfo := { pitchTiles := 1, baseTiles := 0 }
  colorEdramInfo := { pitchTiles := 1, baseTiles := 2040, resourceFormat := 2 }
  depthOriginalBase := 0
  colorOriginalBase := 2040
  widthDiv8 := 10
  heightDiv8 := 2

/-- A draw, the resolve, and a draw to the first target again. -/
def drawClearDraw : List (Turn Unit ℕ) :=
  [{ event := .initializeCommon () { maxRenderTargetWidth := 8192, maxRenderTargetHeight := 8192 } {}
     created := fun _ _ => 0 },
   { event := .update () oneColor, created := fun _ _ => 0, paint := fun _ _ => .overwrite 7 },
   { event := .resolveClear () (fun _ => some 2) ⟨0, 0, 80, 16⟩
       [⟨oneTileEach.depthKey 1 0, 0, 1⟩, ⟨oneTileEach.colorKey 1 0, 0, 1⟩]
     created := fun _ _ => 0
     clear := fun key t => if t = key.baseTiles.toNat then .overwrite 3 else .blend id },
   { event := .update () oneColor, created := fun _ _ => 0, paint := fun _ _ => .blend (· + 1) }]

/-- The rectangle of a tile is the target's tile at its base. -/
theorem clears_oneTile {key : RenderTargetKey} (hpitch : hostSurface.pitchTiles key = 1)
    (hbits : hostSurface.is64bpp key = false) (hsamples : key.msaaSamples = 0) :
    Clears drawnSdk hostSurface ⟨0, 0, 80, 16⟩ key fun t =>
      if t = key.baseTiles.toNat then .overwrite 3 else .blend (id : ℕ → ℕ) := by
  have hbase : key.baseTiles.toNat < 2048 := key.baseTiles.isLt
  have htile : ∀ t p, hostSurface.InTile drawnSdk key t p ↔ p.1 / 80 = 0 ∧ p.2 / 16 < 2048 ∧
      t = (key.baseTiles.toNat + p.2 / 16) % 2048 := by
    intro t p
    have hwidth : drawnSdk.tileWidth 0 false = 80 := rfl
    have hheight : drawnSdk.tileHeight 0 = 16 := rfl
    rw [Surface.InTile, hpitch, hbits, hsamples, hwidth, hheight, InRange, edramTile, kEdramTileCount]
    omega
  have hrectangle : ∀ p, (⟨0, 0, 80, 16⟩ : Rectangle).Contains p ↔ p.1 / 80 = 0 ∧ p.2 / 16 = 0 := by
    intro p
    simp only [Rectangle.Contains, Rectangle.right, Rectangle.bottom]
    omega
  constructor
  · intro t hnone
    refine if_neg fun hbaseTile => hnone (0, 0) ((htile t (0, 0)).2 ?_) ((hrectangle (0, 0)).2 ⟨rfl, rfl⟩)
    exact ⟨rfl, by decide, by omega⟩
  · intro t ht hall
    rw [kEdramTileCount] at ht
    obtain ⟨row, hrow, hlt⟩ : ∃ row, t = (key.baseTiles.toNat + row) % 2048 ∧ row < 2048 :=
      ⟨(t + 2048 - key.baseTiles.toNat) % 2048, by omega, Nat.mod_lt _ (by decide)⟩
    -- the first pixel of the tile
    have hfirst : row * 16 / 16 = row := Nat.mul_div_cancel _ (by decide)
    have hpixel : hostSurface.InTile drawnSdk key t (0, row * 16) := by
      rw [htile]
      dsimp only
      rw [hfirst]
      exact ⟨Nat.zero_div 80, hlt, hrow⟩
    have hcontains := hall _ hpixel
    rw [hrectangle] at hcontains
    dsimp only at hcontains
    exact ⟨3, if_pos (by omega)⟩

/-- A draw, a clear of its tiles and a second draw are turns the property is about. -/
theorem drawClearDraw_allowed :
    World.Allowed drawnSdk hostSurface { host := fun _ _ _ => 0 } drawClearDraw := by
  have hranges : ∀ n ∈ [1, 2, 3], ((World.run drawnSdk { host := fun _ _ _ => 0 }
      (drawClearDraw.take n)).state.caches ()).ownershipRanges ≠ [] := by decide +kernel
  have hdepth : ∀ t, Clear.Covers ⟨oneTileEach.depthKey 1 0, 0, 1⟩ t → t = 0 := by
    intro t ht
    have ht : Claimant.Covers 0 1 t := ht
    unfold Claimant.Covers kEdramTileCount at ht
    omega
  have hcolor : ∀ t, Clear.Covers ⟨oneTileEach.colorKey 1 0, 0, 1⟩ t → t = 2040 := by
    intro t ht
    have ht : Claimant.Covers 2040 1 t := ht
    unfold Claimant.Covers kEdramTileCount at ht
    omega
  refine ⟨rfl, hranges 1 (by decide), ⟨hranges 2 (by decide), oneTileEach, ?_⟩, hranges 3 (by decide),
    trivial⟩
  constructor
  case prepare => rfl
  case apart =>
    rintro rectangle depth color ⟨⟩ t ht ht'
    exact absurd ((hdepth t ht).symm.trans (hcolor t ht')) (by decide)
  case formatted => exact fun _ _ => rfl
  case clears =>
    intro clear hclear _
    rcases List.mem_pair.1 hclear with rfl | rfl
    · exact clears_oneTile rfl rfl rfl
    · exact clears_oneTile rfl rfl rfl

/-- The hypotheses are satisfiable: the tile drawn to is cleared in another target, of the same
resolve as a depth target elsewhere, and copied back when it is drawn to again. -/
theorem contentsKept_drawClearDraw :
    ∃ v, Piece.At ((World.run drawnSdk { host := fun _ _ _ => 0 } drawClearDraw).state.caches
        ()).ownershipRanges 2040 v ∧ drawnSdk.isEmpty v.renderTarget = false ∧
      (World.run drawnSdk { host := fun _ _ _ => 0 } drawClearDraw).host () 2040 v.renderTarget = 4 :=
  contentsKept drawnSdk_documented drawnSdk_targets drawnSdk_drawn _ drawClearDraw drawClearDraw_allowed
    (by decide +kernel) () 2040 4 (by decide +kernel)

end Edram
end BoltsRebuilt
