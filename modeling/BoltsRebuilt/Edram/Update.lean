/-
# `RenderTargetCache::Update` and its memo

What one draw claims (`vendored/.../render_target/cache.cpp`, lines 434-838):
from the render target registers follow the used slots, their EDRAM bases and
keys, and for each slot, in the order of the bases, how many tiles it claims
(`prepare`).  Then the targets are found or created, `ChangeOwnership` is
called for each, and the used and accumulated targets are updated.

`NativeRtOwnershipMemo` (`native_rt_ownership_memo.h`, lines 20-96) remembers
the last successful claim.  If the ownership generation has not moved and the
same keys claim ranges no longer than before, `Update` skips the targets and
the claims (lines 690-753).

The memo is a static variable and the generation a global one, so all caches
of the process share them: a state has the caches by address.  The generation
counts here without bound; what the code holds of it is its `uint64_t`
(`generationWord`).
-/

import BoltsRebuilt.Edram.Ownership
import Mathlib.Data.List.Sort
import Mathlib.Data.Fintype.Pi

namespace BoltsRebuilt
namespace Edram

/-- A slot of the bound render targets: 0 is depth and stencil, 1 to 4 color. -/
abbrev Slot := Fin 5

/-- `RenderTargetCache::Path`. -/
inductive Path
  | kHostRenderTargets
  | kPixelShaderInterlock
deriving DecidableEq

/-- What a cache is initialized with and never changes. -/
structure Config where
  path : Path := .kHostRenderTargets
  depthFloat24ConvertInPixelShader : Bool := false
  drawResolutionScaleX : ℕ := 1
  drawResolutionScaleY : ℕ := 1
  maxRenderTargetWidth : ℕ := 0
  maxRenderTargetHeight : ℕ := 0

/-- The accumulated render targets: `last_update_accumulated_render_targets_`
and `are_accumulated_render_targets_valid_`. -/
structure Accumulated where
  targets : Slot → Option RenderTarget := fun _ => none
  valid : Bool := false

/-- The members of a `RenderTargetCache` the claims go through. -/
structure Cache where
  config : Config := {}
  ownershipRanges : List OwnershipRange := []
  renderTargets : RenderTargets := []
  lastUpdateTransfers : Slot → List Transfer := fun _ => []
  lastUpdateUsedRenderTargets : Slot → Option RenderTarget := fun _ => none
  accumulated : Accumulated := {}

/-- The whole EDRAM, owned by nobody. -/
def unowned : List OwnershipRange := [⟨0, kEdramTileCount, {}⟩]

namespace Cache

variable (sdk : Sdk) (cache : Cache)

/-- `D3D12RenderTargetCache::IsHostDepthEncodingDifferent`
(`d3d12/render_target_cache.cpp`, lines 1933-1939). -/
def isHostDepthEncodingDifferent (format : DepthRenderTargetFormat) : Bool :=
  format = .kD24FS8 && !cache.config.depthFloat24ConvertInPixelShader

/-- `host_depth_encoding_different` of a claim. -/
def hostDepth (dest : RenderTargetKey) : Bool :=
  dest.isDepth && cache.config.path = .kHostRenderTargets &&
    cache.isHostDepthEncodingDifferent (sdk.getDepthFormat dest)

def claimant (dest : RenderTargetKey) (cutout : Option Rectangle) : Claimant :=
  ⟨cache.renderTargets, dest, cache.hostDepth sdk dest, cutout⟩

/-- `WouldOwnershipChangeRequireTransfers` (lines 1237-1299). -/
def wouldOwnershipChangeRequireTransfers (dest : RenderTargetKey) (lengthTiles : ℕ) : Bool :=
  let claimant := cache.claimant sdk dest none
  let inExtent (extentStart extentEnd : ℕ) : Bool :=
    let after := cache.ownershipRanges.dropWhile fun it => it.first < extentStart
    let previous := (cache.ownershipRanges.takeWhile fun it => it.first < extentStart).getLast?
    ((previous.filter fun it => extentStart < it.stop).toList ++ after).takeWhile
      (fun it => it.first < extentEnd) |>.any fun it =>
        !claimant.owns sdk it.value && !sdk.isEmpty it.value.renderTarget &&
          it.value.renderTarget != dest
  if lengthTiles = 0 then false
  else
    let startTiles := claimant.startTiles 0
    let endTiles := startTiles + lengthTiles
    inExtent startTiles (min endTiles kEdramTileCount) ||
      (decide (kEdramTileCount < endTiles) &&
        inExtent 0 (min (endTiles % kEdramTileCount) startTiles))

/-- `GetOrCreateRenderTarget` (lines 1206-1235); `create` is what the device
answers when a target of a key is created now. -/
def getOrCreateRenderTarget (create : RenderTargetKey → Option ℕ) (key : RenderTargetKey) :
    Cache × Option RenderTarget :=
  match cache.renderTargets.lookup key with
  | some target => (cache, target)
  | none =>
    let target := (create key).map fun pointer => ⟨key, pointer⟩
    ({ cache with renderTargets := cache.renderTargets ++ [(key, target)] }, target)

/-- One call of `ChangeOwnership` from `Update`: the transfers go to the slot's
list, or nowhere with pixel shader interlock. -/
def claimSlot (key : RenderTargetKey) (slot : Slot) (lengthTiles : ℕ) : Cache :=
  let out := if cache.config.path = .kPixelShaderInterlock then none
    else some (cache.lastUpdateTransfers slot)
  let changed := (cache.claimant sdk key none).changeOwnership sdk 0 lengthTiles
    cache.ownershipRanges out
  { cache with
    ownershipRanges := changed.1
    lastUpdateTransfers := match changed.2 with
      | none => cache.lastUpdateTransfers
      | some transfers => Function.update cache.lastUpdateTransfers slot transfers }

/-- `ClearCache` (lines 397-429): keep the targets that own tiles. -/
def clearCache : Cache :=
  let owners := cache.ownershipRanges.flatMap fun it =>
    [it.value.renderTarget, it.value.hostDepthRenderTargetUnorm24,
      it.value.hostDepthRenderTargetFloat24]
  let used := (owners.filter fun key => !sdk.isEmpty key).dedup
  if cache.renderTargets.length ≠ used.length then
    { cache with renderTargets := cache.renderTargets.filter fun entry =>
        match entry.2 with
        | none => false
        | some target => decide (target.key ∈ used) }
  else cache

/-- `DestroyAllRenderTargets` (lines 376-391). -/
def destroyAllRenderTargets (shuttingDown : Bool) : Cache :=
  { cache with ownershipRanges := if shuttingDown then [] else unowned, renderTargets := [] }

/-- `PixelShaderInterlockFullEdramBarrierPlaced` (lines 1184-1204). -/
def fullEdramBarrierPlaced : Cache :=
  { cache with ownershipRanges := match cache.ownershipRanges with
      | [allEdramRange] => [{ allEdramRange with stop := kEdramTileCount, value := {} }]
      | _ => unowned }

end Cache

/-! ### What a draw claims -/

/-- What `Update` reads of the guest's registers, of the host and of its
arguments for one draw: the register fields with their widths, the extent
estimate, the two switches, what creating a target gives, and whether the
EDRAM buffer has writes an interlock barrier has to wait for. -/
structure Draw where
  isRasterizationDone : Bool := true
  zEnable : Bool := false
  stencilEnable : Bool := false
  normalizedColorMask : ℕ := 0
  msaaSamples : BitVec 2 := 0
  surfacePitch : BitVec 14 := 0
  depthBase : BitVec 11 := 0
  depthFormat : BitVec 1 := 0
  colorBase : Fin 4 → BitVec 11 := fun _ => 0
  colorFormat : Fin 4 → BitVec 4 := fun _ => 0
  estimateMaxY : ℕ := 0
  mrtEdramUsedRangeClampToMin : Bool := true
  nbRtOwnershipFastpath : Bool := true
  create : RenderTargetKey → Option ℕ := fun _ => none
  edramBufferModified : Bool := false

/-- What a draw that binds render targets claims: the used slots, their keys,
the bases with their slots in order, and the lengths in the same order. -/
structure Plan where
  used : Slot → Bool
  keys : Slot → RenderTargetKey
  sorted : List (ℕ × Slot)
  lengths : List ℕ

/-- The targets a claim binds: those of the used slots. -/
def Plan.bound (plan : Plan) (rts : Slot → Option RenderTarget) (slot : Slot) :
    Option RenderTarget :=
  if plan.used slot then rts slot else none

/-- How `Update` goes on after it has read the registers. -/
inductive Prepared
  | refused
  | nothingUsed (pitchTilesAt32bpp : ℕ)
  | claims (pitchTilesAt32bpp : ℕ) (plan : Plan)

namespace Draw

variable (sdk : Sdk) (config : Config) (d : Draw)

/-- The used slots before any is eliminated (lines 492-531). -/
def usedBits (isRasterizationDone : Bool) (slot : Slot) : Bool :=
  isRasterizationDone &&
    Fin.cases (d.zEnable || d.stencilEnable)
      (fun i => decide (d.normalizedColorMask / 16 ^ i.val % 16 ≠ 0)) slot

/-- `edram_bases`. -/
def edramBases (slot : Slot) : BitVec 11 := Fin.cases d.depthBase d.colorBase slot

/-- `rts_are_64bpp`. -/
def is64bpp (slot : Slot) : Bool :=
  Fin.cases false (fun i => sdk.isColorRenderTargetFormat64bpp (d.colorFormat i)) slot

/-- `resource_formats`. -/
def resourceFormats (slot : Slot) : BitVec 4 :=
  Fin.cases
    (if config.path = .kPixelShaderInterlock then 0 else d.depthFormat.setWidth 4)
    (fun i =>
      if config.path = .kPixelShaderInterlock then
        if sdk.isColorRenderTargetFormat64bpp (d.colorFormat i) then sdk.k16161616
        else sdk.k8888
      else sdk.colorResourceFormat (d.colorFormat i)) slot

/-- Of several slots with one base keep the color slot of the least index
(lines 556-570). -/
def eliminateConflicts (bases : Slot → BitVec 11) (used : Slot → Bool) : Slot → Bool :=
  (([1, 2, 3, 4] : List Slot).filter used).foldl
    (fun used i other => used other && !((i < other || other = 0) && bases other = bases i)) used

/-- The order of `std::pair`. -/
def PairLe (a b : ℕ × Slot) : Prop := a.1 < b.1 ∨ a.1 = b.1 ∧ a.2 ≤ b.2

instance : DecidableRel PairLe := fun _ _ => inferInstanceAs (Decidable (_ ∨ _))

/-- `edram_bases_sorted`: the bases of the used slots, in order (lines
619-626). -/
def edramBasesSorted (bases : Slot → BitVec 11) (used : Slot → Bool) : List (ℕ × Slot) :=
  (((List.finRange 5).filter used).map fun slot => ((bases slot).toNat, slot)).insertionSort PairLe

/-- `GetRenderTargetHeight` (lines 848-871). -/
def getRenderTargetHeight (pitchTilesAt32bpp : ℕ) : ℕ :=
  if pitchTilesAt32bpp = 0 then 0
  else
    let tileRows := (kEdramTileCount + (pitchTilesAt32bpp - 1)) / pitchTilesAt32bpp
    let maxHeightScaled := min (sdk.kTexture2DCubeMaxWidthHeight * config.drawResolutionScaleY)
      config.maxRenderTargetHeight
    let msaaSamplesYLog2 := if d.msaaSamples ≥ 1 then 1 else 0
    let tileHeightSamplesScaled := sdk.kEdramTileHeightSamples * config.drawResolutionScaleY
    min tileRows ((maxHeightScaled <<< msaaSamplesYLog2) / tileHeightSamplesScaled) *
      (sdk.kEdramTileHeightSamples >>> msaaSamplesYLog2)

/-- `rt_max_distance_tiles_at_64bpp` (lines 640-658). -/
def maxDistanceTilesAt64bpp (sorted : List (ℕ × Slot)) : ℕ :=
  let at64bpp (slot : Slot) (tiles : ℕ) : ℕ := if d.is64bpp sdk slot then tiles else tiles <<< 1
  match sorted.head?, sorted.getLast? with
  | some first, some last =>
    if d.mrtEdramUsedRangeClampToMin ∧ 2 ≤ sorted.length then
      let adjacent := (sorted.zip sorted.tail).foldl
        (fun distance pair => min distance (at64bpp pair.1.2 (pair.2.1 - pair.1.1)))
        (kEdramTileCount * 2)
      min adjacent (at64bpp last.2 (kEdramTileCount + first.1 - last.1))
    else kEdramTileCount * 2
  | _, _ => kEdramTileCount * 2

/-- Where the range of each slot has to end: at the base of the next one, and
for the last one at the base of the first, past the end of the EDRAM. -/
def ends (sorted : List (ℕ × Slot)) : List ℕ :=
  sorted.tail.map Prod.fst ++ (sorted.head?.map fun first => kEdramTileCount + first.1).toList

/-- `rt_lengths_tiles` (lines 662-689). -/
def lengthsTiles (pitchTilesAt32bpp : ℕ) (sorted : List (ℕ × Slot)) : List ℕ :=
  let heightUsed := min (d.getRenderTargetHeight sdk config pitchTilesAt32bpp) d.estimateMaxY
  let lengthUsedTilesAt32bpp :=
    ((heightUsed <<< (if d.msaaSamples ≥ 1 then 1 else 0)) + (sdk.kEdramTileHeightSamples - 1)) /
      sdk.kEdramTileHeightSamples * pitchTilesAt32bpp
  let maxDistance := d.maxDistanceTilesAt64bpp sdk sorted
  (sorted.zip (ends sorted)).map fun entry =>
    let is64bpp := d.is64bpp sdk entry.1.2
    min (min (if is64bpp then lengthUsedTilesAt32bpp <<< 1 else lengthUsedTilesAt32bpp)
        (if is64bpp then maxDistance else maxDistance >>> 1))
      (entry.2 - entry.1.1)

/-- `pitch_tiles_at_32bpp`. -/
def pitchTilesAt32bpp : ℕ :=
  ((d.surfacePitch.toNat <<< (if d.msaaSamples ≥ 2 then 1 else 0)) +
    (sdk.kEdramTileWidthSamples - 1)) / sdk.kEdramTileWidthSamples

/-- `depth_and_color_rts_used_bits` after the elimination; a surface pitch of 0
means no rasterization. -/
def used : Slot → Bool :=
  eliminateConflicts d.edramBases
    (d.usedBits (d.isRasterizationDone && decide (d.surfacePitch.toNat ≠ 0)))

/-- The keys and the lengths (lines 615-689). -/
def plan : Plan where
  used := d.used
  keys slot :=
    { baseTiles := d.edramBases slot
      pitchTilesAt32bpp := BitVec.ofNat 8 (d.pitchTilesAt32bpp sdk)
      msaaSamples := d.msaaSamples
      isDepth := slot = 0
      resourceFormat := d.resourceFormats sdk config slot }
  sorted := edramBasesSorted d.edramBases d.used
  lengths := d.lengthsTiles sdk config (d.pitchTilesAt32bpp sdk)
    (edramBasesSorted d.edramBases d.used)

/-- What a draw claims, from the registers (lines 434-689). -/
def prepare : Prepared :=
  if d.msaaSamples > 2 then .refused
  else if sdk.kTexture2DCubeMaxWidthHeight < d.surfacePitch.toNat then .refused
  else if config.path ≠ .kPixelShaderInterlock ∧ config.maxRenderTargetWidth <
      d.pitchTilesAt32bpp sdk *
        (sdk.kEdramTileWidthSamples >>> (if d.msaaSamples ≥ 2 then 1 else 0)) *
        config.drawResolutionScaleX then .refused
  else if ∀ slot, d.used slot = false then .nothingUsed (d.pitchTilesAt32bpp sdk)
  else .claims (d.pitchTilesAt32bpp sdk) (d.plan sdk config)

end Draw

/-! ### The memo -/

/-- `NativeRtOwnershipMemo`. -/
structure Memo (Address : Type) where
  owner : Option Address := none
  generation : ℕ := 0
  used : Slot → Bool := fun _ => false
  count : ℕ := 0
  keys : Slot → ℕ := fun _ => 0
  lengthsTiles : List ℕ := []
  targets : Slot → Option RenderTarget := fun _ => none

namespace Memo

variable {Address : Type} [DecidableEq Address] (m : Memo Address)

/-- `Matches` (lines 35-52). -/
def matchesPlan (owner : Address) (generation : ℕ) (plan : Plan) : Bool :=
  decide (m.owner = some owner ∧ generation = m.generation ∧ plan.used = m.used ∧
    plan.sorted.length = m.count ∧
    (∀ slot, plan.used slot = true → (plan.keys slot).key = m.keys slot) ∧
    ∀ i < plan.sorted.length, plan.lengths.getD i 0 ≤ m.lengthsTiles.getD i 0)

/-- `Publish` (lines 63-77). -/
def publish (owner : Address) (generation : ℕ) (plan : Plan)
    (targets : Slot → Option RenderTarget) : Memo Address where
  owner := some owner
  generation := generation
  used := plan.used
  count := plan.sorted.length
  keys := fun slot => if plan.used slot then (plan.keys slot).key else 0
  lengthsTiles := plan.lengths
  targets := plan.bound targets

end Memo

/-! ### `Update` -/

/-- The used and accumulated targets after a successful claim (lines 756-835). -/
def Cache.bind (cache : Cache) (plan : Plan) (rts : Slot → Option RenderTarget)
    (pitchTilesAt32bpp : ℕ) (msaaSamples : BitVec 2) : Cache :=
  let current := plan.bound rts
  let targets := cache.accumulated.targets
  let compatible := cache.accumulated.valid &&
    ((List.finRange 5).all fun slot =>
      match targets slot, current slot with
      | none, none => true
      | none, some _ => false
      | some accumulated, some rt => decide (accumulated.pointer = rt.pointer)
      | some accumulated, none =>
        decide (accumulated.key.pitchTilesAt32bpp.toNat = pitchTilesAt32bpp ∧
          accumulated.key.msaaSamples = msaaSamples)) &&
    decide (∀ i j, j < i → (targets i).isSome →
      (targets i).map RenderTarget.pointer ≠ (targets j).map RenderTarget.pointer)
  { cache with
    lastUpdateUsedRenderTargets := current
    accumulated := ⟨if compatible then targets else current, true⟩ }

/-- Nothing is bound: the accumulated targets stay if they fit the surface
(lines 580-602). -/
def Cache.unbind (cache : Cache) (pitchTilesAt32bpp : ℕ) (msaaSamples : BitVec 2) : Cache :=
  let targets := cache.accumulated.targets
  let compatible := cache.accumulated.valid &&
    decide (∀ slot, ∀ rt ∈ targets slot,
      rt.key.pitchTilesAt32bpp.toNat = pitchTilesAt32bpp ∧ rt.key.msaaSamples = msaaSamples)
  { cache with
    lastUpdateUsedRenderTargets := fun _ => none
    accumulated := ⟨if compatible then targets else fun _ => none, compatible⟩ }

/-- Clear the transfers before adding any (lines 573-577). -/
def Cache.clearTransfers (cache : Cache) : Cache :=
  if cache.config.path = .kPixelShaderInterlock then cache
  else { cache with lastUpdateTransfers := fun _ => [] }

/-- Find or create the target of each claim, in order, until one fails
(lines 703-711). -/
def Cache.findTargets (create : RenderTargetKey → Option ℕ) (keys : Slot → RenderTargetKey) :
    List (ℕ × Slot) → Cache → (Slot → Option RenderTarget) →
      Cache × Option (Slot → Option RenderTarget)
  | [], cache, rts => (cache, some rts)
  | (_, slot) :: rest, cache, rts =>
    match cache.getOrCreateRenderTarget create (keys slot) with
    | (cache, none) => (cache, none)
    | (cache, some target) =>
      findTargets create keys rest cache (Function.update rts slot (some target))

/-- Claim the range of each slot, in order (lines 738-743). -/
def Cache.claimSlots (sdk : Sdk) (cache : Cache) (plan : Plan) : Cache :=
  (plan.sorted.zip plan.lengths).foldl
    (fun cache claim => cache.claimSlot sdk (plan.keys claim.1.2) claim.1.2 claim.2) cache

/-- The process: the ownership generation, the memo, and the caches by
address. -/
structure State (Address : Type) where
  generation : ℕ := 0
  memo : Memo Address := {}
  caches : Address → Cache := fun _ => {}

/-- `g_nb_rt_ownership_generation`: the `uint64_t` the code holds of the
number of times it was bumped. -/
def State.generationWord {Address : Type} (s : State Address) : ℕ := s.generation % 2 ^ 64

section Update

variable {Address : Type} [DecidableEq Address] (sdk : Sdk) (s : State Address) (this : Address)

def State.setCache (cache : Cache) : State Address :=
  { s with caches := Function.update s.caches this cache }

/-- `Update` with pixel shader interlock: a barrier if a claim overlaps, then
the claims (lines 714-748). -/
def State.claimInterlock (d : Draw) (plan : Plan) (cache : Cache) : State Address :=
  let needed := (plan.sorted.zip plan.lengths).any fun claim =>
    cache.wouldOwnershipChangeRequireTransfers sdk (plan.keys claim.1.2) claim.2
  let placed := needed && d.edramBufferModified
  let cache := if placed then cache.fullEdramBarrierPlaced else cache
  { s.setCache this (cache.claimSlots sdk plan) with
    generation := s.generation + (if placed then 1 else 0) + plan.sorted.length }

/-- `Update` with host render targets: take the targets from the memo, or find
them, claim the ranges and publish the claim (lines 690-753). -/
def State.claimHost (d : Draw) (plan : Plan) (cache : Cache) (pitchTilesAt32bpp : ℕ) :
    State Address × Bool :=
  if d.nbRtOwnershipFastpath && s.memo.matchesPlan this s.generationWord plan then
    (s.setCache this (cache.bind plan s.memo.targets pitchTilesAt32bpp d.msaaSamples), true)
  else
    match cache.findTargets d.create plan.keys plan.sorted fun _ => none with
    | (cache, none) => (s.setCache this cache, false)
    | (cache, some rts) =>
      let claimed := { s.setCache this
          ((cache.claimSlots sdk plan).bind plan rts pitchTilesAt32bpp d.msaaSamples) with
        generation := s.generation + plan.sorted.length }
      ({ claimed with memo := if d.nbRtOwnershipFastpath then
          Memo.publish this claimed.generationWord plan rts else s.memo }, true)

/-- `RenderTargetCache::Update` (lines 434-838). -/
def State.update (d : Draw) : State Address × Bool :=
  match d.prepare sdk (s.caches this).config with
  | .refused => (s, false)
  | .nothingUsed pitchTilesAt32bpp =>
    (s.setCache this ((s.caches this).clearTransfers.unbind pitchTilesAt32bpp d.msaaSamples), true)
  | .claims pitchTilesAt32bpp plan =>
    if (s.caches this).config.path = .kPixelShaderInterlock then
      (s.claimInterlock sdk this d plan (s.caches this).clearTransfers, true)
    else s.claimHost sdk this d plan (s.caches this).clearTransfers pitchTilesAt32bpp

end Update

/-! ### Runs -/

/-- One ownership change of a resolve clear: the key and the tiles cleared. -/
structure Clear where
  key : RenderTargetKey
  startTilesBaseRelative : ℕ
  lengthTiles : ℕ

/-- Find or create the targets to clear (lines 1131-1163), those of an empty
range excepted. -/
def Cache.findClears (create : RenderTargetKey → Option ℕ) :
    List Clear → Cache → Cache × List (Clear × Option RenderTarget)
  | [], cache => (cache, [])
  | clear :: clears, cache =>
    let got := if clear.lengthTiles = 0 then (cache, none)
      else cache.getOrCreateRenderTarget create clear.key
    let rest := findClears create clears got.1
    (rest.1, (clear, got.2) :: rest.2)

/-- Change the ownership of the targets found (lines 1170-1180). -/
def Cache.changeClears (sdk : Sdk) (clearRectangle : Rectangle) :
    List (Clear × Option RenderTarget) → Cache → Cache × List (Option RenderTarget × List Transfer)
  | [], cache => (cache, [])
  | (_, none) :: entries, cache =>
    let rest := changeClears sdk clearRectangle entries cache
    (rest.1, (none, []) :: rest.2)
  | (clear, some target) :: entries, cache =>
    let changed := (cache.claimant sdk clear.key (some clearRectangle)).changeOwnership sdk
      clear.startTilesBaseRelative clear.lengthTiles cache.ownershipRanges (some [])
    let rest := changeClears sdk clearRectangle entries
      { cache with ownershipRanges := changed.1 }
    (rest.1, (some target, changed.2.getD []) :: rest.2)

/-- The end of `PrepareHostRenderTargetsResolveClear` (lines 1131-1182), for
the depth and the color target it may clear. -/
def Cache.resolveClear (sdk : Sdk) (cache : Cache) (create : RenderTargetKey → Option ℕ)
    (clearRectangle : Rectangle) (clears : List Clear) :
    Cache × List (Option RenderTarget × List Transfer) :=
  let found := findClears create clears cache
  changeClears sdk clearRectangle found.2 found.1

/-- What happens to the caches of the process, all of it on the command
processor thread. -/
inductive Event (Address : Type)
  /-- A cache is constructed at an address and `InitializeCommon` is called. -/
  | initializeCommon (this : Address) (config : Config) (accumulated : Accumulated)
  | update (this : Address) (d : Draw)
  | resolveClear (this : Address) (create : RenderTargetKey → Option ℕ)
      (clearRectangle : Rectangle) (clears : List Clear)
  | clearCache (this : Address)
  | destroyAllRenderTargets (this : Address) (shuttingDown : Bool)
  | fullEdramBarrierPlaced (this : Address)
  /-- `BeginFrame`: `ResetAccumulatedRenderTargets` of the SDK. -/
  | beginFrame (this : Address) (reset : Accumulated → Accumulated)

/-- What the caller of an event sees: of an update its return value, the
transfers and the used targets, of a resolve clear its targets and transfers. -/
inductive Outcome
  | update (returned : Bool) (transfers : Slot → List Transfer)
      (used : Slot → Option RenderTarget)
  | resolveClear (cleared : List (Option RenderTarget × List Transfer))
  | none

section Run

variable {Address : Type} [DecidableEq Address] (sdk : Sdk)

def step (s : State Address) : Event Address → State Address × Outcome
  | .initializeCommon this config accumulated =>
    ({ s.setCache this { config, accumulated, ownershipRanges := unowned } with
        generation := s.generation + 1 }, .none)
  | .update this d =>
    let result := s.update sdk this d
    (result.1, .update result.2 (result.1.caches this).lastUpdateTransfers
      (result.1.caches this).lastUpdateUsedRenderTargets)
  | .resolveClear this create clearRectangle clears =>
    let result := (s.caches this).resolveClear sdk create clearRectangle clears
    ({ s.setCache this result.1 with
        generation := s.generation + result.2.countP fun entry => entry.1.isSome },
      .resolveClear result.2)
  | .clearCache this =>
    ({ s.setCache this ((s.caches this).clearCache sdk) with generation := s.generation + 1 },
      .none)
  | .destroyAllRenderTargets this shuttingDown =>
    ({ s.setCache this ((s.caches this).destroyAllRenderTargets shuttingDown) with
        generation := s.generation + 1 }, .none)
  | .fullEdramBarrierPlaced this =>
    ({ s.setCache this (s.caches this).fullEdramBarrierPlaced with
        generation := s.generation + 1 }, .none)
  | .beginFrame this reset =>
    (s.setCache this
      { s.caches this with accumulated := reset (s.caches this).accumulated }, .none)

/-- The state after a run and what the callers have seen. -/
def run (s : State Address) : List (Event Address) → State Address × List Outcome
  | [] => (s, [])
  | e :: es =>
    let stepped := step sdk s e
    let rest := run stepped.1 es
    (rest.1, stepped.2 :: rest.2)

end Run

/-- An event with the memo switched off (`nb_rt_ownership_fastpath` false). -/
def Event.withoutMemo {Address : Type} : Event Address → Event Address
  | .update this d => .update this { d with nbRtOwnershipFastpath := false }
  | e => e

end Edram
end BoltsRebuilt
