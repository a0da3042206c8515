/-
# The ownership memo changes nothing

`RenderTargetCache::Update` skips a claim its memo remembers.  The header of
the memo (`native_rt_ownership_memo.h`, lines 1-9) says why that is right: the
remembered targets still own what they claimed, because every change of the
ownership map and every removal of a target moves the generation.  `Inv` is
this sentence, `Inv.step` that every event keeps it, and
`ownershipMemo_transparent` what follows: two runs that differ in the switch
of the memo only (it may also change from draw to draw) go through the same
caches and show the same results.

The generation is a `uint64_t`.  After 2^64 changes it is back where it was,
and then a stale memo does match (`ownershipMemo_wraps`); so the theorem is
about runs that change the ownership less often than that.
-/

import BoltsRebuilt.Edram.Claims
import Mathlib.Data.List.GetD

namespace BoltsRebuilt
namespace Edram

variable {Address : Type} {sdk : Sdk} {cache cache' : Cache} {m : Memo Address}
  {plan plan' : Plan} {d : Draw} {pitchTiles : ℕ}

/-! ### What the memo remembers -/

/-- The memo holds a claim of this cache, and the claim still stands: its
targets exist, and each owns what it claimed. -/
structure Remembers (sdk : Sdk) (cache : Cache) (m : Memo Address) (plan : Plan) : Prop where
  sound : plan.Sound
  used : m.used = plan.used
  count : m.count = plan.sorted.length
  keys : ∀ slot, plan.used slot = true → m.keys slot = (plan.keys slot).key
  lengthsTiles : m.lengthsTiles = plan.lengths
  holds : ∀ c ∈ plan.sorted.zip plan.lengths, cache.Holds sdk (plan.keys c.1.2) c.2
  targets : ∀ slot, plan.used slot = true → ∃ target, m.targets slot = some target ∧
    cache.renderTargets.lookup (plan.keys slot) = some (some target)

/-- The sorted bases hold exactly the used slots, each with the base its key has. -/
theorem Plan.Sound.mem_sorted (h : plan.Sound) {c : ℕ × Slot} :
    c ∈ plan.sorted ↔ plan.used c.2 = true ∧ c.1 = (plan.keys c.2).baseTiles.toNat := by
  rw [h.sorted, Draw.mem_edramBasesSorted]

/-- A used slot is in the sorted bases. -/
theorem Plan.Sound.slot_mem (h : plan.Sound) {slot : Slot} (hslot : plan.used slot = true) :
    ((plan.keys slot).baseTiles.toNat, slot) ∈ plan.sorted :=
  h.mem_sorted.mpr ⟨hslot, rfl⟩

/-- What the memo remembers stays true when render targets are added to the cache. -/
theorem Remembers.extends (h : Remembers sdk cache m plan) (hextends : Cache.Extends cache cache') :
    Remembers sdk cache' m plan :=
  { h with
    holds := fun c hc => hextends.holds (h.holds c hc)
    targets := fun slot hslot =>
      let ⟨target, hm, hlookup⟩ := h.targets slot hslot
      ⟨target, hm, hextends.targets _ _ hlookup⟩ }

section Hit

variable [DecidableEq Address] {this : Address} {generation : ℕ}

/-- **A match finds the same claim or a shorter one.**  The used slots and
their keys are those of the remembered claim, so are the order of the bases
and the targets, and every range is part of one that is still owned. -/
theorem Remembers.hit (h : Remembers sdk cache m plan) (hsound : plan'.Sound)
    (hmatch : m.matchesPlan this generation plan' = true) :
    (∀ c ∈ plan'.sorted.zip plan'.lengths, cache.Holds sdk (plan'.keys c.1.2) c.2) ∧
      ∀ c ∈ plan'.sorted, ∃ target, m.targets c.2 = some target ∧
        cache.renderTargets.lookup (plan'.keys c.2) = some (some target) := by
  obtain ⟨-, -, hused, hcount, hkeys, hlengths⟩ := of_decide_eq_true hmatch
  rw [h.used] at hused
  have hkey : ∀ slot, plan'.used slot = true → plan'.keys slot = plan.keys slot := by
    intro slot hslot
    have hword := hkeys slot hslot
    rw [h.keys slot (hused ▸ hslot)] at hword
    exact RenderTargetKey.key_injective hword
  have hsorted : plan'.sorted = plan.sorted := by
    rw [hsound.sorted, h.sound.sorted, ← hused]
    exact Draw.edramBasesSorted_congr fun slot hslot => by rw [hkey slot hslot]
  constructor
  · rintro c hc
    obtain ⟨i, hi, rfl⟩ := List.mem_iff_getElem.mp hc
    simp only [List.length_zip, Nat.lt_min] at hi
    have hi' : i < plan.sorted.length := hsorted ▸ hi.1
    have hlen : i < plan.lengths.length := h.sound.length ▸ hi'
    have hmem : (plan.sorted[i], plan.lengths[i]) ∈ plan.sorted.zip plan.lengths :=
      List.mem_iff_getElem.mpr ⟨i, by simp [List.length_zip, hi', hlen], by simp⟩
    have hle := hlengths i hi.1
    rw [h.lengthsTiles, List.getD_eq_getElem _ _ hi.2, List.getD_eq_getElem _ _ hlen] at hle
    have hslot : plan'.sorted[i] = plan.sorted[i] := by simp [hsorted]
    have hused' := (hsound.mem_sorted.mp (List.getElem_mem hi.1)).1
    have hholds := (h.holds _ hmem).mono hle (h.sound.short _ hmem)
    simp only [List.getElem_zip]
    rwa [hkey _ hused', hslot]
  · intro c hc
    have hslot := (hsound.mem_sorted.mp hc).1
    rw [hkey _ hslot]
    exact h.targets c.2 (hused ▸ hslot)

omit [DecidableEq Address] in
/-- A claim that has just been made and published is remembered. -/
theorem remembers_publish (hsdk : sdk.Documented) (hsound : plan.Sound) (hmapped : cache.Mapped)
    {rts : Slot → Option RenderTarget}
    (hfound : ∀ c ∈ plan.sorted, ∃ target, rts c.2 = some target ∧
      cache.renderTargets.lookup (plan.keys c.2) = some (some target)) :
    Remembers sdk (cache.claimSlots sdk plan) (Memo.publish this generation plan rts) plan where
  sound := hsound
  used := rfl
  count := rfl
  keys slot hslot := by simp [Memo.publish, hslot]
  lengthsTiles := rfl
  holds := by
    refine Cache.holds_claimAll hsdk hmapped (fun c hc => ?_) hsound.apart
    exact (hsound.mem_sorted.mp (List.of_mem_zip hc).1).2
  targets slot hslot := by
    obtain ⟨target, hrts, hlookup⟩ := hfound _ (hsound.slot_mem hslot)
    refine ⟨target, by simpa [Memo.publish, Plan.bound, hslot] using hrts, ?_⟩
    rw [← hlookup]
    exact congrArg _ (Cache.claimAll_fixed sdk).2.1

end Hit

/-! ### One update with and without the memo -/

/-- Binding looks at the used slots alone, so two tables that agree on these bind alike. -/
theorem bind_congr {rts rts' : Slot → Option RenderTarget} {msaaSamples : BitVec 2}
    (h : ∀ slot, plan.used slot = true → rts slot = rts' slot) :
    cache.bind plan rts pitchTiles msaaSamples = cache.bind plan rts' pitchTiles msaaSamples := by
  have hbound : plan.bound rts = plan.bound rts' := by
    funext slot
    by_cases hslot : plan.used slot = true
    · rw [Plan.bound, Plan.bound, if_pos hslot, if_pos hslot, h slot hslot]
    · rw [Plan.bound, Plan.bound, if_neg hslot, if_neg hslot]
  unfold Cache.bind
  rw [hbound]

/-- Binding adds render targets and changes no ownership. -/
theorem extends_bind (rts : Slot → Option RenderTarget) (msaaSamples : BitVec 2) :
    Cache.Extends cache (cache.bind plan rts pitchTiles msaaSamples) :=
  ⟨rfl, rfl, fun _ _ h => h⟩

/-- What a claim does to the cache without the memo, and what it returns. -/
def Cache.claimed (sdk : Sdk) (cache : Cache) (d : Draw) (plan : Plan) (pitchTiles : ℕ) :
    Cache × Bool :=
  match cache.findTargets d.create plan.keys plan.sorted fun _ => none with
  | (cache, none) => (cache, false)
  | (cache, some rts) => ((cache.claimSlots sdk plan).bind plan rts pitchTiles d.msaaSamples, true)

section Update

variable [DecidableEq Address] {s s' : State Address} {this : Address}

/-- **A hit is a claim that changes nothing**: the tiles of the plan are held already, so leaving
the claim out leaves the cache as making it would. -/
theorem claimHost_hit (hremembers : ∃ plan, Remembers sdk cache s.memo plan)
    (hmapped : cache.Mapped) (hsound : plan.Sound)
    (hmatch : s.memo.matchesPlan this s.generationWord plan = true) :
    cache.claimed sdk d plan pitchTiles =
      (cache.bind plan s.memo.targets pitchTiles d.msaaSamples, true) := by
  obtain ⟨remembered, hremembers⟩ := hremembers
  obtain ⟨hholds, hfound⟩ := hremembers.hit hsound hmatch
  obtain ⟨rts, hfind, hsame⟩ := Cache.findTargets_of_found d.create (fun _ => none)
    s.memo.targets hfound
  have hclaim : cache.claimSlots sdk plan = cache := Cache.claimAll_of_holds hmapped hholds
  rw [Cache.claimed, hfind]
  simp only [hclaim]
  rw [bind_congr fun slot hslot => hsame (_, slot) (hsound.slot_mem hslot)]

/-- With the memo or without, a claim has the same result. -/
theorem claimHost_eq (hmapped : cache.Mapped) (hsound : plan.Sound)
    (hremembers : d.nbRtOwnershipFastpath = true → s.memo.matchesPlan this s.generationWord plan = true →
      ∃ plan, Remembers sdk cache s.memo plan) :
    (s.claimHost sdk this d plan cache pitchTiles).1.caches =
        Function.update s.caches this (cache.claimed sdk d plan pitchTiles).1 ∧
      (s.claimHost sdk this d plan cache pitchTiles).2 =
        (cache.claimed sdk d plan pitchTiles).2 := by
  unfold State.claimHost
  split
  · rename_i hhit
    obtain ⟨hfast, hmatch⟩ := (Bool.and_eq_true _ _).mp hhit
    rw [claimHost_hit (hremembers hfast hmatch) hmapped hsound hmatch]
    exact ⟨rfl, rfl⟩
  · unfold Cache.claimed
    rcases Cache.findTargets d.create plan.keys plan.sorted cache fun _ => none with
      ⟨cache', _ | rts⟩
    · exact ⟨rfl, rfl⟩
    · exact ⟨rfl, rfl⟩

/-! ### The invariant -/

/-- The ranges of every cache tile the EDRAM, and if the ownership has not
changed since the memo was published, the claim it holds still stands. -/
structure Inv (sdk : Sdk) (s : State Address) : Prop where
  mapped : ∀ a, (s.caches a).Mapped
  memo : ∀ a, s.memo.owner = some a → s.memo.generation ≤ s.generation ∧
    (s.memo.generation = s.generation → ∃ plan, Remembers sdk (s.caches a) s.memo plan)

/-- What does not publish keeps the invariant if it moves the generation, or
leaves every range and every target. -/
theorem Inv.setCache (h : Inv sdk s) (n : ℕ) (hmemo : s'.memo = s.memo)
    (hgeneration : s'.generation = s.generation + n)
    (hcaches : s'.caches = Function.update s.caches this cache) (hmapped : cache.Mapped)
    (hextends : n = 0 → Cache.Extends (s.caches this) cache) : Inv sdk s' where
  mapped a := by
    rw [hcaches]
    by_cases ha : a = this
    · rw [ha, Function.update_self]
      exact hmapped
    · rw [Function.update_of_ne ha]
      exact h.mapped a
  memo a howner := by
    rw [hmemo] at howner ⊢
    obtain ⟨hle, hremembers⟩ := h.memo a howner
    rw [hgeneration, hcaches]
    refine ⟨by omega, fun heq => ?_⟩
    obtain ⟨plan, hplan⟩ := hremembers (by omega)
    by_cases ha : a = this
    · rw [ha, Function.update_self]
      exact ⟨plan, (ha ▸ hplan).extends (hextends (by omega))⟩
    · rw [Function.update_of_ne ha]
      exact ⟨plan, hplan⟩

/-- While the generation has not wrapped around, what the code compares is the
generation. -/
theorem Inv.remembers (h : Inv sdk s) (hbound : s.generation < 2 ^ 64)
    (hmatch : s.memo.matchesPlan this s.generationWord plan = true) :
    ∃ plan, Remembers sdk (s.caches this) s.memo plan := by
  obtain ⟨howner, hword, -⟩ := of_decide_eq_true hmatch
  refine (h.memo this howner).2 ?_
  rw [← hword, State.generationWord, Nat.mod_eq_of_lt hbound]

/-- Clearing the transfers changes no ownership. -/
theorem extends_clearTransfers (cache : Cache) : Cache.Extends cache cache.clearTransfers := by
  unfold Cache.clearTransfers
  split <;> exact ⟨rfl, rfl, fun _ _ h => h⟩

/-- Claiming the tiles of a draw on the host path keeps the invariant, whether it is done or found
in the memo. -/
theorem Inv.claimHost (hsdk : sdk.Documented) (h : Inv sdk s) (hsound : plan.Sound)
    (hextends : Cache.Extends (s.caches this) cache)
    (hbound : (s.claimHost sdk this d plan cache pitchTiles).1.generation < 2 ^ 64) :
    Inv sdk (s.claimHost sdk this d plan cache pitchTiles).1 := by
  have hmapped : cache.Mapped := hextends.mapped (h.mapped this)
  have hfound := Cache.extends_findTargets cache plan.keys d.create plan.sorted fun _ => none
  unfold State.claimHost at hbound ⊢
  split
  · -- a hit: the targets are bound and nothing else
    have hbind : Cache.Extends (s.caches this)
        (cache.bind plan s.memo.targets pitchTiles d.msaaSamples) :=
      hextends.trans (extends_bind _ _)
    exact h.setCache 0 rfl rfl rfl (hbind.mapped (h.mapped this)) fun _ => hbind
  · rename_i hmiss
    rw [if_neg hmiss] at hbound
    split
    · -- a target could not be created: others may have been
      rename_i hfind
      rw [hfind] at hfound
      exact h.setCache 0 rfl rfl rfl (hfound.mapped hmapped) fun _ => hextends.trans hfound
    · rename_i cache' rts hfind
      simp only [hfind] at hbound
      have htargets := (Cache.findTargets_found (congrArg Prod.snd hfind)).2
      rw [hfind] at hfound htargets
      have hmapped' := hfound.mapped hmapped
      have hbind : Cache.Extends (cache'.claimSlots sdk plan)
          ((cache'.claimSlots sdk plan).bind plan rts pitchTiles d.msaaSamples) :=
        extends_bind _ _
      have hclaimed := hbind.mapped (hmapped'.claimAll hsdk)
      by_cases hfast : d.nbRtOwnershipFastpath = true
      · -- the claim is published with the generation after it
        have hword : (s.generation + plan.sorted.length) % 2 ^ 64 =
            s.generation + plan.sorted.length := Nat.mod_eq_of_lt hbound
        constructor
        · intro a
          by_cases ha : a = this
          · rw [ha]
            simpa [State.setCache] using hclaimed
          · simpa [State.setCache, Function.update_of_ne ha] using h.mapped a
        · intro a howner
          simp only [hfast, if_true, Memo.publish, Option.some.injEq] at howner
          subst howner
          simp only [hfast, if_true, Memo.publish, State.generationWord, State.setCache,
            Function.update_self]
          refine ⟨Nat.mod_le _ _, fun _ => ⟨plan, ?_⟩⟩
          exact (remembers_publish hsdk hsound hmapped' htargets).extends hbind
      · -- not published, but the generation has moved
        refine h.setCache plan.sorted.length ?_ rfl rfl hclaimed fun hzero => ?_
        · simp [hfast]
        · exact absurd (List.eq_nil_of_length_eq_zero hzero) hsound.nonempty

/-- A fresh cache's map of owners covers the EDRAM. -/
theorem mapped_unowned {config : Config} {accumulated : Accumulated} :
    Cache.Mapped { config, accumulated, ownershipRanges := unowned } :=
  ⟨kEdramTileCount, rfl, by decide, rfl⟩

/-- The barrier between overlapping targets changes no owner. -/
theorem Cache.Mapped.fullEdramBarrierPlaced (h : cache.Mapped) : cache.fullEdramBarrierPlaced.Mapped := by
  obtain ⟨hi, htiles⟩ := h
  have hpos : 0 < kEdramTileCount := by decide
  unfold Cache.Mapped Cache.fullEdramBarrierPlaced
  dsimp only
  split
  · rename_i range heq
    rw [heq] at htiles
    exact ⟨kEdramTileCount, htiles.1, hpos, rfl⟩
  · exact ⟨kEdramTileCount, rfl, hpos, rfl⟩

/-- With pixel shader interlock the memo is not used; a claim moves the
generation. -/
theorem Inv.claimInterlock (hsdk : sdk.Documented) (h : Inv sdk s) (hsound : plan.Sound)
    (hmapped : cache.Mapped) : Inv sdk (s.claimInterlock sdk this d plan cache) := by
  unfold State.claimInterlock
  dsimp only
  generalize hplaced : (List.any _ _ && d.edramBufferModified) = placed
  refine h.setCache ((if placed then 1 else 0) + plan.sorted.length) rfl (Nat.add_assoc _ _ _) rfl
    (Cache.Mapped.claimAll ?_ hsdk) fun hzero => ?_
  · cases placed
    · exact hmapped
    · exact hmapped.fullEdramBarrierPlaced
  · have hnil : plan.sorted.length = 0 := by omega
    exact absurd (List.eq_nil_of_length_eq_zero hnil) hsound.nonempty

/-- One `Update` keeps the invariant, unless its generation has wrapped. -/
theorem Inv.update (hsdk : sdk.Documented) (h : Inv sdk s)
    (hbound : (s.update sdk this d).1.generation < 2 ^ 64) : Inv sdk (s.update sdk this d).1 := by
  unfold State.update at hbound ⊢
  cases hprepare : d.prepare sdk (s.caches this).config with
  | refused => exact h
  | nothingUsed pitchTiles =>
    have hextends := extends_clearTransfers (s.caches this)
    exact h.setCache 0 rfl rfl rfl (hextends.mapped (h.mapped this))
      fun _ => ⟨hextends.config, hextends.ranges, hextends.targets⟩
  | claims pitchTiles plan =>
    have hsound := Draw.prepare_sound hprepare
    simp only [hprepare] at hbound ⊢
    split
    · exact h.claimInterlock hsdk hsound ((extends_clearTransfers _).mapped (h.mapped this))
    · rename_i hpath
      rw [if_neg hpath] at hbound
      exact h.claimHost hsdk hsound (extends_clearTransfers _) hbound

end Update

/-! ### The other events -/

section ResolveClear

variable {create : RenderTargetKey → Option ℕ} {clears : List Clear} {clearRectangle : Rectangle}

variable (cache create clears) in
/-- Finding the targets of a clear adds render targets and changes no owner. -/
theorem extends_findClears : Cache.Extends cache (Cache.findClears create clears cache).1 := by
  induction clears generalizing cache with
  | nil => exact .refl
  | cons clear clears ih =>
    unfold Cache.findClears
    by_cases hzero : clear.lengthTiles = 0
    · simp only [if_pos hzero]
      exact ih _
    · simp only [if_neg hzero]
      exact (Cache.getOrCreate_spec cache clear.key create).1.trans (ih _)

/-- A clear's claims keep the map of owners and, where none of them is to be cleared, change
nothing. -/
theorem changeClears_spec (clearRectangle : Rectangle)
    (entries : List (Clear × Option RenderTarget)) (hsdk : sdk.Documented) (hmapped : cache.Mapped) :
    (Cache.changeClears sdk clearRectangle entries cache).1.Mapped ∧
      ((Cache.changeClears sdk clearRectangle entries cache).2.countP (fun e => e.1.isSome) = 0 →
        (Cache.changeClears sdk clearRectangle entries cache).1 = cache) := by
  induction entries generalizing cache with
  | nil => exact ⟨hmapped, fun _ => rfl⟩
  | cons entry entries ih =>
    obtain ⟨clear, target⟩ := entry
    cases target with
    | none =>
      obtain ⟨hrest, hsame⟩ := ih hmapped
      refine ⟨hrest, fun hzero => hsame ?_⟩
      simpa [Cache.changeClears] using hzero
    | some target =>
      obtain ⟨hi, htiles⟩ := hmapped
      have hchanged := (Claimant.at_changeOwnership (cache.claimant sdk clear.key
        (some clearRectangle)) (some []) clear.startTilesBaseRelative clear.lengthTiles hsdk
          htiles).1
      refine ⟨(ih ⟨hi, hchanged⟩).1, fun hzero => ?_⟩
      simp [Cache.changeClears] at hzero

/-- A resolve's clears keep the map of owners, and when they clear nothing they only add render
targets. -/
theorem resolveClear_spec (hsdk : sdk.Documented) (hmapped : cache.Mapped) :
    (cache.resolveClear sdk create clearRectangle clears).1.Mapped ∧
      ((cache.resolveClear sdk create clearRectangle clears).2.countP (fun e => e.1.isSome) = 0 →
        Cache.Extends cache (cache.resolveClear sdk create clearRectangle clears).1) := by
  have hfound := extends_findClears cache create clears
  obtain ⟨hchanged, hsame⟩ := changeClears_spec clearRectangle
    (Cache.findClears create clears cache).2 hsdk (hfound.mapped hmapped)
  refine ⟨hchanged, fun hzero => ?_⟩
  have heq : (cache.resolveClear sdk create clearRectangle clears).1 =
      (Cache.findClears create clears cache).1 := hsame hzero
  rw [heq]
  exact hfound

end ResolveClear

/-- Clearing the cache keeps the map of owners. -/
theorem Cache.Mapped.clearCache (h : cache.Mapped) : (cache.clearCache sdk).Mapped := by
  unfold Cache.clearCache
  dsimp only
  split <;> exact h

/-- Destroying the render targets keeps it, at shutdown and otherwise. -/
theorem Cache.Mapped.destroy (shuttingDown : Bool) :
    (cache.destroyAllRenderTargets shuttingDown).Mapped := by
  cases shuttingDown
  · exact ⟨kEdramTileCount, rfl, by decide, rfl⟩
  · exact ⟨0, rfl⟩

/-! ### Runs -/

section Run

variable [DecidableEq Address] {s s' : State Address} {e : Event Address}

/-- An update never lowers the generation of the memo's authority. -/
theorem update_generation_le {this : Address} :
    s.generation ≤ (s.update sdk this d).1.generation := by
  unfold State.update
  cases d.prepare sdk (s.caches this).config with
  | refused => exact Nat.le_refl _
  | nothingUsed => exact Nat.le_refl _
  | claims pitchTiles plan =>
    dsimp only
    split
    · show s.generation ≤ s.generation + _ + _
      omega
    · unfold State.claimHost
      split
      · exact Nat.le_refl _
      · split
        · exact Nat.le_refl _
        · exact Nat.le_add_right _ _

/-- No event lowers the generation: it stays or goes up by one. -/
theorem step_generation_le : s.generation ≤ (step sdk s e).1.generation := by
  cases e with
  | update this d => exact update_generation_le
  | resolveClear => exact Nat.le_add_right _ _
  | beginFrame => exact Nat.le_refl _
  | initializeCommon => exact Nat.le_succ _
  | clearCache => exact Nat.le_succ _
  | destroyAllRenderTargets => exact Nat.le_succ _
  | fullEdramBarrierPlaced => exact Nat.le_succ _

/-- Every event keeps the invariant while the generation has not wrapped. -/
theorem Inv.step (hsdk : sdk.Documented) (h : Inv sdk s)
    (hbound : (step sdk s e).1.generation < 2 ^ 64) : Inv sdk (step sdk s e).1 := by
  cases e with
  | update this d => exact h.update hsdk hbound
  | initializeCommon this config accumulated =>
    exact h.setCache 1 rfl rfl rfl mapped_unowned fun hzero => by omega
  | resolveClear this create clearRectangle clears =>
    obtain ⟨hmapped, hextends⟩ := resolveClear_spec hsdk (h.mapped this)
    exact h.setCache _ rfl rfl rfl hmapped hextends
  | clearCache this => exact h.setCache 1 rfl rfl rfl (h.mapped this).clearCache fun hzero => by omega
  | destroyAllRenderTargets this shuttingDown =>
    exact h.setCache 1 rfl rfl rfl (.destroy shuttingDown) fun hzero => by omega
  | fullEdramBarrierPlaced this =>
    exact h.setCache 1 rfl rfl rfl (h.mapped this).fullEdramBarrierPlaced fun hzero => by omega
  | beginFrame this reset =>
    exact h.setCache 0 rfl rfl rfl (h.mapped this) fun _ => ⟨rfl, rfl, fun _ _ hlookup => hlookup⟩

/-- One update with the memo and one without, from the same caches. -/
theorem update_eq (this : Address) (d : Draw) (h : Inv sdk s) (hbound : s.generation < 2 ^ 64)
    (hsame : s.caches = s'.caches) :
    (s.update sdk this d).1.caches =
        (s'.update sdk this { d with nbRtOwnershipFastpath := false }).1.caches ∧
      (s.update sdk this d).2 =
        (s'.update sdk this { d with nbRtOwnershipFastpath := false }).2 := by
  have hprepare : ({ d with nbRtOwnershipFastpath := false } : Draw).prepare sdk
      (s'.caches this).config = d.prepare sdk (s.caches this).config := by
    rw [hsame]
    rfl
  unfold State.update
  rw [hprepare]
  cases hcase : d.prepare sdk (s.caches this).config with
  | refused => exact ⟨hsame, rfl⟩
  | nothingUsed => exact ⟨by simp [State.setCache, hsame], rfl⟩
  | claims pitchTiles plan =>
    have hsound := Draw.prepare_sound hcase
    have hextends := extends_clearTransfers (s.caches this)
    dsimp only
    rw [← hsame]
    split
    · exact ⟨by simp [State.claimInterlock, State.setCache, hsame], rfl⟩
    · have hmapped := hextends.mapped (h.mapped this)
      obtain ⟨hcaches, hreturned⟩ := claimHost_eq (s := s) (d := d) hmapped hsound
        fun _ hmatch =>
          let ⟨plan, hplan⟩ := h.remembers hbound hmatch
          ⟨plan, hplan.extends hextends⟩
      obtain ⟨hcaches', hreturned'⟩ := claimHost_eq (s := s')
        (d := { d with nbRtOwnershipFastpath := false }) hmapped hsound nofun
      rw [hcaches, hcaches', hreturned, hreturned', hsame]
      exact ⟨rfl, rfl⟩

/-- One event with the memo and one without, from the same caches. -/
theorem step_eq (h : Inv sdk s) (hbound : s.generation < 2 ^ 64) (hsame : s.caches = s'.caches) :
    (step sdk s e).1.caches = (step sdk s' e.withoutMemo).1.caches ∧
      (step sdk s e).2 = (step sdk s' e.withoutMemo).2 := by
  cases e with
  | update this d =>
    obtain ⟨hcaches, hreturned⟩ := update_eq this d h hbound hsame
    refine ⟨hcaches, ?_⟩
    simp only [step, Event.withoutMemo, hcaches, hreturned]
  | initializeCommon => exact ⟨by simp [step, Event.withoutMemo, State.setCache, hsame], rfl⟩
  | resolveClear =>
    simp only [step, Event.withoutMemo, State.setCache, hsame]
    exact ⟨trivial, trivial⟩
  | clearCache => exact ⟨by simp [step, Event.withoutMemo, State.setCache, hsame], rfl⟩
  | destroyAllRenderTargets => exact ⟨by simp [step, Event.withoutMemo, State.setCache, hsame], rfl⟩
  | fullEdramBarrierPlaced => exact ⟨by simp [step, Event.withoutMemo, State.setCache, hsame], rfl⟩
  | beginFrame => exact ⟨by simp [step, Event.withoutMemo, State.setCache, hsame], rfl⟩

/-- No sequence of events lowers the generation. -/
theorem run_generation_le (es : List (Event Address)) :
    s.generation ≤ (run sdk s es).1.generation := by
  induction es generalizing s with
  | nil => exact Nat.le_refl _
  | cons e es ih => exact Nat.le_trans step_generation_le ih

/-- **A run with the memo and one without it leave the same caches and give the same answers**, by
induction on the events. -/
theorem run_eq (hsdk : sdk.Documented) (es : List (Event Address)) (h : Inv sdk s)
    (hsame : s.caches = s'.caches) (hbound : (run sdk s es).1.generation < 2 ^ 64) :
    (run sdk s es).1.caches = (run sdk s' (es.map Event.withoutMemo)).1.caches ∧
      (run sdk s es).2 = (run sdk s' (es.map Event.withoutMemo)).2 := by
  induction es generalizing s s' with
  | nil => exact ⟨hsame, rfl⟩
  | cons e es ih =>
    have hstep : (step sdk s e).1.generation < 2 ^ 64 :=
      Nat.lt_of_le_of_lt (run_generation_le es) hbound
    obtain ⟨hcaches, houtcome⟩ := step_eq (e := e) h
      (Nat.lt_of_le_of_lt step_generation_le hstep) hsame
    obtain ⟨hrest, houtcomes⟩ := ih (h.step hsdk hstep) hcaches hbound
    refine ⟨hrest, ?_⟩
    simp only [run, List.map_cons, houtcome, houtcomes]

omit [DecidableEq Address] in
/-- No cache exists yet, and the memo is as it is constant-initialized. -/
theorem inv_start : Inv sdk ({} : State Address) where
  mapped _ := ⟨0, rfl⟩
  memo _ howner := by cases howner

/-- **The ownership memo is transparent.**  Take any sequence of updates,
resolve clears, cache clears, destructions and barriers on any caches, with
`nb_rt_ownership_fastpath` on or off from draw to draw, in which the ownership
changes fewer than 2^64 times.  The same sequence with the switch off leaves
the same caches (ownership ranges, render targets, transfers of the last
update, used and accumulated targets) and shows the same results: for every
update its return value, its transfers and its used targets. -/
theorem ownershipMemo_transparent (hsdk : sdk.Documented) (es : List (Event Address))
    (hbound : (run sdk ({} : State Address) es).1.generation < 2 ^ 64) :
    (run sdk {} es).1.caches =
        (run sdk ({} : State Address) (es.map Event.withoutMemo)).1.caches ∧
      (run sdk {} es).2 = (run sdk ({} : State Address) (es.map Event.withoutMemo)).2 :=
  run_eq hsdk es inv_start rfl hbound

end Run

/-- The SDK's predicates as its headers have them, with every transfer drawn. -/
def hostSdk : Sdk where
  isEmpty key := key.key = 0
  getDepthFormat key := if key.resourceFormat = 0 then .kD24S8 else .kD24FS8
  hostDepthIsFloat24 format := format = .kD24FS8
  isOwnedBy o key hostDepth := o.renderTarget = key &&
    (!hostDepth || (if key.resourceFormat = 0 then o.hostDepthRenderTargetUnorm24
      else o.hostDepthRenderTargetFloat24) = key)
  areOwnersSame a b := a = b
  getRangeRectangles _ _ _ _ := 1
  isColorRenderTargetFormat64bpp format := format = 5 || format = 7 || format = 15
  colorResourceFormat format := format
  k8888 := 0
  k16161616 := 5
  kEdramTileWidthSamples := 80
  kEdramTileHeightSamples := 16
  kTexture2DCubeMaxWidthHeight := 8192

/-- The SDK of the witness behaves as the source relies on. -/
theorem hostSdk_documented : hostSdk.Documented where
  owned_claim o dest hostDepth := by
    by_cases hformat : dest.resourceFormat = 0#4 <;> cases hostDepth <;>
      simp [hostSdk, Sdk.claim, hformat]
  same_eq a b h := of_decide_eq_true h

/-- A draw to one color target of 80 by 16 pixels at tile 2040. -/
def oneColor : Draw :=
  { normalizedColorMask := 15, surfacePitch := 80, colorBase := fun _ => 2040, estimateMaxY := 16
    create := fun _ => some 1 }

/-- Two draws, the second of which is a hit, and a third one after a cache clear. -/
def threeDraws : List (Event Unit) :=
  [.initializeCommon () { maxRenderTargetWidth := 8192, maxRenderTargetHeight := 8192 } {},
    .update () oneColor, .update () oneColor, .clearCache (), .update () oneColor]

/-- The hypotheses are satisfiable: three draws, the last of which the memo answers. -/
theorem ownershipMemo_transparent_threeDraws :
    (run hostSdk {} threeDraws).1.caches =
        (run hostSdk {} (threeDraws.map Event.withoutMemo)).1.caches ∧
      (run hostSdk {} threeDraws).2 = (run hostSdk {} (threeDraws.map Event.withoutMemo)).2 :=
  ownershipMemo_transparent hostSdk_documented threeDraws (by decide +kernel)

/-! ### The generation wraps around -/

section Wrap

variable [DecidableEq Address] {s : State Address} {this : Address}

/-- A run of two sequences is the run of the second from where the first has ended. -/
theorem run_append_fst (es es' : List (Event Address)) :
    (run sdk s (es ++ es')).1 = (run sdk (run sdk s es).1 es').1 := by
  induction es generalizing s with
  | nil => rfl
  | cons e es ih => exact ih

/-- Placing the barrier twice is placing it once. -/
theorem fullEdramBarrierPlaced_twice :
    cache.fullEdramBarrierPlaced.fullEdramBarrierPlaced = cache.fullEdramBarrierPlaced := by
  rcases hranges : cache.ownershipRanges with _ | ⟨range, _ | ⟨next, ranges⟩⟩ <;>
    simp [Cache.fullEdramBarrierPlaced, hranges, unowned]

/-- Any number of barriers does to the cache what one does, and moves the
generation by their number. -/
theorem run_barriers (n : ℕ) :
    (run sdk s (List.replicate (n + 1) (.fullEdramBarrierPlaced this))).1 =
      { s.setCache this (s.caches this).fullEdramBarrierPlaced with
        generation := s.generation + (n + 1) } := by
  induction n generalizing s with
  | zero => rfl
  | succ n ih =>
    rw [List.replicate_succ, run, ih]
    simp only [step, State.setCache, Function.update_self, fullEdramBarrierPlaced_twice,
      Function.update_idem, Nat.add_assoc, Nat.add_comm 1]

end Wrap

/-- A draw, 2^64 barriers, and the same draw again. -/
def wrapAround : List (Event Unit) :=
  [.initializeCommon () { maxRenderTargetWidth := 8192, maxRenderTargetHeight := 8192 } {},
    .update () oneColor] ++
  (List.replicate (2 ^ 64 - 1 + 1) (.fullEdramBarrierPlaced ()) ++ [.update () oneColor])

/-- **A generation that has wrapped around matches a stale memo**: after 2^64
barriers the last draw takes its target from the memo and claims nothing, while
without the memo it claims its tile. -/
theorem ownershipMemo_wraps :
    hostSdk.Documented ∧
      (run hostSdk {} wrapAround).1.caches ≠
        (run hostSdk {} (wrapAround.map Event.withoutMemo)).1.caches := by
  refine ⟨hostSdk_documented, fun heq => ?_⟩
  have hranges := congrArg (fun caches : Unit → Cache => (caches ()).ownershipRanges) heq
  rw [wrapAround, List.map_append, List.map_append, List.map_replicate] at hranges
  rw [run_append_fst, run_append_fst, run_append_fst, run_append_fst] at hranges
  have hbarrier : (Event.fullEdramBarrierPlaced ()).withoutMemo = .fullEdramBarrierPlaced () := rfl
  rw [hbarrier, run_barriers, run_barriers] at hranges
  revert hranges
  decide +kernel

end Edram
end BoltsRebuilt
