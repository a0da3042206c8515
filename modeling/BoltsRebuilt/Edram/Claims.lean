/-
# What a draw claims, and that the claims hold

The ranges one `Update` claims never overlap: after the elimination of equal
bases the used slots have distinct ones, they are claimed in order, and each
range ends at the next base at the latest, the last one at the first base past
the wrap (`Plan.Sound`, `prepare_sound`).

So no claim of one `Update` takes a tile back from another, and afterwards
every slot owns what it claimed (`claimSlots_holds`).  Claiming again what is
held, or less of it, does nothing at all (`claimSlots_of_holds`), and neither
does finding targets that exist (`findTargets_of_found`).
-/

import BoltsRebuilt.Edram.Update

namespace BoltsRebuilt
namespace Edram

/-! ### The claims of one draw -/

/-- Two claims `(base, slot), length` in order: the first ends before the
second starts, and the second before the first comes around again. -/
def Apart (a b : (ℕ × Slot) × ℕ) : Prop :=
  a.1.1 + a.2 ≤ b.1.1 ∧ b.1.1 + b.2 ≤ kEdramTileCount + a.1.1

/-- What `Update` may rely on of the claims it has gathered. -/
structure Plan.Sound (plan : Plan) : Prop where
  sorted : plan.sorted =
    Draw.edramBasesSorted (fun slot => (plan.keys slot).baseTiles) plan.used
  nonempty : plan.sorted ≠ []
  length : plan.lengths.length = plan.sorted.length
  apart : (plan.sorted.zip plan.lengths).Pairwise Apart
  short : ∀ c ∈ plan.sorted.zip plan.lengths, c.2 ≤ kEdramTileCount

namespace Draw

variable {bases : Slot → BitVec 11} {used : Slot → Bool} {i j : Slot}

instance : Std.Total PairLe where
  total a b := by
    simp only [PairLe, Fin.le_def]
    omega

instance : IsTrans (ℕ × Slot) PairLe where
  trans a b c hab hbc := by
    simp only [PairLe, Fin.le_def] at *
    omega

/-- The sorted bases hold exactly the used slots with their bases. -/
theorem mem_edramBasesSorted {c : ℕ × Slot} :
    c ∈ edramBasesSorted bases used ↔ used c.2 = true ∧ c.1 = (bases c.2).toNat := by
  obtain ⟨base, slot⟩ := c
  rw [edramBasesSorted, List.mem_insertionSort, List.mem_map]
  constructor
  · rintro ⟨slot', hslot, heq⟩
    obtain ⟨rfl, rfl⟩ := Prod.mk.inj heq
    exact ⟨(List.mem_filter.mp hslot).2, rfl⟩
  · rintro ⟨hused, hbase⟩
    exact ⟨slot, List.mem_filter.mpr ⟨List.mem_finRange slot, hused⟩, Prod.ext hbase.symm rfl⟩

/-- They depend on the bases of the used slots alone. -/
theorem edramBasesSorted_congr {bases' : Slot → BitVec 11}
    (h : ∀ slot, used slot = true → bases slot = bases' slot) :
    edramBasesSorted bases used = edramBasesSorted bases' used := by
  unfold edramBasesSorted
  congr 1
  refine List.map_congr_left fun slot hslot => ?_
  rw [h slot (List.mem_filter.mp hslot).2]

/-- Removing a slot's rivals never brings a slot back. -/
theorem eliminate_mono (slots : List Slot) (h : slots.foldl (fun used i other =>
      used other && !((i < other || other = 0) && bases other = bases i)) used j = true) :
    used j = true := by
  induction slots generalizing used with
  | nil => exact h
  | cons i slots ih =>
    have := ih h
    simp only [Bool.and_eq_true] at this
    exact this.1

/-- A slot that was removed from has no rival left. -/
theorem eliminate_rival (slots : List Slot) (hi : i ∈ slots) (hlt : i < j ∨ j = 0)
    (h : slots.foldl (fun used i other =>
      used other && !((i < other || other = 0) && bases other = bases i)) used j = true) :
    bases j ≠ bases i := by
  induction slots generalizing used with
  | nil => cases hi
  | cons k slots ih =>
    rcases List.mem_cons.mp hi with rfl | hi
    · have hkept := eliminate_mono slots h
      simp only [Bool.and_eq_true, Bool.not_eq_true', Bool.and_eq_false_iff] at hkept
      rcases hkept.2 with hno | hne
      · simp only [Bool.or_eq_false_iff, decide_eq_false_iff_not] at hno
        exact absurd hlt (by tauto)
      · simpa using hne
    · exact ih hi h

/-- Of two slots left after conflicts are eliminated, the bases differ. -/
theorem eliminateConflicts_distinct (hi : eliminateConflicts bases used i = true)
    (hj : eliminateConflicts bases used j = true) (hne : i ≠ j) : bases i ≠ bases j := by
  have hslot : ∀ k : Slot, k ≠ 0 → k ∈ ([1, 2, 3, 4] : List Slot) := by decide
  have hmem : ∀ k : Slot, k ≠ 0 → eliminateConflicts bases used k = true →
      k ∈ ([1, 2, 3, 4] : List Slot).filter used :=
    fun k hk h => List.mem_filter.mpr ⟨hslot k hk, eliminate_mono _ h⟩
  -- Of the two, the color slot of the lesser index removes the other.
  by_cases hzero : j = 0
  · exact (eliminate_rival _ (hmem i (fun h => hne (h.trans hzero.symm)) hi) (.inr hzero) hj).symm
  · by_cases hzero' : i = 0
    · exact eliminate_rival _ (hmem j hzero hj) (.inr hzero') hi
    · rcases lt_or_gt_of_ne hne with hlt | hgt
      · exact (eliminate_rival _ (hmem i hzero' hi) (.inl hlt) hj).symm
      · exact eliminate_rival _ (hmem j hzero hj) (.inl hgt) hi

/-- Slots of distinct bases are sorted by their bases alone. -/
theorem edramBasesSorted_strict (h : ∀ i j, used i = true → used j = true → i ≠ j →
    bases i ≠ bases j) : (edramBasesSorted bases used).Pairwise fun a b => a.1 < b.1 := by
  have hnodup : (edramBasesSorted bases used).Nodup := by
    rw [edramBasesSorted, (List.perm_insertionSort _ _).nodup_iff]
    exact ((List.nodup_finRange 5).filter _).map fun a b hab => (Prod.mk.inj hab).2
  refine ((List.Pairwise.and_mem.mp (List.pairwise_insertionSort PairLe _)).and hnodup).imp ?_
  rintro a b ⟨⟨ha, hb, hle⟩, hne⟩
  obtain ⟨hused, hbase⟩ := mem_edramBasesSorted.mp ha
  obtain ⟨hused', hbase'⟩ := mem_edramBasesSorted.mp hb
  rcases hle with hlt | ⟨heq, -⟩
  · exact hlt
  · by_cases hslot : a.2 = b.2
    · exact absurd (Prod.ext heq hslot) hne
    · exact absurd (BitVec.eq_of_toNat_eq (hbase ▸ hbase' ▸ heq)) (h _ _ hused hused' hslot)

/-- What lies between consecutive bases: each end is at most the next base,
and the last end is `last`. -/
theorem zip_ends {sorted : List (ℕ × Slot)} (last : ℕ)
    (hstrict : sorted.Pairwise fun a b => a.1 < b.1) (hlast : ∀ c ∈ sorted, c.1 < last) :
    (sorted.zip (sorted.tail.map Prod.fst ++ [last])).Pairwise (fun a b => a.2 ≤ b.1.1) ∧
      ∀ a ∈ sorted.zip (sorted.tail.map Prod.fst ++ [last]),
        a.1 ∈ sorted ∧ a.1.1 < a.2 ∧ a.2 ≤ last := by
  induction sorted with
  | nil => simp
  | cons x rest ih =>
    obtain ⟨hx, hrest⟩ := List.pairwise_cons.mp hstrict
    obtain ⟨hpair, hmem⟩ := ih hrest (fun c hc => hlast c (by simp [hc]))
    cases rest with
    | nil =>
      refine ⟨by simp, ?_⟩
      simpa using hlast x (by simp)
    | cons y rest =>
      simp only [List.tail_cons, List.map_cons, List.cons_append, List.zip_cons_cons,
        List.pairwise_cons, List.mem_cons, forall_eq_or_imp] at *
      have hle : ∀ a ∈ List.zip (y :: rest) (rest.map Prod.fst ++ [last]), y.1 ≤ a.1.1 := by
        intro a ha
        rcases (hmem a ha).1 with heq | hin
        · rw [heq]
        · exact Nat.le_of_lt (hrest.1 a.1 hin)
      refine ⟨⟨hle, hpair⟩, ⟨.inl trivial, hx.1, Nat.le_of_lt hlast.2.1⟩, fun a ha => ?_⟩
      obtain ⟨hin, hlt, hend⟩ := hmem a ha
      exact ⟨.inr hin, hlt, hend⟩

/-- Pairing a list again with what was computed from its pairs keeps the first components. -/
theorem zip_map_zip {α β γ : Type} (l : List α) (l' : List β) (f : α × β → γ) :
    l.zip ((l.zip l').map f) = (l.zip l').map fun e => (e.1, f e) := by
  induction l generalizing l' with
  | nil => rfl
  | cons a l ih =>
    cases l' with
    | nil => rfl
    | cons b l' => simp [ih]

/-- Ranges cut off at the next base, and for the last one at the first base
after the wrap, are apart. -/
theorem apart_of_cut {x : ℕ × Slot} {rest : List (ℕ × Slot)} {f : (ℕ × Slot) × ℕ → ℕ}
    (hstrict : (x :: rest).Pairwise fun a b => a.1 < b.1)
    (hbase : ∀ c ∈ x :: rest, c.1 < kEdramTileCount) (hcut : ∀ e, f e ≤ e.2 - e.1.1) :
    ((x :: rest).zip (((x :: rest).zip (ends (x :: rest))).map f)).Pairwise Apart ∧
      ∀ c ∈ (x :: rest).zip (((x :: rest).zip (ends (x :: rest))).map f),
        c.2 ≤ kEdramTileCount := by
  obtain ⟨hpair, hmem⟩ := zip_ends (kEdramTileCount + x.1) hstrict
    (fun c hc => by have := hbase c hc; omega)
  have hle : ∀ c ∈ x :: rest, x.1 ≤ c.1 := by
    intro c hc
    rcases List.mem_cons.mp hc with rfl | hc
    · exact Nat.le_refl _
    · exact Nat.le_of_lt ((List.pairwise_cons.mp hstrict).1 c hc)
  have hends : ends (x :: rest) = (x :: rest).tail.map Prod.fst ++ [kEdramTileCount + x.1] := rfl
  rw [zip_map_zip, hends]
  constructor
  · rw [List.pairwise_map]
    refine (List.Pairwise.and_mem.mp hpair).imp ?_
    rintro a b ⟨ha, hb, hend⟩
    obtain ⟨hina, hlta, -⟩ := hmem a ha
    obtain ⟨-, hltb, hlast⟩ := hmem b hb
    have := hcut a
    have := hcut b
    have := hle a.1 hina
    constructor
    · show a.1.1 + f a ≤ b.1.1
      omega
    · show b.1.1 + f b ≤ kEdramTileCount + a.1.1
      omega
  · intro c hc
    obtain ⟨e, he, rfl⟩ := List.mem_map.mp hc
    obtain ⟨hin, hlt, hlast⟩ := hmem e he
    have := hcut e
    have := hle e.1 hin
    show f e ≤ kEdramTileCount
    omega

variable {sdk : Sdk} {config : Config} {d : Draw} {pitchTiles : ℕ} {plan : Plan}

/-- A draw that claims tiles uses at least one slot, and its plan is the one its registers give. -/
theorem prepare_claims (h : d.prepare sdk config = .claims pitchTiles plan) :
    (∃ slot, d.used slot = true) ∧ plan = d.plan sdk config := by
  unfold prepare at h
  generalize d.pitchTilesAt32bpp sdk * _ * _ = width at h
  split_ifs at h with hmsaa hpitch hwidth hnone
  obtain ⟨-, rfl⟩ := Prepared.claims.inj h
  obtain ⟨slot, hslot⟩ := not_forall.mp hnone
  exact ⟨⟨slot, by simpa using hslot⟩, rfl⟩

/-- **The claims of a draw are sound**: whatever the registers hold, the
ranges it claims do not overlap. -/
theorem prepare_sound (h : d.prepare sdk config = .claims pitchTiles plan) : plan.Sound := by
  obtain ⟨⟨slot, hslot⟩, rfl⟩ := prepare_claims h
  have hstrict : (edramBasesSorted d.edramBases d.used).Pairwise fun a b => a.1 < b.1 :=
    edramBasesSorted_strict fun i j hi hj hne => eliminateConflicts_distinct hi hj hne
  have hbase : ∀ c ∈ edramBasesSorted d.edramBases d.used, c.1 < kEdramTileCount := by
    intro c hc
    rw [(mem_edramBasesSorted.mp hc).2]
    exact (d.edramBases c.2).isLt
  have hin : ((d.edramBases slot).toNat, slot) ∈ edramBasesSorted d.edramBases d.used :=
    mem_edramBasesSorted.mpr ⟨hslot, rfl⟩
  cases hsorted : edramBasesSorted d.edramBases d.used with
  | nil =>
    rw [hsorted] at hin
    cases hin
  | cons x rest =>
    rw [hsorted] at hstrict hbase
    exact {
      sorted := rfl
      nonempty := by simp [plan, hsorted]
      length := by simp [plan, hsorted, lengthsTiles, ends]
      apart := by
        simp only [plan, hsorted, lengthsTiles]
        exact (apart_of_cut hstrict hbase fun e => Nat.min_le_right _ _).1
      short := by
        simp only [plan, hsorted, lengthsTiles]
        exact (apart_of_cut hstrict hbase fun e => Nat.min_le_right _ _).2 }

end Draw

/-! ### Claiming -/

namespace Cache

variable {sdk : Sdk} {cache cache' : Cache} {key key' : RenderTargetKey} {slot : Slot}
  {length length' : ℕ}

/-- The ranges of a cache cover an interval from tile 0 on: all of the EDRAM,
or nothing after the shutdown. -/
def Mapped (cache : Cache) : Prop := ∃ hi, Piece.Tiles 0 hi cache.ownershipRanges

/-- A target owns every tile a claim of its covers. -/
def Holds (sdk : Sdk) (cache : Cache) (key : RenderTargetKey) (length : ℕ) : Prop :=
  ∀ t v, Claimant.Covers key.baseTiles.toNat length t → Piece.At cache.ownershipRanges t v →
    sdk.isOwnedBy v key (cache.hostDepth sdk key) = true

/-- A shorter claim covers fewer tiles, even around the end of the EDRAM. -/
theorem covers_mono {start : ℕ} {t : ℕ} (h : Claimant.Covers start length' t)
    (hle : length' ≤ length) (hshort : length ≤ kEdramTileCount) (hstart : start < kEdramTileCount) :
    Claimant.Covers start length t := by
  unfold Claimant.Covers kEdramTileCount at *
  omega

/-- Who holds a range holds every shorter one from the same start. -/
theorem Holds.mono (h : cache.Holds sdk key length) (hle : length' ≤ length)
    (hshort : length ≤ kEdramTileCount) : cache.Holds sdk key length' :=
  fun t v ht hv => h t v (covers_mono ht hle hshort key.baseTiles.isLt) hv

/-- A claim starts at its key's base. -/
theorem startTiles_claimant (cutout : Option Rectangle) :
    (cache.claimant sdk key cutout).startTiles 0 = key.baseTiles.toNat :=
  Nat.mod_eq_of_lt key.baseTiles.isLt

variable (key slot length) in
/-- **One slot's claim**: the tiles it covers take the claimant as owner, and every other tile keeps
the owner it had. -/
theorem claimSlot_spec (hsdk : sdk.Documented) (h : cache.Mapped) :
    (cache.claimSlot sdk key slot length).Mapped ∧
      ∀ t v', Piece.At (cache.claimSlot sdk key slot length).ownershipRanges t v' ↔
        ∃ v, Piece.At cache.ownershipRanges t v ∧
          v' = Claimant.taken sdk (cache.claimant sdk key none)
            (Claimant.Covers key.baseTiles.toNat length t) v := by
  obtain ⟨hi, htiles⟩ := h
  obtain ⟨htiles', hat⟩ := Claimant.at_changeOwnership (cache.claimant sdk key none)
    (if cache.config.path = .kPixelShaderInterlock then none
      else some (cache.lastUpdateTransfers slot)) 0 length hsdk htiles
  rw [startTiles_claimant] at hat
  exact ⟨⟨hi, htiles'⟩, hat⟩

/-- A claim leaves the configuration alone. -/
@[simp] theorem config_claimSlot : (cache.claimSlot sdk key slot length).config = cache.config := rfl

/-- A claim makes no render target. -/
@[simp] theorem renderTargets_claimSlot :
    (cache.claimSlot sdk key slot length).renderTargets = cache.renderTargets := rfl

/-- A claim changes no host depth copy. -/
@[simp] theorem hostDepth_claimSlot :
    (cache.claimSlot sdk key slot length).hostDepth sdk key' = cache.hostDepth sdk key' := rfl

/-- A claim is held once it is made: every tile it covers has the claimant as its owner. -/
theorem holds_claimSlot (hsdk : sdk.Documented) (h : cache.Mapped) :
    (cache.claimSlot sdk key slot length).Holds sdk key length := by
  intro t v' ht hv'
  obtain ⟨v, hv, rfl⟩ := ((claimSlot_spec _ _ _ hsdk h).2 t v').mp hv'
  by_cases howns : (cache.claimant sdk key none).owns sdk v = true
  · rw [Claimant.taken_of_owns howns]
    exact howns
  · rw [Claimant.taken, if_pos ⟨ht, howns⟩]
    exact Claimant.owns_claim hsdk

/-- A claim is held until another one overlaps it. -/
theorem Holds.claimSlot (h' : cache.Holds sdk key' length') (hsdk : sdk.Documented)
    (h : cache.Mapped)
    (happart : ∀ t, Claimant.Covers key'.baseTiles.toNat length' t →
      ¬ Claimant.Covers key.baseTiles.toNat length t) :
    (cache.claimSlot sdk key slot length).Holds sdk key' length' := by
  intro t v' ht hv'
  obtain ⟨v, hv, rfl⟩ := ((claimSlot_spec _ _ _ hsdk h).2 t v').mp hv'
  rw [Claimant.taken, if_neg fun hnot => happart t ht hnot.1]
  exact h' t v ht hv

/-- Claiming what is held already does nothing to the cache: no owner changes, no transfer is listed
and no range is cut. -/
theorem claimSlot_of_holds (h : cache.Mapped) (hholds : cache.Holds sdk key length) :
    cache.claimSlot sdk key slot length = cache := by
  obtain ⟨hi, htiles⟩ := h
  have hchanged := fun out => Claimant.changeOwnership_of_owned (cache.claimant sdk key none) out
    0 length htiles fun t v ht hv => hholds t v (startTiles_claimant none ▸ ht) hv
  simp only [claimSlot, hchanged]
  split_ifs <;> simp

/-! ### All the claims of a draw -/

variable {keys : Slot → RenderTargetKey} {claims : List ((ℕ × Slot) × ℕ)}

/-- The claims in order, each of the slot's key. -/
def claimAll (sdk : Sdk) (keys : Slot → RenderTargetKey) (claims : List ((ℕ × Slot) × ℕ))
    (cache : Cache) : Cache :=
  claims.foldl (fun cache claim => cache.claimSlot sdk (keys claim.1.2) claim.1.2 claim.2) cache

variable (sdk) in
/-- All claims of a draw leave the configuration, the render targets and the host depth alone. -/
theorem claimAll_fixed : (claimAll sdk keys claims cache).config = cache.config ∧
    (claimAll sdk keys claims cache).renderTargets = cache.renderTargets ∧
    ∀ key, (claimAll sdk keys claims cache).hostDepth sdk key = cache.hostDepth sdk key := by
  induction claims generalizing cache with
  | nil => exact ⟨rfl, rfl, fun _ => rfl⟩
  | cons c claims ih => exact @ih (cache.claimSlot sdk (keys c.1.2) c.1.2 c.2)

/-- The claims of a draw keep the map of owners: its ranges still lie side by side from the first
tile to the last. -/
theorem Mapped.claimAll (h : cache.Mapped) (hsdk : sdk.Documented) :
    (claimAll sdk keys claims cache).Mapped := by
  induction claims generalizing cache with
  | nil => exact h
  | cons c claims ih => exact ih (claimSlot_spec _ _ _ hsdk h).1

/-- What a claim apart from all the others holds, it still holds after them. -/
theorem Holds.claimAll (h' : cache.Holds sdk key' length') (h : cache.Mapped)
    (hsdk : sdk.Documented) (happart : ∀ c ∈ claims, ∀ t,
      Claimant.Covers key'.baseTiles.toNat length' t →
      ¬ Claimant.Covers (keys c.1.2).baseTiles.toNat c.2 t) :
    (Cache.claimAll sdk keys claims cache).Holds sdk key' length' := by
  induction claims generalizing cache with
  | nil => exact h'
  | cons c claims ih =>
    exact ih (h'.claimSlot hsdk h (happart c (by simp))) (claimSlot_spec _ _ _ hsdk h).1
      fun d hd => happart d (by simp [hd])

/-- Two claims that are apart cover no tile in common. -/
theorem not_covers_of_apart {a b : (ℕ × Slot) × ℕ} (h : Apart a b) (ha : a.1.1 < kEdramTileCount)
    (hb : b.1.1 < kEdramTileCount) (t : ℕ) (ht : Claimant.Covers a.1.1 a.2 t) :
    ¬ Claimant.Covers b.1.1 b.2 t := by
  unfold Apart at h
  unfold Claimant.Covers at *
  unfold kEdramTileCount at *
  omega

/-- **After the claims of a draw every slot holds its range**, because no
later one takes a tile of it. -/
theorem holds_claimAll (hsdk : sdk.Documented) (h : cache.Mapped)
    (hbase : ∀ c ∈ claims, c.1.1 = (keys c.1.2).baseTiles.toNat) (happart : claims.Pairwise Apart) :
    ∀ c ∈ claims, (claimAll sdk keys claims cache).Holds sdk (keys c.1.2) c.2 := by
  induction claims generalizing cache with
  | nil => simp
  | cons d claims ih =>
    obtain ⟨hd, hrest⟩ := List.pairwise_cons.mp happart
    have hmapped := (claimSlot_spec (keys d.1.2) d.1.2 d.2 hsdk h).1
    intro c hc
    rcases List.mem_cons.mp hc with rfl | hc
    · refine (holds_claimSlot hsdk h).claimAll hmapped hsdk fun e he t ht => ?_
      have hbaseC := hbase c (by simp)
      have hbaseE := hbase e (by simp [he])
      rw [← hbaseC] at ht
      rw [← hbaseE]
      exact not_covers_of_apart (hd e he) (hbaseC ▸ (keys c.1.2).baseTiles.isLt)
        (hbaseE ▸ (keys e.1.2).baseTiles.isLt) t ht
    · exact ih hmapped (fun e he => hbase e (by simp [he])) hrest c hc

/-- Claims that are all held do nothing, by induction on the claims. This is what the memo relies
on. -/
theorem claimAll_of_holds (h : cache.Mapped)
    (hholds : ∀ c ∈ claims, cache.Holds sdk (keys c.1.2) c.2) :
    claimAll sdk keys claims cache = cache := by
  induction claims with
  | nil => rfl
  | cons c claims ih =>
    rw [claimAll, List.foldl_cons, claimSlot_of_holds h (hholds c (by simp))]
    exact ih fun d hd => hholds d (by simp [hd])

/-! ### Finding the targets -/

/-- The same cache with perhaps more targets: no range has changed, and no key
has another target. -/
structure Extends (cache cache' : Cache) : Prop where
  config : cache'.config = cache.config
  ranges : cache'.ownershipRanges = cache.ownershipRanges
  targets : ∀ key target, cache.renderTargets.lookup key = some target →
    cache'.renderTargets.lookup key = some target

/-- A cache extends itself. -/
theorem Extends.refl : Extends cache cache := ⟨rfl, rfl, fun _ _ h => h⟩

/-- Extending is transitive. -/
theorem Extends.trans {cache'' : Cache} (h : Extends cache cache') (h' : Extends cache' cache'') :
    Extends cache cache'' where
  config := h'.config.trans h.config
  ranges := h'.ranges.trans h.ranges
  targets key target hlookup := h'.targets key target (h.targets key target hlookup)

/-- An extension has the same map of owners, so it covers the EDRAM when the cache does. -/
theorem Extends.mapped (h : Extends cache cache') (hmapped : cache.Mapped) : cache'.Mapped := by
  unfold Mapped
  rwa [h.ranges]

/-- So who held a range of tiles holds it in the extension. -/
theorem Extends.holds (h : Extends cache cache') (hholds : cache.Holds sdk key length) :
    cache'.Holds sdk key length := by
  intro t v ht hv
  rw [h.ranges] at hv
  have hdepth : cache'.hostDepth sdk key = cache.hostDepth sdk key := by
    simp [hostDepth, isHostDepthEncodingDifferent, h.config]
  rw [hdepth]
  exact hholds t v ht hv

variable (cache key) in
/-- `GetOrCreateRenderTarget` adds at most one render target, and answers with what is then stored
under the key. -/
theorem getOrCreate_spec (create : RenderTargetKey → Option ℕ) :
    Extends cache (cache.getOrCreateRenderTarget create key).1 ∧
      (cache.getOrCreateRenderTarget create key).1.renderTargets.lookup key =
        some (cache.getOrCreateRenderTarget create key).2 := by
  unfold getOrCreateRenderTarget
  split
  · rename_i target hlookup
    exact ⟨.refl, hlookup⟩
  · rename_i hnone
    refine ⟨⟨rfl, rfl, fun key' target hlookup => ?_⟩, ?_⟩
    · simp [List.lookup_append, hlookup]
    · simp [List.lookup_append, hnone]

/-- A render target found, or a failure remembered, is answered without any change. -/
theorem getOrCreate_of_found {create : RenderTargetKey → Option ℕ} {target : Option RenderTarget}
    (h : cache.renderTargets.lookup key = some target) :
    cache.getOrCreateRenderTarget create key = (cache, target) := by
  simp only [getOrCreateRenderTarget, h]

variable {create : RenderTargetKey → Option ℕ} {sorted : List (ℕ × Slot)}
  {rts : Slot → Option RenderTarget}

variable (cache create keys sorted rts) in
/-- Finding the targets of a plan one by one extends the cache. -/
theorem extends_findTargets : Extends cache (findTargets create keys sorted cache rts).1 := by
  induction sorted generalizing cache rts with
  | nil => exact .refl
  | cons c sorted ih =>
    obtain ⟨base, slot⟩ := c
    have hextends := (getOrCreate_spec cache (keys slot) create).1
    rw [findTargets]
    split
    · rename_i hgot
      rwa [hgot] at hextends
    · rename_i hgot
      rw [hgot] at hextends
      exact hextends.trans (ih _ _)

/-- When every target is found, the slots have the targets of their keys. -/
theorem findTargets_found {rts' : Slot → Option RenderTarget}
    (h : (findTargets create keys sorted cache rts).2 = some rts') :
    (∀ slot, (∀ c ∈ sorted, c.2 ≠ slot) → rts' slot = rts slot) ∧
      ∀ c ∈ sorted, ∃ target, rts' c.2 = some target ∧
        (findTargets create keys sorted cache rts).1.renderTargets.lookup (keys c.2) =
          some (some target) := by
  induction sorted generalizing cache rts with
  | nil =>
    cases h
    exact ⟨fun _ _ => rfl, by simp⟩
  | cons c sorted ih =>
    obtain ⟨base, slot⟩ := c
    have hlookup := (getOrCreate_spec cache (keys slot) create).2
    rw [findTargets] at h ⊢
    split at h
    · cases h
    · rename_i cache₁ target hgot
      rw [hgot] at hlookup
      obtain ⟨hother, hfound⟩ := ih h
      refine ⟨fun slot' hne => ?_, fun c hc => ?_⟩
      · rw [hother slot' fun c hc => hne c (by simp [hc]),
          Function.update_of_ne fun heq => hne (base, slot) (by simp) heq.symm]
      · by_cases hin : ∃ c' ∈ sorted, c'.2 = c.2
        · obtain ⟨c', hc', heq⟩ := hin
          rw [← heq]
          exact hfound c' hc'
        · rcases List.mem_cons.mp hc with rfl | hc
          · refine ⟨target, ?_, (extends_findTargets _ _ _ _ _).targets _ _ hlookup⟩
            rw [hother slot fun c' hc' heq => hin ⟨c', hc', heq⟩, Function.update_self]
          · exact absurd ⟨c, hc, rfl⟩ hin

variable (create rts) in
/-- Targets that exist are found, and the cache stays as it is. -/
theorem findTargets_of_found (targets : Slot → Option RenderTarget)
    (h : ∀ c ∈ sorted, ∃ target, targets c.2 = some target ∧
      cache.renderTargets.lookup (keys c.2) = some (some target)) :
    ∃ rts', findTargets create keys sorted cache rts = (cache, some rts') ∧
      ∀ c ∈ sorted, rts' c.2 = targets c.2 := by
  induction sorted generalizing rts with
  | nil => exact ⟨rts, rfl, by simp⟩
  | cons c sorted ih =>
    obtain ⟨base, slot⟩ := c
    obtain ⟨target, htarget, hlookup⟩ := h (base, slot) (by simp)
    obtain ⟨rts', hrest, hsame⟩ := @ih (Function.update rts slot (some target))
      fun c hc => h c (by simp [hc])
    have hfind : findTargets create keys ((base, slot) :: sorted) cache rts = (cache, some rts') := by
      rw [findTargets, getOrCreate_of_found hlookup]
      exact hrest
    refine ⟨rts', hfind, fun c hc => ?_⟩
    by_cases hin : ∃ c' ∈ sorted, c'.2 = c.2
    · obtain ⟨c', hc', heq⟩ := hin
      rw [← heq]
      exact hsame c' hc'
    · rcases List.mem_cons.mp hc with rfl | hc
      · obtain ⟨hother, -⟩ := findTargets_found (congrArg Prod.snd hrest)
        rw [hother slot fun c' hc' heq => hin ⟨c', hc', heq⟩, Function.update_self]
        exact htarget.symm
      · exact absurd ⟨c, hc, rfl⟩ hin

end Cache

end Edram
end BoltsRebuilt
