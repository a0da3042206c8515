/-
# The cap on excess invalidation

`src/gpu/native/native_invalidation_range.h`: `CapNativeInvalidationRange` (lines
19-29), `NativeInvalidationPageCount`, `NativeInvalidationPageMask` and
`NativeRetainedCpuPages` (lines 31-49).

A write to some pages makes more of them invalid.  The cap takes that back to the
blocks of 64 KiB the write is in (`has_cap`); what it leaves valid is counted word
by word (`nativeRetainedCpuPages_eq`).

A range is its first and its last page, 32-bit numbers.
-/

import BoltsRebuilt.Ranges.Scan

namespace BoltsRebuilt
namespace Ranges

open TextureCache (bitsBelow)

/-- `NativeInvalidationRange`: inclusive page indices. -/
structure InvalidationRange where
  first : BitVec 32
  last : BitVec 32
  deriving DecidableEq, Repr

namespace InvalidationRange

/-- The page is in the range. -/
def Has (r : InvalidationRange) (page : ℕ) : Prop := r.first.toNat ≤ page ∧ page ≤ r.last.toNat

instance (r : InvalidationRange) (page : ℕ) : Decidable (r.Has page) := instDecidableAnd

end InvalidationRange

/-- `CapNativeInvalidationRange`. -/
def capNativeInvalidationRange (requested original : InvalidationRange) (hostPageSizeLog2 : ℕ)
    (exact enabled : Bool) : InvalidationRange :=
  if enabled = false ∨ exact = true ∨ 32 ≤ hostPageSizeLog2 ∨ requested.last < requested.first ∨
      requested.first < original.first ∨ original.last < requested.last then original
  else
    let blockLog2 := if hostPageSizeLog2 < 16 then 16 - hostPageSizeLog2 else 0
    let blockMask := bitsBelow 32 blockLog2
    let first := requested.first &&& ~~~blockMask
    let last := requested.last ||| blockMask
    { first := if original.first < first then first else original.first
      last := if last < original.last then last else original.last }

/-- `NativeInvalidationPageCount`. -/
def nativeInvalidationPageCount (range : InvalidationRange) : BitVec 64 :=
  if range.first ≤ range.last then range.last.setWidth 64 - range.first.setWidth 64 + 1 else 0

/-- `NativeInvalidationPageMask`. -/
def nativeInvalidationPageMask (range : InvalidationRange) (block : ℕ) : BitVec 64 :=
  if range.last < range.first ∨ block < (range.first >>> 6).toNat ∨ (range.last >>> 6).toNat < block
  then 0
  else
    let mask := BitVec.allOnes 64
    let mask := if block = (range.first >>> 6).toNat
      then mask &&& (BitVec.allOnes 64 <<< (range.first &&& 63).toNat) else mask
    if block = (range.last >>> 6).toNat
    then mask &&& (BitVec.allOnes 64 >>> (63 - (range.last &&& 63).toNat)) else mask

/-- `std::popcount`. -/
def popcount (x : BitVec 64) : ℕ := (List.range 64).countP fun j => x.getLsbD j

/-- `NativeRetainedCpuPages`. -/
def nativeRetainedCpuPages (original selected : InvalidationRange) (block : ℕ)
    (valid gpuWritten : BitVec 64) : ℕ :=
  popcount (valid &&& ~~~gpuWritten &&& nativeInvalidationPageMask original block &&&
    ~~~nativeInvalidationPageMask selected block)

/-! ### Blocks of 64 KiB -/

/-- The two pages have bytes in one block of 64 KiB. -/
def SharesBlock (pageSizeLog2 page page' : ℕ) : Prop :=
  ∃ byte byte', byte / 2 ^ pageSizeLog2 = page ∧ byte' / 2 ^ pageSizeLog2 = page' ∧
    byte / 2 ^ 16 = byte' / 2 ^ 16

/-- Two pages share a block when they agree above its bits. -/
theorem sharesBlock_iff {pageSizeLog2 page page' : ℕ} :
    SharesBlock pageSizeLog2 page page' ↔
      page / 2 ^ (16 - pageSizeLog2) = page' / 2 ^ (16 - pageSizeLog2) := by
  have hsize : 0 < 2 ^ pageSizeLog2 := Nat.two_pow_pos _
  rcases Nat.le_total pageSizeLog2 16 with hle | hle
  · have hblock : ∀ byte, byte / 2 ^ 16 = byte / 2 ^ pageSizeLog2 / 2 ^ (16 - pageSizeLog2) := by
      intro byte
      rw [Nat.div_div_eq_div_mul, ← Nat.pow_add, Nat.add_sub_cancel' hle]
    constructor
    · rintro ⟨byte, byte', rfl, rfl, heq⟩
      rw [← hblock, ← hblock, heq]
    · intro heq
      refine ⟨page * 2 ^ pageSizeLog2, page' * 2 ^ pageSizeLog2, Nat.mul_div_cancel _ hsize,
        Nat.mul_div_cancel _ hsize, ?_⟩
      rw [hblock, hblock, Nat.mul_div_cancel _ hsize, Nat.mul_div_cancel _ hsize, heq]
  · -- a page holds whole blocks
    have hpage : ∀ byte, byte / 2 ^ pageSizeLog2 = byte / 2 ^ 16 / 2 ^ (pageSizeLog2 - 16) := by
      intro byte
      rw [Nat.div_div_eq_div_mul, ← Nat.pow_add, Nat.add_sub_cancel' hle]
    rw [Nat.sub_eq_zero_of_le hle, Nat.pow_zero, Nat.div_one, Nat.div_one]
    constructor
    · rintro ⟨byte, byte', rfl, rfl, heq⟩
      rw [hpage, hpage, heq]
    · rintro rfl
      exact ⟨page * 2 ^ pageSizeLog2, _, Nat.mul_div_cancel _ hsize, Nat.mul_div_cancel _ hsize, rfl⟩

/-- With its low bits cleared a number is rounded down to a multiple of the power. -/
theorem toNat_and_not_bitsBelow (x : BitVec 32) {b : ℕ} (hb : b < 32) :
    (x &&& ~~~bitsBelow 32 b).toNat = x.toNat / 2 ^ b * 2 ^ b := by
  refine Nat.eq_of_testBit_eq fun j => ?_
  rw [BitVec.testBit_toNat, BitVec.getLsbD_and, BitVec.getLsbD_not,
    TextureCache.getLsbD_bitsBelow hb, Nat.testBit_mul_two_pow, Nat.testBit_div_two_pow]
  by_cases hj : b ≤ j
  · rw [Nat.sub_add_cancel hj, BitVec.testBit_toNat]
    by_cases hj' : j < 32
    · simp [hj, hj', Nat.not_lt.2 hj]
    · simp [BitVec.getLsbD_of_ge x j (by omega)]
  · simp [hj, Nat.lt_of_not_le hj]

/-- With its low bits set it is the last number before the next multiple. -/
theorem toNat_or_bitsBelow (x : BitVec 32) {b : ℕ} (hb : b < 32) :
    (x ||| bitsBelow 32 b).toNat = 2 ^ b * (x.toNat / 2 ^ b) + (2 ^ b - 1) := by
  refine Nat.eq_of_testBit_eq fun j => ?_
  have hlt : 2 ^ b - 1 < 2 ^ b := Nat.sub_lt (Nat.two_pow_pos b) Nat.one_pos
  rw [BitVec.testBit_toNat, BitVec.getLsbD_or, TextureCache.getLsbD_bitsBelow hb,
    Nat.testBit_two_pow_mul_add _ hlt, Nat.testBit_two_pow_sub_one, Nat.testBit_div_two_pow]
  by_cases hj : j < b
  · simp [hj]
  · rw [if_neg hj, Nat.sub_add_cancel (Nat.not_lt.1 hj), BitVec.testBit_toNat]
    simp [hj]

/-- The request lies in the original range. -/
def InvalidationRange.Contains (original requested : InvalidationRange) : Prop :=
  original.first.toNat ≤ requested.first.toNat ∧ requested.last.toNat ≤ original.last.toNat

instance (original requested : InvalidationRange) : Decidable (original.Contains requested) :=
  instDecidableAnd

/-- Where the cap does not apply the range is left as it is. -/
theorem cap_eq_original {requested original : InvalidationRange} {hostPageSizeLog2 : ℕ}
    {exact enabled : Bool}
    (h : ¬(enabled = true ∧ exact = false ∧ hostPageSizeLog2 < 32 ∧
      requested.first.toNat ≤ requested.last.toNat ∧ original.Contains requested)) :
    capNativeInvalidationRange requested original hostPageSizeLog2 exact enabled = original := by
  rw [capNativeInvalidationRange, if_pos]
  by_contra hnot
  simp only [not_or, Bool.not_eq_false, Bool.not_eq_true, not_le, BitVec.lt_def, not_lt] at hnot
  obtain ⟨henabled, hexact, hlog, hne, hfirst, hlast⟩ := hnot
  exact h ⟨henabled, hexact, hlog, hne, hfirst, hlast⟩

/-- The capped range as numbers: the requested one widened to host pages, inside the original. -/
theorem toNat_cap {requested original : InvalidationRange} {hostPageSizeLog2 : ℕ}
    (hlog : hostPageSizeLog2 < 32) (hne : requested.first.toNat ≤ requested.last.toNat)
    (hsub : original.Contains requested) :
    let cap := capNativeInvalidationRange requested original hostPageSizeLog2 false true
    let size := 2 ^ (16 - hostPageSizeLog2)
    cap.first.toNat = max original.first.toNat (requested.first.toNat / size * size) ∧
      cap.last.toNat = min original.last.toNat (size * (requested.last.toNat / size) + (size - 1)) := by
  obtain ⟨hfirst, hlast⟩ := hsub
  have hcond : ¬(true = false ∨ false = true ∨ 32 ≤ hostPageSizeLog2 ∨
      requested.last < requested.first ∨ requested.first < original.first ∨
        original.last < requested.last) := by
    simp only [BitVec.lt_def]
    simp
    omega
  have hblock : (if hostPageSizeLog2 < 16 then 16 - hostPageSizeLog2 else 0) = 16 - hostPageSizeLog2 := by
    split <;> omega
  rw [capNativeInvalidationRange, if_neg hcond]
  dsimp only
  rw [hblock, ← toNat_and_not_bitsBelow _ (by omega), ← toNat_or_bitsBelow _ (by omega)]
  simp only [BitVec.lt_def]
  constructor
  · split <;> omega
  · split <;> omega

/-- The capped range lies between the request and the original range. -/
theorem cap_between {requested original : InvalidationRange} {hostPageSizeLog2 : ℕ}
    {exact enabled : Bool} (hne : requested.first.toNat ≤ requested.last.toNat)
    (hsub : original.Contains requested) :
    (capNativeInvalidationRange requested original hostPageSizeLog2 exact enabled).Contains requested ∧
      original.Contains
        (capNativeInvalidationRange requested original hostPageSizeLog2 exact enabled) := by
  by_cases hcap : enabled = true ∧ exact = false ∧ hostPageSizeLog2 < 32
  · obtain ⟨rfl, rfl, hlog⟩ := hcap
    obtain ⟨hfirst, hlast⟩ := toNat_cap hlog hne hsub
    have hsize : 0 < 2 ^ (16 - hostPageSizeLog2) := Nat.two_pow_pos _
    have hdown := Nat.div_mul_le_self requested.first.toNat (2 ^ (16 - hostPageSizeLog2))
    have hup := Nat.lt_mul_div_succ requested.last.toNat hsize
    rw [Nat.mul_add, Nat.mul_one] at hup
    obtain ⟨hsub₁, hsub₂⟩ := hsub
    simp only [InvalidationRange.Contains]
    rw [hfirst, hlast]
    omega
  · rw [cap_eq_original fun h => hcap ⟨h.1, h.2.1, h.2.2.1⟩]
    exact ⟨hsub, le_rfl, le_rfl⟩

/-- **The cap is the hull.**  A request that is not empty and lies in the original range
keeps the pages of that range that have bytes in a block of 64 KiB the request has bytes in. -/
theorem has_cap {requested original : InvalidationRange} {hostPageSizeLog2 : ℕ}
    (hlog : hostPageSizeLog2 < 32) (hne : requested.first.toNat ≤ requested.last.toNat)
    (hsub : original.Contains requested) (page : ℕ) :
    (capNativeInvalidationRange requested original hostPageSizeLog2 false true).Has page ↔
      original.Has page ∧ ∃ page', requested.Has page' ∧ SharesBlock hostPageSizeLog2 page page' := by
  obtain ⟨hfirst, hlast⟩ := toNat_cap hlog hne hsub
  set b := 16 - hostPageSizeLog2 with hb
  have hsize : 0 < 2 ^ b := Nat.two_pow_pos _
  have hlow : requested.first.toNat / 2 ^ b * 2 ^ b ≤ page ↔
      requested.first.toNat / 2 ^ b ≤ page / 2 ^ b := (Nat.le_div_iff_mul_le hsize).symm
  have hhigh : page ≤ 2 ^ b * (requested.last.toNat / 2 ^ b) + (2 ^ b - 1) ↔
      page / 2 ^ b ≤ requested.last.toNat / 2 ^ b := by
    rw [← Nat.lt_succ_iff, ← Nat.lt_succ_iff, Nat.div_lt_iff_lt_mul hsize, Nat.succ_mul,
      Nat.mul_comm (2 ^ b)]
    omega
  simp only [InvalidationRange.Has]
  rw [hfirst, hlast, max_le_iff, le_min_iff, hlow, hhigh]
  constructor
  · rintro ⟨⟨h₁, h₂⟩, h₃, h₄⟩
    refine ⟨⟨h₁, h₃⟩, ?_⟩
    -- the page of the request that is next
    refine ⟨max requested.first.toNat (min page requested.last.toNat), ⟨le_max_left .., ?_⟩, ?_⟩
    · omega
    · rw [sharesBlock_iff]
      rcases Nat.lt_or_ge page requested.first.toNat with hlt | hge
      · rw [max_eq_left (by omega)]
        exact le_antisymm (Nat.div_le_div_right hlt.le) h₂
      · rcases Nat.lt_or_ge requested.last.toNat page with hlt' | hge'
        · rw [min_eq_right hlt'.le, max_eq_right hne]
          exact le_antisymm h₄ (Nat.div_le_div_right hlt'.le)
        · rw [min_eq_left hge', max_eq_right hge]
  · rintro ⟨⟨h₁, h₃⟩, page', ⟨hge, hle⟩, hshare⟩
    rw [sharesBlock_iff] at hshare
    exact ⟨⟨h₁, hshare ▸ Nat.div_le_div_right hge⟩, h₃, hshare ▸ Nat.div_le_div_right hle⟩

/-! ### Masks of a word -/

/-- The word of a page, on naturals. -/
theorem toNat_page_shift (x : BitVec 32) : (x >>> 6).toNat = x.toNat / 64 := by
  rw [BitVec.toNat_ushiftRight, Nat.shiftRight_eq_div_pow]

/-- And its bit. -/
theorem toNat_page_bit (x : BitVec 32) : (x &&& 63).toNat = x.toNat % 64 := by
  rw [BitVec.toNat_and]
  exact Nat.and_two_pow_sub_one_eq_mod x.toNat 6

/-- The mask of a word selects the pages of the range. -/
theorem getLsbD_nativeInvalidationPageMask (range : InvalidationRange) (block : ℕ) {j : ℕ}
    (hj : j < 64) :
    (nativeInvalidationPageMask range block).getLsbD j = decide (range.Has (64 * block + j)) := by
  have hdec : decide (range.Has (64 * block + j)) =
      decide (range.first.toNat ≤ 64 * block + j ∧ 64 * block + j ≤ range.last.toNat) :=
    decide_eq_decide.2 Iff.rfl
  rw [nativeInvalidationPageMask, hdec]
  simp only [toNat_page_shift, toNat_page_bit, BitVec.lt_def]
  by_cases hout : range.last.toNat < range.first.toNat ∨ block < range.first.toNat / 64 ∨
      range.last.toNat / 64 < block
  · rw [if_pos hout]
    show BitVec.getLsbD 0#64 j = _
    rw [BitVec.getLsbD_zero, eq_comm, decide_eq_false_iff_not]
    omega
  · rw [if_neg hout]
    have hlow : (if block = range.first.toNat / 64
        then BitVec.allOnes 64 &&& (BitVec.allOnes 64 <<< (range.first.toNat % 64))
        else BitVec.allOnes 64).getLsbD j = decide (range.first.toNat ≤ 64 * block + j) := by
      split
      · rw [BitVec.getLsbD_and, BitVec.getLsbD_shiftLeft, BitVec.getLsbD_allOnes, decide_eq_true hj,
          BitVec.getLsbD_allOnes, Bool.true_and, Bool.true_and, ← decide_not, ← Bool.decide_and,
          decide_eq_decide]
        omega
      · rw [BitVec.getLsbD_allOnes, decide_eq_decide]
        omega
    split
    · rw [BitVec.getLsbD_and, hlow, BitVec.getLsbD_ushiftRight, BitVec.getLsbD_allOnes,
        ← Bool.decide_and, decide_eq_decide]
      omega
    · rw [hlow, decide_eq_decide]
      omega

/-- The flag of a page. -/
def cpuValid (valid gpuWritten : ℕ → BitVec 64) (page : ℕ) : Bool :=
  pageValid valid page && !pageValid gpuWritten page

/-- The pages that the narrower range leaves valid, in one word. -/
theorem nativeRetainedCpuPages_eq (original selected : InvalidationRange) (block : ℕ)
    (valid gpuWritten : ℕ → BitVec 64) :
    nativeRetainedCpuPages original selected block (valid block) (gpuWritten block) =
      (List.range' (64 * block) 64).countP fun page =>
        cpuValid valid gpuWritten page && decide (original.Has page ∧ ¬ selected.Has page) := by
  rw [nativeRetainedCpuPages, popcount, List.range'_eq_map_range, List.countP_map]
  refine List.countP_congr fun j hj => ?_
  have hj' : j < 64 := List.mem_range.1 hj
  rw [BitVec.getLsbD_and, BitVec.getLsbD_and, BitVec.getLsbD_and, BitVec.getLsbD_not,
    BitVec.getLsbD_not, decide_eq_true hj', getLsbD_nativeInvalidationPageMask _ _ hj',
    getLsbD_nativeInvalidationPageMask _ _ hj', Function.comp, cpuValid, pageValid, pageValid,
    show (64 * block + j) / 64 = block by omega, show (64 * block + j) % 64 = j by omega]
  simp [Bool.and_assoc]

end Ranges
end BoltsRebuilt
