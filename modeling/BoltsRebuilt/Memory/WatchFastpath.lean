/-
# Watches that are already enabled

src/src/runtime/watch_fastpath.h: `AllNotificationPagesWatched` and
`AllGuestPagesImmutable`, which let the runtime skip the loop that enables the watches
of a range of system pages (src/cmake/runtime_watch_replacement.txt).

Both look at the ends of the range only: an address, a saturating subtraction and a
shift are monotone, so what holds of the last page's guest index holds of all
(`guestPage_mono`), and where a guest page is larger than a system page the index rises
by one at most, so none between the two ends is left out (`guestPage_surjective`).

The loop they stand for is the one the tests spell out
(src/tools/test_watch_fastpath.cpp): a 32-bit counter, a 32-bit product that may wrap,
and two lookups that may be out of range.  What it does to a page that has to be watched
is the SDK's, and a parameter here.
-/

import Mathlib.Algebra.GroupWithZero.Nat
import Mathlib.Algebra.Ring.Int.Defs
import Mathlib.Order.Nat

namespace BoltsRebuilt
namespace Watch

/-! ### Loops that stop at their last value -/

/-- `for (x = first;; ++x) { if (!p(x)) return false; if (x == last) return true; }` -/
def scanTo (p : ℕ → Bool) (last : ℕ) : ℕ → ℕ → Option Bool
  | 0, _ => none
  | fuel + 1, x => if !p x then some false else if x = last then some true else scanTo p last fuel (x + 1)

/-- The loop looks at every value there is up to its last, and with enough fuel it comes to an end. -/
theorem scanTo_eq {p : ℕ → Bool} {last fuel x : ℕ} (hx : x ≤ last) (hfuel : last - x < fuel) :
    ∃ b, scanTo p last fuel x = some b ∧ (b = true ↔ ∀ y, x ≤ y → y ≤ last → p y = true) := by
  induction fuel generalizing x with
  | zero => omega
  | succ fuel ih =>
      rw [scanTo]
      by_cases hp : p x = true
      · rw [hp, Bool.not_true, if_neg Bool.false_ne_true]
        by_cases hlast : x = last
        · refine ⟨true, if_pos hlast, fun _ y hy hy' => ?_, fun _ => rfl⟩
          rwa [show y = x by omega]
        · obtain ⟨b, hb, hiff⟩ := ih (show x + 1 ≤ last by omega) (by omega)
          refine ⟨b, (if_neg hlast).trans hb, hiff.trans ⟨fun h y hy hy' => ?_, fun h y hy => h y (by omega)⟩⟩
          rcases Nat.eq_or_lt_of_le hy with rfl | hlt
          · exact hp
          · exact h y hlt hy'
      · refine ⟨false, by rw [Bool.eq_false_iff.2 hp]; rfl, fun h => absurd h Bool.false_ne_true, fun h => ?_⟩
        exact absurd (h x le_rfl hx) hp

/-- A function that rises by one at most takes every value between its ends. -/
theorem exists_eq_of_step_le {f : ℕ → ℕ} {n g : ℕ} (hstep : ∀ k < n, f (k + 1) ≤ f k + 1)
    (hfirst : f 0 ≤ g) (hlast : g ≤ f n) : ∃ k ≤ n, f k = g := by
  induction n with
  | zero => exact ⟨0, le_rfl, by omega⟩
  | succ n ih =>
      by_cases hg : g ≤ f n
      · obtain ⟨k, hk, hkg⟩ := ih (fun k hk => hstep k (by omega)) hg
        exact ⟨k, by omega, hkg⟩
      · have := hstep n (by omega)
        exact ⟨n + 1, le_rfl, by omega⟩

/-! ### The fast paths -/

/-- The arguments both fast paths have. -/
structure Pages where
  first : BitVec 32
  last : BitVec 32
  systemPageSize : BitVec 32
  systemPageCount : BitVec 32
  guestPageShift : BitVec 32
  hostAddressOffset : BitVec 32
  guestPageTableSize : ℕ

/-- `system_page_flags_`: how many blocks there are, and their `notify_on_invalidation`. -/
structure FlagBlocks where
  size : ℕ
  notify : ℕ → BitVec 64

namespace Pages

/-- `last_offset_wide`; the 64-bit product of two 32-bit numbers does not wrap. -/
def lastOffsetWide (c : Pages) : ℕ := c.last.toNat * c.systemPageSize.toNat

/-- The guest page of an offset: saturating subtraction, then the shift. -/
def guestPage (c : Pages) (offset : BitVec 32) : BitVec 32 :=
  (if offset > c.hostAddressOffset then offset - c.hostAddressOffset else 0) >>> c.guestPageShift.toNat

def lastGuest (c : Pages) : BitVec 32 := c.guestPage (BitVec.ofNat 32 c.lastOffsetWide)

def firstGuest (c : Pages) : BitVec 32 :=
  c.guestPage (BitVec.ofNat 32 (c.first.toNat * c.systemPageSize.toNat))

end Pages

/-- `(flag_blocks[block].notify_on_invalidation & mask) == mask` -/
def blockWatched (c : Pages) (flags : FlagBlocks) (block : ℕ) : Bool :=
  let mask := BitVec.allOnes 64
  let mask := if block = c.first.toNat >>> 6 then mask &&& (BitVec.allOnes 64 <<< (c.first.toNat % 64)) else mask
  let mask :=
    if block = c.last.toNat >>> 6 then mask &&& (BitVec.allOnes 64 >>> (63 - c.last.toNat % 64)) else mask
  flags.notify block &&& mask = mask

/-- `AllNotificationPagesWatched`; there are no more blocks than 32-bit page numbers. -/
def allNotificationPagesWatched (c : Pages) (flags : FlagBlocks) : Option Bool :=
  if c.first > c.last ∨ c.systemPageSize = 0 ∨ c.last ≥ c.systemPageCount ∨ c.guestPageShift ≥ 32 then
    some false
  else if c.lastOffsetWide > 0xFFFFFFFF then some false
  else if c.lastGuest.toNat ≥ c.guestPageTableSize then some false
  else if c.last.toNat >>> 6 ≥ flags.size then some false
  else scanTo (blockWatched c flags) (c.last.toNat >>> 6) (2 ^ 32) (c.first.toNat >>> 6)

/-- `AllGuestPagesImmutable`. -/
def allGuestPagesImmutable (c : Pages) (flags : FlagBlocks) (isImmutable : ℕ → Bool) : Option Bool :=
  if c.first > c.last ∨ c.systemPageSize = 0 ∨ c.last ≥ c.systemPageCount ∨ c.guestPageShift ≥ 32 ∨
      1 <<< c.guestPageShift.toNat ≤ c.systemPageSize.toNat then some false
  else if c.lastOffsetWide > 0xFFFFFFFF then some false
  else if c.lastGuest.toNat ≥ c.guestPageTableSize ∨ c.last.toNat >>> 6 ≥ flags.size then some false
  else scanTo isImmutable c.lastGuest.toNat (2 ^ 32) c.firstGuest.toNat

/-- The loop over the pages from `i` on, in 32-bit arithmetic.  It returns nothing when `fuel` runs
out, and an error when a lookup is out of range; `watch` is what it does to a page that has to be
watched. -/
def enableWatches {σ : Type} (c : Pages) (blocks : ℕ) (isImmutable : ℕ → Bool) (notify : σ → ℕ → BitVec 64)
    (watch : BitVec 32 → σ → σ) : ℕ → BitVec 32 → σ → Option (Except String σ)
  | 0, _, _ => none
  | fuel + 1, i, s =>
    if i > c.last then some (.ok s)
    else if i ≥ c.systemPageCount ∨ i.toNat / 64 ≥ blocks then some (.error "system page out of range")
    else
      let guest := (c.guestPage (i * c.systemPageSize)).toNat
      if guest ≥ c.guestPageTableSize then some (.error "guest page out of range")
      else
        let watched := (notify s (i.toNat / 64)).getLsbD (i.toNat % 64)
        let s := if !isImmutable guest && !watched then watch i s else s
        enableWatches c blocks isImmutable notify watch fuel (i + 1) s

/-! ### Page by page -/

namespace Pages

variable {c : Pages} {flags : FlagBlocks}

/-- The guest page of a system page. -/
def guestOf (c : Pages) (page : ℕ) : ℕ :=
  (page * c.systemPageSize.toNat - c.hostAddressOffset.toNat) / 2 ^ c.guestPageShift.toNat

/-- Everything the loop looks up for a page is in range, and nothing wraps. -/
structure InRange (c : Pages) (flags : FlagBlocks) (page : ℕ) : Prop where
  counted : page < c.systemPageCount.toNat
  flagged : page / 64 < flags.size
  noWrap : page * c.systemPageSize.toNat ≤ 0xFFFFFFFF
  guest : c.guestOf page < c.guestPageTableSize

/-- The pages of the range. -/
def Covers (c : Pages) (page : ℕ) : Prop := c.first.toNat ≤ page ∧ page ≤ c.last.toNat

/-- What has to hold before anything is looked at. -/
structure Guarded (c : Pages) (flags : FlagBlocks) : Prop where
  ordered : c.first.toNat ≤ c.last.toNat
  sized : c.systemPageSize ≠ 0
  shift : c.guestPageShift.toNat < 32
  inRange : ∀ page, c.Covers page → c.InRange flags page

/-- The guest's page of an address, as the source shifts it, on naturals. -/
theorem guestPage_toNat {offset : BitVec 32} :
    (c.guestPage offset).toNat = (offset.toNat - c.hostAddressOffset.toNat) / 2 ^ c.guestPageShift.toNat := by
  rw [guestPage, BitVec.toNat_ushiftRight, Nat.shiftRight_eq_div_pow]
  congr 1
  split
  next h => exact BitVec.toNat_sub_of_le (BitVec.le_of_lt h)
  next h =>
    have hle : offset.toNat ≤ c.hostAddressOffset.toNat := BitVec.le_def.1 (BitVec.not_lt.1 h)
    show 0 = _
    omega

/-- **The guest page grows with the page**, so the pages between two system pages lie between their
guest pages. -/
theorem guestOf_mono {page page' : ℕ} (h : page ≤ page') : c.guestOf page ≤ c.guestOf page' :=
  Nat.div_le_div_right (Nat.sub_le_sub_right (Nat.mul_le_mul_right _ h) _)

/-- It grows by one at most when a guest page is larger than a system page. -/
theorem guestOf_succ_le (h : c.systemPageSize.toNat < 2 ^ c.guestPageShift.toNat) (page : ℕ) :
    c.guestOf (page + 1) ≤ c.guestOf page + 1 := by
  have hpos : 0 < 2 ^ c.guestPageShift.toNat := Nat.two_pow_pos _
  rw [guestOf, guestOf, ← Nat.add_div_right _ hpos]
  refine Nat.div_le_div_right ?_
  rw [Nat.succ_mul]
  omega

/-- The guards of the two ends are the guards of all the pages. -/
theorem guarded_iff : c.Guarded flags ↔
    c.first.toNat ≤ c.last.toNat ∧ c.systemPageSize ≠ 0 ∧ c.guestPageShift.toNat < 32 ∧
      c.InRange flags c.last.toNat := by
  constructor
  · intro h
    exact ⟨h.ordered, h.sized, h.shift, h.inRange _ ⟨h.ordered, le_rfl⟩⟩
  · rintro ⟨hordered, hsized, hshift, hlast⟩
    refine ⟨hordered, hsized, hshift, fun page ⟨_, hpage⟩ => ?_⟩
    constructor
    case counted =>
      have := hlast.counted
      omega
    case flagged =>
      have := hlast.flagged
      omega
    case noWrap => exact (Nat.mul_le_mul_right _ hpage).trans hlast.noWrap
    case guest => exact (guestOf_mono hpage).trans_lt hlast.guest

/-- And of the first address of a system page. -/
theorem toNat_guestPage_ofNat {page : ℕ} (h : page * c.systemPageSize.toNat ≤ 0xFFFFFFFF) :
    (c.guestPage (BitVec.ofNat 32 (page * c.systemPageSize.toNat))).toNat = c.guestOf page := by
  rw [guestPage_toNat, BitVec.toNat_ofNat, Nat.mod_eq_of_lt (by omega), guestOf]

end Pages

/-! ### The blocks -/

/-- A word has all bits of a mask. -/
theorem and_eq_mask_iff {x mask : BitVec 64} :
    x &&& mask = mask ↔ ∀ j < 64, mask.getLsbD j = true → x.getLsbD j = true := by
  constructor
  · intro h j _ hj
    rw [← h, BitVec.getLsbD_and, Bool.and_eq_true] at hj
    exact hj.1
  · intro h
    refine BitVec.eq_of_getLsbD_eq fun j hj => ?_
    rw [BitVec.getLsbD_and]
    cases hmask : mask.getLsbD j with
    | false => exact Bool.and_false _
    | true => rw [h j hj hmask, Bool.true_and]

/-- The mask of a block between the first and the last selects the pages of the range. -/
theorem blockWatched_iff {c : Pages} {flags : FlagBlocks} {block : ℕ} (hfirst : c.first.toNat / 64 ≤ block)
    (hlast : block ≤ c.last.toNat / 64) :
    blockWatched c flags block = true ↔
      ∀ j < 64, c.Covers (block * 64 + j) → (flags.notify block).getLsbD j = true := by
  have hshift : ∀ n : ℕ, n >>> 6 = n / 64 := fun n => Nat.shiftRight_eq_div_pow n 6
  rw [blockWatched, hshift, hshift]
  rw [decide_eq_true_eq, and_eq_mask_iff]
  refine forall_congr' fun j => forall_congr' fun hj => ?_
  refine imp_congr_left ?_
  have hfirstMod := Nat.div_add_mod c.first.toNat 64
  have hlastMod := Nat.div_add_mod c.last.toNat 64
  have hlow : (BitVec.allOnes 64 <<< (c.first.toNat % 64)).getLsbD j = decide (c.first.toNat % 64 ≤ j) := by
    rw [BitVec.getLsbD_shiftLeft, BitVec.getLsbD_allOnes, decide_eq_true hj, Bool.true_and]
    rw [show decide (j - c.first.toNat % 64 < 64) = true from decide_eq_true (by omega), Bool.and_true,
      ← decide_not, decide_eq_decide, Nat.not_lt]
  have hhigh : (BitVec.allOnes 64 >>> (63 - c.last.toNat % 64)).getLsbD j =
      decide (j ≤ c.last.toNat % 64) := by
    rw [BitVec.getLsbD_ushiftRight, BitVec.getLsbD_allOnes, decide_eq_decide]
    omega
  have hones : (BitVec.allOnes 64).getLsbD j = true := by
    rw [BitVec.getLsbD_allOnes, decide_eq_true hj]
  rw [Pages.Covers]
  by_cases hf : block = c.first.toNat / 64 <;> by_cases hl : block = c.last.toNat / 64
  · rw [if_pos hf, if_pos hl, BitVec.getLsbD_and, BitVec.getLsbD_and, hones, hlow, hhigh]
    simp only [Bool.true_and, Bool.and_eq_true, decide_eq_true_eq]
    omega
  · rw [if_pos hf, if_neg hl, BitVec.getLsbD_and, hones, hlow]
    simp only [Bool.true_and, decide_eq_true_eq]
    omega
  · rw [if_neg hf, if_pos hl, BitVec.getLsbD_and, hones, hhigh]
    simp only [Bool.true_and, decide_eq_true_eq]
    omega
  · rw [if_neg hf, if_neg hl, hones]
    simp only [true_iff]
    omega

/-- All the blocks together say that every page of the range is watched, the first and the last
block being masked. -/
theorem blocks_iff {c : Pages} {flags : FlagBlocks} :
    (∀ block, c.first.toNat / 64 ≤ block → block ≤ c.last.toNat / 64 → blockWatched c flags block = true) ↔
      ∀ page, c.Covers page → (flags.notify (page / 64)).getLsbD (page % 64) = true := by
  constructor
  · intro h page hpage
    have hblock := h (page / 64) (Nat.div_le_div_right hpage.1) (Nat.div_le_div_right hpage.2)
    rw [blockWatched_iff (Nat.div_le_div_right hpage.1) (Nat.div_le_div_right hpage.2)] at hblock
    refine hblock (page % 64) (Nat.mod_lt _ (by decide)) ?_
    rwa [Nat.div_add_mod']
  · intro h block hfirst hlast
    refine (blockWatched_iff hfirst hlast).2 fun j hj hcovers => ?_
    have hbit := h _ hcovers
    rwa [show (block * 64 + j) / 64 = block by omega, show (block * 64 + j) % 64 = j by omega] at hbit

/-! ### The fast paths page by page -/

variable {c : Pages} {flags : FlagBlocks}

/-- The first test of either fast path, which sends all else to the loop of the SDK. -/
theorem first_test_iff :
    ¬(c.first > c.last ∨ c.systemPageSize = 0 ∨ c.last ≥ c.systemPageCount ∨ c.guestPageShift ≥ 32) ↔
      c.first.toNat ≤ c.last.toNat ∧ c.systemPageSize ≠ 0 ∧ c.last.toNat < c.systemPageCount.toNat ∧
        c.guestPageShift.toNat < 32 := by
  rw [not_or, not_or, not_or]
  refine and_congr ?_ (and_congr Iff.rfl (and_congr ?_ ?_))
  · exact BitVec.not_lt.trans BitVec.le_def
  · exact BitVec.not_le.trans BitVec.lt_def
  · exact BitVec.not_le.trans BitVec.lt_def

/-- The tests of both fast paths are the guards of the range. -/
theorem tests_iff :
    (¬(c.first > c.last ∨ c.systemPageSize = 0 ∨ c.last ≥ c.systemPageCount ∨ c.guestPageShift ≥ 32) ∧
      ¬c.lastOffsetWide > 0xFFFFFFFF ∧ ¬c.lastGuest.toNat ≥ c.guestPageTableSize ∧
      ¬c.last.toNat >>> 6 ≥ flags.size) ↔ c.Guarded flags := by
  rw [first_test_iff, Pages.guarded_iff, Nat.shiftRight_eq_div_pow, Pages.lastOffsetWide]
  constructor
  · rintro ⟨⟨hordered, hsized, hcounted, hshift⟩, hwrap, hguest, hblock⟩
    have hwrap := Nat.not_lt.1 hwrap
    rw [Pages.lastGuest, Pages.lastOffsetWide, Pages.toNat_guestPage_ofNat hwrap] at hguest
    exact ⟨hordered, hsized, hshift, hcounted, Nat.not_le.1 hblock, hwrap, Nat.not_le.1 hguest⟩
  · rintro ⟨hordered, hsized, hshift, hcounted, hblock, hwrap, hguest⟩
    refine ⟨⟨hordered, hsized, hcounted, hshift⟩, Nat.not_lt.2 hwrap, ?_, Nat.not_le.2 hblock⟩
    rw [Pages.lastGuest, Pages.lastOffsetWide, Pages.toNat_guestPage_ofNat hwrap]
    exact Nat.not_le.2 hguest

/-- **All notification pages watched.**  It returns, and it returns true for the ranges whose
lookups are all in range and whose pages all have their bit. -/
theorem allNotificationPagesWatched_spec (c : Pages) (flags : FlagBlocks) :
    ∃ b, allNotificationPagesWatched c flags = some b ∧
      (b = true ↔ c.Guarded flags ∧
        ∀ page, c.Covers page → (flags.notify (page / 64)).getLsbD (page % 64) = true) := by
  by_cases hguarded : c.Guarded flags
  · obtain ⟨hfirst, hwrap, hguest, hblock⟩ := tests_iff.2 hguarded
    have hordered : c.first.toNat / 64 ≤ c.last.toNat / 64 := Nat.div_le_div_right hguarded.ordered
    have hlt := c.last.isLt
    obtain ⟨b, hb, hiff⟩ := @scanTo_eq (blockWatched c flags) _ (2 ^ 32) _ hordered (by omega)
    refine ⟨b, ?_, hiff.trans (blocks_iff.trans (and_iff_right hguarded).symm)⟩
    rw [allNotificationPagesWatched, if_neg hfirst, if_neg hwrap, if_neg hguest, if_neg hblock,
      Nat.shiftRight_eq_div_pow, Nat.shiftRight_eq_div_pow]
    exact hb
  · refine ⟨false, ?_, ⟨fun h => absurd h Bool.false_ne_true, fun h => absurd h.1 hguarded⟩⟩
    rw [allNotificationPagesWatched]
    split
    next => rfl
    next hfirst =>
      split
      next => rfl
      next hwrap =>
        split
        next => rfl
        next hguest =>
          split
          next => rfl
          next hblock => exact absurd (tests_iff.1 ⟨hfirst, hwrap, hguest, hblock⟩) hguarded

/-- The guest pages that are scanned are those of the range. -/
theorem scanned_guest_pages (hguarded : c.Guarded flags)
    (hcoarse : c.systemPageSize.toNat < 2 ^ c.guestPageShift.toNat) {guest : ℕ} :
    c.firstGuest.toNat ≤ guest ∧ guest ≤ c.lastGuest.toNat ↔
      ∃ page, c.Covers page ∧ c.guestOf page = guest := by
  have hordered := hguarded.ordered
  have hfirst := (hguarded.inRange _ ⟨le_rfl, hordered⟩).noWrap
  have hlast := (hguarded.inRange _ ⟨hordered, le_rfl⟩).noWrap
  rw [Pages.firstGuest, Pages.toNat_guestPage_ofNat hfirst, Pages.lastGuest, Pages.lastOffsetWide,
    Pages.toNat_guestPage_ofNat hlast]
  constructor
  · rintro ⟨hlow, hhigh⟩
    obtain ⟨k, hk, hguest⟩ := @exists_eq_of_step_le (fun k => c.guestOf (c.first.toNat + k))
      (c.last.toNat - c.first.toNat) guest (fun k _ => Pages.guestOf_succ_le hcoarse _) hlow
      (by rwa [Nat.add_sub_cancel' hordered])
    exact ⟨c.first.toNat + k, ⟨by omega, by omega⟩, hguest⟩
  · rintro ⟨page, hpage, rfl⟩
    exact ⟨Pages.guestOf_mono hpage.1, Pages.guestOf_mono hpage.2⟩

/-- The source's test of the page sizes, on naturals. -/
theorem coarse_test_iff :
    ¬1 <<< c.guestPageShift.toNat ≤ c.systemPageSize.toNat ↔
      c.systemPageSize.toNat < 2 ^ c.guestPageShift.toNat := by
  rw [Nat.one_shiftLeft, Nat.not_le]

/-- The tests `AllGuestPagesImmutable` has and the guards of the range. -/
theorem immutable_tests_iff :
    (¬(c.first > c.last ∨ c.systemPageSize = 0 ∨ c.last ≥ c.systemPageCount ∨ c.guestPageShift ≥ 32 ∨
        1 <<< c.guestPageShift.toNat ≤ c.systemPageSize.toNat) ∧
      ¬c.lastOffsetWide > 0xFFFFFFFF ∧
      ¬(c.lastGuest.toNat ≥ c.guestPageTableSize ∨ c.last.toNat >>> 6 ≥ flags.size)) ↔
      c.Guarded flags ∧ c.systemPageSize.toNat < 2 ^ c.guestPageShift.toNat := by
  rw [← coarse_test_iff, ← tests_iff]
  simp only [not_or]
  constructor
  · rintro ⟨⟨hordered, hsized, hcounted, hshift, hcoarse⟩, hrest⟩
    exact ⟨⟨⟨hordered, hsized, hcounted, hshift⟩, hrest⟩, hcoarse⟩
  · rintro ⟨⟨⟨hordered, hsized, hcounted, hshift⟩, hrest⟩, hcoarse⟩
    exact ⟨⟨hordered, hsized, hcounted, hshift, hcoarse⟩, hrest⟩

/-- **All guest pages immutable.**  It returns, and it returns true for the ranges whose lookups
are all in range, whose guest pages are larger than system pages, and the guest page of each of
whose pages is immutable. -/
theorem allGuestPagesImmutable_spec (c : Pages) (flags : FlagBlocks) (isImmutable : ℕ → Bool) :
    ∃ b, allGuestPagesImmutable c flags isImmutable = some b ∧
      (b = true ↔ c.Guarded flags ∧ c.systemPageSize.toNat < 2 ^ c.guestPageShift.toNat ∧
        ∀ page, c.Covers page → isImmutable (c.guestOf page) = true) := by
  by_cases h : c.Guarded flags ∧ c.systemPageSize.toNat < 2 ^ c.guestPageShift.toNat
  · obtain ⟨hguarded, hcoarse⟩ := h
    obtain ⟨hfirst, hwrap, hguest⟩ := immutable_tests_iff.2 ⟨hguarded, hcoarse⟩
    have hscanned := @scanned_guest_pages c flags hguarded hcoarse
    have hordered : c.firstGuest.toNat ≤ c.lastGuest.toNat :=
      (hscanned.2 ⟨_, ⟨hguarded.ordered, le_rfl⟩, rfl⟩).1.trans
        (hscanned.2 ⟨_, ⟨hguarded.ordered, le_rfl⟩, rfl⟩).2
    have hlt := c.lastGuest.isLt
    obtain ⟨b, hb, hiff⟩ := @scanTo_eq isImmutable _ (2 ^ 32) _ hordered (by omega)
    refine ⟨b, ?_, hiff.trans ⟨fun h => ⟨hguarded, hcoarse, fun page hpage => ?_⟩, fun h guest hlow hhigh => ?_⟩⟩
    · rw [allGuestPagesImmutable, if_neg hfirst, if_neg hwrap, if_neg hguest]
      exact hb
    · obtain ⟨hlow, hhigh⟩ := hscanned.2 ⟨page, hpage, rfl⟩
      exact h _ hlow hhigh
    · obtain ⟨page, hpage, rfl⟩ := hscanned.1 ⟨hlow, hhigh⟩
      exact h.2.2 page hpage
  · refine ⟨false, ?_, ⟨fun h => absurd h Bool.false_ne_true, fun h' => absurd ⟨h'.1, h'.2.1⟩ h⟩⟩
    rw [allGuestPagesImmutable]
    split
    next => rfl
    next hfirst =>
      split
      next => rfl
      next hwrap =>
        split
        next => rfl
        next hguest => exact absurd (immutable_tests_iff.1 ⟨hfirst, hwrap, hguest⟩) h

/-! ### The loop -/

section Loop

variable {σ : Type} {isImmutable : ℕ → Bool} {notify : σ → ℕ → BitVec 64} {watch : BitVec 32 → σ → σ}

/-- A page the loop has nothing to do for. -/
def Settled (c : Pages) (isImmutable : ℕ → Bool) (blocks : ℕ → BitVec 64) (page : ℕ) : Prop :=
  isImmutable (c.guestOf page) = true ∨ (blocks (page / 64)).getLsbD (page % 64) = true

/-- One turn of the loop over a page in range that is settled. -/
theorem enableWatches_step {fuel : ℕ} {i : BitVec 32} {s : σ} (hi : i.toNat ≤ c.last.toNat)
    (hrange : c.InRange flags i.toNat) (hsettled : Settled c isImmutable (notify s) i.toNat) :
    enableWatches c flags.size isImmutable notify watch (fuel + 1) i s =
      enableWatches c flags.size isImmutable notify watch fuel (i + 1) s := by
  have hoffset : (i * c.systemPageSize).toNat = i.toNat * c.systemPageSize.toNat := by
    rw [BitVec.toNat_mul, Nat.mod_eq_of_lt]
    have := hrange.noWrap
    omega
  have hguest : (c.guestPage (i * c.systemPageSize)).toNat = c.guestOf i.toNat := by
    rw [Pages.guestPage_toNat, hoffset, Pages.guestOf]
  have hcounted : ¬(i ≥ c.systemPageCount ∨ i.toNat / 64 ≥ flags.size) := by
    rintro (h | h)
    · exact absurd (BitVec.le_def.1 h) (Nat.not_le.2 hrange.counted)
    · exact absurd h (Nat.not_le.2 hrange.flagged)
  rw [enableWatches, if_neg (BitVec.not_lt.2 (BitVec.le_def.2 hi)), if_neg hcounted]
  dsimp only
  rw [hguest, if_neg (Nat.not_le.2 hrange.guest)]
  congr 1
  refine if_neg ?_
  rw [Bool.and_eq_true, Bool.not_eq_true', Bool.not_eq_true']
  rintro ⟨himmutable, hbit⟩
  rcases hsettled with h | h
  · exact Bool.false_ne_true (himmutable.symm.trans h)
  · exact Bool.false_ne_true (hbit.symm.trans h)

/-- The loop over settled pages comes to its end with nothing done. -/
theorem enableWatches_settled {s : σ} (hguarded : c.Guarded flags)
    (hsettled : ∀ page, c.Covers page → Settled c isImmutable (notify s) page) {fuel : ℕ} {i : BitVec 32}
    (hfirst : c.first.toNat ≤ i.toNat) (hi : i.toNat ≤ c.last.toNat + 1)
    (hfuel : c.last.toNat + 1 - i.toNat < fuel) :
    enableWatches c flags.size isImmutable notify watch fuel i s = some (.ok s) := by
  induction fuel generalizing i with
  | zero => omega
  | succ fuel ih =>
      by_cases hlast : i.toNat ≤ c.last.toNat
      · -- the counter does not wrap, as there are fewer pages than it has values
        have hcount := (hguarded.inRange _ ⟨hguarded.ordered, le_rfl⟩).counted
        have hlt := c.systemPageCount.isLt
        have hnext : (i + 1).toNat = i.toNat + 1 := by
          rw [BitVec.toNat_add]
          exact Nat.mod_eq_of_lt (by show i.toNat + 1 < _; omega)
        rw [enableWatches_step hlast (hguarded.inRange _ ⟨hfirst, hlast⟩) (hsettled _ ⟨hfirst, hlast⟩)]
        exact ih (by omega) (by omega) (by omega)
      · rw [enableWatches, if_pos (BitVec.lt_def.2 (Nat.not_le.1 hlast))]

end Loop

/-- **The watch fast paths.**  Either returns; true is what it returns for the ranges in range whose
pages are all watched, or all immutable, and then the interval of guest pages it scans is that of
the range.  Where one of them returns true, the loop over the pages ends without a lookup out of
range and without a change, whatever it does to a page that has to be watched. -/
theorem watchFastpaths (c : Pages) (flags : FlagBlocks) (isImmutable : ℕ → Bool) :
    (∃ watched, allNotificationPagesWatched c flags = some watched ∧
      (watched = true ↔ c.Guarded flags ∧
        ∀ page, c.Covers page → (flags.notify (page / 64)).getLsbD (page % 64) = true)) ∧
    (∃ immutable, allGuestPagesImmutable c flags isImmutable = some immutable ∧
      (immutable = true ↔ c.Guarded flags ∧ c.systemPageSize.toNat < 2 ^ c.guestPageShift.toNat ∧
        ∀ page, c.Covers page → isImmutable (c.guestOf page) = true)) ∧
    (c.Guarded flags → c.systemPageSize.toNat < 2 ^ c.guestPageShift.toNat →
      ∀ guest, c.firstGuest.toNat ≤ guest ∧ guest ≤ c.lastGuest.toNat ↔
        ∃ page, c.Covers page ∧ c.guestOf page = guest) ∧
    (allNotificationPagesWatched c flags = some true ∨
        allGuestPagesImmutable c flags isImmutable = some true →
      ∀ (σ : Type) (notify : σ → ℕ → BitVec 64) (watch : BitVec 32 → σ → σ) (s : σ),
        notify s = flags.notify → ∀ fuel, c.last.toNat - c.first.toNat + 1 < fuel →
          enableWatches c flags.size isImmutable notify watch fuel c.first s = some (.ok s)) := by
  obtain ⟨watched, hwatched, hwatchedIff⟩ := allNotificationPagesWatched_spec c flags
  obtain ⟨immutable, himmutable, himmutableIff⟩ := allGuestPagesImmutable_spec c flags isImmutable
  refine ⟨⟨watched, hwatched, hwatchedIff⟩, ⟨immutable, himmutable, himmutableIff⟩,
    fun hguarded hcoarse guest => scanned_guest_pages hguarded hcoarse, ?_⟩
  intro h σ notify watch s hs fuel hfuel
  have hsettled : c.Guarded flags ∧ ∀ page, c.Covers page → Settled c isImmutable (notify s) page := by
    rcases h with h | h
    · obtain ⟨hguarded, hbits⟩ := hwatchedIff.1 (Option.some.inj (hwatched.symm.trans h))
      refine ⟨hguarded, fun page hpage => .inr ?_⟩
      rw [hs]
      exact hbits page hpage
    · obtain ⟨hguarded, -, hpages⟩ := himmutableIff.1 (Option.some.inj (himmutable.symm.trans h))
      exact ⟨hguarded, fun page hpage => .inl (hpages page hpage)⟩
  have hordered := hsettled.1.ordered
  exact enableWatches_settled hsettled.1 hsettled.2 le_rfl (by omega) (by omega)

/-- System pages 62 to 66 of 4 KiB in guest pages of 64 KiB. -/
def fivePages : Pages where
  first := 62
  last := 66
  systemPageSize := 0x1000
  systemPageCount := 0x20000
  guestPageShift := 16
  hostAddressOffset := 0
  guestPageTableSize := 0x2000

/-- All of them are watched, and page 61 is not. -/
def watchedFlags : FlagBlocks where
  size := 2
  notify := fun block => if block = 0 then 0b11 <<< 62 else BitVec.allOnes 64

/-- The hypotheses are satisfiable: the pages are watched, so the loop ends with the
flags as they were. -/
theorem watchFastpaths_fivePages :
    allNotificationPagesWatched fivePages watchedFlags = some true ∧
      allGuestPagesImmutable fivePages watchedFlags (fun guest => guest = 3) = some false ∧
      (∀ guest, fivePages.firstGuest.toNat ≤ guest ∧ guest ≤ fivePages.lastGuest.toNat ↔
        ∃ page, fivePages.Covers page ∧ fivePages.guestOf page = guest) ∧
      enableWatches fivePages watchedFlags.size (fun guest => guest = 3) id
        (fun _ _ _ => BitVec.allOnes 64) 6 fivePages.first watchedFlags.notify =
          some (.ok watchedFlags.notify) := by
  obtain ⟨⟨watched, hwatched, hiff⟩, -, hguest, hloop⟩ :=
    watchFastpaths fivePages watchedFlags fun guest => guest = 3
  have htrue : allNotificationPagesWatched fivePages watchedFlags = some true := by decide
  have hguarded := (hiff.1 (Option.some.inj (hwatched.symm.trans htrue))).1
  exact ⟨htrue, by decide, hguest hguarded (by decide),
    hloop (.inl htrue) _ id _ _ rfl 6 (by decide)⟩

end Watch
end BoltsRebuilt
