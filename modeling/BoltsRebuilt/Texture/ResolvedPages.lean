/-
# The bitmap of scaled resolves

`src/gpu/vendored/src/graphics/pipeline/texture/cache.cpp`: `MarkRangeAsResolved`,
`ScaledResolveGlobalWatchCallback` and `IsRangeScaledResolved`, at a draw
resolution scale above one.

One bit for each 4 KB page, in words of 32, and above it one bit for each word that
has a page (`Summarised`).  A lookup reads the upper level first, so it sees what
the lower one says only while the upper one is not behind:
`isRangeScaledResolved_iff`.

Marking and clearing both walk the words of a range and edit each in three moves:
bump the generation if the word is going to change, write the word, write its bit
above.  `Edit` has one function for each.
-/

import BoltsRebuilt.Lib.Spans
import Mathlib.Data.BitVec
import Mathlib.Logic.Function.Basic

namespace BoltsRebuilt
namespace TextureCache

def kBufferSize : ℕ := 0x20000000

/-- `scaled_resolve_pages_` and `scaled_resolve_pages_l2_`. -/
structure ResolvedPages where
  pages : ℕ → BitVec 32
  l2 : ℕ → BitVec 64

/-- The bits below `n`, as the source spells them. -/
def bitsBelow (w n : ℕ) : BitVec w := (1#w <<< n) - 1#w

/-- The bits of word `i` that are between `first` and `last`, for a word the loop
over them visits. -/
def rangeMask (w first last i : ℕ) : BitVec w :=
  let mask := BitVec.allOnes w
  let mask := if i = first / w then mask &&& ~~~bitsBelow w (first % w) else mask
  if i = last / w ∧ last % w ≠ w - 1 then mask &&& bitsBelow w (last % w + 1) else mask

/-- `resolve_keep_bits`: the other bits of the word. -/
def keepBits (first last i : ℕ) : BitVec 32 :=
  let keep := 0#32
  let keep := if i = first / 32 then keep ||| bitsBelow 32 (first % 32) else keep
  if i = last / 32 ∧ last % 32 ≠ 31 then keep ||| ~~~bitsBelow 32 (last % 32 + 1) else keep

/-- What a `while (bit_scan_forward(..))` loop visits. -/
def setBits (x : BitVec 64) : List ℕ := (List.range 64).filter fun j => x.getLsbD j

namespace ResolvedPages

/-- The pages of a range inside the buffer. -/
def rangePages (start length : ℕ) : Option Span :=
  let start := min start kBufferSize
  let length := min length (kBufferSize - start)
  if length = 0 then none else some (start >>> 12, (start + length - 1) >>> 12)

/-- `IsRangeScaledResolved`. -/
def isRangeScaledResolved (b : ResolvedPages) (start length : ℕ) : Bool :=
  match rangePages start length with
  | none => false
  | some (first, last) =>
      (Span.cells (first / 32 / 64, last / 32 / 64)).any fun i =>
        (setBits (b.l2 i &&& rangeMask 64 (first / 32) (last / 32) i)).any fun j =>
          b.pages ((i <<< 6) + j) &&& rangeMask 32 first last ((i <<< 6) + j) != 0

/-- The bit of a page. -/
def resolved (b : ResolvedPages) (page : ℕ) : Bool := (b.pages (page / 32)).getLsbD (page % 32)

/-- Every word with a page has its bit above. -/
def Summarised (b : ResolvedPages) : Prop :=
  ∀ i, b.pages i ≠ 0 → (b.l2 (i / 64)).getLsbD (i % 64) = true

end ResolvedPages

/-! ### Masks -/

/-- The low bits of a word, up to some position. -/
theorem getLsbD_bitsBelow {w n j : ℕ} (hn : n < w) : (bitsBelow w n).getLsbD j = decide (j < n) := by
  have hpow : 2 ^ n < 2 ^ w := Nat.pow_lt_pow_right (by omega) hn
  have hone : 1 < 2 ^ w := Nat.one_lt_two_pow (by omega)
  have hshift : (1#w <<< n).toNat = 2 ^ n := by
    rw [BitVec.toNat_shiftLeft, BitVec.toNat_ofNat, Nat.mod_eq_of_lt hone, Nat.shiftLeft_eq,
      Nat.one_mul, Nat.mod_eq_of_lt hpow]
  have hval : (bitsBelow w n).toNat = 2 ^ n - 1 := by
    have hpos : 0 < 2 ^ n := Nat.two_pow_pos n
    rw [bitsBelow, BitVec.toNat_sub_of_le, hshift, BitVec.toNat_ofNat, Nat.mod_eq_of_lt hone]
    rw [BitVec.le_def, hshift, BitVec.toNat_ofNat, Nat.mod_eq_of_lt hone]
    exact hpos
  rw [← BitVec.testBit_toNat, hval, Nat.testBit_two_pow_sub_one]

/-- What a mask selects in a word the loop visits. -/
theorem getLsbD_rangeMask {w first last i j : ℕ} (hfirst : first / w ≤ i) (hlast : i ≤ last / w)
    (hj : j < w) :
    (rangeMask w first last i).getLsbD j = decide (first ≤ w * i + j ∧ w * i + j ≤ last) := by
  have hmodFirst : first % w < w := Nat.mod_lt _ (by omega)
  have hmodLast : last % w < w := Nat.mod_lt _ (by omega)
  have hdivFirst := Nat.div_add_mod first w
  have hdivLast := Nat.div_add_mod last w
  have hlow : (if i = first / w then BitVec.allOnes w &&& ~~~bitsBelow w (first % w)
      else BitVec.allOnes w).getLsbD j = decide (first ≤ w * i + j) := by
    by_cases hi : i = first / w
    · rw [if_pos hi, BitVec.getLsbD_and, BitVec.getLsbD_not, BitVec.getLsbD_allOnes, decide_eq_true hj,
        getLsbD_bitsBelow hmodFirst, Bool.true_and, Bool.true_and, ← decide_not, decide_eq_decide, hi]
      omega
    · have hnext : w * (first / w + 1) ≤ w * i := Nat.mul_le_mul_left w (by omega)
      rw [Nat.mul_add, Nat.mul_one] at hnext
      rw [if_neg hi, BitVec.getLsbD_allOnes, decide_eq_decide]
      omega
  rw [rangeMask]
  by_cases hi : i = last / w
  · by_cases hfull : last % w = w - 1
    · rw [if_neg fun h => h.2 hfull, hlow, decide_eq_decide, hi]
      omega
    · rw [if_pos ⟨hi, hfull⟩, BitVec.getLsbD_and, hlow, getLsbD_bitsBelow (by omega), ← Bool.decide_and,
        decide_eq_decide, hi]
      omega
  · have hnext : w * (i + 1) ≤ w * (last / w) := Nat.mul_le_mul_left w (by omega)
    rw [Nat.mul_add, Nat.mul_one] at hnext
    rw [if_neg fun h => hi h.1, hlow, decide_eq_decide]
    omega

/-- The set bits of a word are those that are set. -/
theorem mem_setBits {x : BitVec 64} {j : ℕ} : j ∈ setBits x ↔ x.getLsbD j = true := by
  rw [setBits, List.mem_filter, List.mem_range]
  exact and_iff_right_of_imp BitVec.lt_of_getLsbD

/-- A word with a mask of it is not zero when a bit of both is set. -/
theorem and_ne_zero_iff {w : ℕ} {x y : BitVec w} :
    x &&& y ≠ 0 ↔ ∃ j, j < w ∧ x.getLsbD j = true ∧ y.getLsbD j = true := by
  constructor
  · intro h
    by_contra hnone
    refine h (BitVec.eq_of_getLsbD_eq fun j hj => ?_)
    rw [BitVec.getLsbD_and]
    refine (Bool.eq_false_iff.2 fun hbits => hnone ?_).trans BitVec.getLsbD_zero.symm
    rw [Bool.and_eq_true] at hbits
    exact ⟨j, hj, hbits⟩
  · rintro ⟨j, hj, hx, hy⟩ hzero
    have hbit : (x &&& y).getLsbD j = true := by rw [BitVec.getLsbD_and, hx, hy, Bool.and_self]
    rw [hzero] at hbit
    exact absurd (BitVec.getLsbD_zero.symm.trans hbit) Bool.false_ne_true

namespace ResolvedPages

variable {b c : ResolvedPages}

/-- A range of bytes has its first page no later than its last. -/
theorem rangePages_eq_some {start length first last : ℕ} (h : rangePages start length = some (first, last)) :
    first ≤ last := by
  unfold rangePages at h
  dsimp only at h
  split_ifs at h with hlength
  simp only [Option.some.injEq, Prod.mk.injEq, Nat.shiftRight_eq_div_pow] at h
  omega

/-- What a lookup sees: a page of the range whose word has its bit above. -/
theorem isRangeScaledResolved_eq_true {start length : ℕ} :
    b.isRangeScaledResolved start length = true ↔ ∃ first last page,
      rangePages start length = some (first, last) ∧ first ≤ page ∧ page ≤ last ∧
        b.resolved page = true ∧ (b.l2 (page / 32 / 64)).getLsbD (page / 32 % 64) = true := by
  unfold isRangeScaledResolved
  cases hrange : rangePages start length with
  | none => simp
  | some range =>
      obtain ⟨first, last⟩ := range
      have hle := rangePages_eq_some hrange
      dsimp only
      rw [List.any_eq_true]
      constructor
      · rintro ⟨i, hi, hany⟩
        rw [List.any_eq_true] at hany
        obtain ⟨j, hj, hword⟩ := hany
        rw [Span.mem_cells] at hi
        dsimp only at hi
        rw [mem_setBits, BitVec.getLsbD_and, Bool.and_eq_true] at hj
        have hj64 := BitVec.lt_of_getLsbD hj.1
        rw [getLsbD_rangeMask hi.1 hi.2 hj64, decide_eq_true_eq] at hj
        rw [bne_iff_ne, and_ne_zero_iff] at hword
        obtain ⟨k, hk, hbit, hmask⟩ := hword
        have hblock : (i <<< 6) + j = 64 * i + j := by
          rw [Nat.shiftLeft_eq]
          omega
        rw [hblock] at hbit hmask
        rw [getLsbD_rangeMask hj.2.1 hj.2.2 hk, decide_eq_true_eq] at hmask
        have hdiv : (32 * (64 * i + j) + k) / 32 = 64 * i + j := by omega
        have hmod : (32 * (64 * i + j) + k) % 32 = k := by omega
        refine ⟨first, last, 32 * (64 * i + j) + k, rfl, hmask.1, hmask.2, ?_, ?_⟩
        · rw [resolved, hdiv, hmod]
          exact hbit
        · rw [hdiv, show (64 * i + j) / 64 = i by omega, show (64 * i + j) % 64 = j by omega]
          exact hj.1
      · rintro ⟨first', last', page, hsome, hfirst, hlast, hpage, hword⟩
        obtain ⟨rfl, rfl⟩ := Prod.mk.inj (Option.some.inj hsome)
        have hblock : ((page / 32 / 64) <<< 6) + page / 32 % 64 = page / 32 := by
          rw [Nat.shiftLeft_eq]
          omega
        refine ⟨page / 32 / 64, Span.mem_cells.2 ⟨?_, ?_⟩, List.any_eq_true.2 ⟨page / 32 % 64, ?_, ?_⟩⟩
        · dsimp only
          omega
        · dsimp only
          omega
        · rw [mem_setBits, BitVec.getLsbD_and, hword, getLsbD_rangeMask (by omega) (by omega) (by omega),
            Bool.true_and, decide_eq_true_eq]
          omega
        · rw [hblock, bne_iff_ne, and_ne_zero_iff]
          refine ⟨page % 32, by omega, hpage, ?_⟩
          rw [getLsbD_rangeMask (by omega) (by omega) (by omega), decide_eq_true_eq]
          omega

/-- **`IsRangeScaledResolved`.**  With the upper level in step, a range is scaled
where one of its pages is. -/
theorem isRangeScaledResolved_iff (hb : b.Summarised) {start length : ℕ} :
    b.isRangeScaledResolved start length = true ↔ ∃ first last page,
      rangePages start length = some (first, last) ∧ first ≤ page ∧ page ≤ last ∧
        b.resolved page = true := by
  rw [isRangeScaledResolved_eq_true]
  constructor
  · rintro ⟨first, last, page, hrange, hfirst, hlast, hpage, -⟩
    exact ⟨first, last, page, hrange, hfirst, hlast, hpage⟩
  · rintro ⟨first, last, page, hrange, hfirst, hlast, hpage⟩
    refine ⟨first, last, page, hrange, hfirst, hlast, hpage, hb _ fun hzero => ?_⟩
    rw [resolved, hzero] at hpage
    exact absurd (BitVec.getLsbD_zero.symm.trans hpage) Bool.false_ne_true

/-- The lookup depends on the pages alone, the summary only saving it work. -/
theorem isRangeScaledResolved_congr (hb : b.Summarised) (hc : c.Summarised) (h : b.pages = c.pages)
    (start length : ℕ) : b.isRangeScaledResolved start length = c.isRangeScaledResolved start length := by
  rw [Bool.eq_iff_iff, isRangeScaledResolved_iff hb, isRangeScaledResolved_iff hc]
  simp only [resolved, h]

/-- A bitmap has the bits of another, on both levels. -/
def Within (b c : ResolvedPages) : Prop :=
  (∀ i j, (b.pages i).getLsbD j = true → (c.pages i).getLsbD j = true) ∧
    ∀ i j, (b.l2 i).getLsbD j = true → (c.l2 i).getLsbD j = true

/-- Pages are within themselves. -/
theorem Within.refl (b : ResolvedPages) : Within b b := ⟨fun _ _ => id, fun _ _ => id⟩

/-- And within what contains what they are within. -/
theorem Within.trans {d : ResolvedPages} (h : Within b c) (h' : Within c d) : Within b d :=
  ⟨fun i j hj => h'.1 i j (h.1 i j hj), fun i j hj => h'.2 i j (h.2 i j hj)⟩

/-- What is scaled with fewer bits is scaled with more. -/
theorem Within.isRangeScaledResolved (h : Within b c) {start length : ℕ}
    (hb : b.isRangeScaledResolved start length = true) : c.isRangeScaledResolved start length = true := by
  rw [isRangeScaledResolved_eq_true] at hb ⊢
  obtain ⟨first, last, page, hrange, hfirst, hlast, hpage, hword⟩ := hb
  exact ⟨first, last, page, hrange, hfirst, hlast, h.1 _ _ hpage, h.2 _ _ hword⟩

end ResolvedPages

/-! ### The edits of a word -/

/-- An iteration of the loop of `MarkRangeAsResolved` or of the callback. -/
inductive Edit where
  | mark (i : ℕ) (addBits : BitVec 32)
  | unmark (i : ℕ) (keepBits : BitVec 32)

namespace Edit

/-- The condition of the bump. -/
def changes (b : ResolvedPages) : Edit → Bool
  | mark i addBits => b.pages i &&& addBits != addBits
  | unmark i keepBits => b.pages i &&& ~~~keepBits != 0

def writePages (b : ResolvedPages) : Edit → ResolvedPages
  | mark i addBits => { b with pages := Function.update b.pages i (b.pages i ||| addBits) }
  | unmark i keepBits => { b with pages := Function.update b.pages i (b.pages i &&& keepBits) }

def writeL2 (b : ResolvedPages) : Edit → ResolvedPages
  | mark i _ => { b with l2 := Function.update b.l2 (i >>> 6) (b.l2 (i >>> 6) ||| BitVec.twoPow 64 (i % 64)) }
  | unmark i _ =>
      if b.pages i = 0 then
        { b with l2 := Function.update b.l2 (i >>> 6) (b.l2 (i >>> 6) &&& ~~~BitVec.twoPow 64 (i % 64)) }
      else b

/-- Whether it sets bits. -/
def marks : Edit → Bool
  | mark _ _ => true
  | unmark _ _ => false

variable {b : ResolvedPages} {e : Edit}

/-- An edit that does not bump the generation leaves its word. -/
theorem writePages_of_not_changes (h : e.changes b = false) : e.writePages b = b := by
  cases e with
  | mark i addBits =>
      have hmask : b.pages i &&& addBits = addBits := by simpa [changes] using h
      have hword : b.pages i ||| addBits = b.pages i := by
        rw [← hmask]
        exact BitVec.eq_of_getLsbD_eq fun j _ => by
          rw [BitVec.getLsbD_or, BitVec.getLsbD_and]
          cases (b.pages i).getLsbD j <;> rfl
      rw [writePages, hword, Function.update_eq_self]
  | unmark i keepBits =>
      have hmask : b.pages i &&& ~~~keepBits = 0 := by simpa [changes] using h
      have hword : b.pages i &&& keepBits = b.pages i := by
        refine BitVec.eq_of_getLsbD_eq fun j hj => ?_
        have hbit : (b.pages i &&& ~~~keepBits).getLsbD j = false := by
          rw [hmask]
          exact BitVec.getLsbD_zero
        rw [BitVec.getLsbD_and, BitVec.getLsbD_not, decide_eq_true hj] at hbit
        rw [BitVec.getLsbD_and]
        revert hbit
        cases (b.pages i).getLsbD j <;> cases keepBits.getLsbD j <;> decide
      rw [writePages, hword, Function.update_eq_self]

/-- Writing the summary changes no page. -/
@[simp] theorem pages_writeL2 (b : ResolvedPages) (e : Edit) : (e.writeL2 b).pages = b.pages := by
  cases e with
  | mark i addBits => rfl
  | unmark i keepBits =>
      rw [writeL2]
      split <;> rfl

/-- Every word with a page has its bit above, but for the one a mark has just
written. -/
def SummarisedBut (b : ResolvedPages) : Edit → Prop
  | mark i _ => ∀ k, k ≠ i → b.pages k ≠ 0 → (b.l2 (k / 64)).getLsbD (k % 64) = true
  | unmark _ _ => b.Summarised

/-- Writing pages leaves the summary right but for their own block. -/
theorem summarisedBut_writePages (h : b.Summarised) (e : Edit) : e.SummarisedBut (e.writePages b) := by
  cases e with
  | mark i addBits =>
      intro k hk hpages
      rw [writePages] at hpages
      dsimp only at hpages
      rw [Function.update_of_ne hk] at hpages
      exact h k hpages
  | unmark i keepBits =>
      intro k hpages
      refine h k fun hzero => hpages ?_
      rw [writePages]
      dsimp only
      rcases eq_or_ne k i with rfl | hne
      · rw [Function.update_self, hzero]
        exact BitVec.zero_and
      · rw [Function.update_of_ne hne, hzero]

/-- The bit of a word above it, after that of another or the same was written. -/
theorem getLsbD_update_l2 (l2 : ℕ → BitVec 64) (x : BitVec 64) {i k : ℕ} :
    (Function.update l2 (i / 64) x (k / 64)).getLsbD (k % 64) =
      if k / 64 = i / 64 then x.getLsbD (k % 64) else (l2 (k / 64)).getLsbD (k % 64) := by
  by_cases h : k / 64 = i / 64
  · rw [if_pos h, h, Function.update_self]
  · rw [if_neg h, Function.update_of_ne h]

/-- And writing the summary of that block makes it right again. -/
theorem summarised_writeL2 (h : e.SummarisedBut b) : (e.writeL2 b).Summarised := by
  cases e with
  | mark i addBits =>
      intro k hpages
      rw [writeL2, Nat.shiftRight_eq_div_pow]
      dsimp only
      rw [getLsbD_update_l2]
      by_cases hword : k / 64 = i / 64
      · rw [if_pos hword, BitVec.getLsbD_or, BitVec.getLsbD_twoPow]
        rcases eq_or_ne k i with rfl | hne
        · simp [Nat.mod_lt]
        · rw [← hword, h k hne hpages, Bool.true_or]
      · rw [if_neg hword]
        exact h k (fun heq => hword (heq ▸ rfl)) hpages
  | unmark i keepBits =>
      rw [writeL2]
      split
      · rename_i hzero
        intro k hpages
        rw [Nat.shiftRight_eq_div_pow]
        dsimp only
        rw [getLsbD_update_l2]
        by_cases hword : k / 64 = i / 64
        · have hne : i % 64 ≠ k % 64 := by
            intro hbit
            have heq : k = i := by omega
            exact hpages (heq ▸ hzero)
          have hk : k % 64 < 64 := Nat.mod_lt _ (by omega)
          rw [if_pos hword, BitVec.getLsbD_and, BitVec.getLsbD_not, BitVec.getLsbD_twoPow,
            decide_eq_true hk, decide_eq_false hne, ← hword, h k hpages, Bool.and_false]
          rfl
        · rw [if_neg hword]
          exact h k hpages
      · exact h

/-- Clearing takes bits away, in the pages and in their summary. -/
theorem within_of_not_marks (h : e.marks = false) (b : ResolvedPages) :
    (e.writePages b).Within b ∧ (e.writeL2 b).Within b := by
  cases e with
  | mark i addBits => exact nomatch (h : true = false)
  | unmark i keepBits =>
      constructor
      · refine ⟨fun k j hj => ?_, fun _ _ => id⟩
        rw [writePages] at hj
        dsimp only at hj
        rcases eq_or_ne k i with rfl | hne
        · rw [Function.update_self, BitVec.getLsbD_and, Bool.and_eq_true] at hj
          exact hj.1
        · rwa [Function.update_of_ne hne] at hj
      · rw [writeL2]
        split
        · refine ⟨fun _ _ => id, fun k j hj => ?_⟩
          dsimp only at hj
          rcases eq_or_ne k (i >>> 6) with rfl | hne
          · rw [Function.update_self, BitVec.getLsbD_and, Bool.and_eq_true] at hj
            exact hj.1
          · rwa [Function.update_of_ne hne] at hj
        · exact .refl b

end Edit

/-! ### The loops -/

/-- The words `MarkRangeAsResolved` visits. -/
def markEdits (start length : ℕ) : List Edit :=
  let start := start &&& 0x1FFFFFFF
  let length := min length (0x20000000 - start)
  let first := start >>> 12
  let last := (start + length - 1) >>> 12
  (Span.cells (first / 32, last / 32)).map fun i => .mark i (rangeMask 32 first last i)

/-- The words `ScaledResolveGlobalWatchCallback` visits under a word of the upper
level; `preMask` is `pre_mask_resolve_l2_block`. -/
def unmarkEdits (first last : ℕ) (preMask : Bool) (i : ℕ) (l2Block : BitVec 64) : List Edit :=
  let l2Block := if preMask then l2Block &&& rangeMask 64 (first / 32) (last / 32) i else l2Block
  (setBits l2Block).map fun j => .unmark ((i <<< 6) + j) (keepBits first last ((i <<< 6) + j))

/-- Unmarking pages marks none. -/
theorem marks_unmarkEdits {first last : ℕ} {preMask : Bool} {i : ℕ} {l2Block : BitVec 64} {e : Edit}
    (h : e ∈ unmarkEdits first last preMask i l2Block) : e.marks = false := by
  rw [unmarkEdits, List.mem_map] at h
  obtain ⟨j, -, rfl⟩ := h
  rfl

end TextureCache
end BoltsRebuilt
