/-
# The bitmap of resident pages

`src/gpu/native/native_geometry_pass.cpp`: `ResidencyCache`.

One bit for each 4 KB page of the 512 MB of shared memory, in words of 64.  Both
loops walk the words of a span with a mask that starts at the first page, is full
in between and is cut at the last page.  `resident_of_covers` and `resident_markSpan` say
what they compute page by page; nothing after them mentions a word.
-/

import BoltsRebuilt.Lib.Spans
import Mathlib.Logic.Function.Basic

namespace BoltsRebuilt
namespace GeometryPass

def kPageBytesLog2 : ℕ := 12
def kPages : ℕ := (512 * 1024 * 1024) >>> kPageBytesLog2

abbrev Word := BitVec 64

structure ResidencyCache where
  pages : ℕ → Word

namespace ResidencyCache

/-- `Reset`, and the state at the start. -/
def reset : ResidencyCache := ⟨fun _ => 0⟩

/-- `PageSpan`: none where it returns false. -/
def pageSpan (start length : ℕ) : Option Span :=
  if length = 0 then none
  else if kPages <<< kPageBytesLog2 ≤ start + length - 1 then none
  else some (start >>> kPageBytesLog2, (start + length - 1) >>> kPageBytesLog2)

/-- The mask at the first word of a span. -/
def maskFrom (first : ℕ) : Word := BitVec.allOnes 64 <<< (first % 64)

/-- What the last word of a span leaves of a mask. -/
def maskTo (last : ℕ) : Word := BitVec.allOnes 64 >>> (63 - last % 64)

/-- The loop of `Covers`, with the words left before the last. -/
def coversLoop (pages : ℕ → Word) (last : ℕ) : ℕ → ℕ → Word → Bool
  | 0, word, mask => pages word &&& (mask &&& maskTo last) == mask &&& maskTo last
  | n + 1, word, mask =>
      if pages word &&& mask ≠ mask then false
      else coversLoop pages last n (word + 1) (BitVec.allOnes 64)

def covers (c : ResidencyCache) (start length : ℕ) : Bool :=
  match pageSpan start length with
  | none => false
  | some (first, last) =>
      coversLoop c.pages last (last / 64 - first / 64) (first / 64) (maskFrom first)

/-- The store of `MarkSpan` to a word. -/
def markWord (pages : ℕ → Word) (word : ℕ) (mask : Word) (resident : Bool) : ℕ → Word :=
  Function.update pages word (if resident then pages word ||| mask else pages word &&& ~~~mask)

/-- The loop of `MarkSpan`. -/
def markSpanLoop (resident : Bool) (last : ℕ) : ℕ → ℕ → Word → (ℕ → Word) → ℕ → Word
  | 0, word, mask, pages => markWord pages word (mask &&& maskTo last) resident
  | n + 1, word, mask, pages =>
      markSpanLoop resident last n (word + 1) (BitVec.allOnes 64) (markWord pages word mask resident)

def markSpan (c : ResidencyCache) (first last : ℕ) (resident : Bool) : ResidencyCache :=
  ⟨markSpanLoop resident last (last / 64 - first / 64) (first / 64) (maskFrom first) c.pages⟩

def add (c : ResidencyCache) (start length : ℕ) : ResidencyCache :=
  match pageSpan start length with
  | none => c
  | some (first, last) => c.markSpan first last true

def clearAddressRange (c : ResidencyCache) (addressFirst addressLast : ℕ) : ResidencyCache :=
  let kBytes := kPages <<< kPageBytesLog2
  if kBytes ≤ addressFirst then c
  else
    let addressLast := if kBytes ≤ addressLast then kBytes - 1 else addressLast
    if addressLast < addressFirst then c
    else c.markSpan (addressFirst >>> kPageBytesLog2) (addressLast >>> kPageBytesLog2) false

/-- The bit of a page. -/
def resident (c : ResidencyCache) (page : ℕ) : Bool := (c.pages (page / 64)).getLsbD (page % 64)

/-! ### Masks -/

/-- The mask of a first word has the bits from the first page on. -/
theorem getLsbD_maskFrom {first i : ℕ} (hi : i < 64) :
    (maskFrom first).getLsbD i = decide (first % 64 ≤ i) := by
  rw [maskFrom, BitVec.getLsbD_shiftLeft, BitVec.getLsbD_allOnes]
  have : decide (i - first % 64 < 64) = true := decide_eq_true (by omega)
  rw [this, decide_eq_true hi, Bool.true_and, Bool.and_true, ← decide_not, decide_eq_decide]
  omega

/-- The mask of a last word has the bits up to the last page. -/
theorem getLsbD_maskTo {last i : ℕ} :
    (maskTo last).getLsbD i = decide (i ≤ last % 64) := by
  rw [maskTo, BitVec.getLsbD_ushiftRight, BitVec.getLsbD_allOnes, decide_eq_decide]
  omega

/-- A word that begins with the first page is covered in full. -/
theorem maskFrom_eq_allOnes {first : ℕ} (h : first % 64 = 0) : maskFrom first = BitVec.allOnes 64 := by
  rw [maskFrom, h, BitVec.shiftLeft_zero]

/-- A word has a mask when it has all its bits. -/
theorem and_eq_mask_iff {w mask : Word} :
    w &&& mask = mask ↔ ∀ i, i < 64 → mask.getLsbD i = true → w.getLsbD i = true := by
  constructor
  · intro h i _ hi
    have hand : (w &&& mask).getLsbD i = true := by rw [h, hi]
    rw [BitVec.getLsbD_and, Bool.and_eq_true] at hand
    exact hand.1
  · intro h
    refine BitVec.eq_of_getLsbD_eq fun i hi => ?_
    rw [BitVec.getLsbD_and]
    cases hm : mask.getLsbD i with
    | false => rw [Bool.and_false]
    | true => rw [h i hi hm, Bool.and_true]

/-! ### Spans -/

/-- The loop of `Covers` at the word of `first`. -/
theorem coversLoop_iff {pages : ℕ → Word} {last n first : ℕ} (hn : last / 64 = first / 64 + n) :
    coversLoop pages last n (first / 64) (maskFrom first) = true ↔
      ∀ page, first ≤ page → page ≤ last → (pages (page / 64)).getLsbD (page % 64) = true := by
  induction n generalizing first with
  | zero =>
      rw [coversLoop, beq_iff_eq, and_eq_mask_iff]
      constructor
      · intro h page hfirst hlast
        have hword : page / 64 = first / 64 := by omega
        have hbit : page % 64 < 64 := Nat.mod_lt _ (by omega)
        rw [hword]
        refine h _ hbit ?_
        rw [BitVec.getLsbD_and, getLsbD_maskFrom hbit, getLsbD_maskTo, Bool.and_eq_true,
          decide_eq_true_eq, decide_eq_true_eq]
        omega
      · intro h i hi hmask
        rw [BitVec.getLsbD_and, getLsbD_maskFrom hi, getLsbD_maskTo, Bool.and_eq_true,
          decide_eq_true_eq, decide_eq_true_eq] at hmask
        have hpage := h (64 * (first / 64) + i) (by omega) (by omega)
        rwa [show (64 * (first / 64) + i) / 64 = first / 64 by omega,
          show (64 * (first / 64) + i) % 64 = i by omega] at hpage
  | succ n ih =>
      obtain ⟨next, hnext⟩ : ∃ next, next = 64 * (first / 64 + 1) := ⟨_, rfl⟩
      have hword : first / 64 + 1 = next / 64 := by omega
      have hmask : BitVec.allOnes 64 = maskFrom next := (maskFrom_eq_allOnes (by omega)).symm
      -- the pages of this word, then those from the next word on
      have hsplit : coversLoop pages last (n + 1) (first / 64) (maskFrom first) = true ↔
          pages (first / 64) &&& maskFrom first = maskFrom first ∧
            coversLoop pages last n (first / 64 + 1) (BitVec.allOnes 64) = true := by
        rw [coversLoop]
        by_cases h : pages (first / 64) &&& maskFrom first = maskFrom first
        · simp [h]
        · simp [h]
      rw [hsplit, hmask, hword, ih (by omega), and_eq_mask_iff]
      constructor
      · rintro ⟨hbits, hrest⟩ page hfirst hlast
        by_cases hpage : page / 64 = first / 64
        · have hbit : page % 64 < 64 := Nat.mod_lt _ (by omega)
          rw [hpage]
          refine hbits _ hbit ?_
          rw [getLsbD_maskFrom hbit, decide_eq_true_eq]
          omega
        · exact hrest page (by omega) hlast
      · intro h
        refine ⟨fun i hi hi' => ?_, fun page hfirst hlast => h page (by omega) hlast⟩
        rw [getLsbD_maskFrom hi, decide_eq_true_eq] at hi'
        have hpage := h (64 * (first / 64) + i) (by omega) (by omega)
        rwa [show (64 * (first / 64) + i) / 64 = first / 64 by omega,
          show (64 * (first / 64) + i) % 64 = i by omega] at hpage

/-- One word of `MarkSpan`: the pages of its mask are set or cleared, every other page is as before. -/
theorem getLsbD_markWord {pages : ℕ → Word} {word : ℕ} {mask : Word} {r : Bool} {w i : ℕ}
    (hi : i < 64) :
    (markWord pages word mask r w).getLsbD i =
      if w = word ∧ mask.getLsbD i = true then r else (pages w).getLsbD i := by
  rw [markWord]
  rcases eq_or_ne w word with rfl | hne
  · rw [Function.update_self]
    cases r with
    | true =>
        rw [if_pos rfl, BitVec.getLsbD_or]
        cases mask.getLsbD i <;> simp
    | false =>
        rw [if_neg Bool.false_ne_true, BitVec.getLsbD_and, BitVec.getLsbD_not, decide_eq_true hi]
        cases mask.getLsbD i <;> simp
  · rw [Function.update_of_ne hne, if_neg fun h => hne h.1]

/-- The loop of `MarkSpan` at the word of `first`. -/
theorem getLsbD_markSpanLoop {r : Bool} {last n first : ℕ} {pages : ℕ → Word}
    (hn : last / 64 = first / 64 + n) (page : ℕ) :
    (markSpanLoop r last n (first / 64) (maskFrom first) pages (page / 64)).getLsbD (page % 64) =
      if first ≤ page ∧ page ≤ last then r else (pages (page / 64)).getLsbD (page % 64) := by
  have hbit : page % 64 < 64 := Nat.mod_lt _ (by omega)
  induction n generalizing first pages with
  | zero =>
      rw [markSpanLoop, getLsbD_markWord hbit]
      congr 1
      rw [BitVec.getLsbD_and, getLsbD_maskFrom hbit, getLsbD_maskTo, Bool.and_eq_true,
        decide_eq_true_eq, decide_eq_true_eq, eq_iff_iff]
      omega
  | succ n ih =>
      obtain ⟨next, hnext⟩ : ∃ next, next = 64 * (first / 64 + 1) := ⟨_, rfl⟩
      have hword : first / 64 + 1 = next / 64 := by omega
      have hmask : BitVec.allOnes 64 = maskFrom next := (maskFrom_eq_allOnes (by omega)).symm
      rw [markSpanLoop, hmask, hword, ih (by omega), getLsbD_markWord hbit, getLsbD_maskFrom hbit]
      simp only [decide_eq_true_eq]
      split_ifs <;> first | rfl | omega

/-- Marking a span sets its pages and leaves the others. -/
theorem resident_markSpan {c : ResidencyCache} {first last : ℕ} {r : Bool} (h : first ≤ last)
    (page : ℕ) :
    (c.markSpan first last r).resident page =
      if first ≤ page ∧ page ≤ last then r else c.resident page :=
  getLsbD_markSpanLoop (by omega) page

/-- Nothing is resident after a reset. -/
@[simp] theorem resident_reset (page : ℕ) : reset.resident page = false := BitVec.getLsbD_zero

/-- A span is one of pages of the bitmap. -/
theorem pageSpan_eq_some {start length first last : ℕ}
    (h : pageSpan start length = some (first, last)) :
    length ≠ 0 ∧ first = start / 2 ^ 12 ∧ last = (start + length - 1) / 2 ^ 12 ∧ first ≤ last ∧
      last < kPages := by
  unfold pageSpan at h
  split_ifs at h with h₁ h₂
  simp only [Option.some.injEq, Prod.mk.injEq, Nat.shiftRight_eq_div_pow, kPageBytesLog2] at h
  simp only [Nat.shiftLeft_eq, kPages, Nat.shiftRight_eq_div_pow, kPageBytesLog2] at h₂ ⊢
  obtain ⟨rfl, rfl⟩ := h
  omega

/-- The pages of a range that `Covers` accepts are resident, each of them. -/
theorem resident_of_covers {c : ResidencyCache} {start length : ℕ} (h : c.covers start length = true)
    {page : ℕ} (hfirst : start / 2 ^ 12 ≤ page) (hlast : page ≤ (start + length - 1) / 2 ^ 12) :
    c.resident page = true := by
  unfold covers at h
  split at h
  · exact absurd h (by decide)
  · rename_i first last hspan
    obtain ⟨-, rfl, rfl, hle, -⟩ := pageSpan_eq_some hspan
    exact (coversLoop_iff (by omega)).1 h page hfirst hlast

/-- What `Add` leaves resident was resident before or is a page of a range that is not empty. -/
theorem resident_add {c : ResidencyCache} {start length page : ℕ}
    (h : (c.add start length).resident page = true) :
    c.resident page = true ∨ length ≠ 0 ∧ page < kPages ∧ start / 2 ^ 12 ≤ page ∧
      page ≤ (start + length - 1) / 2 ^ 12 := by
  unfold add at h
  split at h
  · exact .inl h
  · rename_i first last hspan
    obtain ⟨hlength, rfl, rfl, hle, hlt⟩ := pageSpan_eq_some hspan
    rw [resident_markSpan hle] at h
    split_ifs at h with hpage
    · exact .inr ⟨hlength, by omega, hpage⟩
    · exact .inl h

/-- What `ClearAddressRange` leaves resident was resident before and has no byte in the range. -/
theorem resident_clearAddressRange {c : ResidencyCache} {addressFirst addressLast page : ℕ}
    (h : (c.clearAddressRange addressFirst addressLast).resident page = true) :
    c.resident page = true ∧ (page < kPages → addressFirst ≤ addressLast →
      ¬(addressFirst / 2 ^ 12 ≤ page ∧ page ≤ addressLast / 2 ^ 12)) := by
  simp only [clearAddressRange, kPages, kPageBytesLog2, Nat.shiftLeft_eq,
    Nat.shiftRight_eq_div_pow] at h ⊢
  by_cases h₁ : 512 * 1024 * 1024 / 2 ^ 12 * 2 ^ 12 ≤ addressFirst
  · rw [if_pos h₁] at h
    exact ⟨h, by omega⟩
  rw [if_neg h₁] at h
  by_cases h₂ : 512 * 1024 * 1024 / 2 ^ 12 * 2 ^ 12 ≤ addressLast
  · rw [if_pos h₂, if_neg (by omega), resident_markSpan (by omega)] at h
    split_ifs at h with hpage
    exact ⟨h, by omega⟩
  · rw [if_neg h₂] at h
    by_cases h₃ : addressLast < addressFirst
    · rw [if_pos h₃] at h
      exact ⟨h, by omega⟩
    · rw [if_neg h₃, resident_markSpan (by omega)] at h
      split_ifs at h with hpage
      exact ⟨h, fun _ _ => hpage⟩

end ResidencyCache
end GeometryPass
end BoltsRebuilt
