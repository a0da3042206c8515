/-
# The invalidation callback

`src/gpu/vendored/src/graphics/shared_memory.cpp`: `MemoryInvalidationCallback`
(lines 850-939).

A write to some pages makes more of them invalid, up to the next page of the same
word that the GPU wrote on either side (`Widened`), as far as the cap lets them.
The pages that are left decide which flags are cleared, which watches are called
and which bytes are returned (`invalidation_exact`).

The loop goes over the words of the request.  The wider range stays within them,
so the masks of the first and the last word select it (`getLsbD_invalidateBits`).
-/

import BoltsRebuilt.Ranges.Invalidation
import BoltsRebuilt.Ranges.Watches

namespace BoltsRebuilt
namespace Ranges

open TextureCache (bitsBelow kBufferSize)

/-- `rex::lzcnt` of a 64-bit number. -/
def lzcnt (x : BitVec 64) : ℕ := ((List.range 64).find? fun j => x.getLsbD (63 - j)).getD 64

/-- `rex::tzcnt` of a 64-bit number. -/
def tzcnt (x : BitVec 64) : ℕ := (bitScanForward x).getD 64

/-- `NativeInvalidationStats`. -/
structure InvalidationStats where
  callbacks : BitVec 64 := 0
  exactCallbacks : BitVec 64 := 0
  enabledCallbacks : BitVec 64 := 0
  narrowedCallbacks : BitVec 64 := 0
  requestedPages : BitVec 64 := 0
  originalPages : BitVec 64 := 0
  selectedPages : BitVec 64 := 0
  retainedCpuPages : BitVec 64 := 0
  potentialRetainedCpuPages : BitVec 64 := 0
  deriving DecidableEq, Repr

/-- `SharedMemory`, what the callback reads and writes.  The words of the flags are told
by their index; there may be no mirror. -/
structure SharedMemory where
  pageSizeLog2 : ℕ
  valid : ℕ → BitVec 64
  gpuWritten : ℕ → BitVec 64
  mirror : Option (ℕ → BitVec 64)
  watches : WatchBuckets
  stats : InvalidationStats

/-- The two settings the callback reads. -/
structure InvalidationSettings where
  narrow : Bool
  diagnostics : Bool

/-- What a call of `FireWatches` tells: the addresses to the global watches, and the ranges
called. -/
structure Fired where
  addressFirst : BitVec 32
  addressLast : BitVec 32
  ranges : List WatchRange
  deriving DecidableEq, Repr

namespace SharedMemory

/-- The wider range: up to the next page the GPU wrote, within the word. -/
def widen (m : SharedMemory) (requested : InvalidationRange) : InvalidationRange :=
  let pageFirst := requested.first
  let pageLast := requested.last
  let first :=
    if pageFirst &&& 63 ≠ 0 then
      let gpuWrittenStart := m.gpuWritten (pageFirst >>> 6).toNat
      let gpuWrittenStart := gpuWrittenStart &&& bitsBelow 64 (pageFirst &&& 63).toNat
      (pageFirst &&& ~~~63) + BitVec.ofNat 32 (64 - lzcnt gpuWrittenStart)
    else pageFirst
  let last :=
    if pageLast &&& 63 ≠ 63 then
      let gpuWrittenEnd := m.gpuWritten (pageLast >>> 6).toNat
      let gpuWrittenEnd := gpuWrittenEnd &&& ~~~bitsBelow 64 ((pageLast &&& 63).toNat + 1)
      (pageLast &&& ~~~63) + BitVec.ofNat 32 (max (tzcnt gpuWrittenEnd) 1 - 1)
    else pageLast
  { first, last }

/-- `invalidate_bits` of word `i`. -/
def invalidateBits (selected : InvalidationRange) (blockFirst blockLast i : ℕ) : BitVec 64 :=
  let bits := BitVec.allOnes 64
  let bits := if i = blockFirst then bits &&& ~~~bitsBelow 64 (selected.first &&& 63).toNat else bits
  if i = blockLast ∧ selected.last &&& 63 ≠ 63
  then bits &&& bitsBelow 64 ((selected.last &&& 63).toNat + 1) else bits

/-- The counters before the loop. -/
def countCallback (m : SharedMemory) (requested original selected : InvalidationRange)
    (exactRange narrow : Bool) : SharedMemory :=
  let s := m.stats
  { m with
    stats := { s with
      callbacks := s.callbacks + 1
      exactCallbacks := s.exactCallbacks + if exactRange then 1 else 0
      enabledCallbacks := s.enabledCallbacks + if narrow then 1 else 0
      narrowedCallbacks := s.narrowedCallbacks + if selected ≠ original then 1 else 0
      requestedPages := s.requestedPages + nativeInvalidationPageCount requested
      originalPages := s.originalPages + nativeInvalidationPageCount original
      selectedPages := s.selectedPages + nativeInvalidationPageCount selected } }

/-- The counters of a word, before its flags are cleared. -/
def countRetained (m : SharedMemory) (original potential : InvalidationRange) (narrow : Bool)
    (i : ℕ) : SharedMemory :=
  let s := m.stats
  let retained := BitVec.ofNat 64
    (nativeRetainedCpuPages original potential i (m.valid i) (m.gpuWritten i))
  { m with
    stats := { s with
      potentialRetainedCpuPages := s.potentialRetainedCpuPages + retained
      retainedCpuPages := if narrow then s.retainedCpuPages + retained else s.retainedCpuPages } }

/-- The flags of a word cleared. -/
def clearWord (m : SharedMemory) (i : ℕ) (bits : BitVec 64) : SharedMemory :=
  { m with
    mirror := m.mirror.map fun words => Function.update words i (words i &&& ~~~bits)
    valid := Function.update m.valid i (m.valid i &&& ~~~bits)
    gpuWritten := Function.update m.gpuWritten i (m.gpuWritten i &&& ~~~bits) }

/-- One round of the loop over the words. -/
def invalidateWord (settings : InvalidationSettings)
    (original potential selected : InvalidationRange) (blockFirst blockLast : ℕ)
    (m : SharedMemory) (i : ℕ) : SharedMemory :=
  let m := if settings.diagnostics = true ∧ potential ≠ original
    then m.countRetained original potential settings.narrow i else m
  m.clearWord i (invalidateBits selected blockFirst blockLast i)

/-- `FireWatches`. -/
def fireWatches (m : SharedMemory) (pageFirst pageLast : BitVec 32) : Fired × SharedMemory :=
  let (ranges, watches) :=
    m.watches.fireWatches m.pageSizeLog2 pageFirst.toNat pageLast.toNat
  ({ addressFirst := pageFirst <<< m.pageSizeLog2
     addressLast := (pageLast <<< m.pageSizeLog2) + ((1#32 <<< m.pageSizeLog2) - 1)
     ranges },
    { m with watches })

end SharedMemory

/-- What the callback does: the bytes returned, what was called and the memory after. -/
structure Invalidated where
  returned : BitVec 32 × BitVec 32
  fired : Option Fired
  memory : SharedMemory

namespace SharedMemory

/-- The pages of a request for bytes of the buffer. -/
def requestedRange (m : SharedMemory) (physicalAddressStart length : BitVec 32) :
    InvalidationRange :=
  let length := if BitVec.ofNat 32 kBufferSize - physicalAddressStart < length
    then BitVec.ofNat 32 kBufferSize - physicalAddressStart else length
  let physicalAddressLast := physicalAddressStart + (length - 1)
  { first := physicalAddressStart >>> m.pageSizeLog2
    last := physicalAddressLast >>> m.pageSizeLog2 }

/-- `original_range`. -/
def originalRange (m : SharedMemory) (requested : InvalidationRange) (exactRange : Bool) :
    InvalidationRange := if exactRange then requested else m.widen requested

/-- `selected_range`. -/
def selectedRange (m : SharedMemory) (requested : InvalidationRange) (exactRange narrow : Bool) :
    InvalidationRange :=
  capNativeInvalidationRange requested (m.originalRange requested exactRange) m.pageSizeLog2
    exactRange narrow

/-- The callback for a request of pages. -/
def invalidateRange (m : SharedMemory) (settings : InvalidationSettings)
    (requested : InvalidationRange) (exactRange : Bool) : Invalidated :=
  let blockFirst := (requested.first >>> 6).toNat
  let blockLast := (requested.last >>> 6).toNat
  let original := m.originalRange requested exactRange
  let selected := m.selectedRange requested exactRange settings.narrow
  let potential := if settings.diagnostics
    then m.selectedRange requested exactRange true else original
  let m' := if settings.diagnostics
    then m.countCallback requested original selected exactRange settings.narrow else m
  let m' := (Span.cells (blockFirst, blockLast)).foldl
    (invalidateWord settings original potential selected blockFirst blockLast) m'
  let (fired, m') := m'.fireWatches selected.first selected.last
  { returned := (selected.first <<< m.pageSizeLog2,
      (selected.last - selected.first + 1) <<< m.pageSizeLog2)
    fired := some fired
    memory := m' }

/-- `MemoryInvalidationCallback`. -/
def memoryInvalidationCallback (m : SharedMemory) (settings : InvalidationSettings)
    (physicalAddressStart length : BitVec 32) (exactRange : Bool) : Invalidated :=
  if length = 0 ∨ BitVec.ofNat 32 kBufferSize ≤ physicalAddressStart then
    { returned := (0, 0xFFFFFFFF), fired := none, memory := m }
  else m.invalidateRange settings (m.requestedRange physicalAddressStart length) exactRange

end SharedMemory

/-! ### The wider range -/

/-- The leading zeros of a word end at its highest set bit. -/
theorem lzcnt_spec (x : BitVec 64) :
    (∀ j, 64 - lzcnt x ≤ j → x.getLsbD j = false) ∧
      (0 < 64 - lzcnt x → x.getLsbD (63 - lzcnt x) = true) := by
  rw [lzcnt]
  cases hfind : (List.range 64).find? fun j => x.getLsbD (63 - j) with
  | none =>
      refine ⟨fun j _ => ?_, fun h => absurd h (by simp)⟩
      by_cases hj : j < 64
      · have hall := List.find?_eq_none.1 hfind (63 - j) (List.mem_range.2 (by omega))
        rw [show 63 - (63 - j) = j by omega] at hall
        simpa using hall
      · exact BitVec.getLsbD_of_ge x j (by omega)
  | some k =>
      obtain ⟨hset, hk, hbelow⟩ := List.find?_range_eq_some.1 hfind
      refine ⟨fun j hj => ?_, fun _ => hset⟩
      have hj' : 64 - k ≤ j := hj
      by_cases hj64 : j < 64
      · have hnot := hbelow (63 - j) (by have := List.mem_range.1 hk; omega)
        rw [show 63 - (63 - j) = j by omega] at hnot
        simpa using hnot
      · exact BitVec.getLsbD_of_ge x j (by omega)

/-- The trailing zeros of a word end at its lowest set bit. -/
theorem tzcnt_spec (x : BitVec 64) :
    tzcnt x ≤ 64 ∧ (∀ j < tzcnt x, x.getLsbD j = false) ∧
      (tzcnt x < 64 → x.getLsbD (tzcnt x) = true) := by
  rw [tzcnt]
  cases hfind : bitScanForward x with
  | none =>
      exact ⟨le_rfl, fun j hj => bitScanForward_eq_none hfind hj, fun h => absurd h (lt_irrefl _)⟩
  | some k =>
      obtain ⟨hk, hset, hbelow⟩ := bitScanForward_eq_some hfind
      exact ⟨hk.le, hbelow, fun _ => hset⟩

/-- Clearing the six low bits of a page number gives the first page of its word. -/
theorem toNat_word_start (x : BitVec 32) : (x &&& ~~~63).toNat = x.toNat / 64 * 64 :=
  toNat_and_not_bitsBelow x (b := 6) (by decide)

namespace SharedMemory

/-- What the original range is: it has the request, stays within the words of its ends and
has no other page that the GPU wrote. -/
structure Widened (m : SharedMemory) (requested original : InvalidationRange) : Prop where
  contains : original.Contains requested
  blockFirst : original.first.toNat / 64 = requested.first.toNat / 64
  blockLast : original.last.toNat / 64 = requested.last.toNat / 64
  gpuWritten : ∀ page, original.Has page → ¬ requested.Has page →
    pageValid m.gpuWritten page = false

/-- Widening goes down inside the first page's word, over pages the GPU has not written. -/
theorem widen_first (m : SharedMemory) (requested : InvalidationRange) :
    (m.widen requested).first.toNat ≤ requested.first.toNat ∧
      (m.widen requested).first.toNat / 64 = requested.first.toNat / 64 ∧
      ∀ page, (m.widen requested).first.toNat ≤ page → page < requested.first.toNat →
        pageValid m.gpuWritten page = false := by
  rw [widen]
  dsimp only
  split
  · rename_i hne
    have hne' : requested.first.toNat % 64 ≠ 0 := by
      rw [← toNat_page_bit]
      exact fun h => hne (BitVec.eq_of_toNat_eq h)
    rw [toNat_page_shift, toNat_page_bit]
    generalize hg : m.gpuWritten (requested.first.toNat / 64) &&&
      bitsBelow 64 (requested.first.toNat % 64) = g
    have hbits : ∀ j, g.getLsbD j = ((m.gpuWritten (requested.first.toNat / 64)).getLsbD j &&
        decide (j < requested.first.toNat % 64)) := by
      intro j
      rw [← hg, BitVec.getLsbD_and, TextureCache.getLsbD_bitsBelow (Nat.mod_lt _ (by decide))]
    obtain ⟨hclear, hset⟩ := lzcnt_spec g
    -- the highest page that the GPU wrote is before the request
    have hbefore : 64 - lzcnt g ≤ requested.first.toNat % 64 := by
      by_contra hlt
      have hbit := hset (by omega)
      rw [hbits, Bool.and_eq_true, decide_eq_true_iff] at hbit
      omega
    have hfirst : ((requested.first &&& ~~~63) + BitVec.ofNat 32 (64 - lzcnt g)).toNat =
        requested.first.toNat / 64 * 64 + (64 - lzcnt g) := by
      rw [BitVec.toNat_add, toNat_word_start, BitVec.toNat_ofNat]
      have := requested.first.isLt
      omega
    rw [hfirst]
    refine ⟨by omega, by omega, fun page hge hlt => ?_⟩
    have hbit := hclear (page % 64) (by omega)
    rw [hbits, decide_eq_true (by omega), Bool.and_true] at hbit
    rw [pageValid, show page / 64 = requested.first.toNat / 64 by omega, hbit]
  · exact ⟨le_rfl, rfl, fun page hge hlt => absurd hge (by omega)⟩

/-- And up inside the last page's word, likewise. -/
theorem widen_last (m : SharedMemory) (requested : InvalidationRange) :
    requested.last.toNat ≤ (m.widen requested).last.toNat ∧
      (m.widen requested).last.toNat / 64 = requested.last.toNat / 64 ∧
      ∀ page, requested.last.toNat < page → page ≤ (m.widen requested).last.toNat →
        pageValid m.gpuWritten page = false := by
  rw [widen]
  dsimp only
  split
  · rename_i hne
    have hne' : requested.last.toNat % 64 ≠ 63 := by
      rw [← toNat_page_bit]
      exact fun h => hne (BitVec.eq_of_toNat_eq h)
    rw [toNat_page_shift, toNat_page_bit]
    generalize hg : m.gpuWritten (requested.last.toNat / 64) &&&
      ~~~bitsBelow 64 (requested.last.toNat % 64 + 1) = g
    have hbits : ∀ j < 64, g.getLsbD j = ((m.gpuWritten (requested.last.toNat / 64)).getLsbD j &&
        decide (requested.last.toNat % 64 < j)) := by
      intro j hj
      rw [← hg, BitVec.getLsbD_and, BitVec.getLsbD_not, TextureCache.getLsbD_bitsBelow (by omega),
        decide_eq_true hj, Bool.true_and, ← decide_not]
      congr 1
      rw [decide_eq_decide]
      omega
    obtain ⟨hle, hclear, hset⟩ := tzcnt_spec g
    -- the lowest page that the GPU wrote is behind the request
    have hbehind : requested.last.toNat % 64 < tzcnt g := by
      by_contra hlt
      have hbit := hset (by omega)
      rw [hbits _ (by omega), Bool.and_eq_true, decide_eq_true_iff] at hbit
      omega
    have hlast : ((requested.last &&& ~~~63) + BitVec.ofNat 32 (max (tzcnt g) 1 - 1)).toNat =
        requested.last.toNat / 64 * 64 + (tzcnt g - 1) := by
      rw [BitVec.toNat_add, toNat_word_start, BitVec.toNat_ofNat]
      have := requested.last.isLt
      omega
    rw [hlast]
    refine ⟨by omega, by omega, fun page hgt hle' => ?_⟩
    have hbit := hclear (page % 64) (by omega)
    rw [hbits _ (by omega), decide_eq_true (by omega), Bool.and_true] at hbit
    rw [pageValid, show page / 64 = requested.last.toNat / 64 by omega, hbit]
  · exact ⟨le_rfl, rfl, fun page hgt hle => absurd hgt (by omega)⟩

/-- The range is the one requested, or that one widened. -/
theorem widened_originalRange (m : SharedMemory) (requested : InvalidationRange)
    (exactRange : Bool) : m.Widened requested (m.originalRange requested exactRange) := by
  rw [originalRange]
  split
  · exact ⟨⟨le_rfl, le_rfl⟩, rfl, rfl, fun page h hnot => absurd h hnot⟩
  · obtain ⟨hfirst, hfirst', hgpu⟩ := m.widen_first requested
    obtain ⟨hlast, hlast', hgpu'⟩ := m.widen_last requested
    refine ⟨⟨hfirst, hlast⟩, hfirst', hlast', fun page hpage hnot => ?_⟩
    rcases Nat.lt_or_ge page requested.first.toNat with hlt | hge
    · exact hgpu page hpage.1 hlt
    · exact hgpu' page (by by_contra hle; exact hnot ⟨hge, by omega⟩) hpage.2

end SharedMemory

/-! ### The loop over the words -/

/-- The bits of the words of `is` cleared. -/
def clearWords (bits : ℕ → BitVec 64) (is : List ℕ) (words : ℕ → BitVec 64) (i : ℕ) : BitVec 64 :=
  if i ∈ is then words i &&& ~~~bits i else words i

/-- Clearing one more word first clears it with the others. -/
theorem clearWords_cons {bits : ℕ → BitVec 64} {i : ℕ} {is : List ℕ} (h : i ∉ is)
    (words : ℕ → BitVec 64) :
    clearWords bits is (Function.update words i (words i &&& ~~~bits i)) =
      clearWords bits (i :: is) words := by
  funext k
  rw [clearWords, clearWords]
  by_cases hk : k = i
  · subst hk
    simp [h]
  · simp [hk]

namespace SharedMemory

/-- The masks of the loop select the pages of the range in each of its words. -/
theorem getLsbD_invalidateBits {selected : InvalidationRange} {i j : ℕ}
    (hfirst : selected.first.toNat / 64 ≤ i) (hlast : i ≤ selected.last.toNat / 64) (hj : j < 64) :
    (invalidateBits selected (selected.first.toNat / 64) (selected.last.toNat / 64) i).getLsbD j =
      decide (selected.Has (64 * i + j)) := by
  have hfull : selected.last &&& 63 ≠ 63 ↔ selected.last.toNat % 64 ≠ 64 - 1 := by
    rw [← toNat_page_bit]
    exact not_congr ⟨fun h => by rw [h]; rfl, fun h => BitVec.eq_of_toNat_eq h⟩
  have hbits : invalidateBits selected (selected.first.toNat / 64) (selected.last.toNat / 64) i =
      TextureCache.rangeMask 64 selected.first.toNat selected.last.toNat i := by
    simp only [invalidateBits, TextureCache.rangeMask, toNat_page_bit, hfull]
  rw [hbits, TextureCache.getLsbD_rangeMask hfirst hlast hj]
  exact decide_eq_decide.2 Iff.rfl

section Loop

variable (settings : InvalidationSettings) (original potential selected : InvalidationRange)
  (blockFirst blockLast : ℕ)

/-- **The flags after the loop.**  Those of the words it goes over are cleared. -/
theorem foldl_invalidateWord {is : List ℕ} (h : is.Nodup) (m : SharedMemory) :
    let bits := invalidateBits selected blockFirst blockLast
    let m' := is.foldl (invalidateWord settings original potential selected blockFirst blockLast) m
    m'.valid = clearWords bits is m.valid ∧ m'.gpuWritten = clearWords bits is m.gpuWritten ∧
      m'.mirror = m.mirror.map (clearWords bits is) ∧ m'.watches = m.watches ∧
      m'.pageSizeLog2 = m.pageSizeLog2 := by
  induction is generalizing m with
  | nil =>
      have hnil : clearWords (invalidateBits selected blockFirst blockLast) [] = id := by
        funext words i
        simp [clearWords]
      simp [hnil]
  | cons i is ih =>
      obtain ⟨hi, h⟩ := List.nodup_cons.1 h
      have hcounted : ∀ m : SharedMemory, ∃ stats, (if settings.diagnostics = true ∧ potential ≠ original
          then m.countRetained original potential settings.narrow i else m) = { m with stats } := by
        intro m
        split
        · exact ⟨_, rfl⟩
        · exact ⟨m.stats, rfl⟩
      obtain ⟨stats, hstats⟩ := hcounted m
      have hstep : invalidateWord settings original potential selected blockFirst blockLast m i =
          ({ m with stats } : SharedMemory).clearWord i
            (invalidateBits selected blockFirst blockLast i) := by
        rw [invalidateWord, hstats]
      obtain ⟨hvalid, hgpu, hmirror, hwatches, hlog⟩ := ih h
        (({ m with stats } : SharedMemory).clearWord i (invalidateBits selected blockFirst blockLast i))
      dsimp only
      rw [List.foldl_cons, hstep, hvalid, hgpu, hmirror, hwatches, hlog, ← clearWords_cons hi,
        ← clearWords_cons hi]
      refine ⟨rfl, rfl, ?_, rfl, rfl⟩
      show (m.mirror.map _).map _ = _
      rw [Option.map_map]
      congr 1
      funext words
      exact clearWords_cons hi words

/-- **The counters after the loop**, as sums over the words the loop goes through. -/
theorem stats_foldl_invalidateWord {is : List ℕ} (h : is.Nodup) (hdiag : settings.diagnostics = true)
    (m : SharedMemory) :
    let retained := BitVec.ofNat 64 (is.map fun i =>
      nativeRetainedCpuPages original potential i (m.valid i) (m.gpuWritten i)).sum
    let m' := is.foldl (invalidateWord settings original potential selected blockFirst blockLast) m
    m'.stats.potentialRetainedCpuPages = m.stats.potentialRetainedCpuPages + retained ∧
      m'.stats.retainedCpuPages =
        m.stats.retainedCpuPages + if settings.narrow then retained else 0 := by
  induction is generalizing m with
  | nil => simp
  | cons i is ih =>
      obtain ⟨hi, h⟩ := List.nodup_cons.1 h
      -- the words that are left are those of before
      have hwords : ∀ (m' : SharedMemory), m'.valid = m.valid → m'.gpuWritten = m.gpuWritten →
          ∀ bits, is.map (fun k => nativeRetainedCpuPages original potential k
              ((m'.clearWord i bits).valid k) ((m'.clearWord i bits).gpuWritten k)) =
            is.map fun k => nativeRetainedCpuPages original potential k (m.valid k) (m.gpuWritten k) := by
        intro m' hvalid hgpu bits
        refine List.map_congr_left fun k hk => ?_
        have hne : k ≠ i := fun heq => hi (heq ▸ hk)
        simp only [clearWord, Function.update_of_ne hne, hvalid, hgpu]
      dsimp only
      rw [List.foldl_cons, List.map_cons, List.sum_cons, BitVec.ofNat_add, invalidateWord]
      by_cases hdiff : potential = original
      · have hzero : nativeRetainedCpuPages original potential i (m.valid i) (m.gpuWritten i) = 0 := by
          rw [nativeRetainedCpuPages_eq, hdiff, List.countP_eq_zero]
          simp
        rw [if_neg (by simp [hdiff]), hzero]
        obtain ⟨hp, hr⟩ := ih h (m.clearWord i (invalidateBits selected blockFirst blockLast i))
        rw [hp, hr, hwords m rfl rfl]
        simp [clearWord]
      · rw [if_pos ⟨hdiag, hdiff⟩]
        obtain ⟨hp, hr⟩ := ih h ((m.countRetained original potential settings.narrow i).clearWord i
          (invalidateBits selected blockFirst blockLast i))
        rw [hp, hr, hwords (m.countRetained original potential settings.narrow i) rfl rfl]
        refine ⟨?_, ?_⟩
        · simp only [clearWord, countRetained]
          rw [BitVec.add_assoc]
        · simp only [clearWord, countRetained]
          split
          · rw [BitVec.add_assoc]
          · rfl

end Loop

end SharedMemory

/-- What is counted word by word is counted over all pages. -/
theorem countP_words (p : ℕ → Bool) (b n : ℕ) :
    ((List.range' b n).map fun i => (List.range' (64 * i) 64).countP p).sum =
      (List.range' (64 * b) (64 * n)).countP p := by
  induction n generalizing b with
  | zero => rfl
  | succ n ih =>
      rw [List.range'_succ, List.map_cons, List.sum_cons, ih, range'_words_succ,
        List.countP_append]

/-! ### What the callback does -/

namespace SharedMemory

/-- The pages of a request, and that they are in the buffer. -/
theorem requestedRange_spec (m : SharedMemory) {start length : BitVec 32} (hlength : length ≠ 0)
    (hstart : start.toNat < kBufferSize) (hlog : m.pageSizeLog2 ≤ 23) :
    let requested := m.requestedRange start length
    requested.first.toNat ≤ requested.last.toNat ∧
      requested.last.toNat / 64 < 2 ^ (23 - m.pageSizeLog2) ∧
      ∀ page, requested.Has page ↔ ∃ byte, start.toNat ≤ byte ∧
        byte < start.toNat + length.toNat ∧ byte < kBufferSize ∧ byte / 2 ^ m.pageSizeLog2 = page := by
  intro requested
  have hpos : length.toNat ≠ 0 := fun h => hlength (BitVec.eq_of_toNat_eq h)
  have hstart' : start.toNat < 2 ^ 29 := hstart
  have hroom : (BitVec.ofNat 32 kBufferSize - start).toNat = 2 ^ 29 - start.toNat := by
    rw [BitVec.toNat_sub_of_le]
    · rfl
    · rw [BitVec.le_def]
      exact hstart'.le
  -- the bytes that are in the buffer
  obtain ⟨n, hn, hcut⟩ : ∃ n : BitVec 32, n.toNat = min length.toNat (2 ^ 29 - start.toNat) ∧
      requested = ⟨start >>> m.pageSizeLog2, (start + (n - 1)) >>> m.pageSizeLog2⟩ := by
    refine ⟨_, ?_, rfl⟩
    simp only [BitVec.lt_def, hroom]
    split <;> omega
  have hlastByte : (start + (n - 1)).toNat = start.toNat + n.toNat - 1 := by
    rw [BitVec.toNat_add, BitVec.toNat_sub]
    simp
    omega
  have hfirst : requested.first.toNat = start.toNat / 2 ^ m.pageSizeLog2 := by
    rw [hcut, BitVec.toNat_ushiftRight, Nat.shiftRight_eq_div_pow]
  have hlast : requested.last.toNat = (start.toNat + n.toNat - 1) / 2 ^ m.pageSizeLog2 := by
    rw [hcut, BitVec.toNat_ushiftRight, hlastByte, Nat.shiftRight_eq_div_pow]
  have hsize : 0 < 2 ^ m.pageSizeLog2 := Nat.two_pow_pos _
  refine ⟨?_, ?_, fun page => ?_⟩
  · rw [hfirst, hlast]
    exact Nat.div_le_div_right (by omega)
  · have hbuffer : 2 ^ (23 - m.pageSizeLog2) * (2 ^ m.pageSizeLog2 * 64) = 2 ^ 29 := by
      rw [← Nat.mul_assoc, ← Nat.pow_add, Nat.sub_add_cancel hlog]
      rfl
    rw [hlast, Nat.div_div_eq_div_mul, Nat.div_lt_iff_lt_mul (by omega), hbuffer]
    omega
  · simp only [InvalidationRange.Has]
    rw [hfirst, hlast]
    rw [page_between_iff (by omega) hsize]
    refine exists_congr fun byte => and_congr_right fun _ => ?_
    have hbuffer : kBufferSize = 2 ^ 29 := rfl
    rw [hn, hbuffer, ← and_assoc]
    exact and_congr_left fun _ => by omega

/-- The bytes of the pages of a range in the buffer. -/
theorem returned_bytes {selected : InvalidationRange} {pageSizeLog2 : ℕ} (hlog : pageSizeLog2 ≤ 23)
    (hle : selected.first.toNat ≤ selected.last.toNat)
    (hlast : selected.last.toNat / 64 < 2 ^ (23 - pageSizeLog2)) :
    (selected.first <<< pageSizeLog2).toNat = selected.first.toNat * 2 ^ pageSizeLog2 ∧
      (selected.last <<< pageSizeLog2).toNat = selected.last.toNat * 2 ^ pageSizeLog2 ∧
      ((selected.last <<< pageSizeLog2) + ((1#32 <<< pageSizeLog2) - 1)).toNat =
        selected.last.toNat * 2 ^ pageSizeLog2 + (2 ^ pageSizeLog2 - 1) ∧
      ((selected.last - selected.first + 1) <<< pageSizeLog2).toNat =
        (selected.last.toNat - selected.first.toNat + 1) * 2 ^ pageSizeLog2 := by
  have hsize : 0 < 2 ^ pageSizeLog2 := Nat.two_pow_pos _
  have hbuffer : 2 ^ (23 - pageSizeLog2) * 2 ^ pageSizeLog2 = 2 ^ 23 := by
    rw [← Nat.pow_add, Nat.sub_add_cancel hlog]
  have hbound : (selected.last.toNat + 1) * 2 ^ pageSizeLog2 ≤ 2 ^ 29 := by
    calc (selected.last.toNat + 1) * 2 ^ pageSizeLog2
        ≤ 64 * 2 ^ (23 - pageSizeLog2) * 2 ^ pageSizeLog2 := Nat.mul_le_mul_right _ (by omega)
      _ = 2 ^ 29 := by rw [Nat.mul_assoc, hbuffer]; rfl
  have hshift : ∀ x : BitVec 32, x.toNat * 2 ^ pageSizeLog2 < 2 ^ 32 →
      (x <<< pageSizeLog2).toNat = x.toNat * 2 ^ pageSizeLog2 := by
    intro x hx
    rw [BitVec.toNat_shiftLeft, Nat.shiftLeft_eq, Nat.mod_eq_of_lt hx]
  have hfirst' : selected.first.toNat * 2 ^ pageSizeLog2 ≤ selected.last.toNat * 2 ^ pageSizeLog2 :=
    Nat.mul_le_mul_right _ hle
  rw [Nat.succ_mul] at hbound
  have hpage : selected.last.toNat < 2 ^ 29 := by
    have := Nat.le_mul_of_pos_right selected.last.toNat hsize
    omega
  have hcount : (selected.last - selected.first + 1).toNat =
      selected.last.toNat - selected.first.toNat + 1 := by
    rw [BitVec.toNat_add, BitVec.toNat_sub]
    simp
    omega
  have hone : (1#32 <<< pageSizeLog2 - 1).toNat = 2 ^ pageSizeLog2 - 1 := by
    have hpow : (1#32 <<< pageSizeLog2).toNat = 2 ^ pageSizeLog2 := by
      rw [hshift 1#32 (by simp; omega)]
      simp
    rw [BitVec.toNat_sub_of_le, hpow]
    · rfl
    · rw [BitVec.le_def, hpow]
      exact hsize
  have hlast' : (selected.last <<< pageSizeLog2).toNat = selected.last.toNat * 2 ^ pageSizeLog2 :=
    hshift _ (by omega)
  refine ⟨hshift _ (by omega), hlast', ?_, ?_⟩
  · rw [BitVec.toNat_add, hlast', hone]
    omega
  · rw [hshift, hcount]
    rw [hcount, Nat.succ_mul, Nat.sub_mul]
    omega

/-- The pages that the narrower range leaves valid. -/
def retainedPages (m : SharedMemory) (original selected : InvalidationRange) : List ℕ :=
  (Span.cells (original.first.toNat, original.last.toNat)).filter fun page =>
    cpuValid m.valid m.gpuWritten page && !decide (selected.Has page)

/-- Counted word by word, the pages retained for the CPU are counted once each. -/
theorem sum_nativeRetainedCpuPages (m : SharedMemory) {requested original selected : InvalidationRange}
    (h : m.Widened requested original) (hne : requested.first.toNat ≤ requested.last.toNat) :
    ((Span.cells (requested.first.toNat / 64, requested.last.toNat / 64)).map fun i =>
        nativeRetainedCpuPages original selected i (m.valid i) (m.gpuWritten i)).sum =
      (m.retainedPages original selected).length := by
  obtain ⟨⟨hfirst, hlast⟩, hblock, hblock', -⟩ := h
  have hdiv : requested.first.toNat / 64 ≤ requested.last.toNat / 64 := Nat.div_le_div_right hne
  set b := requested.first.toNat / 64 with hb
  set n := requested.last.toNat / 64 + 1 - b with hn
  simp only [nativeRetainedCpuPages_eq]
  show ((List.range' b n).map _).sum = _
  rw [countP_words, range'_append_three (a := original.first.toNat) (c := original.last.toNat + 1)
    (by omega) (by omega) (by omega), List.countP_append, List.countP_append, retainedPages,
    ← List.countP_eq_length_filter]
  have hout : ∀ l : List ℕ, (∀ page ∈ l, ¬ original.Has page) →
      l.countP (fun page => cpuValid m.valid m.gpuWritten page &&
        decide (original.Has page ∧ ¬ selected.Has page)) = 0 := by
    intro l hl
    rw [List.countP_eq_zero]
    intro page hpage
    simp [hl page hpage]
  have hbefore := hout (List.range' (64 * b) (original.first.toNat - 64 * b)) fun page hpage hin => by
    have hlt := (List.mem_range'_1.1 hpage).2
    exact absurd hin.1 (by omega)
  have hafter := hout (List.range' (original.last.toNat + 1)
      (64 * b + 64 * n - (original.last.toNat + 1))) fun page hpage hin => by
    have hge := (List.mem_range'_1.1 hpage).1
    exact absurd hin.2 (by omega)
  rw [hbefore, hafter, Nat.zero_add, Nat.add_zero]
  refine List.countP_congr fun page hpage => ?_
  have hpage' : page ∈ Span.cells (original.first.toNat, original.last.toNat) := hpage
  have hin : original.Has page := Span.mem_cells.1 hpage'
  simp [hin]

/-- The flags of the pages after the loop: those selected are cleared, all others are as before. -/
theorem pageValid_clearWords {selected : InvalidationRange} {blockFirst blockLast : ℕ}
    (hfirst : selected.first.toNat / 64 = blockFirst) (hlast : selected.last.toNat / 64 = blockLast)
    (words : ℕ → BitVec 64) (page : ℕ) :
    pageValid (clearWords (invalidateBits selected blockFirst blockLast)
        (Span.cells (blockFirst, blockLast)) words) page =
      (pageValid words page && !decide (selected.Has page)) := by
  subst hfirst hlast
  rw [pageValid, pageValid, clearWords]
  split
  · rename_i hmem
    obtain ⟨hge, hle⟩ := Span.mem_cells.1 hmem
    have hj : page % 64 < 64 := Nat.mod_lt _ (by decide)
    rw [BitVec.getLsbD_and, BitVec.getLsbD_not, decide_eq_true hj, Bool.true_and,
      getLsbD_invalidateBits hge hle hj, Nat.div_add_mod]
  · rename_i hmem
    have hnot : ¬ selected.Has page := by
      intro hin
      exact hmem (Span.mem_cells.2
        ⟨Nat.div_le_div_right hin.1, Nat.div_le_div_right hin.2⟩)
    simp [hnot]

/-- The bytes of the pages selected are those from the first page's first to the last page's last. -/
theorem mem_bytes_iff (selected : InvalidationRange) (pageSizeLog2 byte : ℕ) :
    (selected.first.toNat * 2 ^ pageSizeLog2 ≤ byte ∧
      byte < (selected.last.toNat + 1) * 2 ^ pageSizeLog2) ↔ selected.Has (byte / 2 ^ pageSizeLog2) := by
  have hsize : 0 < 2 ^ pageSizeLog2 := Nat.two_pow_pos _
  rw [InvalidationRange.Has, Nat.le_div_iff_mul_le hsize,
    ← Nat.lt_succ_iff (n := selected.last.toNat), Nat.div_lt_iff_lt_mul hsize]

/-- The bytes that the watches are fired for are those of the pages selected. -/
theorem mem_firedBytes_iff {selected : InvalidationRange} {pageSizeLog2 : ℕ} (hlog : pageSizeLog2 ≤ 23)
    (hle : selected.first.toNat ≤ selected.last.toNat)
    (hlast : selected.last.toNat / 64 < 2 ^ (23 - pageSizeLog2)) (byte : ℕ) :
    ((selected.first <<< pageSizeLog2).toNat ≤ byte ∧
      byte ≤ ((selected.last <<< pageSizeLog2) + ((1#32 <<< pageSizeLog2) - 1)).toNat) ↔
      selected.Has (byte / 2 ^ pageSizeLog2) := by
  obtain ⟨hbyteFirst, -, hbyteLast, -⟩ := returned_bytes hlog hle hlast
  have hsize : 0 < 2 ^ pageSizeLog2 := Nat.two_pow_pos _
  rw [← mem_bytes_iff, hbyteFirst, hbyteLast, Nat.succ_mul]
  omega

/-- The bytes returned, a first one and a count, are those of the pages selected. -/
theorem mem_returnedBytes_iff {selected : InvalidationRange} {pageSizeLog2 : ℕ}
    (hlog : pageSizeLog2 ≤ 23) (hle : selected.first.toNat ≤ selected.last.toNat)
    (hlast : selected.last.toNat / 64 < 2 ^ (23 - pageSizeLog2)) (byte : ℕ) :
    ((selected.first <<< pageSizeLog2).toNat ≤ byte ∧
      byte < (selected.first <<< pageSizeLog2).toNat +
        ((selected.last - selected.first + 1) <<< pageSizeLog2).toNat) ↔
      selected.Has (byte / 2 ^ pageSizeLog2) := by
  obtain ⟨hbyteFirst, -, -, hbytes⟩ := returned_bytes hlog hle hlast
  have hsum : selected.first.toNat * 2 ^ pageSizeLog2 +
      (selected.last.toNat - selected.first.toNat + 1) * 2 ^ pageSizeLog2 =
        (selected.last.toNat + 1) * 2 ^ pageSizeLog2 := by
    rw [← Nat.add_mul]
    congr 1
    omega
  rw [← mem_bytes_iff, hbyteFirst, hbytes, hsum]

/-- The loop counts the pages that the range selected leaves valid.  With diagnostics on it counts
those of the cap (`potential`), whether the cap is used or not. -/
theorem retained_foldl_invalidateWord {settings : InvalidationSettings} (m : SharedMemory)
    {requested original potential selected : InvalidationRange} (hdiag : settings.diagnostics = true)
    (hwide : m.Widened requested original) (hne : requested.first.toNat ≤ requested.last.toNat)
    (hpotential : settings.narrow = true → potential = selected)
    (hsame : settings.narrow = false → selected = original) :
    ((Span.cells (requested.first.toNat / 64, requested.last.toNat / 64)).foldl
      (invalidateWord settings original potential selected (requested.first.toNat / 64)
        (requested.last.toNat / 64)) m).stats.retainedCpuPages =
      m.stats.retainedCpuPages + BitVec.ofNat 64 (m.retainedPages original selected).length := by
  have hnodup : (Span.cells (requested.first.toNat / 64, requested.last.toNat / 64)).Nodup :=
    List.Pairwise.imp Nat.ne_of_lt List.pairwise_lt_range'
  have hcount := (stats_foldl_invalidateWord settings original potential selected
    (requested.first.toNat / 64) (requested.last.toNat / 64) hnodup hdiag m).2
  rw [hcount, m.sum_nativeRetainedCpuPages hwide hne]
  cases hnarrow : settings.narrow with
  | true => rw [if_pos rfl, hpotential hnarrow]
  | false =>
      -- without the cap the range selected is the original one
      have hnone : (m.retainedPages original original).length = 0 := by
        rw [retainedPages, ← List.countP_eq_length_filter, List.countP_eq_zero]
        intro page hpage
        have hhas : original.Has page := Span.mem_cells.1 hpage
        simp [hhas]
      rw [hsame hnarrow, hnone, if_neg Bool.false_ne_true]
      rfl

/-- What a call of the callback does with the pages `requested`, `original` and `selected`. -/
structure CallExact (settings : InvalidationSettings) (m : SharedMemory)
    (requested original selected : InvalidationRange) (out : Invalidated) : Prop where
  /-- The request is in the pages selected, and they are in the original range. -/
  between : selected.Contains requested ∧ original.Contains selected
  /-- The pages selected lose the valid flag, and no other page does. -/
  valid : ∀ page, pageValid out.memory.valid page =
    (pageValid m.valid page && !decide (selected.Has page))
  /-- The same of the GPU-written flag. -/
  gpuWritten : ∀ page, pageValid out.memory.gpuWritten page =
    (pageValid m.gpuWritten page && !decide (selected.Has page))
  /-- The same of the mirror. -/
  mirror : ∀ words ∈ m.mirror, ∃ words' ∈ out.memory.mirror, ∀ page,
    pageValid words' page = (pageValid words page && !decide (selected.Has page))
  /-- A page that the GPU wrote and that is not asked for keeps its flag. -/
  kept : ∀ page, pageValid m.gpuWritten page = true → ¬ requested.Has page →
    pageValid out.memory.gpuWritten page = true
  /-- The global watches get the bytes of the pages selected; each watched range with one of
  these pages is called once, and no other. -/
  fired : ∃ fired, out.fired = some fired ∧
    (∀ byte, fired.addressFirst.toNat ≤ byte ∧ byte ≤ fired.addressLast.toNat ↔
      selected.Has (byte / 2 ^ m.pageSizeLog2)) ∧
    fired.ranges.Nodup ∧ ∀ w, w ∈ fired.ranges ↔
      m.watches.Watched w ∧ ∃ page, selected.Has page ∧ w.pageFirst ≤ page ∧ page ≤ w.pageLast
  /-- The ranges that are left are linked as before. -/
  linked : out.memory.watches.Linked out.memory.pageSizeLog2
  /-- The bytes returned are those of the pages selected. -/
  returned : ∀ byte, (out.returned.1.toNat ≤ byte ∧
    byte < out.returned.1.toNat + out.returned.2.toNat) ↔ selected.Has (byte / 2 ^ m.pageSizeLog2)
  /-- The pages retained are counted. -/
  retained : settings.diagnostics = true → out.memory.stats.retainedCpuPages =
    m.stats.retainedCpuPages + BitVec.ofNat 64 (m.retainedPages original selected).length

end SharedMemory

open SharedMemory

/-- **The callback does what the selected range says**: it clears the flags of its pages, fires
their watches, counts them and returns their bytes. -/
theorem invalidateRange_exact (settings : InvalidationSettings) (m : SharedMemory)
    {requested : InvalidationRange} (exactRange : Bool)
    (hne : requested.first.toNat ≤ requested.last.toNat)
    (hlastBlock : requested.last.toNat / 64 < 2 ^ (23 - m.pageSizeLog2)) (hlog : m.pageSizeLog2 ≤ 23)
    (hlinked : m.watches.Linked m.pageSizeLog2) :
    m.CallExact settings requested (m.originalRange requested exactRange)
      (m.selectedRange requested exactRange settings.narrow)
      (m.invalidateRange settings requested exactRange) := by
  rw [invalidateRange]
  dsimp only
  have hwide := m.widened_originalRange requested exactRange
  generalize horiginal : m.originalRange requested exactRange = original at hwide
  generalize hselected : m.selectedRange requested exactRange settings.narrow = selected
  obtain ⟨hsub, hsub'⟩ : selected.Contains requested ∧ original.Contains selected := by
    rw [← hselected, selectedRange, horiginal]
    exact cap_between hne hwide.contains
  -- the range selected stays in the words of the request
  have hblock : selected.first.toNat / 64 = requested.first.toNat / 64 := by
    have := hwide.blockFirst
    have := hsub.1
    have := hsub'.1
    omega
  have hblock' : selected.last.toNat / 64 = requested.last.toNat / 64 := by
    have := hwide.blockLast
    have := hsub.2
    have := hsub'.2
    omega
  have hle : selected.first.toNat ≤ selected.last.toNat := hsub.1.trans (hne.trans hsub.2)
  have hlast : selected.last.toNat / 64 < 2 ^ (23 - m.pageSizeLog2) := by
    rw [hblock']
    exact hlastBlock
  -- the memory before the loop
  generalize hpotential : (if settings.diagnostics = true
    then m.selectedRange requested exactRange true else original) = potential
  obtain ⟨stats, hstats⟩ : ∃ stats, (if settings.diagnostics = true
      then m.countCallback requested original selected exactRange settings.narrow else m) =
        { m with stats } ∧ stats.retainedCpuPages = m.stats.retainedCpuPages := by
    split
    · exact ⟨_, rfl, rfl⟩
    · exact ⟨m.stats, rfl, rfl⟩
  have hnodup : (Span.cells (requested.first.toNat / 64, requested.last.toNat / 64)).Nodup :=
    List.Pairwise.imp Nat.ne_of_lt List.pairwise_lt_range'
  obtain ⟨hvalid, hgpu, hmirror, hwatches, hlog'⟩ := foldl_invalidateWord settings original potential
    selected (requested.first.toNat / 64) (requested.last.toNat / 64) hnodup { m with stats }
  have hretained : settings.diagnostics = true →
      ((Span.cells (requested.first.toNat / 64, requested.last.toNat / 64)).foldl
        (invalidateWord settings original potential selected (requested.first.toNat / 64)
          (requested.last.toNat / 64)) { m with stats }).stats.retainedCpuPages =
        m.stats.retainedCpuPages + BitVec.ofNat 64 (m.retainedPages original selected).length := by
    intro hdiag
    rw [← hstats.2]
    refine retained_foldl_invalidateWord { m with stats } hdiag { hwide with } hne (fun hnarrow => ?_)
      fun hnarrow => ?_
    · rw [← hpotential, if_pos hdiag, ← hselected, hnarrow]
    · rw [← hselected, selectedRange, horiginal, hnarrow, capNativeInvalidationRange, if_pos (.inl rfl)]
  rw [toNat_page_shift, toNat_page_shift, hstats.1]
  generalize (Span.cells _).foldl _ _ = after at *
  obtain ⟨hn, hfired, hlinked', -⟩ := hlinked.fireWatches hle
  constructor
  case between => exact ⟨hsub, hsub'⟩
  case valid =>
    intro page
    rw [← pageValid_clearWords hblock hblock' m.valid page]
    show pageValid after.valid page = _
    rw [hvalid]
  case gpuWritten =>
    intro page
    rw [← pageValid_clearWords hblock hblock' m.gpuWritten page]
    show pageValid after.gpuWritten page = _
    rw [hgpu]
  case mirror =>
    intro words hwords
    refine ⟨_, ?_, fun page => pageValid_clearWords hblock hblock' words page⟩
    show after.mirror = _
    rw [hmirror]
    show m.mirror.map _ = _
    rw [show m.mirror = some words from hwords]
    rfl
  case kept =>
    intro page hwritten hnot
    have hout : ¬ selected.Has page := fun hpage => by
      have hgpu' := hwide.gpuWritten page ⟨hsub'.1.trans hpage.1, hpage.2.trans hsub'.2⟩ hnot
      rw [hwritten] at hgpu'
      exact absurd hgpu' (by decide)
    show pageValid after.gpuWritten page = true
    rw [hgpu, pageValid_clearWords hblock hblock']
    simp [hwritten, hout]
  case fired =>
    refine ⟨_, rfl, fun byte => ?_, ?_, fun w => ?_⟩
    · rw [← mem_firedBytes_iff hlog hle hlast, ← hlog']
      rfl
    · show (after.watches.fireWatches after.pageSizeLog2 _ _).1.Nodup
      rw [hwatches, hlog']
      exact hn
    · show w ∈ (after.watches.fireWatches after.pageSizeLog2 _ _).1 ↔ _
      rw [hwatches, hlog', hfired]
      constructor
      · rintro ⟨⟨i, hw⟩, h₁, h₂⟩
        have hpages := hlinked.pages i w hw
        exact ⟨⟨i, hw⟩, max selected.first.toNat w.pageFirst, ⟨le_max_left .., max_le hle h₂⟩,
          le_max_right .., max_le h₁ hpages⟩
      · rintro ⟨hw, page, hpage, h₁, h₂⟩
        exact ⟨hw, hpage.1.trans h₂, h₁.trans hpage.2⟩
  case linked =>
    show WatchBuckets.Linked after.pageSizeLog2 (after.watches.fireWatches after.pageSizeLog2 _ _).2
    rw [hwatches, hlog']
    exact hlinked'
  case returned => exact mem_returnedBytes_iff hlog hle hlast
  case retained => exact hretained

/-- **Invalidation.**  The cap gives the part of the original range that shares a block of
64 KiB with the request, where it applies, and the original range elsewhere; what it gives lies
in the original range, and has the request where that has it.  The callback then does what the
range says: flags, watches, bytes returned and pages counted. -/
theorem invalidation_exact :
    (∀ (requested original : InvalidationRange) (hostPageSizeLog2 : ℕ) (exact enabled : Bool),
      let cap := capNativeInvalidationRange requested original hostPageSizeLog2 exact enabled
      (if enabled = true ∧ exact = false ∧ hostPageSizeLog2 < 32 ∧
          requested.first.toNat ≤ requested.last.toNat ∧ original.Contains requested
        then ∀ page, cap.Has page ↔ original.Has page ∧
          ∃ page', requested.Has page' ∧ SharesBlock hostPageSizeLog2 page page'
        else cap = original) ∧
      (original.Contains requested → ∀ page, requested.Has page → cap.Has page) ∧
      ∀ page, cap.Has page → original.Has page) ∧
    ∀ (settings : InvalidationSettings) (m : SharedMemory) (start length : BitVec 32)
      (exactRange : Bool), length ≠ 0 → start.toNat < kBufferSize → m.pageSizeLog2 ≤ 23 →
      m.watches.Linked m.pageSizeLog2 →
      let requested := m.requestedRange start length
      (∀ page, requested.Has page ↔ ∃ byte, start.toNat ≤ byte ∧
        byte < start.toNat + length.toNat ∧ byte < kBufferSize ∧
          byte / 2 ^ m.pageSizeLog2 = page) ∧
      m.CallExact settings requested (m.originalRange requested exactRange)
        (m.selectedRange requested exactRange settings.narrow)
        (m.memoryInvalidationCallback settings start length exactRange) := by
  refine ⟨fun requested original hostPageSizeLog2 exact enabled => ?_,
    fun settings m start length exactRange hlength hstart hlog hlinked => ?_⟩
  · by_cases hcap : enabled = true ∧ exact = false ∧ hostPageSizeLog2 < 32 ∧
        requested.first.toNat ≤ requested.last.toNat ∧ original.Contains requested
    · obtain ⟨henabled, hexact, hlog, hne, hsub⟩ := hcap
      subst henabled hexact
      have hhull := has_cap hlog hne hsub
      dsimp only
      rw [if_pos ⟨rfl, rfl, hlog, hne, hsub⟩]
      refine ⟨hhull, fun _ page hpage => ?_, fun page hpage => ((hhull page).1 hpage).1⟩
      have hbetween := (@cap_between _ _ hostPageSizeLog2 false true hne hsub).1
      exact ⟨hbetween.1.trans hpage.1, hpage.2.trans hbetween.2⟩
    · dsimp only
      rw [if_neg hcap, cap_eq_original hcap]
      exact ⟨rfl, fun hsub page hpage => ⟨hsub.1.trans hpage.1, hpage.2.trans hsub.2⟩,
        fun page hpage => hpage⟩
  · obtain ⟨hne, hlastBlock, hpages⟩ := m.requestedRange_spec hlength hstart hlog
    refine ⟨hpages, ?_⟩
    have hcond : ¬(length = 0 ∨ BitVec.ofNat 32 kBufferSize ≤ start) := by
      rintro (hzero | hout)
      · exact hlength hzero
      · rw [BitVec.le_def, show (BitVec.ofNat 32 kBufferSize).toNat = kBufferSize by decide] at hout
        exact Nat.not_lt.2 hout hstart
    rw [memoryInvalidationCallback, if_neg hcond]
    exact invalidateRange_exact settings m exactRange hne hlastBlock hlog hlinked

/-- Pages of 4 KiB, all valid, page 40 written by the GPU, and a watch on the pages 20 to 24. -/
def watchedMemory : SharedMemory where
  pageSizeLog2 := 12
  valid := fun _ => BitVec.allOnes 64
  gpuWritten := fun block => if block = 0 then BitVec.twoPow 64 40 else 0
  mirror := some fun _ => BitVec.allOnes 64
  watches := WatchBuckets.watchMemoryRange 12 (fun _ => []) ⟨0, 20, 24⟩
  stats := {}

/-- The hypotheses are satisfiable: a write to page 17 may take the pages up to 39, and
with the cap takes its block, 16 to 31, for which the watch is called. -/
theorem invalidation_exact_watchedMemory :
    let requested := watchedMemory.requestedRange 0x11000 4
    requested = ⟨17, 17⟩ ∧ watchedMemory.originalRange requested false = ⟨0, 39⟩ ∧
      watchedMemory.selectedRange requested false true = ⟨16, 31⟩ ∧
      watchedMemory.CallExact ⟨true, true⟩ requested ⟨0, 39⟩ ⟨16, 31⟩
        (watchedMemory.memoryInvalidationCallback ⟨true, true⟩ 0x11000 4 false) ∧
      (watchedMemory.memoryInvalidationCallback ⟨true, true⟩ 0x11000 4 false).fired.map Fired.ranges =
        some [⟨0, 20, 24⟩] := by
  have hlinked : watchedMemory.watches.Linked watchedMemory.pageSizeLog2 :=
    (WatchBuckets.linked_empty 12).watchMemoryRange (by decide) fun ⟨_, h⟩ => List.not_mem_nil h
  have hcall := invalidation_exact.2 ⟨true, true⟩ watchedMemory 0x11000 4 false (by decide) (by decide)
    (by decide) hlinked
  have hrequested : watchedMemory.requestedRange 0x11000 4 = ⟨17, 17⟩ := by decide
  have horiginal : watchedMemory.originalRange ⟨17, 17⟩ false = ⟨0, 39⟩ := by decide
  have hselected : watchedMemory.selectedRange ⟨17, 17⟩ false true = ⟨16, 31⟩ := by decide
  rw [hrequested] at hcall ⊢
  dsimp only at hcall
  rw [horiginal, hselected] at hcall
  exact ⟨rfl, horiginal, hselected, hcall.2, by decide +kernel⟩

/-- A request outside the original range is not in what the cap gives, and a page size of
2 ^ 32 turns the cap off: page 0 is in the original range and in no block of the request. -/
theorem invalidation_request_outside :
    let requested : InvalidationRange := ⟨5, 5⟩
    (capNativeInvalidationRange requested ⟨7, 7⟩ 12 false true = ⟨7, 7⟩ ∧
      requested.Has 5 ∧ ¬ InvalidationRange.Has ⟨7, 7⟩ 5) ∧
      InvalidationRange.Contains ⟨0, 63⟩ requested ∧
      capNativeInvalidationRange requested ⟨0, 63⟩ 32 false true = ⟨0, 63⟩ ∧
      ¬ ∃ page', requested.Has page' ∧ SharesBlock 32 0 page' := by
  refine ⟨⟨by decide, by decide, by decide⟩, by decide, by decide, ?_⟩
  rintro ⟨page', ⟨hge, hle⟩, hshare⟩
  rw [sharesBlock_iff] at hshare
  simp at hge hle hshare
  omega

end Ranges
end BoltsRebuilt
