/-
# The scan for pages to upload

`src/gpu/vendored/src/graphics/shared_memory.cpp`: the scan of `RequestRanges`
(lines 636-705).

For each byte range the scan goes over the words of the bitmap of valid pages
that its pages fall in.  Within a word it looks for the next page that is not
valid, then for the next valid one, and appends what is between; a run may go on
into the next word.  Pages of the word outside the range count as valid.

`scanPages` is the same page by page, with one bit to look at.  The loop over a
word does as much (`scanWord_eq`), and so does the whole range (`scanRange_eq`);
what `scanPages` appends are the pages that are not valid, in order
(`cells_scanPages`).
-/

import BoltsRebuilt.Ranges.Batch
import BoltsRebuilt.Texture.ResolvedPages

namespace BoltsRebuilt
namespace Ranges

open Intervals
open TextureCache (bitsBelow rangeMask)

/-- `bit_scan_forward`: the lowest bit that is set. -/
def bitScanForward (x : BitVec 64) : Option ℕ := (List.range 64).find? fun j => x.getLsbD j

/-- The `while (true)` loop over word `i`.  The open run is `range_start`; what
is appended is listed in order.  Nothing is returned when `fuel` runs out. -/
def scanWord (i : ℕ) : ℕ → BitVec 64 → Option ℕ → Option (Option ℕ × List Interval)
  | 0, _, _ => none
  | fuel + 1, blockValid, none =>
      match bitScanForward (~~~blockValid) with
      | none => some (none, [])
      | some blockPage => scanWord i fuel blockValid (some ((i <<< 6) + blockPage))
  | fuel + 1, blockValid, some rangeStart =>
      let blockValidFromStart :=
        if i = rangeStart >>> 6 then blockValid &&& ~~~bitsBelow 64 (rangeStart % 64) else blockValid
      match bitScanForward blockValidFromStart with
      | none => some (some rangeStart, [])
      | some blockPage => do
          let (rangeStart', appended) ← scanWord i fuel (blockValid ||| bitsBelow 64 blockPage) none
          return (rangeStart', (rangeStart, (i <<< 6) + blockPage - rangeStart) :: appended)

/-- `block_valid` of word `i`, with the pages outside the range as valid. -/
def blockValid (valid : ℕ → BitVec 64) (pageFirst pageLast i : ℕ) : BitVec 64 :=
  let word := valid i
  let word := if i = pageFirst / 64 then word ||| bitsBelow 64 (pageFirst % 64) else word
  if i = pageLast / 64 ∧ pageLast % 64 ≠ 63 then word ||| ~~~bitsBelow 64 (pageLast % 64 + 1)
  else word

/-- The loop over the words.  A word has 64 pages to open a run at and as many to
close one at. -/
def scanWords (valid : ℕ → BitVec 64) (pageFirst pageLast : ℕ) :
    List ℕ → Option ℕ → Option (Option ℕ × List Interval)
  | [], rangeStart => some (rangeStart, [])
  | i :: is, rangeStart => do
      let (rangeStart, appended) ← scanWord i 129 (blockValid valid pageFirst pageLast i) rangeStart
      let (rangeStart, appended') ← scanWords valid pageFirst pageLast is rangeStart
      return (rangeStart, appended ++ appended')

/-- The pages of a byte range. -/
def pageSpan (pageSizeLog2 : ℕ) (range : Range) : Span :=
  ((range.1 >>> pageSizeLog2).toNat, ((range.1 + range.2 - 1) >>> pageSizeLog2).toNat)

/-- What the scan of one byte range appends. -/
def scanRange (valid : ℕ → BitVec 64) (pageSizeLog2 : ℕ) (range : Range) :
    Option (List Interval) := do
  let (pageFirst, pageLast) := pageSpan pageSizeLog2 range
  let (rangeStart, appended) ←
    scanWords valid pageFirst pageLast (Span.cells (pageFirst / 64, pageLast / 64)) none
  return appended ++ (rangeStart.map fun start => (start, pageLast + 1 - start)).toList

/-! ### Page by page -/

/-- The scan with one page looked at a time. -/
def scanPages (valid : ℕ → Bool) : List ℕ → Option ℕ → Option ℕ × List Interval
  | [], rangeStart => (rangeStart, [])
  | page :: pages, none =>
      if valid page then scanPages valid pages none else scanPages valid pages (some page)
  | page :: pages, some start =>
      if valid page then
        ((scanPages valid pages none).1, (start, page - start) :: (scanPages valid pages none).2)
      else scanPages valid pages (some start)

variable {valid : ℕ → Bool}

/-- Scanning two stretches of pages is scanning the first and going on with the second. -/
theorem scanPages_append (l l' : List ℕ) (rangeStart : Option ℕ) :
    scanPages valid (l ++ l') rangeStart =
      ((scanPages valid l' (scanPages valid l rangeStart).1).1,
        (scanPages valid l rangeStart).2 ++ (scanPages valid l' (scanPages valid l rangeStart).1).2) := by
  induction l generalizing rangeStart with
  | nil => rfl
  | cons page l ih =>
      cases rangeStart with
      | none =>
          rw [List.cons_append, scanPages, scanPages]
          split
          · exact ih none
          · exact ih (some page)
      | some start =>
          rw [List.cons_append, scanPages, scanPages]
          split
          · rw [ih none]
            rfl
          · exact ih (some start)

/-- Valid pages outside a run list nothing and begin no run. -/
theorem scanPages_valid {l : List ℕ} (h : ∀ page ∈ l, valid page = true) :
    scanPages valid l none = (none, []) := by
  induction l with
  | nil => rfl
  | cons page l ih =>
      rw [List.forall_mem_cons] at h
      rw [scanPages, if_pos h.1, ih h.2]

/-- Invalid pages inside a run list nothing either, the run going on. -/
theorem scanPages_not_valid {l : List ℕ} (h : ∀ page ∈ l, valid page = false) (start : ℕ) :
    scanPages valid l (some start) = (some start, []) := by
  induction l with
  | nil => rfl
  | cons page l ih =>
      rw [List.forall_mem_cons] at h
      rw [scanPages, if_neg (by simp [h.1]), ih h.2]

/-- An open run starts before the pages that are left. -/
theorem scanPages_start_lt {first n : ℕ} {rangeStart : Option ℕ}
    (hstart : ∀ start ∈ rangeStart, start < first) :
    ∀ start ∈ (scanPages valid (List.range' first n) rangeStart).1, start < first + n := by
  induction n generalizing first rangeStart with
  | zero => exact hstart
  | succ n ih =>
      rw [List.range'_succ, show first + (n + 1) = first + 1 + n by omega]
      cases rangeStart with
      | none =>
          rw [scanPages]
          split
          · exact ih (by simp)
          · exact ih (by simp)
      | some s =>
          have hs := hstart s rfl
          rw [scanPages]
          split
          · exact ih (by simp)
          · exact ih (by simp; omega)

/-- A valid page closes the run, so a scan that ends with one has none open. -/
theorem scanPages_concat_valid (l : List ℕ) {page : ℕ} (h : valid page = true)
    (rangeStart : Option ℕ) : (scanPages valid (l ++ [page]) rangeStart).1 = none := by
  rw [scanPages_append]
  cases (scanPages valid l rangeStart).1 with
  | none => simp [scanPages, h]
  | some start => simp [scanPages, h]

/-- The appended runs and the open one hold the pages that are not valid. -/
theorem cells_scanPages (n first : ℕ) (rangeStart : Option ℕ) (hstart : ∀ s ∈ rangeStart, s < first) :
    let result := scanPages valid (List.range' first n) rangeStart
    let last := (result.1.map fun s => (s, first + n - s)).toList
    cells (result.2 ++ last) =
        cells (rangeStart.map fun s => (s, first - s)).toList ++
          (List.range' first n).filter (fun page => !valid page) ∧
      ∀ r ∈ result.2 ++ last, 0 < r.2 := by
  induction n generalizing first rangeStart with
  | zero =>
      refine ⟨by simp [scanPages], ?_⟩
      cases rangeStart with
      | none => simp [scanPages]
      | some s =>
          have := hstart s rfl
          simp [scanPages]
          omega
  | succ n ih =>
      intro result last
      have hrun : ∀ s, s < first →
          Interval.cells (s, first - s) ++ [first] = Interval.cells (s, first + 1 - s) := by
        intro s hs
        rw [Interval.cells, Interval.cells, show first + 1 - s = (first - s) + 1 by omega,
          List.range'_concat]
        simp
        omega
      by_cases hvalid : valid first = true
      · have hih := ih (first + 1) none (by simp)
        rw [show first + 1 + n = first + (n + 1) by omega] at hih
        have hfilter : (List.range' first (n + 1)).filter (fun page => !valid page) =
            (List.range' (first + 1) n).filter (fun page => !valid page) := by
          rw [List.range'_succ, List.filter_cons_of_neg (by simp [hvalid])]
        rw [hfilter]
        cases rangeStart with
        | none =>
            have hresult : result = scanPages valid (List.range' (first + 1) n) none := by
              show scanPages valid (first :: _) none = _
              rw [scanPages, if_pos hvalid]
            refine ⟨?_, ?_⟩
            · show cells (result.2 ++ (result.1.map _).toList) = _
              rw [hresult, hih.1]
              rfl
            · show ∀ r ∈ result.2 ++ (result.1.map _).toList, 0 < r.2
              rw [hresult]
              exact hih.2
        | some s =>
            have hs := hstart s rfl
            have hresult : result = ((scanPages valid (List.range' (first + 1) n) none).1,
                (s, first - s) :: (scanPages valid (List.range' (first + 1) n) none).2) := by
              show scanPages valid (first :: _) (some s) = _
              rw [scanPages, if_pos hvalid]
            refine ⟨?_, ?_⟩
            · show cells (result.2 ++ (result.1.map _).toList) = _
              rw [hresult, List.cons_append, cells_cons, hih.1]
              simp
            · show ∀ r ∈ result.2 ++ (result.1.map _).toList, 0 < r.2
              rw [hresult, List.cons_append, List.forall_mem_cons]
              exact ⟨by show 0 < first - s; omega, hih.2⟩
      · have hfilter : (List.range' first (n + 1)).filter (fun page => !valid page) =
            first :: (List.range' (first + 1) n).filter (fun page => !valid page) := by
          rw [List.range'_succ, List.filter_cons_of_pos (by simp [hvalid])]
        -- the run goes on, or one starts here
        obtain ⟨s, hs, hresult, hopen⟩ : ∃ s ≤ first,
            result = scanPages valid (List.range' (first + 1) n) (some s) ∧
              cells (rangeStart.map fun s => (s, first - s)).toList ++ [first] =
                Interval.cells (s, first + 1 - s) := by
          cases rangeStart with
          | none =>
              refine ⟨first, le_rfl, ?_, by simp [Interval.cells]⟩
              show scanPages valid (first :: _) none = _
              rw [scanPages, if_neg hvalid]
          | some s =>
              have hs := hstart s rfl
              refine ⟨s, by omega, ?_, ?_⟩
              · show scanPages valid (first :: _) (some s) = _
                rw [scanPages, if_neg hvalid]
              · rw [← hrun s hs]
                simp
        have hih := ih (first + 1) (some s) (by simp; omega)
        rw [show first + 1 + n = first + (n + 1) by omega] at hih
        refine ⟨?_, ?_⟩
        · show cells (result.2 ++ (result.1.map _).toList) = _
          rw [hresult, hih.1, hfilter, List.append_cons, hopen]
          simp
        · show ∀ r ∈ result.2 ++ (result.1.map _).toList, 0 < r.2
          rw [hresult]
          exact hih.2

/-! ### A word at a time -/

/-- A scan that finds no bit has none set. -/
theorem bitScanForward_eq_none {x : BitVec 64} (h : bitScanForward x = none) {j : ℕ} (hj : j < 64) :
    x.getLsbD j = false := by
  have hall := List.find?_eq_none.1 h j (List.mem_range.2 hj)
  simpa using hall

/-- One that finds a bit finds the lowest. -/
theorem bitScanForward_eq_some {x : BitVec 64} {j : ℕ} (h : bitScanForward x = some j) :
    j < 64 ∧ x.getLsbD j = true ∧ ∀ k < j, x.getLsbD k = false := by
  obtain ⟨hj, hmem, hbelow⟩ := List.find?_range_eq_some.1 h
  exact ⟨List.mem_range.1 hmem, hj, fun k hk => by simpa using hbelow k hk⟩

/-- What is left of a word at bit `q` is the bits before `j`, the bit `j` and what is
left after it. -/
theorem range'_split {i q j : ℕ} (hq : q ≤ j) (hj : j < 64) :
    List.range' (64 * i + q) (64 - q) =
      List.range' (64 * i + q) (j - q) ++
        (64 * i + j) :: List.range' (64 * i + (j + 1)) (64 - (j + 1)) := by
  have hcons : (64 * i + j) :: List.range' (64 * i + (j + 1)) (64 - (j + 1)) =
      List.range' (64 * i + j) (64 - j) := by
    rw [show 64 - j = (64 - (j + 1)) + 1 by omega, List.range'_succ, Nat.add_assoc]
  rw [hcons, show 64 * i + j = (64 * i + q) + 1 * (j - q) by omega, List.range'_append,
    show j - q + (64 - j) = 64 - q by omega]

/-- The bits of the word from `q` on are still to be looked at: without an open run
those before `q` are set, and an open run started right before `q` or in an earlier
word. -/
def AtBit (i q : ℕ) (block : BitVec 64) : Option ℕ → Prop
  | none => ∀ j < q, block.getLsbD j = true
  | some start => if i = start >>> 6 then q = start % 64 + 1 ∧ block.getLsbD (start % 64) = false
      else q = 0

/-- The bit of a word whose complement is known. -/
theorem getLsbD_of_not {block : BitVec 64} {j : ℕ} {b : Bool} (hj : j < 64)
    (h : (~~~block).getLsbD j = b) : block.getLsbD j = !b := by
  rw [BitVec.getLsbD_not, decide_eq_true hj, Bool.true_and] at h
  rw [← h, Bool.not_not]

/-- What holds of some bits of a word holds of their pages. -/
theorem pages_of_bits {i q n : ℕ} {block : BitVec 64} {b : Bool}
    (hbits : ∀ j < 64, q ≤ j → block.getLsbD j = valid (64 * i + j)) (hn : q + n ≤ 64)
    (hall : ∀ k < 64, q ≤ k ∧ k < q + n → block.getLsbD k = b) :
    ∀ page ∈ List.range' (64 * i + q) n, valid page = b := by
  intro page hpage
  obtain ⟨hle, hlt⟩ := List.mem_range'_1.1 hpage
  have hbit := hall (page - 64 * i) (by omega) (by omega)
  have hsame := hbits (page - 64 * i) (by omega) (by omega)
  rw [show 64 * i + (page - 64 * i) = page by omega] at hsame
  exact hsame.symm.trans hbit

/-- The bits the loop looks at for the end of an open run: those that are still to be looked at. -/
theorem getLsbD_fromStart {i q start : ℕ} {block : BitVec 64} (hat : AtBit i q block (some start))
    {j : ℕ} (hj : j < 64) :
    (if i = start >>> 6 then block &&& ~~~bitsBelow 64 (start % 64) else block).getLsbD j =
      (decide (q ≤ j) && block.getLsbD j) := by
  rw [AtBit] at hat
  split at hat
  · rename_i hi
    obtain ⟨rfl, hclear⟩ := hat
    rw [if_pos hi, BitVec.getLsbD_and, BitVec.getLsbD_not, decide_eq_true hj,
      TextureCache.getLsbD_bitsBelow (Nat.mod_lt _ (by decide)), Bool.true_and]
    by_cases hjs : j = start % 64
    · rw [hjs, hclear]
      simp
    · by_cases hlt : j < start % 64
      · simp [hlt, show ¬ start % 64 + 1 ≤ j by omega]
      · simp [hlt, show start % 64 + 1 ≤ j by omega]
  · rename_i hi
    rw [if_neg hi, hat]
    simp

/-- The loop over a word goes over its pages one by one. -/
theorem scanWord_eq {i : ℕ} (fuel : ℕ) {q : ℕ} {block : BitVec 64} {rangeStart : Option ℕ}
    (hq : q ≤ 64) (hbits : ∀ j < 64, q ≤ j → block.getLsbD j = valid (64 * i + j))
    (hat : AtBit i q block rangeStart) (hfuel : 2 * (64 - q) + 1 ≤ fuel) :
    scanWord i fuel block rangeStart =
      some (scanPages valid (List.range' (64 * i + q) (64 - q)) rangeStart) := by
  induction fuel generalizing q block rangeStart with
  | zero => omega
  | succ fuel ih =>
      have hpage : ∀ j, (i <<< 6) + j = 64 * i + j := by
        intro j
        rw [Nat.shiftLeft_eq]
        omega
      cases rangeStart with
      | none =>
          rw [scanWord]
          cases hscan : bitScanForward (~~~block) with
          | none =>
              -- every page left is valid
              have hset : ∀ k < 64, block.getLsbD k = true := fun k hk =>
                getLsbD_of_not hk (bitScanForward_eq_none hscan hk)
              have hvalid := pages_of_bits hbits (show q + (64 - q) ≤ 64 by omega)
                fun k hk _ => hset k hk
              rw [scanPages_valid hvalid]
          | some j =>
              obtain ⟨hj, hset, hbelow⟩ := bitScanForward_eq_some hscan
              have hclear : block.getLsbD j = false := getLsbD_of_not hj hset
              have hqj : q ≤ j := by
                by_contra hlt
                have := hat j (by omega)
                rw [hclear] at this
                exact absurd this (by simp)
              -- the pages before the first bit that is clear are valid
              have hvalid := pages_of_bits hbits (show q + (j - q) ≤ 64 by omega)
                fun k hk hlt => getLsbD_of_not hk (hbelow k (by omega))
              have hnext : AtBit i (j + 1) block (some (64 * i + j)) := by
                have hshift : (64 * i + j) >>> 6 = i := by
                  rw [Nat.shiftRight_eq_div_pow]
                  omega
                have hmod : (64 * i + j) % 64 = j := by omega
                rw [AtBit, hshift, if_pos rfl, hmod]
                exact ⟨rfl, hclear⟩
              have hrest := ih (by omega) (fun k hk hle => hbits k hk (by omega)) hnext (by omega)
              have hfalse : ¬ valid (64 * i + j) = true := by
                rw [← hbits j hj hqj, hclear]
                simp
              show scanWord i fuel block (some ((i <<< 6) + j)) = _
              rw [hpage, hrest, range'_split hqj hj, scanPages_append, scanPages_valid hvalid,
                scanPages, if_neg hfalse, List.nil_append]
      | some start =>
          rw [scanWord]
          -- the bits before `q` are left out
          generalize hfrom : (if i = start >>> 6 then block &&& ~~~bitsBelow 64 (start % 64)
            else block) = fromStart
          have hfromBits : ∀ k < 64, fromStart.getLsbD k = (decide (q ≤ k) && block.getLsbD k) :=
            fun k hk => hfrom ▸ getLsbD_fromStart hat hk
          have hfromLeft : ∀ k < 64, q ≤ k → fromStart.getLsbD k = false → block.getLsbD k = false := by
            intro k hk hqk hclear
            rwa [hfromBits k hk, decide_eq_true hqk, Bool.true_and] at hclear
          cases hscan : bitScanForward fromStart with
          | none =>
              have hclear : ∀ k < 64, q ≤ k → block.getLsbD k = false := fun k hk hqk =>
                hfromLeft k hk hqk (bitScanForward_eq_none hscan hk)
              have hinvalid := pages_of_bits hbits (show q + (64 - q) ≤ 64 by omega)
                fun k hk hin => hclear k hk hin.1
              rw [scanPages_not_valid hinvalid]
          | some j =>
              obtain ⟨hj, hset, hbelow⟩ := bitScanForward_eq_some hscan
              rw [hfromBits j hj, Bool.and_eq_true, decide_eq_true_iff] at hset
              obtain ⟨hqj, hset⟩ := hset
              have hinvalid := pages_of_bits hbits (show q + (j - q) ≤ 64 by omega)
                fun k hk hin => hfromLeft k hk hin.1 (hbelow k (by omega))
              have hor : ∀ k, (block ||| bitsBelow 64 j).getLsbD k =
                  (block.getLsbD k || decide (k < j)) := by
                intro k
                rw [BitVec.getLsbD_or, TextureCache.getLsbD_bitsBelow hj]
              have hnext : AtBit i (j + 1) (block ||| bitsBelow 64 j) none := by
                intro k hk
                rw [hor]
                rcases Nat.lt_succ_iff_lt_or_eq.1 hk with hlt | rfl
                · simp [hlt]
                · simp [hset]
              have hrest := ih (q := j + 1) (by omega)
                (fun k hk hle => by
                  rw [hor, decide_eq_false (by omega), Bool.or_false]
                  exact hbits k hk (by omega)) hnext (by omega)
              have htrue : valid (64 * i + j) = true := by rw [← hbits j hj hqj, hset]
              show (scanWord i fuel (block ||| bitsBelow 64 j) none).bind _ = _
              rw [hrest, range'_split hqj hj, scanPages_append, scanPages_not_valid hinvalid,
                scanPages, if_pos htrue, hpage]
              rfl

/-! ### A byte range -/

/-- The pages between those of the first and the last byte are those that have a byte. -/
theorem page_between_iff {start stop size page : ℕ} (h : start < stop) (hsize : 0 < size) :
    (start / size ≤ page ∧ page ≤ (stop - 1) / size) ↔
      ∃ byte, start ≤ byte ∧ byte < stop ∧ byte / size = page := by
  constructor
  · rintro ⟨hfirst, hlast⟩
    have hstop := (Nat.le_div_iff_mul_le hsize).1 hlast
    rw [Nat.mul_comm] at hstop
    -- the first byte that is not before the page
    refine ⟨max start (size * page), le_max_left .., by omega, ?_⟩
    rcases Nat.le_total start (size * page) with hle | hle
    · rw [max_eq_right hle, Nat.mul_div_cancel_left _ hsize]
    · rw [max_eq_left hle]
      refine le_antisymm hfirst ((Nat.le_div_iff_mul_le hsize).2 ?_)
      rwa [Nat.mul_comm]
  · rintro ⟨byte, hge, hlt, rfl⟩
    exact ⟨Nat.div_le_div_right hge, Nat.div_le_div_right (by omega)⟩

/-- The flag of a page. -/
def pageValid (words : ℕ → BitVec 64) (page : ℕ) : Bool := (words (page / 64)).getLsbD (page % 64)

/-- The word looked at is the pages' validity, with pages outside the request set as valid. -/
theorem getLsbD_blockValid (words : ℕ → BitVec 64) {pageFirst pageLast i j : ℕ}
    (hfirst : pageFirst / 64 ≤ i) (hlast : i ≤ pageLast / 64) (hj : j < 64) :
    (blockValid words pageFirst pageLast i).getLsbD j =
      (pageValid words (64 * i + j) ||
        !(decide (pageFirst ≤ 64 * i + j) && decide (64 * i + j ≤ pageLast))) := by
  have hmask := TextureCache.getLsbD_rangeMask hfirst hlast hj
  have hword : blockValid words pageFirst pageLast i =
      words i ||| ~~~rangeMask 64 pageFirst pageLast i := by
    rw [blockValid, rangeMask]
    split <;> split <;> simp [BitVec.not_and, BitVec.or_assoc]
  rw [hword, BitVec.getLsbD_or, BitVec.getLsbD_not, decide_eq_true hj, hmask, pageValid,
    show (64 * i + j) / 64 = i by omega, show (64 * i + j) % 64 = j by omega]
  simp [Nat.mul_comm]

/-- The pages of a word and of the words behind it. -/
theorem range'_words_succ (b n : ℕ) :
    List.range' (64 * b) (64 * (n + 1)) =
      List.range' (64 * b) 64 ++ List.range' (64 * (b + 1)) (64 * n) := by
  rw [show 64 * (b + 1) = 64 * b + 1 * 64 by omega, List.range'_append]
  congr 1
  omega

/-- The loop over the words goes over their pages one by one. -/
theorem scanWords_eq {words : ℕ → BitVec 64} {pageFirst pageLast : ℕ} {b n : ℕ}
    {rangeStart : Option ℕ} (hfirst : pageFirst / 64 ≤ b) (hlast : b + n ≤ pageLast / 64 + 1)
    (hvalid : ∀ i, b ≤ i → i < b + n → ∀ j < 64,
      (blockValid words pageFirst pageLast i).getLsbD j = valid (64 * i + j))
    (hstart : ∀ start ∈ rangeStart, start < 64 * b) :
    scanWords words pageFirst pageLast (List.range' b n) rangeStart =
      some (scanPages valid (List.range' (64 * b) (64 * n)) rangeStart) := by
  induction n generalizing b rangeStart with
  | zero => rfl
  | succ n ih =>
      have hat : AtBit b 0 (blockValid words pageFirst pageLast b) rangeStart := by
        cases rangeStart with
        | none => intro j hj; omega
        | some start =>
            have hlt := hstart start rfl
            rw [AtBit, Nat.shiftRight_eq_div_pow, if_neg (by omega)]
      have hword := scanWord_eq 129 (by omega) (fun j hj _ => hvalid b le_rfl (by omega) j hj) hat
        (by omega)
      rw [Nat.add_zero, Nat.sub_zero] at hword
      have hopen : ∀ start ∈ (scanPages valid (List.range' (64 * b) 64) rangeStart).1,
          start < 64 * (b + 1) := by
        intro start hmem
        have := scanPages_start_lt hstart start hmem
        omega
      have hrest := ih (by omega) (by omega) (fun i hi hlt => hvalid i (by omega) (by omega)) hopen
      rw [List.range'_succ, scanWords, hword, range'_words_succ, scanPages_append]
      show (scanWords words pageFirst pageLast (List.range' (b + 1) n) _).bind _ = _
      rw [hrest]
      rfl

/-- A range cut twice. -/
theorem range'_append_three {s n a c : ℕ} (ha : s ≤ a) (hc : a ≤ c) (hn : c ≤ s + n) :
    List.range' s n =
      List.range' s (a - s) ++ (List.range' a (c - a) ++ List.range' c (s + n - c)) := by
  obtain ⟨k, rfl⟩ := Nat.exists_eq_add_of_le ha
  obtain ⟨l, rfl⟩ := Nat.exists_eq_add_of_le hc
  rw [Nat.add_sub_cancel_left, Nat.add_sub_cancel_left, List.range'_append_1, List.range'_append_1]
  congr 1
  omega

/-- **The scan of one byte range.**  It ends, and appends the pages of the range that are
not valid, each once and in order. -/
theorem scanRange_eq (words : ℕ → BitVec 64) (pageSizeLog2 : ℕ) {range : Range}
    (hne : range.2 ≠ 0) (hstop : (interval range).stop ≤ 2 ^ 32) :
    ∃ runs, scanRange words pageSizeLog2 range = some runs ∧
      cells runs = (pageSpan pageSizeLog2 range).cells.filter (fun page => !pageValid words page) ∧
      ∀ r ∈ runs, 0 < r.2 := by
  obtain ⟨pageFirst, pageLast, hspan, hle⟩ :
      ∃ pageFirst pageLast, pageSpan pageSizeLog2 range = (pageFirst, pageLast) ∧
        pageFirst ≤ pageLast := by
    refine ⟨_, _, rfl, ?_⟩
    have hpos : range.2.toNat ≠ 0 := fun h => hne (BitVec.eq_of_toNat_eq h)
    have hstop' : range.1.toNat + range.2.toNat ≤ 2 ^ 32 := hstop
    have hlast : (range.1 + range.2 - 1).toNat = range.1.toNat + range.2.toNat - 1 := by
      rw [BitVec.toNat_sub, BitVec.toNat_add]
      simp
      omega
    rw [BitVec.toNat_ushiftRight, BitVec.toNat_ushiftRight, hlast, Nat.shiftRight_eq_div_pow,
      Nat.shiftRight_eq_div_pow]
    exact Nat.div_le_div_right (by omega)
  have hdiv : pageFirst / 64 ≤ pageLast / 64 := Nat.div_le_div_right hle
  -- pages outside the range count as valid
  set valid : ℕ → Bool := fun page =>
    pageValid words page || !(decide (pageFirst ≤ page) && decide (page ≤ pageLast)) with hvalidDef
  set b := pageFirst / 64 with hb
  set n := pageLast / 64 + 1 - b with hn
  have hscan : scanWords words pageFirst pageLast (List.range' b n) none =
      some (scanPages valid (List.range' (64 * b) (64 * n)) none) :=
    scanWords_eq le_rfl (by omega)
      (fun i hi hlt j hj => getLsbD_blockValid words hi (by omega) hj) (by simp)
  obtain ⟨hcells, hpos⟩ := @cells_scanPages valid (64 * n) (64 * b) none (by simp)
  generalize hresult : scanPages valid (List.range' (64 * b) (64 * n)) none = result at hscan hcells hpos
  -- a run that is open at the end goes up to the last page
  have hopen : (result.1.map fun start => (start, pageLast + 1 - start)) =
      result.1.map fun start => (start, 64 * b + 64 * n - start) := by
    by_cases hfull : 64 * b + 64 * n = pageLast + 1
    · rw [hfull]
    · have hvalid : valid (64 * b + 1 * (64 * n - 1)) = true := by
        simp only [hvalidDef, Bool.or_eq_true]
        right
        simp
        omega
      have hnone : result.1 = none := by
        rw [← hresult, show 64 * n = 64 * n - 1 + 1 by omega, List.range'_concat]
        exact scanPages_concat_valid _ hvalid none
      rw [hnone]
      rfl
  have hfilter : (List.range' (64 * b) (64 * n)).filter (fun page => !valid page) =
      (Span.cells (pageFirst, pageLast)).filter (fun page => !pageValid words page) := by
    have hout : ∀ page, page < pageFirst ∨ pageLast < page → ¬ (!valid page) = true := by
      intro page hpage
      simp only [hvalidDef]
      simp
      omega
    have hin : ∀ page ∈ Span.cells (pageFirst, pageLast), (!valid page) = !pageValid words page := by
      intro page hpage
      obtain ⟨hge, hle'⟩ := Span.mem_cells.1 hpage
      simp only [hvalidDef]
      simp [show pageFirst ≤ page from hge, show page ≤ pageLast from hle']
    have hsplit : List.range' (64 * b) (64 * n) =
        List.range' (64 * b) (pageFirst - 64 * b) ++
          (Span.cells (pageFirst, pageLast) ++
            List.range' (pageLast + 1) (64 * b + 64 * n - (pageLast + 1))) :=
      range'_append_three (by omega) (by omega) (by omega)
    have hbefore : (List.range' (64 * b) (pageFirst - 64 * b)).filter (fun page => !valid page) = [] := by
      refine List.filter_eq_nil_iff.2 fun page hpage => hout page (.inl ?_)
      obtain ⟨-, hlt⟩ := List.mem_range'_1.1 hpage
      omega
    have hafter : (List.range' (pageLast + 1) (64 * b + 64 * n - (pageLast + 1))).filter
        (fun page => !valid page) = [] := by
      refine List.filter_eq_nil_iff.2 fun page hpage => hout page (.inr ?_)
      exact (List.mem_range'_1.1 hpage).1
    rw [hsplit, List.filter_append, List.filter_append, hbefore, hafter, List.filter_congr hin,
      List.nil_append, List.append_nil]
  refine ⟨result.2 ++ (result.1.map fun start => (start, pageLast + 1 - start)).toList, ?_, ?_, ?_⟩
  · rw [scanRange, hspan]
    show (scanWords words pageFirst pageLast (List.range' b n) none).bind _ = _
    rw [hscan]
    rfl
  · rw [hopen, hcells, hspan, ← hfilter]
    rfl
  · rw [hopen]
    exact hpos

end Ranges
end BoltsRebuilt
