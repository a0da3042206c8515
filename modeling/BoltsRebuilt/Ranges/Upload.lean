/-
# Planning the uploads of a request

`src/gpu/native/native_range_batch.h`: `AppendUploadPageRange` (lines 102-118),
and `src/gpu/vendored/src/graphics/shared_memory.cpp`: the loop of `RequestRanges`
that appends what the scan finds (lines 629-705).

In the optimised mode a range of pages that starts inside the last one or where
it ends is joined to it; that is the library's `push`, and what is left out is its
`overlap` (`append_optimized`).  In the other mode only a range that starts where
the last one ends is joined to it, so the pages of all ranges follow one another,
and a page in several of them is there several times (`cells_append_legacy`).

The length of a joined range is cut to 32 bits.  Ranges that span fewer than
2 ^ 32 pages lose nothing to that, and those of a request are below `kBufferSize`.
-/

import BoltsRebuilt.Ranges.Scan

namespace BoltsRebuilt
namespace Ranges

open Intervals
open TextureCache (kBufferSize)

/-- `AppendUploadPageRange`: the pages that are there already and the ranges. -/
def appendUploadPageRange (output : List Range) (start count : BitVec 32) (optimize : Bool) :
    BitVec 32 × List Range :=
  if count = 0 then (0, output)
  else
    match output.getLast? with
    | none => (0, output ++ [(start, count)])
    | some last =>
        let lastEnd := last.1.toNat + last.2.toNat
        let stop := start.toNat + count.toNat
        if start.toNat = lastEnd ∨
            (optimize = true ∧ last.1.toNat ≤ start.toNat ∧ start.toNat < lastEnd) then
          (if start.toNat < lastEnd then BitVec.ofNat 32 (min lastEnd stop - start.toNat) else 0,
            output.dropLast ++ [(last.1, BitVec.ofNat 32 (max lastEnd stop - last.1.toNat))])
        else (0, output ++ [(start, count)])

/-- `append_upload_range`: the pages saved so far and the ranges. -/
def appendUploadRange (optimize : Bool) (acc : ℕ × List Range) (r : Range) : ℕ × List Range :=
  let (overlap, output) := appendUploadPageRange acc.2 r.1 r.2 optimize
  (acc.1 + overlap.toNat, output)

/-- A run the scan found, as 32-bit numbers. -/
def toRange (r : Interval) : Range := (BitVec.ofNat 32 r.1, BitVec.ofNat 32 r.2)

/-- The loop over the byte ranges of the request. -/
def requestUploads (words : ℕ → BitVec 64) (pageSizeLog2 : ℕ) (optimize : Bool) :
    List Range → ℕ × List Range → Option (ℕ × List Range)
  | [], acc => some acc
  | range :: ranges, acc => do
      let runs ← scanRange words pageSizeLog2 range
      requestUploads words pageSizeLog2 optimize ranges
        ((runs.map toRange).foldl (appendUploadRange optimize) acc)

/-! ### Joining what overlaps -/

/-- The range lies in `[lo, lo + 2 ^ 32)`, with a page to spare. -/
def Within (lo : ℕ) (r : Range) : Prop := lo ≤ r.1.toNat ∧ (interval r).stop < lo + 2 ^ 32

/-- The first range is appended as it is. -/
theorem append_nil {start count : BitVec 32} (hcount : count ≠ 0) (optimize : Bool) :
    appendUploadPageRange [] start count optimize = (0, [(start, count)]) := by
  rw [appendUploadPageRange, if_neg hcount]
  rfl

/-- A later one joins the last or is appended behind it, as the optimisation says. -/
theorem append_concat {start count : BitVec 32} (hcount : count ≠ 0) (init : List Range)
    (last : Range) (optimize : Bool) :
    appendUploadPageRange (init ++ [last]) start count optimize =
      let lastEnd := last.1.toNat + last.2.toNat
      let stop := start.toNat + count.toNat
      if start.toNat = lastEnd ∨
          (optimize = true ∧ last.1.toNat ≤ start.toNat ∧ start.toNat < lastEnd) then
        (if start.toNat < lastEnd then BitVec.ofNat 32 (min lastEnd stop - start.toNat) else 0,
          init ++ [(last.1, BitVec.ofNat 32 (max lastEnd stop - last.1.toNat))])
      else (0, init ++ [last, (start, count)]) := by
  rw [appendUploadPageRange, if_neg hcount, List.getLast?_concat]
  simp

/-- With the optimisation, appending is pushing an interval, and what it counts is the overlap. -/
theorem append_optimized {lo : ℕ} {output : List Range} {r : Range} (hr : r.2 ≠ 0)
    (hlo : Within lo r) (hout : ∀ s ∈ output, Within lo s)
    (hends : EndsBy (output.map interval) r.1.toNat) :
    (appendUploadPageRange output r.1 r.2 true).2.map interval =
        push (output.map interval) (interval r) ∧
      (appendUploadPageRange output r.1 r.2 true).1.toNat =
        overlap (output.map interval) (interval r) ∧
      ∀ s ∈ (appendUploadPageRange output r.1 r.2 true).2, Within lo s := by
  rcases List.eq_nil_or_concat' output with rfl | ⟨init, last, rfl⟩
  · rw [append_nil hr]
    refine ⟨rfl, rfl, fun s hs => ?_⟩
    rw [List.mem_singleton.1 hs]
    exact hlo
  · have hle : last.1.toNat ≤ r.1.toNat := hends (interval last) (by simp)
    obtain ⟨hlo₁, hlo₂⟩ := hlo
    obtain ⟨hlast₁, hlast₂⟩ := hout last (by simp)
    have hstart : (interval r).1 = r.1.toNat := rfl
    have hlstart : (interval last).1 = last.1.toNat := rfl
    have hrstop : (interval r).stop = r.1.toNat + r.2.toNat := rfl
    have hlstop : (interval last).stop = last.1.toNat + last.2.toNat := rfl
    have hmap : (init ++ [last]).map interval = init.map interval ++ [interval last] := by simp
    have hover : overlap (init.map interval ++ [interval last]) (interval r) =
        if (interval r).1 ≤ (interval last).stop
          then min (interval last).stop (interval r).stop - (interval r).1 else 0 := by
      simp [overlap]
    rw [hmap, hover, push_concat, append_concat hr]
    dsimp only
    by_cases htouch : (interval r).1 ≤ (interval last).stop
    · have hcond : r.1.toNat = last.1.toNat + last.2.toNat ∨
          (true = true ∧ last.1.toNat ≤ r.1.toNat ∧ r.1.toNat < last.1.toNat + last.2.toNat) := by
        rcases Nat.lt_or_eq_of_le htouch with hlt | heq
        · exact .inr ⟨rfl, hle, hlt⟩
        · exact .inl heq
      rw [if_pos hcond, if_pos htouch, if_pos htouch]
      have hsize : (BitVec.ofNat 32 (max (last.1.toNat + last.2.toNat) (r.1.toNat + r.2.toNat) -
          last.1.toNat)).toNat =
            max (last.1.toNat + last.2.toNat) (r.1.toNat + r.2.toNat) - last.1.toNat := by
        rw [BitVec.toNat_ofNat]
        exact Nat.mod_eq_of_lt (by omega)
      refine ⟨?_, ?_, ?_⟩
      · rw [List.map_append, List.map_singleton, interval, hsize]
        rfl
      · show (if r.1.toNat < last.1.toNat + last.2.toNat then _ else 0 : BitVec 32).toNat = _
        split
        · rw [BitVec.toNat_ofNat, hlstop, hrstop, hstart]
          exact Nat.mod_eq_of_lt (by omega)
        · have : r.1.toNat = last.1.toNat + last.2.toNat := by omega
          rw [hlstop, hrstop, hstart]
          show 0 = _
          omega
      · intro s hs
        rcases List.mem_append.1 hs with hs | hs
        · exact hout s (List.mem_append_left _ hs)
        · rw [List.mem_singleton.1 hs]
          refine ⟨hlast₁, ?_⟩
          show last.1.toNat + (BitVec.ofNat 32 _).toNat < _
          rw [hsize]
          omega
    · have hcond : ¬(r.1.toNat = last.1.toNat + last.2.toNat ∨
          (true = true ∧ last.1.toNat ≤ r.1.toNat ∧ r.1.toNat < last.1.toNat + last.2.toNat)) := by
        omega
      rw [if_neg hcond, if_neg htouch, if_neg htouch]
      refine ⟨by simp, rfl, ?_⟩
      intro s hs
      rw [show init ++ [last, (r.1, r.2)] = (init ++ [last]) ++ [r] by simp] at hs
      rcases List.mem_append.1 hs with hs | hs
      · exact hout s hs
      · rw [List.mem_singleton.1 hs]
        exact ⟨hlo₁, hlo₂⟩

/-- What holds after each range of the optimised mode. -/
structure Joined (lo : ℕ) (output : List Range) : Prop where
  apart : Apart (output.map interval)
  within : ∀ s ∈ output, Within lo s

/-- **Ranges appended in the order of their starts.**  They stay apart, hold what all
of them hold, and what is left out is what they hold more than once. -/
theorem foldl_optimized {lo : ℕ} {rs : List Range} {acc : ℕ × List Range}
    (hacc : Joined lo acc.2) (hsorted : rs.Pairwise fun r s => r.1.toNat ≤ s.1.toNat)
    (hlo : ∀ r ∈ rs, r.2 ≠ 0 → Within lo r)
    (hends : ∀ r ∈ rs, EndsBy (acc.2.map interval) r.1.toNat) :
    Joined lo (rs.foldl (appendUploadRange true) acc).2 ∧
      (∀ page, page ∈ cells ((rs.foldl (appendUploadRange true) acc).2.map interval) ↔
        page ∈ cells (acc.2.map interval) ∨ page ∈ cells (rs.map interval)) ∧
      (cells ((rs.foldl (appendUploadRange true) acc).2.map interval)).length +
          (rs.foldl (appendUploadRange true) acc).1 =
        (cells (acc.2.map interval)).length + acc.1 + (rs.map fun r => r.2.toNat).sum := by
  induction rs generalizing acc with
  | nil => exact ⟨hacc, by simp, by simp⟩
  | cons r rs ih =>
      rw [List.forall_mem_cons] at hlo hends
      obtain ⟨hr, hsorted⟩ := List.pairwise_cons.1 hsorted
      rw [List.foldl_cons]
      by_cases hne : r.2 = 0
      · have hstep : appendUploadRange true acc r = acc := by
          rw [appendUploadRange, appendUploadPageRange, if_pos hne]
          rfl
        have hempty : (interval r).cells = [] := by
          rw [interval, hne]
          rfl
        have hih := ih hacc hsorted hlo.2 hends.2
        rw [hstep, List.map_cons, cells_cons, hempty, List.nil_append, List.map_cons,
          List.sum_cons, hne]
        simpa using hih
      · obtain ⟨hmap, hover, hwithin⟩ := append_optimized hne (hlo.1 hne) hacc.within hends.1
        have hpos : 0 < (interval r).2 := by
          have : r.2.toNat ≠ 0 := fun h => hne (BitVec.eq_of_toNat_eq h)
          show 0 < r.2.toNat
          omega
        have hstep : (appendUploadRange true acc r).2.map interval =
            push (acc.2.map interval) (interval r) := hmap
        have hlength := length_cells_push (r := interval r) hends.1
        have hends' : ∀ s ∈ rs, EndsBy ((appendUploadRange true acc r).2.map interval) s.1.toNat := by
          intro s hs last hlast
          rw [hstep] at hlast
          exact (endsBy_push (r := interval r) hends.1 last hlast).trans (hr s hs)
        have hjoined : Joined lo (appendUploadRange true acc r).2 :=
          ⟨by rw [hstep]; exact hacc.apart.push hpos hends.1, hwithin⟩
        obtain ⟨hout, hcells, htotal⟩ := ih hjoined hsorted hlo.2 hends'
        refine ⟨hout, fun page => ?_, ?_⟩
        · rw [hcells, hstep, mem_cells_push hends.1, List.map_cons, cells_cons, List.mem_append,
            or_assoc]
        · have hsaved : (appendUploadRange true acc r).1 =
              acc.1 + overlap (acc.2.map interval) (interval r) := by
            rw [← hover]
            rfl
          rw [htotal, hstep, hsaved, List.map_cons, List.sum_cons]
          have hsize : (interval r).2 = r.2.toNat := rfl
          rw [hsize] at hlength
          omega

/-! ### The pages of each range one after another -/

/-- Without it, the cells appended are those of the range, overlapping or not. -/
theorem cells_append_legacy {output : List Range} {r : Range}
    (hout : ∀ s ∈ output, (interval s).stop < 2 ^ 32) (hr : (interval r).stop < 2 ^ 32) :
    cells ((appendUploadPageRange output r.1 r.2 false).2.map interval) =
        cells (output.map interval) ++ (interval r).cells ∧
      ∀ s ∈ (appendUploadPageRange output r.1 r.2 false).2, (interval s).stop < 2 ^ 32 := by
  by_cases hne : r.2 = 0
  · rw [appendUploadPageRange, if_pos hne, interval, hne]
    exact ⟨by simp [Interval.cells], hout⟩
  · rcases List.eq_nil_or_concat' output with rfl | ⟨init, last, rfl⟩
    · rw [append_nil hne]
      refine ⟨by simp, fun s hs => ?_⟩
      rw [List.mem_singleton.1 hs]
      exact hr
    · have hlast := hout last (by simp)
      have hrstop : (interval r).stop = r.1.toNat + r.2.toNat := rfl
      have hlstop : (interval last).stop = last.1.toNat + last.2.toNat := rfl
      rw [append_concat hne]
      dsimp only
      by_cases htouch : r.1.toNat = last.1.toNat + last.2.toNat
      · rw [if_pos (.inl htouch)]
        have hsize : (BitVec.ofNat 32 (max (last.1.toNat + last.2.toNat) (r.1.toNat + r.2.toNat) -
            last.1.toNat)).toNat = last.2.toNat + r.2.toNat := by
          rw [BitVec.toNat_ofNat]
          omega
        refine ⟨?_, fun s hs => ?_⟩
        · rw [List.map_append, List.map_append, cells_append, cells_append, List.append_assoc]
          congr 1
          simp only [List.map_singleton, cells_cons, cells_nil, List.append_nil, interval,
            Interval.cells, hsize]
          rw [htouch, List.range'_append_1]
        · rcases List.mem_append.1 hs with hs | hs
          · exact hout s (List.mem_append_left _ hs)
          · rw [List.mem_singleton.1 hs]
            show last.1.toNat + (BitVec.ofNat 32 _).toNat < _
            rw [hsize]
            omega
      · rw [if_neg (by simpa using htouch)]
        refine ⟨by simp, fun s hs => ?_⟩
        rw [show init ++ [last, (r.1, r.2)] = (init ++ [last]) ++ [r] by simp] at hs
        rcases List.mem_append.1 hs with hs | hs
        · exact hout s hs
        · rw [List.mem_singleton.1 hs]
          exact hr

/-- And so for all ranges of a request, by induction on them. -/
theorem foldl_legacy {rs : List Range} {acc : ℕ × List Range}
    (hacc : ∀ s ∈ acc.2, (interval s).stop < 2 ^ 32) (hrs : ∀ r ∈ rs, (interval r).stop < 2 ^ 32) :
    cells ((rs.foldl (appendUploadRange false) acc).2.map interval) =
      cells (acc.2.map interval) ++ cells (rs.map interval) := by
  induction rs generalizing acc with
  | nil => simp
  | cons r rs ih =>
      rw [List.forall_mem_cons] at hrs
      obtain ⟨hcells, hout⟩ := cells_append_legacy hacc hrs.1
      have hih : cells ((rs.foldl (appendUploadRange false) (appendUploadRange false acc r)).2.map
          interval) = cells ((appendUploadRange false acc r).2.map interval) ++
            cells (rs.map interval) := ih hout hrs.2
      rw [List.foldl_cons, hih, List.map_cons, cells_cons, ← List.append_assoc]
      congr 1

/-! ### The uploads of a request -/

/-- A byte range that is not empty and lies in the buffer. -/
def InBuffer (range : Range) : Prop := range.2 ≠ 0 ∧ (interval range).stop ≤ kBufferSize

/-- The page has a byte of the range. -/
def touches (pageSizeLog2 page : ℕ) (range : Range) : Bool :=
  decide (page ∈ (pageSpan pageSizeLog2 range).cells)

/-- The last byte of a range inside the buffer does not wrap. -/
theorem toNat_last_byte {range : Range} (h : InBuffer range) :
    (range.1 + range.2 - 1).toNat = range.1.toNat + range.2.toNat - 1 := by
  have hpos : range.2.toNat ≠ 0 := fun h' => h.1 (BitVec.eq_of_toNat_eq h')
  have hstop : range.1.toNat + range.2.toNat ≤ 0x20000000 := h.2
  rw [BitVec.toNat_sub, BitVec.toNat_add]
  simp
  omega

/-- So the pages of the range are those of its first and its last byte. -/
theorem pageSpan_eq {range : Range} (h : InBuffer range) (pageSizeLog2 : ℕ) :
    pageSpan pageSizeLog2 range = (range.1.toNat / 2 ^ pageSizeLog2,
      (range.1.toNat + range.2.toNat - 1) / 2 ^ pageSizeLog2) := by
  rw [pageSpan, BitVec.toNat_ushiftRight, BitVec.toNat_ushiftRight, toNat_last_byte h,
    Nat.shiftRight_eq_div_pow, Nat.shiftRight_eq_div_pow]

/-- The pages of a byte range are those of its bytes. -/
theorem touches_iff {range : Range} (h : InBuffer range) {pageSizeLog2 page : ℕ} :
    touches pageSizeLog2 page range = true ↔
      ∃ byte, range.1.toNat ≤ byte ∧ byte < range.1.toNat + range.2.toNat ∧
        byte / 2 ^ pageSizeLog2 = page := by
  have hpos : range.2.toNat ≠ 0 := fun h' => h.1 (BitVec.eq_of_toNat_eq h')
  rw [touches, decide_eq_true_iff, pageSpan_eq h, Span.mem_cells]
  exact page_between_iff (by omega) (Nat.two_pow_pos _)

/-- What the scan of all ranges finds: each range's runs of invalid pages, appended in turn. -/
theorem requestUploads_eq (words : ℕ → BitVec 64) (pageSizeLog2 : ℕ) (optimize : Bool)
    {ranges : List Range} (hranges : ∀ range ∈ ranges, InBuffer range) (acc : ℕ × List Range) :
    ∃ runs, requestUploads words pageSizeLog2 optimize ranges acc =
        some ((runs.map toRange).foldl (appendUploadRange optimize) acc) ∧
      cells runs = ranges.flatMap (fun range =>
        (pageSpan pageSizeLog2 range).cells.filter fun page => !pageValid words page) ∧
      ∀ r ∈ runs, 0 < r.2 := by
  induction ranges generalizing acc with
  | nil => exact ⟨[], rfl, rfl, by simp⟩
  | cons range ranges ih =>
      rw [List.forall_mem_cons] at hranges
      have hstop : (interval range).stop ≤ 2 ^ 32 := hranges.1.2.trans (by decide)
      obtain ⟨runs, hscan, hcells, hpos⟩ := scanRange_eq words pageSizeLog2 hranges.1.1 hstop
      obtain ⟨runs', hrest, hcells', hpos'⟩ :=
        ih hranges.2 ((runs.map toRange).foldl (appendUploadRange optimize) acc)
      refine ⟨runs ++ runs', ?_, ?_, List.forall_mem_append.2 ⟨hpos, hpos'⟩⟩
      · show (scanRange words pageSizeLog2 range).bind _ = _
        rw [hscan, List.map_append, List.foldl_append]
        exact hrest
      · rw [cells_append, hcells, hcells', List.flatMap_cons]

/-- Runs whose pages come in order start in order. -/
theorem starts_of_cells_pairwise {runs : List Interval} (hpos : ∀ r ∈ runs, 0 < r.2)
    (h : (cells runs).Pairwise (· ≤ ·)) : runs.Pairwise fun r s => r.1 ≤ s.1 := by
  induction runs with
  | nil => exact .nil
  | cons r runs ih =>
      rw [List.forall_mem_cons] at hpos
      rw [cells_cons, List.pairwise_append] at h
      refine List.pairwise_cons.2 ⟨fun s hs => ?_, ih hpos.2 h.2.1⟩
      have hr : r.1 ∈ r.cells := Interval.mem_cells.2 ⟨le_rfl, Nat.lt_add_of_pos_right hpos.1⟩
      have hs' : s.1 ∈ cells runs :=
        mem_cells.2 ⟨s, hs, le_rfl, Nat.lt_add_of_pos_right (hpos.2 s hs)⟩
      exact h.2.2 _ hr _ hs'

/-- The pages of byte ranges that are disjoint and in order come in order. -/
theorem pages_pairwise {words : ℕ → BitVec 64} {pageSizeLog2 : ℕ} {ranges : List Range}
    (hranges : ∀ range ∈ ranges, InBuffer range)
    (hsorted : ranges.Pairwise fun r s => (interval r).stop ≤ s.1.toNat) :
    (ranges.flatMap fun range =>
      (pageSpan pageSizeLog2 range).cells.filter fun page => !pageValid words page).Pairwise
        (· ≤ ·) := by
  induction ranges with
  | nil => exact .nil
  | cons range ranges ih =>
      rw [List.forall_mem_cons] at hranges
      obtain ⟨hfirst, hsorted⟩ := List.pairwise_cons.1 hsorted
      rw [List.flatMap_cons, List.pairwise_append]
      refine ⟨?_, ih hranges.2 hsorted, fun page hpage page' hpage' => ?_⟩
      · exact (List.Pairwise.imp Nat.le_of_lt List.pairwise_lt_range').filter _
      · obtain ⟨s, hs, hpage'⟩ := List.mem_flatMap.1 hpage'
        have hle := (Span.mem_cells.1 (List.mem_of_mem_filter hpage)).2
        have hge := (Span.mem_cells.1 (List.mem_of_mem_filter hpage')).1
        rw [pageSpan_eq hranges.1] at hle
        rw [pageSpan_eq (hranges.2 s hs)] at hge
        have hstop : range.1.toNat + range.2.toNat ≤ s.1.toNat := hfirst s hs
        exact hle.trans ((Nat.div_le_div_right (by omega)).trans hge)

/-- The pages of a request are below `kBufferSize`, so no run of them wraps in 32 bits. -/
theorem page_lt {words : ℕ → BitVec 64} {pageSizeLog2 : ℕ} {ranges : List Range}
    (hranges : ∀ range ∈ ranges, InBuffer range) {page : ℕ}
    (hpage : page ∈ ranges.flatMap fun range =>
      (pageSpan pageSizeLog2 range).cells.filter fun page => !pageValid words page) :
    page < kBufferSize := by
  obtain ⟨range, hrange, hpage⟩ := List.mem_flatMap.1 hpage
  have hle := (Span.mem_cells.1 (List.mem_of_mem_filter hpage)).2
  have hin := hranges range hrange
  have hpos : range.2.toNat ≠ 0 := fun h' => hin.1 (BitVec.eq_of_toNat_eq h')
  have hstop : range.1.toNat + range.2.toNat ≤ kBufferSize := hin.2
  rw [pageSpan_eq hin] at hle
  have := Nat.div_le_self (range.1.toNat + range.2.toNat - 1) (2 ^ pageSizeLog2)
  have hle' : page ≤ (range.1.toNat + range.2.toNat - 1) / 2 ^ pageSizeLog2 := hle
  omega

/-- The runs as 32-bit numbers are the runs, none of them reaching the end of the buffer. -/
theorem interval_toRange {runs : List Interval} (hpos : ∀ r ∈ runs, 0 < r.2)
    (hpages : ∀ page ∈ cells runs, page < kBufferSize) :
    (∀ r ∈ runs, r.stop ≤ kBufferSize) ∧ (runs.map toRange).map interval = runs := by
  have hstop : ∀ r ∈ runs, r.stop ≤ kBufferSize := by
    intro r hr
    have hlast : r.stop = r.1 + r.2 := rfl
    have := hpos r hr
    have := hpages (r.stop - 1) (mem_cells.2 ⟨r, hr, by omega, by omega⟩)
    omega
  refine ⟨hstop, ?_⟩
  rw [List.map_map]
  refine (List.map_congr_left fun r hr => ?_).trans (List.map_id runs)
  have hle : r.1 + r.2 ≤ 0x20000000 := hstop r hr
  show ((BitVec.ofNat 32 r.1).toNat, (BitVec.ofNat 32 r.2).toNat) = r
  rw [BitVec.toNat_ofNat, BitVec.toNat_ofNat, Nat.mod_eq_of_lt (by omega), Nat.mod_eq_of_lt (by omega)]

/-- A page that is not valid is counted once for each range that touches it. -/
theorem count_pages (words : ℕ → BitVec 64) (pageSizeLog2 : ℕ) (ranges : List Range) (page : ℕ) :
    (ranges.flatMap fun range =>
      (pageSpan pageSizeLog2 range).cells.filter fun page => !pageValid words page).count page =
        if pageValid words page then 0 else ranges.countP (touches pageSizeLog2 page) := by
  induction ranges with
  | nil => simp
  | cons range ranges ih =>
      have hnodup : ((pageSpan pageSizeLog2 range).cells.filter
          fun page => !pageValid words page).Nodup :=
        (List.Pairwise.imp Nat.ne_of_lt List.pairwise_lt_range').filter _
      rw [List.flatMap_cons, List.count_append, ih, hnodup.count, List.countP_cons]
      by_cases hvalid : pageValid words page = true
      · simp [hvalid]
      · by_cases htouch : page ∈ (pageSpan pageSizeLog2 range).cells
        · simp [hvalid, htouch, touches, Nat.add_comm]
        · simp [hvalid, htouch, touches]

/-- The optimised mode alone: what the ranges appended leave. -/
theorem appended_optimized {rs : List Range}
    (hsorted : rs.Pairwise fun r s => r.1.toNat ≤ s.1.toNat)
    (hspan : ∀ r ∈ rs, ∀ s ∈ rs, r.2 ≠ 0 → s.2 ≠ 0 → (interval s).stop < r.1.toNat + 2 ^ 32) :
    let result := rs.foldl (appendUploadRange true) (0, [])
    Apart (result.2.map interval) ∧
      (∀ page, page ∈ cells (result.2.map interval) ↔ page ∈ cells (rs.map interval)) ∧
      result.1 + (cells (rs.map interval)).toFinset.card = (rs.map fun r => r.2.toNat).sum := by
  classical
  -- the first page of all
  obtain ⟨lo, hlo⟩ : ∃ lo, ∀ r ∈ rs, r.2 ≠ 0 → Within lo r := by
    by_cases hne : ∃ page, ∃ r ∈ rs, r.2 ≠ 0 ∧ r.1.toNat = page
    · obtain ⟨first, hfirst, hfirst', heq⟩ := Nat.find_spec hne
      refine ⟨Nat.find hne, fun r hr hr' => ⟨Nat.find_min' hne ⟨r, hr, hr', rfl⟩, ?_⟩⟩
      rw [← heq]
      exact hspan first hfirst r hr hfirst' hr'
    · exact ⟨0, fun r hr hr' => absurd ⟨_, r, hr, hr', rfl⟩ hne⟩
  obtain ⟨hjoined, hcells, htotal⟩ := @foldl_optimized lo rs (0, []) ⟨apart_nil, by simp⟩ hsorted hlo
    (fun r _ last hlast => by simp at hlast)
  intro result
  have hmem : ∀ page, page ∈ cells (result.2.map interval) ↔ page ∈ cells (rs.map interval) := by
    intro page
    rw [hcells]
    simp
  refine ⟨hjoined.apart, hmem, ?_⟩
  have hunion : (cells (rs.map interval)).toFinset = (cells (result.2.map interval)).toFinset := by
    ext page
    rw [List.mem_toFinset, List.mem_toFinset, hmem]
  rw [hunion, List.toFinset_card_of_nodup hjoined.apart.nodup_cells]
  have htotal' : (cells (result.2.map interval)).length + result.1 =
      (rs.map fun r => r.2.toNat).sum := by simpa using htotal
  rw [← htotal', Nat.add_comm]

/-- **Planning the uploads is exact.**  Page ranges that come in the order of their
starts and span fewer than 2 ^ 32 pages leave, in the optimised mode, a sorted list of
disjoint ranges that do not touch with exactly their pages, and the overlaps reported
add up to what they hold more than once.  For every bitmap, every page size and all
byte ranges of the buffer that are disjoint and in order, the scan ends and plans the
pages asked for that are not valid: in the optimised mode each of them once, in the
other mode once for each byte range that has a byte of it. -/
theorem uploadPlan_exact :
    (∀ rs : List Range, (rs.Pairwise fun r s => r.1.toNat ≤ s.1.toNat) →
      (∀ r ∈ rs, ∀ s ∈ rs, r.2 ≠ 0 → s.2 ≠ 0 → (interval s).stop < r.1.toNat + 2 ^ 32) →
      let result := rs.foldl (appendUploadRange true) (0, [])
      Apart (result.2.map interval) ∧
        (∀ page, page ∈ cells (result.2.map interval) ↔ page ∈ cells (rs.map interval)) ∧
        result.1 + (cells (rs.map interval)).toFinset.card = (rs.map fun r => r.2.toNat).sum) ∧
    ∀ (words : ℕ → BitVec 64) (pageSizeLog2 : ℕ) (ranges : List Range),
      (∀ range ∈ ranges, InBuffer range) →
      (ranges.Pairwise fun r s => (interval r).stop ≤ s.1.toNat) →
      ∃ optimized legacy : ℕ × List Range,
        requestUploads words pageSizeLog2 true ranges (0, []) = some optimized ∧
        requestUploads words pageSizeLog2 false ranges (0, []) = some legacy ∧
        (cells (optimized.2.map interval)).Nodup ∧
        (∀ page, page ∈ cells (optimized.2.map interval) ↔ pageValid words page = false ∧
          ∃ range ∈ ranges, ∃ byte, range.1.toNat ≤ byte ∧
            byte < range.1.toNat + range.2.toNat ∧ byte / 2 ^ pageSizeLog2 = page) ∧
        ∀ page, (cells (legacy.2.map interval)).count page =
          if pageValid words page then 0 else ranges.countP (touches pageSizeLog2 page) := by
  refine ⟨fun rs hsorted hspan => appended_optimized hsorted hspan,
    fun words pageSizeLog2 ranges hranges hsorted => ?_⟩
  obtain ⟨runs, hscan, hcells, hpos⟩ :=
    requestUploads_eq words pageSizeLog2 true hranges (0, [])
  obtain ⟨runs', hscan', hcells', hpos'⟩ :=
    requestUploads_eq words pageSizeLog2 false hranges (0, [])
  obtain ⟨hstop, hmap⟩ := interval_toRange hpos fun page hpage =>
    page_lt hranges (by rw [← hcells]; exact hpage)
  obtain ⟨hstop', hmap'⟩ := interval_toRange hpos' fun page hpage =>
    page_lt hranges (by rw [← hcells']; exact hpage)
  have hstops : ∀ {runs : List Interval}, (∀ r ∈ runs, r.stop ≤ kBufferSize) →
      (runs.map toRange).map interval = runs →
        ∀ r ∈ runs.map toRange, (interval r).stop < 2 ^ 32 := by
    intro runs hstop hmap r hr
    have hmem : interval r ∈ (runs.map toRange).map interval := List.mem_map_of_mem hr
    rw [hmap] at hmem
    exact (hstop _ hmem).trans_lt (by decide)
  refine ⟨_, _, hscan, hscan', ?_⟩
  have hstarts : (runs.map toRange).Pairwise fun r s => r.1.toNat ≤ s.1.toNat := by
    have hpair := starts_of_cells_pairwise hpos (by rw [hcells]; exact pages_pairwise hranges hsorted)
    rw [← hmap, List.pairwise_map] at hpair
    exact hpair
  obtain ⟨hapart, hmem, -⟩ := appended_optimized hstarts fun r _ s hs _ _ =>
    (hstops hstop hmap s hs).trans_le (Nat.le_add_left ..)
  refine ⟨hapart.nodup_cells, fun page => ?_, fun page => ?_⟩
  · rw [hmem, hmap, hcells, List.mem_flatMap]
    constructor
    · rintro ⟨range, hrange, hpage⟩
      obtain ⟨hin, hinvalid⟩ := List.mem_filter.1 hpage
      refine ⟨by simpa using hinvalid, range, hrange, ?_⟩
      exact (touches_iff (hranges range hrange)).1 (by rw [touches, decide_eq_true hin])
    · rintro ⟨hinvalid, range, hrange, hbyte⟩
      have htouch := (touches_iff (hranges range hrange)).2 hbyte
      rw [touches, decide_eq_true_iff] at htouch
      exact ⟨range, hrange, List.mem_filter.2 ⟨htouch, by simp [hinvalid]⟩⟩
  · rw [foldl_legacy (by simp) (hstops hstop' hmap'), hmap', hcells']
    exact count_pages words pageSizeLog2 ranges page

/-- Page 2 is valid. -/
def pageTwo : ℕ → BitVec 64 := fun i => if i = 0 then 0b100 else 0

/-- Two byte ranges with page 1 in common. -/
def halfPages : List Range := [(0x800, 0x1000), (0x1800, 0x2000)]

/-- The hypotheses are satisfiable: of `[0, 2)`, `[1, 4)` and `[6, 7)` one page is
there twice, and of the pages 0 to 3 the two byte ranges plan those but 2, the
common one once, and without the optimised mode twice. -/
theorem uploadPlan_exact_halfPages :
    let rs : List Range := [(0, 2), (1, 3), (6, 1)]
    (rs.foldl (appendUploadRange true) (0, []) = (1, [(0, 4), (6, 1)]) ∧
        1 + (cells (rs.map interval)).toFinset.card = 6) ∧
    ∃ optimized legacy : ℕ × List Range,
      requestUploads pageTwo 12 true halfPages (0, []) = some optimized ∧
      requestUploads pageTwo 12 false halfPages (0, []) = some legacy ∧
      optimized.2 = [(0, 2), (3, 1)] ∧ (cells (optimized.2.map interval)).Nodup ∧
      (cells (legacy.2.map interval)).count 1 = 2 := by
  obtain ⟨happend, hrequest⟩ := uploadPlan_exact
  have hfold : ([(0, 2), (1, 3), (6, 1)] : List Range).foldl (appendUploadRange true) (0, []) =
      (1, [(0, 4), (6, 1)]) := by decide
  have hstop : ∀ r ∈ ([(0, 2), (1, 3), (6, 1)] : List Range), (interval r).stop ≤ 7 := by
    simp [interval, Interval.stop]
  have hsum := (happend [(0, 2), (1, 3), (6, 1)] (by decide)
    fun r _ s hs _ _ => (hstop s hs).trans_lt (by omega)).2.2
  have hin : ∀ range ∈ halfPages, InBuffer range := by
    simp [halfPages, InBuffer, interval, Interval.stop, kBufferSize]
  obtain ⟨optimized, legacy, hoptimized, hlegacy, hnodup, -, hcount⟩ :=
    hrequest pageTwo 12 halfPages hin (by decide)
  have hplan : requestUploads pageTwo 12 true halfPages (0, []) = some (1, [(0, 2), (3, 1)]) := by
    decide
  obtain rfl := Option.some.inj (hplan.symm.trans hoptimized)
  refine ⟨⟨hfold, ?_⟩, _, legacy, hoptimized, hlegacy, rfl, hnodup, ?_⟩
  · rw [hfold] at hsum
    exact hsum
  · rw [hcount 1]
    decide

/-- Two ranges that fill the 32-bit page numbers are joined to one of length 0.  Without
the optimised mode three byte ranges on one page upload it three times. -/
theorem uploadPlan_joined_to_nothing :
    let rs : List Range := [(0, 0x80000000), (0x80000000, 0x80000000)]
    (rs.Pairwise fun r s => r.1.toNat ≤ s.1.toNat) ∧
      (rs.foldl (appendUploadRange true) (0, [])).2 = [(0, 0)] ∧
      ¬ Apart ((rs.foldl (appendUploadRange true) (0, [])).2.map interval) ∧
      (requestUploads (fun _ => 0) 12 false [(0, 1), (2, 1), (4, 1)] (0, [])).map (fun plan =>
        (cells (plan.2.map interval)).count 0) = some 3 := by
  intro rs
  have hjoined : (rs.foldl (appendUploadRange true) (0, [])).2 = [(0, 0)] := by decide +kernel
  refine ⟨by decide, hjoined, ?_, by decide +kernel⟩
  rw [hjoined]
  exact fun h => absurd (h.nonempty (0, 0) (List.mem_singleton_self _)) (lt_irrefl 0)

end Ranges
end BoltsRebuilt
