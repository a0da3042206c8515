/-
# The watches of the shared memory

`src/gpu/vendored/src/graphics/shared_memory.cpp`: `WatchMemoryRange` (lines
314-378), `UnwatchMemoryRange` (lines 380-383), `FireWatches` (lines 385-415) and
`UnlinkWatchRange` (lines 480-500).

The buffer is split into buckets of 4 MiB.  A watched range has a node in every
bucket it goes through, and `FireWatches` goes through the buckets of the pages it
is told and calls the ranges with one of the pages; a range that was called is
unlinked from all its buckets.  So a range in several buckets is called once
(`Linked.fireWatches`), as long as the ranges are linked where they belong, which
they are after any calls (`linked_run`).

A bucket is the list of its ranges from the head on; a range is told by its
address, here `id`.  The callbacks themselves are opaque.
-/

import BoltsRebuilt.Lib.History
import BoltsRebuilt.Lib.Spans
import Mathlib.Data.List.Basic

namespace BoltsRebuilt
namespace Ranges

/-- `kWatchBucketSizeLog2`. -/
def kWatchBucketSizeLog2 : ℕ := 22

/-- `WatchRange`. -/
structure WatchRange where
  id : ℕ
  pageFirst : ℕ
  pageLast : ℕ
  deriving DecidableEq, Repr

/-- `watch_buckets_`. -/
abbrev WatchBuckets := ℕ → List WatchRange

namespace WatchRange

/-- `bucket_first` and `bucket_last` of a range. -/
def buckets (pageSizeLog2 : ℕ) (w : WatchRange) : Span :=
  ((w.pageFirst <<< pageSizeLog2) >>> kWatchBucketSizeLog2,
    (w.pageLast <<< pageSizeLog2) >>> kWatchBucketSizeLog2)

/-- The range has one of the pages. -/
def overlaps (w : WatchRange) (pageFirst pageLast : ℕ) : Bool :=
  decide (pageFirst ≤ w.pageLast ∧ w.pageFirst ≤ pageLast)

end WatchRange

namespace WatchBuckets

/-- `WatchMemoryRange`, with the pages already told: a node at the head of each bucket. -/
def watchMemoryRange (pageSizeLog2 : ℕ) (b : WatchBuckets) (w : WatchRange) : WatchBuckets :=
  fun i => if i ∈ (w.buckets pageSizeLog2).cells then w :: b i else b i

/-- `UnlinkWatchRange`. -/
def unlinkWatchRange (b : WatchBuckets) (w : WatchRange) : WatchBuckets :=
  fun i => (b i).filter (· ≠ w)

/-- The `while` loop over the nodes of a bucket: the ranges called, and what is left. -/
def fireBucket (pageFirst pageLast : ℕ) : List WatchRange → WatchBuckets → List WatchRange × WatchBuckets
  | [], b => ([], b)
  | w :: nodes, b =>
      if w.overlaps pageFirst pageLast then
        let (fired, b) := fireBucket pageFirst pageLast nodes (b.unlinkWatchRange w)
        (w :: fired, b)
      else fireBucket pageFirst pageLast nodes b

/-- The `for` loop over the buckets. -/
def fireBuckets (pageFirst pageLast : ℕ) : List ℕ → WatchBuckets → List WatchRange × WatchBuckets
  | [], b => ([], b)
  | i :: is, b =>
      let (fired, b) := fireBucket pageFirst pageLast (b i) b
      let (fired', b) := fireBuckets pageFirst pageLast is b
      (fired ++ fired', b)

/-- `FireWatches`, with the addresses as numbers. -/
def fireWatches (pageSizeLog2 : ℕ) (b : WatchBuckets) (pageFirst pageLast : ℕ) :
    List WatchRange × WatchBuckets :=
  let addressFirst := pageFirst <<< pageSizeLog2
  let addressLast := (pageLast <<< pageSizeLog2) + ((1 <<< pageSizeLog2) - 1)
  fireBuckets pageFirst pageLast
    (Span.cells (addressFirst >>> kWatchBucketSizeLog2, addressLast >>> kWatchBucketSizeLog2)) b

/-- A range is in the buckets it goes through, once in each, and in no other. -/
structure Linked (pageSizeLog2 : ℕ) (b : WatchBuckets) : Prop where
  nodup : ∀ i, (b i).Nodup
  pages : ∀ i, ∀ w ∈ b i, w.pageFirst ≤ w.pageLast
  bucket : ∀ i, ∀ w ∈ b i, ∀ j, w ∈ b j ↔ j ∈ (w.buckets pageSizeLog2).cells

/-- The range is watched. -/
def Watched (b : WatchBuckets) (w : WatchRange) : Prop := ∃ i, w ∈ b i

variable {pageSizeLog2 : ℕ} {b : WatchBuckets}

/-- With no watches there is nothing to link. -/
theorem linked_empty (pageSizeLog2 : ℕ) : Linked pageSizeLog2 fun _ => [] :=
  ⟨fun _ => .nil, nofun, nofun⟩

/-- A new range is linked where it belongs: in the bucket of each block it has a page in. -/
theorem Linked.watchMemoryRange (h : Linked pageSizeLog2 b) {w : WatchRange}
    (hw : w.pageFirst ≤ w.pageLast) (hnew : ¬ b.Watched w) :
    Linked pageSizeLog2 (b.watchMemoryRange pageSizeLog2 w) := by
  have hmem : ∀ i v, v ∈ b.watchMemoryRange pageSizeLog2 w i ↔
      (v = w ∧ i ∈ (w.buckets pageSizeLog2).cells) ∨ v ∈ b i := by
    intro i v
    rw [WatchBuckets.watchMemoryRange]
    by_cases hi : i ∈ (w.buckets pageSizeLog2).cells
    · simp [hi]
    · simp [hi]
  constructor
  · intro i
    rw [WatchBuckets.watchMemoryRange]
    split
    · exact List.nodup_cons.2 ⟨fun hmem => hnew ⟨i, hmem⟩, h.nodup i⟩
    · exact h.nodup i
  · intro i v hv
    rcases (hmem i v).1 hv with ⟨rfl, -⟩ | hv
    · exact hw
    · exact h.pages i v hv
  · intro i v hv j
    rw [hmem]
    rcases (hmem i v).1 hv with ⟨rfl, -⟩ | hv
    · exact ⟨fun hj => hj.elim (fun hj => hj.2) fun hj => absurd ⟨j, hj⟩ hnew, fun hj => .inl ⟨rfl, hj⟩⟩
    · have hne : v ≠ w := fun heq => hnew ⟨i, heq ▸ hv⟩
      rw [← h.bucket i v hv j]
      simp [hne]

/-- Ranges that are taken out of every bucket leave the others linked. -/
theorem Linked.filter (h : Linked pageSizeLog2 b) (p : WatchRange → Bool) :
    Linked pageSizeLog2 fun i => (b i).filter p := by
  constructor
  · exact fun i => (h.nodup i).filter _
  · exact fun i w hw => h.pages i w (List.mem_of_mem_filter hw)
  · intro i w hw j
    obtain ⟨hw, hp⟩ := List.mem_filter.1 hw
    rw [← h.bucket i w hw j, List.mem_filter]
    exact and_iff_left hp

/-- Unlinking a watch leaves the others linked. -/
theorem Linked.unlinkWatchRange (h : Linked pageSizeLog2 b) (w : WatchRange) :
    Linked pageSizeLog2 (b.unlinkWatchRange w) := h.filter _

/-- A bucket: its ranges with one of the pages are called and unlinked everywhere. -/
theorem fireBucket_eq (pageFirst pageLast : ℕ) (nodes : List WatchRange) (b : WatchBuckets) :
    fireBucket pageFirst pageLast nodes b =
      (nodes.filter fun w => w.overlaps pageFirst pageLast, fun i => (b i).filter fun w =>
        w ∉ nodes.filter fun w => w.overlaps pageFirst pageLast) := by
  induction nodes generalizing b with
  | nil => simp [fireBucket]
  | cons w nodes ih =>
      rw [fireBucket]
      by_cases hw : w.overlaps pageFirst pageLast = true
      · have hcons := List.filter_cons_of_pos (p := fun v => v.overlaps pageFirst pageLast) (l := nodes) hw
        rw [if_pos hw, ih, hcons]
        refine Prod.ext rfl (funext fun i => ?_)
        show ((b i).filter _).filter _ = _
        rw [List.filter_filter]
        refine List.filter_congr fun v _ => ?_
        simp only [List.mem_cons, not_or, Bool.decide_and]
        rw [Bool.and_comm]
      · have hcons := List.filter_cons_of_neg (p := fun v => v.overlaps pageFirst pageLast) (l := nodes) hw
        rw [if_neg hw, ih, hcons]

/-- The buckets: each range with one of the pages is called once. -/
theorem fireBuckets_spec (pageFirst pageLast : ℕ) (is : List ℕ) {b : WatchBuckets}
    (hnodup : ∀ i, (b i).Nodup) :
    (fireBuckets pageFirst pageLast is b).1.Nodup ∧
      (∀ w, w ∈ (fireBuckets pageFirst pageLast is b).1 ↔
        w.overlaps pageFirst pageLast = true ∧ ∃ i ∈ is, w ∈ b i) ∧
      ∀ i, (fireBuckets pageFirst pageLast is b).2 i =
        (b i).filter fun w => w ∉ (fireBuckets pageFirst pageLast is b).1 := by
  induction is generalizing b with
  | nil => exact ⟨.nil, by simp [fireBuckets], by simp [fireBuckets]⟩
  | cons i is ih =>
      rw [fireBuckets, fireBucket_eq]
      dsimp only
      generalize hfired : ((b i).filter fun w => w.overlaps pageFirst pageLast) = fired
      have hmem : ∀ w, w ∈ fired ↔ w ∈ b i ∧ w.overlaps pageFirst pageLast = true := by
        intro w
        rw [← hfired, List.mem_filter]
      obtain ⟨hn, hin, hleft⟩ := ih (b := fun i => (b i).filter fun w => w ∉ fired)
        fun i => (hnodup i).filter _
      have hin' : ∀ w, w ∈ (fireBuckets pageFirst pageLast is fun i => (b i).filter fun w => w ∉ fired).1 ↔
          w.overlaps pageFirst pageLast = true ∧ (∃ j ∈ is, w ∈ b j) ∧ w ∉ fired := by
        intro w
        rw [hin]
        constructor
        · rintro ⟨hover, j, hj, hw⟩
          obtain ⟨hw, hnot⟩ := List.mem_filter.1 hw
          exact ⟨hover, ⟨j, hj, hw⟩, by simpa using hnot⟩
        · rintro ⟨hover, ⟨j, hj, hw⟩, hnot⟩
          exact ⟨hover, j, hj, List.mem_filter.2 ⟨hw, by simpa using hnot⟩⟩
      refine ⟨?_, fun w => ?_, fun j => ?_⟩
      · refine List.nodup_append.2 ⟨hfired ▸ (hnodup i).filter _, hn, fun v hv w hw heq => ?_⟩
        exact ((hin' w).1 hw).2.2 (heq ▸ hv)
      · rw [List.mem_append, hmem, hin', List.exists_mem_cons_iff]
        constructor
        · rintro (⟨hw, hover⟩ | ⟨hover, hw, -⟩)
          · exact ⟨hover, .inl hw⟩
          · exact ⟨hover, .inr hw⟩
        · rintro ⟨hover, hw | hw⟩
          · exact .inl ⟨hw, hover⟩
          · by_cases hf : w ∈ fired
            · exact .inl ((hmem w).1 hf)
            · exact .inr ⟨hover, hw, hf⟩
      · rw [hleft, List.filter_filter]
        refine List.filter_congr fun w _ => ?_
        simp only [List.mem_append, not_or, Bool.decide_and]
        rw [Bool.and_comm]

/-- A page's address is in a bucket of every range that has the page. -/
theorem bucket_mem {pageSizeLog2 page first last : ℕ} (hfirst : first ≤ page) (hlast : page ≤ last) :
    (page <<< pageSizeLog2) >>> kWatchBucketSizeLog2 ∈
      Span.cells ((first <<< pageSizeLog2) >>> kWatchBucketSizeLog2,
        (last <<< pageSizeLog2) >>> kWatchBucketSizeLog2) := by
  simp only [Span.mem_cells, Nat.shiftLeft_eq, Nat.shiftRight_eq_div_pow]
  exact ⟨Nat.div_le_div_right (Nat.mul_le_mul_right _ hfirst),
    Nat.div_le_div_right (Nat.mul_le_mul_right _ hlast)⟩

/-- **`FireWatches` is exact.**  The ranges called are the watched ones with one of the
pages, each once, and they alone are watched no more. -/
theorem Linked.fireWatches (h : Linked pageSizeLog2 b) {pageFirst pageLast : ℕ}
    (hle : pageFirst ≤ pageLast) :
    (b.fireWatches pageSizeLog2 pageFirst pageLast).1.Nodup ∧
      (∀ w, w ∈ (b.fireWatches pageSizeLog2 pageFirst pageLast).1 ↔
        b.Watched w ∧ pageFirst ≤ w.pageLast ∧ w.pageFirst ≤ pageLast) ∧
      Linked pageSizeLog2 (b.fireWatches pageSizeLog2 pageFirst pageLast).2 ∧
      ∀ w, (b.fireWatches pageSizeLog2 pageFirst pageLast).2.Watched w ↔
        b.Watched w ∧ ¬(pageFirst ≤ w.pageLast ∧ w.pageFirst ≤ pageLast) := by
  rw [WatchBuckets.fireWatches]
  generalize hspan : Span.cells _ = is
  obtain ⟨hn, hmem, hleft⟩ := fireBuckets_spec pageFirst pageLast is h.nodup
  have hfired : ∀ w, w ∈ (fireBuckets pageFirst pageLast is b).1 ↔
      b.Watched w ∧ pageFirst ≤ w.pageLast ∧ w.pageFirst ≤ pageLast := by
    intro w
    rw [hmem, WatchRange.overlaps, decide_eq_true_iff]
    constructor
    · rintro ⟨hover, i, -, hw⟩
      exact ⟨⟨i, hw⟩, hover⟩
    · rintro ⟨⟨i, hw⟩, hover⟩
      have hpages := h.pages i w hw
      -- the first page that both have
      have hin : ((max pageFirst w.pageFirst) <<< pageSizeLog2) >>> kWatchBucketSizeLog2 ∈ is := by
        have hpage := @bucket_mem pageSizeLog2 _ _ _ (le_max_left pageFirst w.pageFirst)
          (max_le hle hover.2)
        obtain ⟨hge, hle'⟩ := Span.mem_cells.1 hpage
        rw [← hspan]
        refine Span.mem_cells.2 ⟨hge, hle'.trans ?_⟩
        simp only [Nat.shiftRight_eq_div_pow]
        exact Nat.div_le_div_right (Nat.le_add_right ..)
      refine ⟨hover, _, hin, (h.bucket i w hw _).2 ?_⟩
      exact bucket_mem (le_max_right ..) (max_le hover.1 hpages)
  have hbuckets : (fireBuckets pageFirst pageLast is b).2 =
      fun i => (b i).filter fun w => w ∉ (fireBuckets pageFirst pageLast is b).1 := funext hleft
  refine ⟨hn, hfired, ?_, fun w => ?_⟩
  · rw [hbuckets]
    exact h.filter _
  · rw [hbuckets]
    constructor
    · rintro ⟨i, hw⟩
      obtain ⟨hw, hnot⟩ := List.mem_filter.1 hw
      exact ⟨⟨i, hw⟩, fun hover => of_decide_eq_true hnot ((hfired w).2 ⟨⟨i, hw⟩, hover⟩)⟩
    · rintro ⟨⟨i, hw⟩, hnot⟩
      refine ⟨i, List.mem_filter.2 ⟨hw, decide_eq_true fun hin => hnot ((hfired w).1 hin).2⟩⟩

/-! ### Runs -/

/-- What happens to the watches, all of it under the global lock. -/
inductive WatchCall
  | watchMemoryRange (w : WatchRange)
  | unwatchMemoryRange (w : WatchRange)
  | fireWatches (pageFirst pageLast : ℕ)

/-- The buckets after a call. -/
def call (pageSizeLog2 : ℕ) (b : WatchBuckets) : WatchCall → WatchBuckets
  | .watchMemoryRange w => b.watchMemoryRange pageSizeLog2 w
  | .unwatchMemoryRange w => b.unlinkWatchRange w
  | .fireWatches pageFirst pageLast => (b.fireWatches pageSizeLog2 pageFirst pageLast).2

/-- A new range has its pages in order and is taken from those not in use; pages are told in order. -/
def Allowed (b : WatchBuckets) : WatchCall → Prop
  | .watchMemoryRange w => w.pageFirst ≤ w.pageLast ∧ ¬ b.Watched w
  | .unwatchMemoryRange _ => True
  | .fireWatches pageFirst pageLast => pageFirst ≤ pageLast

/-- One call keeps the ranges linked, whether it watches, unwatches or fires. -/
theorem Linked.call (h : Linked pageSizeLog2 b) {c : WatchCall} (hc : b.Allowed c) :
    Linked pageSizeLog2 (b.call pageSizeLog2 c) := by
  cases c with
  | watchMemoryRange w => exact h.watchMemoryRange hc.1 hc.2
  | unwatchMemoryRange w => exact h.unlinkWatchRange w
  | fireWatches pageFirst pageLast => exact (h.fireWatches hc).2.2.1

/-- **The watched ranges are linked** after any calls from the construction on, so what
`FireWatches` calls is exact at every point of a run. -/
theorem linked_run (pageSizeLog2 : ℕ) {calls : List WatchCall}
    (h : History.Along (WatchBuckets.call pageSizeLog2) Allowed (fun _ => []) calls) :
    Linked pageSizeLog2 (calls.foldl (WatchBuckets.call pageSizeLog2) fun _ => []) := by
  induction calls using List.reverseRecOn with
  | nil => exact linked_empty pageSizeLog2
  | append_singleton calls c ih =>
      obtain ⟨halong, hc⟩ := (History.along_concat ..).1 h
      rw [List.foldl_append]
      exact (ih halong).call hc

end WatchBuckets
end Ranges
end BoltsRebuilt
