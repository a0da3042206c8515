/-
# The byte ranges of a request, sorted and merged

`src/gpu/native/native_range_batch.h`: `SelectNativeSingleRange` (lines 31-40)
and `NativeRangeBatch` (lines 42-97).

`Build` copies the ranges that are not empty into an array inside the object or
on the heap, sorts them by their start and merges them in place: `output` is the
place of the last merged range, behind the place being read.  What the array
holds up to there is what the library's `push` makes of the sorted ranges
(`mergeLoop_spec`).

Starts and lengths are 32-bit numbers.  The sort orders by the start alone, and
ranges with one start may come in any order: `sort` is any function that sorts.
-/

import BoltsRebuilt.Lib.Intervals
import Mathlib.Data.BitVec
import Mathlib.Data.List.Sort

namespace BoltsRebuilt
namespace Ranges

open Intervals

/-- `Range`: the start and the length. -/
abbrev Range := BitVec 32 × BitVec 32

/-- The bytes of a range as numbers. -/
def interval (r : Range) : Interval := (r.1.toNat, r.2.toNat)

/-! ### One range -/

/-- `NativeSingleRangeKind`. -/
inductive SingleRangeKind
  | notSelected
  | empty
  | invalid
  | ready
  deriving DecidableEq, Repr

/-- `NativeSingleRangeSelection`. -/
structure SingleRangeSelection where
  kind : SingleRangeKind := .notSelected
  range : Range := (0, 0)
  deriving DecidableEq, Repr

/-- `ranges` of a selection. -/
def SingleRangeSelection.ranges (s : SingleRangeSelection) : List Range :=
  if s.kind = .ready then [s.range] else []

/-- `SelectNativeSingleRange`; no input is the null pointer. -/
def selectNativeSingleRange (input : Option (List Range)) (byteLimit : BitVec 32)
    (enabled : Bool) : SingleRangeSelection :=
  match enabled, input with
  | true, some [(start, length)] =>
      if length = 0 then { kind := .empty }
      else if byteLimit.toNat < start.toNat + length.toNat then { kind := .invalid }
      else { kind := .ready, range := (start, length) }
  | _, _ => {}

/-! ### Many ranges -/

/-- `kStackCapacity`. -/
def kStackCapacity : ℕ := 32

/-- `NativeRangeBatch`: the elements of `stack_` and of `heap_` by their index. -/
structure RangeBatch where
  stack : ℕ → Range
  heap : ℕ → Range
  size : ℕ
  onStack : Bool

/-- `std::sort` with the starts compared. -/
structure SortByStart where
  sort : List Range → List Range
  perm : ∀ l, (sort l).Perm l
  sorted : ∀ l, (sort l).Pairwise fun a b => a.1 ≤ b.1

/-- A sort that keeps the order of equal starts. -/
def SortByStart.stable : SortByStart where
  sort := fun l => l.mergeSort fun a b => decide (a.1 ≤ b.1)
  perm := fun l => List.mergeSort_perm l _
  sorted := fun l => by
    refine (List.pairwise_mergeSort ?_ ?_ l).imp fun h => of_decide_eq_true h
    · intro a b c hab hbc
      exact decide_eq_true (BitVec.le_trans (of_decide_eq_true hab) (of_decide_eq_true hbc))
    · intro a b
      rcases BitVec.le_total a.1 b.1 with h | h <;> simp [h]

namespace RangeBatch

/-- The array in use. -/
def data (b : RangeBatch) : ℕ → Range := if b.onStack then b.stack else b.heap

/-- The batch with other elements in the array in use. -/
def setData (b : RangeBatch) (data : ℕ → Range) : RangeBatch :=
  if b.onStack then { b with stack := data } else { b with heap := data }

/-- `ranges`. -/
def ranges (b : RangeBatch) : List Range := (List.range b.size).map b.data

/-- `stack_[size_] = r` or `heap_.push_back(r)`, and `++size_`. -/
def append (b : RangeBatch) (r : Range) : RangeBatch :=
  { b.setData (Function.update b.data b.size r) with size := b.size + 1 }

/-- The loop over the input. -/
def collect (byteLimit : BitVec 32) : List Range → RangeBatch → Bool × RangeBatch
  | [], b => (true, b)
  | r :: rs, b =>
      if r.2 = 0 then collect byteLimit rs b
      else if byteLimit < r.1 ∨ byteLimit - r.1 < r.2 then (false, { b with size := 0 })
      else collect byteLimit rs (b.append r)

/-- The merge loop from index `i`, with the iterations left. -/
def mergeLoop : ℕ → ℕ → ℕ → (ℕ → Range) → ℕ × (ℕ → Range)
  | 0, _, output, data => (output, data)
  | n + 1, i, output, data =>
      let previous := data output
      let next := data i
      let previousEnd := previous.1.toNat + previous.2.toNat
      if next.1.toNat ≤ previousEnd then
        let stop := max previousEnd (next.1.toNat + next.2.toNat)
        mergeLoop n (i + 1) output
          (Function.update data output (previous.1, BitVec.ofNat 32 (stop - previous.1.toNat)))
      else mergeLoop n (i + 1) (output + 1) (Function.update data (output + 1) next)

/-- The sort of the collected ranges, in place. -/
def sortData (sort : SortByStart) (b : RangeBatch) : RangeBatch :=
  b.setData fun i => (sort.sort b.ranges)[i]?.getD (b.data i)

/-- The rest of `Build` where there are ranges to merge. -/
def sortMerge (sort : SortByStart) (b : RangeBatch) : RangeBatch :=
  let b := b.sortData sort
  let merged := mergeLoop (b.size - 1) 1 0 b.data
  { b.setData merged.2 with size := merged.1 + 1 }

/-- `Build`; no input is the null pointer. -/
def build (sort : SortByStart) (b : RangeBatch) (input : Option (List Range))
    (byteLimit : BitVec 32) (optimize : Bool) : Bool × RangeBatch :=
  let b := { b with
    size := 0
    onStack := optimize && (input.getD []).length ≤ kStackCapacity }
  match input with
  | none => (true, b)
  | some input =>
      match collect byteLimit input b with
      | (false, b) => (false, b)
      | (true, b) => (true, if b.size < 2 then b else b.sortMerge sort)

/-! ### Collecting -/

/-- The data that was set is the data. -/
theorem data_setData (b : RangeBatch) (data : ℕ → Range) : (b.setData data).data = data := by
  rw [setData, RangeBatch.data]
  split <;> simp_all

/-- And the size is as before. -/
theorem size_setData (b : RangeBatch) (data : ℕ → Range) : (b.setData data).size = b.size := by
  rw [setData]
  split <;> rfl

/-- The ranges of a batch are its data up to its size. -/
theorem ranges_eq {b : RangeBatch} {data : ℕ → Range} {n : ℕ} (hdata : b.data = data)
    (hsize : b.size = n) : b.ranges = (List.range n).map data := by
  rw [ranges, hdata, hsize]

/-- A range that is appended comes last. -/
theorem ranges_append (b : RangeBatch) (r : Range) : (b.append r).ranges = b.ranges ++ [r] := by
  have hdata : (b.append r).data = Function.update b.data b.size r :=
    data_setData b (Function.update b.data b.size r)
  have hsize : (b.append r).size = b.size + 1 := rfl
  rw [ranges_eq hdata hsize, List.range_succ, List.map_append, List.map_singleton,
    Function.update_self, ranges]
  congr 1
  refine List.map_congr_left fun i hi => ?_
  have := List.mem_range.1 hi
  exact Function.update_of_ne (by omega) ..

/-- The range ends at the limit or before it. -/
def Fits (byteLimit : BitVec 32) (r : Range) : Prop := (interval r).stop ≤ byteLimit.toNat

/-- The limit test of the source, in 32 bits, says that the range fits. -/
theorem not_exceeds_iff {byteLimit : BitVec 32} {r : Range} :
    ¬(byteLimit < r.1 ∨ byteLimit - r.1 < r.2) ↔ Fits byteLimit r := by
  rw [Fits, interval, Interval.stop, BitVec.lt_def, BitVec.lt_def]
  have hle := r.1.isLt
  have hlimit := byteLimit.isLt
  by_cases h : byteLimit.toNat < r.1.toNat
  · constructor
    · intro hor
      exact absurd (.inl h) hor
    · intro hfit
      dsimp only at hfit
      omega
  · rw [BitVec.toNat_sub_of_le (BitVec.le_def.2 (by omega))]
    dsimp only
    omega

/-- The loop over the input keeps what is not empty, or finds a range that does
not fit. -/
theorem collect_spec (byteLimit : BitVec 32) (rs : List Range) (b : RangeBatch) :
    ((∀ r ∈ rs, r.2 ≠ 0 → Fits byteLimit r) ∧ (collect byteLimit rs b).1 = true ∧
      (collect byteLimit rs b).2.ranges = b.ranges ++ rs.filter (fun r => r.2 ≠ 0) ∧
      (collect byteLimit rs b).2.size = b.size + (rs.filter fun r => r.2 ≠ 0).length) ∨
    ((∃ r ∈ rs, r.2 ≠ 0 ∧ ¬Fits byteLimit r) ∧ (collect byteLimit rs b).1 = false ∧
      (collect byteLimit rs b).2.size = 0) := by
  induction rs generalizing b with
  | nil => exact .inl ⟨by simp, rfl, by simp [collect], by simp [collect]⟩
  | cons r rs ih =>
      rw [collect]
      split
      next hempty =>
        have hfilter : (r :: rs).filter (fun r => decide (r.2 ≠ 0)) = rs.filter (fun r => r.2 ≠ 0) :=
          List.filter_cons_of_neg (by simp [hempty])
        rw [hfilter]
        rcases ih b with ⟨hfit, hrest⟩ | ⟨⟨r', hr', hbad⟩, hrest⟩
        · exact .inl ⟨List.forall_mem_cons.2 ⟨fun hne => absurd hempty hne, hfit⟩, hrest⟩
        · exact .inr ⟨⟨r', List.mem_cons_of_mem _ hr', hbad⟩, hrest⟩
      next hne =>
        split
        next hexceeds =>
          have hbad : ¬Fits byteLimit r := fun hfit => not_exceeds_iff.2 hfit hexceeds
          exact .inr ⟨⟨r, List.mem_cons_self .., hne, hbad⟩, rfl, rfl⟩
        next hok =>
          have hfilter : (r :: rs).filter (fun r => decide (r.2 ≠ 0)) =
              r :: rs.filter (fun r => r.2 ≠ 0) := List.filter_cons_of_pos (decide_eq_true hne)
          rw [hfilter]
          rcases ih (b.append r) with ⟨hfit, htrue, hranges, hsize⟩ | ⟨⟨r', hr', hbad⟩, hrest⟩
          · refine .inl ⟨List.forall_mem_cons.2 ⟨fun _ => not_exceeds_iff.1 hok, hfit⟩, htrue, ?_, ?_⟩
            · rw [hranges, ranges_append, List.append_assoc, List.singleton_append]
            · rw [hsize, List.length_cons, append]
              dsimp only
              omega
          · exact .inr ⟨⟨r', List.mem_cons_of_mem _ hr', hbad⟩, hrest⟩

/-! ### Merging -/

/-- Joining two ranges below the limit, in 32 bits, is joining their intervals. -/
theorem interval_join {previous next : Range} {limit : ℕ} (hlimit : limit < 2 ^ 32)
    (hprevious : (interval previous).stop ≤ limit) (hnext : (interval next).stop ≤ limit) :
    interval (previous.1, BitVec.ofNat 32 (max (previous.1.toNat + previous.2.toNat)
      (next.1.toNat + next.2.toNat) - previous.1.toNat)) =
        (interval previous).join (interval next) := by
  have hmax : max (interval previous).stop (interval next).stop ≤ limit := max_le hprevious hnext
  rw [Interval.join, interval]
  refine Prod.ext rfl ?_
  dsimp only
  rw [BitVec.toNat_ofNat]
  exact Nat.mod_eq_of_lt (lt_of_le_of_lt (Nat.sub_le _ _) (lt_of_le_of_lt hmax hlimit))

/-- **The merge in place.**  The array up to `output` is what the ranges read so
far are pushed to. -/
theorem mergeLoop_spec {limit : ℕ} (hlimit : limit < 2 ^ 32) (n i output : ℕ) (data : ℕ → Range)
    (hout : output < i) (hfit : ∀ j < i + n, (interval (data j)).stop ≤ limit) :
    (List.range ((mergeLoop n i output data).1 + 1)).map
        (fun j => interval ((mergeLoop n i output data).2 j)) =
      ((List.range' i n).map fun j => interval (data j)).foldl push
        ((List.range (output + 1)).map fun j => interval (data j)) := by
  induction n generalizing i output data with
  | zero => rfl
  | succ n ih =>
      have hrange : (List.range (output + 1)).map (fun j => interval (data j)) =
          (List.range output).map (fun j => interval (data j)) ++ [interval (data output)] := by
        rw [List.range_succ, List.map_append, List.map_singleton]
      rw [List.range'_succ, List.map_cons, List.foldl_cons, hrange, push_concat, mergeLoop]
      dsimp only
      -- the elements before `output` and from `i + 1` on are not written
      have hbefore : ∀ {k : ℕ} {x : Range}, output ≤ k →
          (List.range output).map (fun j => interval (Function.update data k x j)) =
            (List.range output).map fun j => interval (data j) := by
        intro k x hk
        refine List.map_congr_left fun j hj => ?_
        have := List.mem_range.1 hj
        rw [Function.update_of_ne (by omega)]
      have hafter : ∀ {k : ℕ} {x : Range}, k < i + 1 →
          (List.range' (i + 1) n).map (fun j => interval (Function.update data k x j)) =
            (List.range' (i + 1) n).map fun j => interval (data j) := by
        intro k x hk
        refine List.map_congr_left fun j hj => ?_
        have := (List.mem_range'_1.1 hj).1
        rw [Function.update_of_ne (by omega)]
      have hprevious := hfit output (by omega)
      have hnext := hfit i (by omega)
      by_cases htouch : (data i).1.toNat ≤ (data output).1.toNat + (data output).2.toNat
      · rw [if_pos htouch, if_pos (show (interval (data i)).1 ≤ (interval (data output)).stop from htouch)]
        have hjoin := interval_join hlimit hprevious hnext
        rw [ih (i + 1) output _ (by omega)]
        · rw [List.range_succ, List.map_append, List.map_singleton, Function.update_self, hjoin,
            hbefore le_rfl, hafter (by omega)]
        · intro j hj
          by_cases hjo : j = output
          · rw [hjo, Function.update_self, hjoin, Interval.stop_join]
            exact max_le hprevious hnext
          · rw [Function.update_of_ne hjo]
            exact hfit j (by omega)
      · rw [if_neg htouch, if_neg (show ¬(interval (data i)).1 ≤ (interval (data output)).stop from htouch)]
        rw [ih (i + 1) (output + 1) _ (by omega)]
        · rw [List.range_succ, List.map_append, List.map_singleton, Function.update_self,
            List.range_succ, List.map_append, List.map_singleton, hbefore (by omega),
            hafter (by omega), Function.update_of_ne (by omega), List.append_assoc,
            List.singleton_append]
        · intro j hj
          by_cases hjo : j = output + 1
          · rw [hjo, Function.update_self]
            exact hnext
          · rw [Function.update_of_ne hjo]
            exact hfit j (by omega)

/-! ### The whole batch -/

/-- A range is known from its interval. -/
theorem interval_injective : Function.Injective interval := by
  intro r s h
  obtain ⟨h₁, h₂⟩ := Prod.mk.inj h
  exact Prod.ext (BitVec.eq_of_toNat_eq h₁) (BitVec.eq_of_toNat_eq h₂)

/-- A batch has as many ranges as its size says. -/
theorem length_ranges (b : RangeBatch) : b.ranges.length = b.size := by
  rw [ranges, List.length_map, List.length_range]

/-- The sorted ranges stand in the array from its start. -/
theorem ranges_sortData (sort : SortByStart) (b : RangeBatch) :
    (b.sortData sort).ranges = sort.sort b.ranges := by
  have hlen : (sort.sort b.ranges).length = b.size := by
    rw [(sort.perm b.ranges).length_eq, length_ranges]
  have hdata : (b.sortData sort).data = fun i => (sort.sort b.ranges)[i]?.getD (b.data i) :=
    data_setData b _
  have hsize : (b.sortData sort).size = b.size := size_setData b _
  rw [ranges_eq hdata hsize]
  refine List.ext_getElem (by simp [hlen]) fun i h₁ h₂ => ?_
  simp [List.getElem?_eq_getElem h₂]

/-- What is left after the sort and the merge: the ranges in the order of their
starts, pushed one after another. -/
theorem ranges_sortMerge (sort : SortByStart) {b : RangeBatch} (hsize : b.size ≠ 0)
    {byteLimit : BitVec 32} (hfit : ∀ r ∈ b.ranges, Fits byteLimit r) :
    (b.sortMerge sort).ranges.map interval =
      ((sort.sort b.ranges).map interval).foldl push [] := by
  have hsorted := ranges_sortData sort b
  have hsize' : (b.sortData sort).size = b.size := size_setData b _
  rw [sortMerge]
  generalize b.sortData sort = c at hsorted hsize'
  obtain ⟨n, hn⟩ : ∃ n, c.size = n + 1 := ⟨c.size - 1, by omega⟩
  have hdata : sort.sort b.ranges = (List.range (n + 1)).map c.data := by
    rw [← hsorted, ranges, hn]
  have hfit' : ∀ j < 1 + n, (interval (c.data j)).stop ≤ byteLimit.toNat := by
    intro j hj
    refine hfit (c.data j) ((sort.perm b.ranges).mem_iff.1 ?_)
    rw [hdata]
    exact List.mem_map_of_mem (List.mem_range.2 (by omega))
  have hmerged := mergeLoop_spec byteLimit.isLt n 1 0 c.data Nat.zero_lt_one hfit'
  rw [hn, Nat.add_sub_cancel]
  generalize mergeLoop n 1 0 c.data = merged at hmerged ⊢
  have hout : ({ c.setData merged.2 with size := merged.1 + 1 } : RangeBatch).ranges =
      (List.range (merged.1 + 1)).map merged.2 := ranges_eq (data_setData c merged.2) rfl
  have hsplit : List.range (n + 1) = 0 :: List.range' 1 n := by
    rw [List.range_eq_range', List.range'_succ]
  rw [hout, List.map_map, hdata, List.map_map, hsplit, List.map_cons, List.foldl_cons, push_nil]
  exact hmerged

/-- Where the loop over the input kept everything, the batch is apart and has the
bytes of the input. -/
theorem collected_spec (sort : SortByStart) {input : List Range} {byteLimit : BitVec 32}
    (hfit : ∀ r ∈ input, r.2 ≠ 0 → Fits byteLimit r) {b : RangeBatch}
    (hranges : b.ranges = input.filter fun r => r.2 ≠ 0) :
    Apart ((if b.size < 2 then b else b.sortMerge sort).ranges.map interval) ∧
      ∀ x, x ∈ cells ((if b.size < 2 then b else b.sortMerge sort).ranges.map interval) ↔
        x ∈ cells (input.map interval) := by
  have hmem : ∀ r ∈ b.ranges, r ∈ input ∧ r.2 ≠ 0 := by
    intro r hr
    rw [hranges, List.mem_filter, decide_eq_true_eq] at hr
    exact hr
  have hnonempty : ∀ r ∈ b.ranges.map interval, 0 < r.2 := by
    intro r hr
    obtain ⟨s, hs, rfl⟩ := List.mem_map.1 hr
    exact Nat.pos_of_ne_zero fun h => (hmem s hs).2 (BitVec.eq_of_toNat_eq h)
  -- an empty range has no bytes
  have hkept : ∀ x, x ∈ cells (b.ranges.map interval) ↔ x ∈ cells (input.map interval) := by
    intro x
    simp only [mem_cells, hranges, List.mem_map, List.mem_filter, decide_eq_true_eq]
    constructor
    · rintro ⟨_, ⟨r, ⟨hr, -⟩, rfl⟩, hx⟩
      exact ⟨_, ⟨r, hr, rfl⟩, hx⟩
    · rintro ⟨_, ⟨r, hr, rfl⟩, hx⟩
      refine ⟨_, ⟨r, ⟨hr, fun hzero => ?_⟩, rfl⟩, hx⟩
      rw [Interval.stop, interval, hzero] at hx
      simp at hx
      omega
  split
  next hsmall =>
    refine ⟨⟨hnonempty, ?_⟩, hkept⟩
    have hlen : (b.ranges.map interval).length < 2 := by
      rw [List.length_map, length_ranges]
      exact hsmall
    generalize b.ranges.map interval = l at hlen
    rcases l with _ | ⟨r, _ | ⟨r', rest⟩⟩
    · exact .nil
    · exact List.pairwise_singleton ..
    · rw [List.length_cons, List.length_cons] at hlen
      omega
  next hlarge =>
    have hperm := (sort.perm b.ranges).map interval
    obtain ⟨hap, hcells⟩ := apart_nil.foldl_push
      (fun r hr => hnonempty r (hperm.mem_iff.1 hr))
      (List.pairwise_map.2 ((sort.sorted b.ranges).imp fun h => BitVec.le_def.1 h))
      (fun _ _ last hlast => absurd hlast (by simp))
    rw [ranges_sortMerge sort (show b.size ≠ 0 by omega) fun r hr =>
      hfit r (hmem r hr).1 (hmem r hr).2]
    refine ⟨hap, fun x => ?_⟩
    rw [hcells, ← hkept]
    simp only [cells_nil, List.not_mem_nil, false_or, mem_cells, hperm.mem_iff]

/-- **What `Build` makes of its input.**  It refuses a range that does not fit,
and otherwise holds intervals that are apart with the bytes of the input. -/
theorem build_spec (sort : SortByStart) (b : RangeBatch) (input : List Range)
    (byteLimit : BitVec 32) (optimize : Bool) :
    ((∃ r ∈ input, r.2 ≠ 0 ∧ ¬Fits byteLimit r) ∧
      (b.build sort (some input) byteLimit optimize).1 = false ∧
      (b.build sort (some input) byteLimit optimize).2.ranges = []) ∨
    ((∀ r ∈ input, r.2 ≠ 0 → Fits byteLimit r) ∧
      (b.build sort (some input) byteLimit optimize).1 = true ∧
      Apart ((b.build sort (some input) byteLimit optimize).2.ranges.map interval) ∧
      ∀ x, x ∈ cells ((b.build sort (some input) byteLimit optimize).2.ranges.map interval) ↔
        x ∈ cells (input.map interval)) := by
  rw [build, Option.getD_some]
  generalize hb₀ : ({ b with
    size := 0
    onStack := optimize && decide (input.length ≤ kStackCapacity) } : RangeBatch) = b₀
  have hstart : b₀.ranges = [] ∧ b₀.size = 0 := by
    rw [← hb₀]
    exact ⟨rfl, rfl⟩
  have hspec := collect_spec byteLimit input b₀
  rw [hstart.1, hstart.2, List.nil_append, Nat.zero_add] at hspec
  generalize collect byteLimit input b₀ = result at hspec ⊢
  obtain ⟨ok, c⟩ := result
  rcases hspec with ⟨hfit, rfl, hranges, -⟩ | ⟨hbad, rfl, hsize⟩
  · exact .inr ⟨hfit, rfl, collected_spec sort hfit hranges⟩
  · refine .inl ⟨hbad, rfl, List.eq_nil_of_length_eq_zero ?_⟩
    rw [length_ranges]
    exact hsize

/-- The sizes of the two arrays and the sort decide nothing about the outcome. -/
theorem build_congr (sort sort' : SortByStart) (b b' : RangeBatch) (input : List Range)
    (byteLimit : BitVec 32) (optimize optimize' : Bool) :
    (b.build sort (some input) byteLimit optimize).1 =
        (b'.build sort' (some input) byteLimit optimize').1 ∧
      (b.build sort (some input) byteLimit optimize).2.ranges =
        (b'.build sort' (some input) byteLimit optimize').2.ranges := by
  rcases build_spec sort b input byteLimit optimize with
    ⟨⟨r, hr, hne, hbad⟩, hfalse, hnil⟩ | ⟨hfit, htrue, hap, hcells⟩
  · rcases build_spec sort' b' input byteLimit optimize' with
      ⟨-, hfalse', hnil'⟩ | ⟨hfit', -⟩
    · exact ⟨hfalse.trans hfalse'.symm, hnil.trans hnil'.symm⟩
    · exact absurd (hfit' r hr hne) hbad
  · rcases build_spec sort' b' input byteLimit optimize' with
      ⟨⟨r, hr, hne, hbad⟩, -⟩ | ⟨-, htrue', hap', hcells'⟩
    · exact absurd (hfit r hr hne) hbad
    · refine ⟨htrue.trans htrue'.symm, interval_injective.list_map ?_⟩
      exact hap.ext hap' fun x => (hcells x).trans (hcells' x).symm

/-- **The range batch is exact.**  Whatever the object held before, `Build` fails
exactly when a range that is not empty ends past the limit.  Otherwise its ranges
are sorted, disjoint and do not touch, and have exactly the bytes of the input.
The array in use changes nothing, nor does how equal starts are ordered.  Where
the selection for one range answers, it answers as `Build` does. -/
theorem rangeBatch_exact (sort : SortByStart) (b : RangeBatch) (input : Option (List Range))
    (byteLimit : BitVec 32) (optimize : Bool) :
    let built := b.build sort input byteLimit optimize
    (built.1 = false ↔ ∃ r ∈ input.getD [], r.2 ≠ 0 ∧ byteLimit.toNat < r.1.toNat + r.2.toNat) ∧
      (built.1 = true →
        (∀ r ∈ built.2.ranges, r.2 ≠ 0) ∧
        (built.2.ranges.Pairwise fun r s => r.1.toNat + r.2.toNat < s.1.toNat) ∧
        ∀ x, (∃ r ∈ built.2.ranges, r.1.toNat ≤ x ∧ x < r.1.toNat + r.2.toNat) ↔
          ∃ r ∈ input.getD [], r.1.toNat ≤ x ∧ x < r.1.toNat + r.2.toNat) ∧
      (∀ (sort' : SortByStart) (b' : RangeBatch) (optimize' : Bool),
        built.1 = (b'.build sort' input byteLimit optimize').1 ∧
          built.2.ranges = (b'.build sort' input byteLimit optimize').2.ranges) ∧
      ∀ enabled, let selection := selectNativeSingleRange input byteLimit enabled
        selection.kind ≠ .notSelected →
          (built.1 = false ↔ selection.kind = .invalid) ∧ selection.ranges = built.2.ranges := by
  intro built
  cases input with
  | none =>
      refine ⟨⟨nofun, by simp⟩, fun _ => ⟨by simp [built, build, ranges], ?_, by
        simp [built, build, ranges]⟩, fun _ _ _ => ⟨rfl, rfl⟩, fun enabled hkind => ?_⟩
      · rw [show built.2.ranges = [] from rfl]
        exact .nil
      · cases enabled <;> exact absurd rfl hkind
  | some input =>
      have hmem : ∀ (l : List Range) (x : ℕ), x ∈ cells (l.map interval) ↔
          ∃ r ∈ l, r.1.toNat ≤ x ∧ x < r.1.toNat + r.2.toNat := by
        intro l x
        simp only [mem_cells, List.mem_map]
        constructor
        · rintro ⟨_, ⟨r, hr, rfl⟩, hx⟩
          exact ⟨r, hr, hx⟩
        · rintro ⟨r, hr, hx⟩
          exact ⟨_, ⟨r, hr, rfl⟩, hx⟩
      have hspec := build_spec sort b input byteLimit optimize
      refine ⟨?_, fun htrue => ?_, fun sort' b' optimize' =>
        build_congr sort sort' b b' input byteLimit optimize optimize', fun enabled hkind => ?_⟩
      · rcases hspec with ⟨⟨r, hr, hne, hbad⟩, hfalse, -⟩ | ⟨hfit, htrue, -⟩
        · exact ⟨fun _ => ⟨r, hr, hne, not_le.1 hbad⟩, fun _ => hfalse⟩
        · refine ⟨fun hfalse => absurd (hfalse.symm.trans htrue) Bool.false_ne_true, ?_⟩
          rintro ⟨r, hr, hne, hlt⟩
          exact absurd (hfit r hr hne) (not_le.2 hlt)
      · rcases hspec with ⟨-, hfalse, -⟩ | ⟨-, -, hap, hcells⟩
        · exact absurd (hfalse.symm.trans htrue) Bool.false_ne_true
        · refine ⟨fun r hr hzero => ?_, List.pairwise_map.1 hap.apart, fun x => ?_⟩
          · have hpos := hap.nonempty _ (List.mem_map_of_mem hr)
            rw [interval, hzero] at hpos
            exact absurd hpos (by simp)
          · rw [← hmem, ← hmem]
            exact hcells x
      · -- an answer is for an input of one range, which `Build` only checks
        have hone : ∃ start length, enabled = true ∧ input = [(start, length)] := by
          unfold selectNativeSingleRange at hkind
          split at hkind
          next start length he => exact ⟨start, length, rfl, Option.some.inj he⟩
          next => exact absurd rfl hkind
        obtain ⟨start, length, rfl, rfl⟩ := hone
        rw [selectNativeSingleRange]
        by_cases hzero : length = 0
        · rw [if_pos hzero]
          rcases hspec with ⟨⟨r, hr, hne, -⟩, -⟩ | ⟨-, htrue, hap, hcells⟩
          · rw [List.mem_singleton.1 hr] at hne
            exact absurd hzero hne
          · refine ⟨⟨fun hfalse => absurd (hfalse.symm.trans htrue) Bool.false_ne_true, nofun⟩, ?_⟩
            have hnil : built.2.ranges.map interval = [] := by
              refine hap.ext apart_nil fun x => ?_
              rw [hcells, hmem, hzero]
              simp only [List.mem_singleton, exists_eq_left, cells_nil, List.not_mem_nil, iff_false]
              show ¬(start.toNat ≤ x ∧ x < start.toNat + (0 : BitVec 32).toNat)
              simp
            exact (List.map_eq_nil_iff.1 hnil).symm
        · rw [if_neg hzero]
          have hone : ∀ r ∈ [(start, length)], r = (start, length) := fun r => List.mem_singleton.1
          rcases hspec with ⟨⟨r, hr, -, hbad⟩, hfalse, hnil⟩ | ⟨hfit, htrue, hap, hcells⟩
          · rw [hone r hr] at hbad
            have hlt : byteLimit.toNat < start.toNat + length.toNat := not_le.1 hbad
            rw [if_pos hlt]
            exact ⟨⟨fun _ => rfl, fun _ => hfalse⟩, hnil.symm⟩
          · have hle : start.toNat + length.toNat ≤ byteLimit.toNat :=
              hfit (start, length) (List.mem_singleton_self _) hzero
            rw [if_neg (not_lt.2 hle)]
            refine ⟨⟨fun hfalse => absurd (hfalse.symm.trans htrue) Bool.false_ne_true, nofun⟩, ?_⟩
            refine (interval_injective.list_map (hap.ext ?_ hcells)).symm
            exact apart_singleton.2 (Nat.pos_of_ne_zero fun h => hzero (BitVec.eq_of_toNat_eq h))

end RangeBatch
end Ranges
end BoltsRebuilt
