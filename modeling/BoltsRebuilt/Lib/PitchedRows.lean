/-
# Rows copied at a pitch

A source of rows of one width is copied row after row to a memory, each row at a
multiple of a pitch that is no less than the width, into a window that was
cleared.  `pieces` are the rows and where they go: they do not overlap
(`apart_pieces`), each reads back as it stood in the source (`load_row`), what is
between a row and the next is zero (`load_padding`), and nothing outside the
window changes (`frame`).  Together the rows are the whole source
(`flatMap_rows`).
-/

import BoltsRebuilt.Lib.Checked
import BoltsRebuilt.Lib.Spans

namespace BoltsRebuilt
namespace PitchedRows

open Checked

variable {width pitch rows a : ℕ} {source : List UInt8} {m : Bytes}

/-- Row `row` of the source. -/
def row (width : ℕ) (source : List UInt8) (row : ℕ) : List UInt8 := slice source (row * width) width

/-- The rows and their places. -/
def pieces (width pitch : ℕ) (source : List UInt8) (rows : ℕ) : List (ℕ × List UInt8) :=
  (List.range rows).map fun r => (r * pitch, row width source r)

/-- The memory after the window of `rows` rows at `a` was cleared and the rows were copied. -/
def copied (m : Bytes) (a width pitch : ℕ) (source : List UInt8) (rows : ℕ) : Bytes :=
  (m.store a (List.replicate (rows * pitch) 0)).storeAll a (pieces width pitch source rows)

/-- A row is no longer than its width. -/
theorem length_row_le (width : ℕ) (source : List UInt8) (r : ℕ) : (row width source r).length ≤ width :=
  List.length_take_le ..

/-- And has its width where the source is long enough. -/
theorem length_row {r : ℕ} (hsource : source.length = rows * width) (hr : r < rows) :
    (row width source r).length = width := by
  refine length_slice ?_
  rw [hsource, ← Nat.succ_mul]
  exact Nat.mul_le_mul_right _ hr

/-- A row ends before the next starts. -/
theorem row_lt (pitch : ℕ) {r s : ℕ} (h : r < s) : r * pitch + pitch ≤ s * pitch := by
  rw [← Nat.succ_mul]
  exact Nat.mul_le_mul_right _ h

/-- Rows that fit the pitch are apart. -/
theorem apart_pieces (hpitch : width ≤ pitch) : Bytes.Apart (pieces width pitch source rows) := by
  rw [pieces, Bytes.Apart, List.pairwise_map]
  refine List.pairwise_lt_range.imp fun {r s} h => ?_
  have hnext := row_lt pitch h
  have hlength := length_row_le width source r
  change r * pitch + (row width source r).length ≤ s * pitch
  omega

/-- A row reads back from where it was copied, the rows behind it having been written elsewhere. -/
theorem load_row {r : ℕ} (hpitch : width ≤ pitch) (hsource : source.length = rows * width)
    (hr : r < rows) :
    (copied m a width pitch source rows).load (a + r * pitch) width = row width source r := by
  have hpiece := Bytes.load_storeAll (m := m.store a (List.replicate (rows * pitch) 0)) (a := a)
    (apart_pieces hpitch) (r * pitch, row width source r)
    (List.mem_map.2 ⟨r, List.mem_range.2 hr, rfl⟩)
  rwa [length_row hsource hr] at hpiece

/-- No piece covers an address that lies in no row, so the copy leaves it alone: the padding between
rows too. -/
theorem storeAll_pieces {i : ℕ} (h : ∀ r < rows, i < a + r * pitch ∨ a + r * pitch + width ≤ i) :
    (m.storeAll a (pieces width pitch source rows)) i = m i := by
  refine Bytes.storeAll_frame fun p hp => ?_
  obtain ⟨r, hr, rfl⟩ := List.mem_map.1 hp
  refine (h r (List.mem_range.1 hr)).imp_right fun h => ?_
  exact (Nat.add_le_add_left (length_row_le width source r) _).trans h

/-- Between a row and the next there are zeros. -/
theorem load_padding {r : ℕ} (hpitch : width ≤ pitch) (hr : r < rows) :
    (copied m a width pitch source rows).load (a + r * pitch + width) (pitch - width) =
      List.replicate (pitch - width) 0 := by
  have hwindow := row_lt pitch hr
  refine List.eq_replicate_iff.2 ⟨Bytes.length_load, fun b hb => ?_⟩
  obtain ⟨k, hk, rfl⟩ := List.mem_map.1 hb
  have hk := List.mem_range.1 hk
  have hclear : copied m a width pitch source rows (a + r * pitch + width + k) =
      m.store a (List.replicate (rows * pitch) 0) (a + r * pitch + width + k) := by
    refine storeAll_pieces fun s _ => ?_
    rcases Nat.lt_trichotomy s r with h | rfl | h
    · have hnext := row_lt pitch h
      omega
    · omega
    · have hnext := row_lt pitch h
      omega
  rw [hclear, Bytes.store, if_pos (by rw [List.length_replicate]; omega), List.getD_eq_getElem?_getD,
    List.getElem?_replicate]
  split_ifs <;> rfl

/-- Nothing outside the window of all rows changes by the copy. -/
theorem frame {i : ℕ} (hpitch : width ≤ pitch) (h : i < a ∨ a + rows * pitch ≤ i) :
    copied m a width pitch source rows i = m i := by
  have hpieces : copied m a width pitch source rows i =
      m.store a (List.replicate (rows * pitch) 0) i := by
    refine storeAll_pieces fun r hr => ?_
    have hnext := row_lt pitch hr
    omega
  rw [hpieces, Bytes.store, if_neg (by rw [List.length_replicate]; omega)]

/-- The rows, one after the other, are the source. -/
theorem flatMap_rows (hsource : source.length = rows * width) :
    (List.range rows).flatMap (row width source) = source := by
  have hrow : row width source = Spans.block width source := by
    funext r
    rw [row, slice, Spans.block, Nat.mul_comm]
  have hblocks := Spans.take_drop_eq_flatMap_block width source 0 rows
  rw [Nat.mul_zero, List.drop_zero, List.take_of_length_le (by rw [hsource, Nat.mul_comm]),
    ← List.range_eq_range'] at hblocks
  rw [hrow]
  exact hblocks.symm

end PitchedRows
end BoltsRebuilt
