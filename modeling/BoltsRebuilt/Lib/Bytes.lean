/-
# Memory as bytes

A memory is a byte at each address.  `store` writes a list of bytes at an
address, `load` reads a number of bytes back: a load of what was just stored
gives it, and a load that does not meet a store does not see it.  `le` is a
number as little endian bytes, and a `Blob n` is `n` bytes.

`storeAll` writes several pieces; pieces that do not overlap all read back.
-/

import Mathlib.Algebra.GroupWithZero.Nat
import Mathlib.Algebra.Ring.Int.Defs
import Mathlib.Data.Nat.Init
import Mathlib.Data.List.Basic

namespace BoltsRebuilt

/-- A byte at each address. -/
abbrev Bytes := ℕ → UInt8

namespace Bytes

/-- The memory after `data` is written at `offset`. -/
def store (m : Bytes) (offset : ℕ) (data : List UInt8) : Bytes := fun i =>
  if offset ≤ i ∧ i < offset + data.length then data.getD (i - offset) 0 else m i

/-- The `n` bytes from `offset`. -/
def load (m : Bytes) (offset n : ℕ) : List UInt8 := (List.range n).map fun i => m (offset + i)

variable {m : Bytes} {offset n : ℕ} {data : List UInt8}

/-- A load has the length that was asked for. -/
@[simp] theorem length_load : (m.load offset n).length = n := by simp [load]

/-- A load reads the bytes of its window and nothing else. -/
theorem load_congr {m' : Bytes} (h : ∀ i, offset ≤ i → i < offset + n → m i = m' i) :
    m.load offset n = m'.load offset n := by
  refine List.map_congr_left fun i hi => h _ (by omega) ?_
  have := List.mem_range.1 hi
  omega

/-- What was stored is loaded from the same place. -/
theorem load_store_self (h : data.length = n) : (m.store offset data).load offset n = data := by
  subst h
  refine List.ext_getElem (by simp) fun i h _ => ?_
  have hi : i < data.length := by simpa using h
  simp [load, store, hi]

/-- A store elsewhere does not show in a load. -/
theorem load_store_of_disjoint {a : ℕ} (h : a + n ≤ offset ∨ offset + data.length ≤ a) :
    (m.store offset data).load a n = m.load a n := by
  refine load_congr fun i _ _ => ?_
  rw [store, if_neg (by omega)]

/-- Memories that agree on a window from 0 still do after the same store. -/
theorem load_store_congr {m' : Bytes} (h : m.load 0 n = m'.load 0 n) :
    (m.store offset data).load 0 n = (m'.store offset data).load 0 n := by
  refine load_congr fun i _ hi => ?_
  have hat := congrArg (·[i]?) h
  have hin : i < n := by omega
  simp only [load, List.getElem?_map, List.getElem?_range hin, Option.map_some, Nat.zero_add] at hat
  simp only [store, Option.some.inj hat]

/-- A load splits into two adjacent ones. -/
theorem load_add (a b : ℕ) : m.load offset (a + b) = m.load offset a ++ m.load (offset + a) b := by
  simp [load, List.range_add, Nat.add_assoc]

/-- A load split at a smaller length begins with the shorter load. -/
theorem load_take {k : ℕ} (h : k ≤ n) : (m.load offset n).take k = m.load offset k := by
  obtain ⟨d, rfl⟩ := Nat.exists_eq_add_of_le h
  rw [load_add, List.take_left' length_load]

/-- The memory after each piece is written at its place from `a` on. -/
def storeAll (m : Bytes) (a : ℕ) (pieces : List (ℕ × List UInt8)) : Bytes :=
  pieces.foldl (fun m piece => m.store (a + piece.1) piece.2) m

/-- Storing one more piece comes after storing the others. -/
theorem storeAll_concat (a : ℕ) (pieces : List (ℕ × List UInt8)) (piece : ℕ × List UInt8) :
    m.storeAll a (pieces ++ [piece]) = (m.storeAll a pieces).store (a + piece.1) piece.2 := by
  rw [storeAll, List.foldl_concat, storeAll]

/-- Pieces at different places. -/
def Apart (pieces : List (ℕ × List UInt8)) : Prop :=
  pieces.Pairwise fun p q => p.1 + p.2.length ≤ q.1

/-- A byte inside none of the pieces is left alone. -/
theorem storeAll_frame {a i : ℕ} {pieces : List (ℕ × List UInt8)}
    (h : ∀ p ∈ pieces, i < a + p.1 ∨ a + p.1 + p.2.length ≤ i) : m.storeAll a pieces i = m i := by
  induction pieces generalizing m with
  | nil => rfl
  | cons p pieces ih =>
      rw [List.forall_mem_cons] at h
      rw [storeAll, List.foldl_cons, ← storeAll, ih h.2, store, if_neg (by omega)]

/-- Pieces that are apart are all loaded as they were stored. -/
theorem load_storeAll {a : ℕ} {pieces : List (ℕ × List UInt8)} (h : Apart pieces) :
    ∀ p ∈ pieces, (m.storeAll a pieces).load (a + p.1) p.2.length = p.2 := by
  induction pieces generalizing m with
  | nil => exact nofun
  | cons p pieces ih =>
      rw [Apart, List.pairwise_cons] at h
      intro q hq
      rw [storeAll, List.foldl_cons, ← storeAll]
      rcases List.mem_cons.1 hq with rfl | hq
      · have hframe : ((m.store (a + q.1) q.2).storeAll a pieces).load (a + q.1) q.2.length =
            (m.store (a + q.1) q.2).load (a + q.1) q.2.length :=
          load_congr fun i _ _ => storeAll_frame fun r hr => by
            have := h.1 r hr
            omega
        rw [hframe, load_store_self rfl]
      · exact ih h.2 q hq

end Bytes

/-- `n` bytes. -/
abbrev Blob (n : ℕ) := { data : List UInt8 // data.length = n }

/-- A blob has its length. -/
@[simp] theorem Blob.length_val {n : ℕ} (b : Blob n) : b.1.length = n := b.2

/-- The first `k` of the `n` byte elements behind a pointer. -/
def Blob.take {n : ℕ} (elems : ℕ → Blob n) (k : ℕ) : List UInt8 :=
  (List.range k).flatMap fun i => (elems i).1

/-- So many blobs have so many bytes. -/
@[simp] theorem Blob.length_take {n : ℕ} (elems : ℕ → Blob n) (k : ℕ) :
    (Blob.take elems k).length = k * n := by
  induction k with
  | zero => simp [take]
  | succ k ih =>
      rw [take, List.range_succ, List.flatMap_append, List.length_append, ← take, ih]
      simp [(elems k).2, Nat.succ_mul]

/-- The `n` bytes of a memory from `offset`. -/
def Bytes.blob (m : Bytes) (offset n : ℕ) : Blob n := ⟨m.load offset n, length_load⟩

/-- The `n` little endian bytes of a number. -/
def le : ℕ → ℕ → List UInt8
  | 0, _ => []
  | n + 1, v => UInt8.ofNat (v % 256) :: le n (v / 256)

/-- The number that little endian bytes spell. -/
def ofLe : List UInt8 → ℕ
  | [] => 0
  | b :: bs => b.toNat + 256 * ofLe bs

/-- A number has the number of bytes it is written in. -/
@[simp] theorem length_le (n v : ℕ) : (le n v).length = n := by
  induction n generalizing v with
  | zero => rfl
  | succ n ih => simp [le, ih]

/-- Writing a number in `n` bytes and reading it back keeps it up to `256 ^ n`. -/
@[simp] theorem ofLe_le (n v : ℕ) : ofLe (le n v) = v % 256 ^ n := by
  induction n generalizing v with
  | zero => simp [le, ofLe, Nat.mod_one]
  | succ n ih =>
      rw [le, ofLe, ih, Nat.pow_succ', Nat.mod_mul]
      simp

/-- So many bytes read as a number below `256` to their count. -/
theorem ofLe_lt (bs : List UInt8) : ofLe bs < 256 ^ bs.length := by
  induction bs with
  | nil => exact Nat.one_pos
  | cons b bs ih =>
      have hb := b.toNat_lt
      rw [ofLe, List.length_cons, Nat.pow_succ']
      omega

/-- Bytes are read back from the number they spell. -/
theorem le_ofLe {n : ℕ} {bs : List UInt8} (h : bs.length = n) : le n (ofLe bs) = bs := by
  induction bs generalizing n with
  | nil => rw [← h]; rfl
  | cons b bs ih =>
      subst h
      have hb := b.toNat_lt
      rw [List.length_cons, le, ofLe, show (b.toNat + 256 * ofLe bs) % 256 = b.toNat by omega,
        show (b.toNat + 256 * ofLe bs) / 256 = ofLe bs by omega, ih rfl, UInt8.ofNat_toNat]

end BoltsRebuilt
