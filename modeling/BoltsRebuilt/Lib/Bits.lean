/-
# Bits of a word

A word read as the set of its bits: the mask `twoPow w i` of one bit tests it
(`and_twoPow_eq_zero`), sets it and clears it, and a word is nonzero when some
bit is set.  Clearing the low bits rounds down (`toNat_and_not_low`).
-/

import Mathlib.Algebra.GroupWithZero.Nat
import Mathlib.Algebra.Ring.Int.Defs
import Mathlib.Data.BitVec
import Mathlib.Data.Nat.Bitwise

namespace BoltsRebuilt
namespace Bits

variable {w i : ℕ} {x y : BitVec w}

/-- A set bit is inside the word. -/
theorem lt_of_getLsbD (h : x.getLsbD i = true) : i < w := by
  by_contra hge
  rw [BitVec.getLsbD_of_ge x i (not_lt.1 hge)] at h
  exact Bool.false_ne_true h

/-- A word that is not zero has a set bit. -/
theorem exists_getLsbD (h : x ≠ 0) : ∃ i, x.getLsbD i = true := by
  by_contra hnone
  refine h (BitVec.eq_of_getLsbD_eq fun i _ => ?_)
  exact (Bool.eq_false_iff.2 fun hi => hnone ⟨i, hi⟩).trans BitVec.getLsbD_zero.symm

/-- And a word with a set bit is not zero. -/
theorem ne_zero_of_getLsbD (h : x.getLsbD i = true) : x ≠ 0 := by
  rintro rfl
  exact Bool.false_ne_true (BitVec.getLsbD_zero.symm.trans h)

/-- The mask of one bit has that bit and no other. -/
theorem getLsbD_twoPow_of_lt (h : i < w) (j : ℕ) : (BitVec.twoPow w i).getLsbD j = decide (j = i) := by
  rw [BitVec.getLsbD_twoPow, decide_eq_true h, Bool.true_and]
  exact decide_eq_decide.2 eq_comm

/-- A test of one bit fails when the bit is not set. -/
theorem and_twoPow_eq_zero (h : i < w) : x &&& BitVec.twoPow w i = 0 ↔ x.getLsbD i = false := by
  rw [BitVec.and_twoPow]
  cases hbit : x.getLsbD i with
  | false => exact iff_of_true (if_neg Bool.false_ne_true) rfl
  | true =>
      refine iff_of_false ?_ Bool.true_eq_false.mp
      rw [if_pos rfl]
      refine ne_zero_of_getLsbD (i := i) ?_
      rw [getLsbD_twoPow_of_lt h, decide_eq_true rfl]

/-- Testing with a power of two tests that bit. -/
theorem and_twoPow_ne_zero (h : i < w) : x &&& BitVec.twoPow w i ≠ 0 ↔ x.getLsbD i = true :=
  (not_congr (and_twoPow_eq_zero h)).trans (by rw [Bool.not_eq_false])

/-- Setting one bit sets it and leaves the others. -/
theorem getLsbD_or_twoPow (h : i < w) (j : ℕ) :
    (x ||| BitVec.twoPow w i).getLsbD j = if j = i then true else x.getLsbD j := by
  rw [BitVec.getLsbD_or, getLsbD_twoPow_of_lt h]
  by_cases hj : j = i
  · rw [decide_eq_true hj, Bool.or_true, if_pos hj]
  · rw [decide_eq_false hj, Bool.or_false, if_neg hj]

/-- Clearing one bit clears it and leaves the others. -/
theorem getLsbD_and_not_twoPow (h : i < w) (j : ℕ) :
    (x &&& ~~~BitVec.twoPow w i).getLsbD j = if j = i then false else x.getLsbD j := by
  rw [BitVec.getLsbD_and, BitVec.getLsbD_not, getLsbD_twoPow_of_lt h]
  by_cases hj : j = i
  · rw [decide_eq_true hj, Bool.not_true, Bool.and_false, Bool.and_false, if_pos hj]
  · rw [decide_eq_false hj, Bool.not_false, Bool.and_true, if_neg hj]
    by_cases hlt : j < w
    · rw [decide_eq_true hlt, Bool.and_true]
    · rw [BitVec.getLsbD_of_ge x j (not_lt.1 hlt), Bool.false_and]

/-- A word without a bit outside another has only bits of the other. -/
theorem getLsbD_of_and_not (h : x &&& ~~~y = 0) (hi : x.getLsbD i = true) : y.getLsbD i = true := by
  have hbit : (x &&& ~~~y).getLsbD i = false := by
    rw [h]
    exact BitVec.getLsbD_zero
  rw [BitVec.getLsbD_and, hi, Bool.true_and, BitVec.getLsbD_not, decide_eq_true (lt_of_getLsbD hi),
    Bool.true_and, Bool.not_eq_false'] at hbit
  exact hbit

/-- Clearing the low bits rounds down to a multiple of the power of two. -/
theorem toNat_and_not_low (n : ℕ) (x : BitVec w) :
    (x &&& ~~~BitVec.ofNat w (2 ^ n - 1)).toNat = x.toNat / 2 ^ n * 2 ^ n := by
  refine Nat.eq_of_testBit_eq fun j => ?_
  rw [BitVec.testBit_toNat, BitVec.getLsbD_and, BitVec.getLsbD_not, BitVec.getLsbD_ofNat,
    Nat.testBit_two_pow_sub_one, Nat.testBit_mul_two_pow, Nat.testBit_div_two_pow,
    BitVec.testBit_toNat]
  by_cases hj : j < n
  · simp [hj, Nat.not_le.2 hj]
  · have hle := Nat.not_lt.1 hj
    by_cases hw : j < w
    · simp [hj, hw, hle]
    · simp [hj, hle, BitVec.getLsbD_of_ge x j (Nat.not_lt.1 hw)]

/-- The numerals of `Fin 4`. -/
instance neZeroFour : NeZero 4 := ⟨Nat.succ_ne_zero 3⟩

/-! ### Words that do not wrap -/

/-- A 64-bit sum that does not wrap is the sum. -/
theorem toNat_add_of_lt {a b : UInt64} (h : a.toNat + b.toNat < 2 ^ 64) :
    (a + b).toNat = a.toNat + b.toNat := by
  rw [UInt64.toNat_add, Nat.mod_eq_of_lt h]

/-- And a product likewise. -/
theorem toNat_mul_of_lt {a b : UInt64} (h : a.toNat * b.toNat < 2 ^ 64) :
    (a * b).toNat = a.toNat * b.toNat := by
  rw [UInt64.toNat_mul, Nat.mod_eq_of_lt h]

end Bits
end BoltsRebuilt
