/-
# Fields packed side by side in a word

A field placed at a position is read back from there, and nothing of it is read
from a position beside it.  Together with `BitVec.extractLsb'_or`, which is in the
library, these read any field of a packed word, so that a packing is injective.
-/

import Mathlib.Algebra.GroupWithZero.Nat
import Mathlib.Algebra.Ring.Int.Defs
import Mathlib.Data.BitVec

namespace BoltsRebuilt
namespace Packing

variable {n w v k k' : ℕ}

/-- A field shifted to its place has its bits there. -/
theorem getLsbD_place (x : BitVec w) {i : ℕ} (hi : i < n) :
    (x.setWidth n <<< k).getLsbD i = (decide (k ≤ i) && x.getLsbD (i - k)) := by
  rw [BitVec.getLsbD_shiftLeft, BitVec.getLsbD_setWidth, decide_eq_true hi, Bool.true_and,
    decide_eq_true (by omega : i - k < n), Bool.true_and, ← decide_not]
  simp only [Nat.not_lt]

/-- A field is read where it was placed, in full. -/
theorem extract_place (x : BitVec w) (h : k + w ≤ n) : (x.setWidth n <<< k).extractLsb' k w = x := by
  refine BitVec.eq_of_getLsbD_eq fun i hi => ?_
  rw [BitVec.getLsbD_extractLsb', getLsbD_place x (by omega), decide_eq_true hi, Bool.true_and,
    decide_eq_true (by omega), Bool.true_and, Nat.add_sub_cancel_left]

/-- Nothing is read above a field. -/
theorem extract_place_above (x : BitVec w) (h : k + w ≤ k') :
    (x.setWidth n <<< k).extractLsb' k' v = 0#v := by
  refine BitVec.eq_of_getLsbD_eq fun i hi => ?_
  rw [BitVec.getLsbD_extractLsb', BitVec.getLsbD_shiftLeft, BitVec.getLsbD_setWidth,
    BitVec.getLsbD_of_ge x _ (by omega), Bool.and_false, Bool.and_false, Bool.and_false]
  exact BitVec.getLsbD_zero.symm

/-- Nothing is read below a field. -/
theorem extract_place_below (x : BitVec w) (h : k' + v ≤ k) :
    (x.setWidth n <<< k).extractLsb' k' v = 0#v := by
  refine BitVec.eq_of_getLsbD_eq fun i hi => ?_
  rw [BitVec.getLsbD_extractLsb', BitVec.getLsbD_shiftLeft, decide_eq_true (by omega : k' + i < k),
    Bool.not_true, Bool.and_false, Bool.false_and, Bool.and_false]
  exact BitVec.getLsbD_zero.symm

/-- A shift and a mask of the low bits read a field. -/
theorem ushiftRight_and {x mask : BitVec n} (hmask : ∀ i < n, mask.getLsbD i = decide (i < v)) :
    x >>> k &&& mask = (x.extractLsb' k v).setWidth n := by
  refine BitVec.eq_of_getLsbD_eq fun i hi => ?_
  rw [BitVec.getLsbD_and, BitVec.getLsbD_ushiftRight, hmask i hi, BitVec.getLsbD_setWidth,
    BitVec.getLsbD_extractLsb', decide_eq_true hi, Bool.true_and, Bool.and_comm]

/-- A field shifted to the top and back arithmetically is read with its sign. -/
theorem sshiftRight_shiftLeft {x : BitVec n} {a b : ℕ} (hv : 0 < v) (hn : k + v + a = n)
    (hb : v + b = n) : (x <<< a).sshiftRight b = (x.extractLsb' k v).signExtend n := by
  refine BitVec.eq_of_getLsbD_eq fun i hi => ?_
  rw [BitVec.getLsbD_sshiftRight, BitVec.getLsbD_signExtend, decide_eq_true hi,
    decide_eq_false (by omega : ¬ n ≤ i), Bool.not_false, Bool.true_and, Bool.true_and]
  have hshift : ∀ j, a ≤ j → j < n → (x <<< a).getLsbD j = x.getLsbD (j - a) := by
    intro j ha hj
    rw [BitVec.getLsbD_shiftLeft, decide_eq_true hj, decide_eq_false (by omega : ¬ j < a),
      Bool.not_false, Bool.true_and, Bool.true_and]
  have hfield : ∀ j < v, (x.extractLsb' k v).getLsbD j = x.getLsbD (k + j) := by
    intro j hj
    rw [BitVec.getLsbD_extractLsb', decide_eq_true hj, Bool.true_and]
  by_cases hlt : i < v
  · rw [if_pos (by omega), if_pos hlt, hshift _ (by omega) (by omega), hfield i hlt]
    congr 1
    omega
  · rw [if_neg (by omega), if_neg hlt, BitVec.msb_eq_getLsbD_last, BitVec.msb_eq_getLsbD_last,
      hshift _ (by omega) (by omega), hfield _ (by omega)]
    congr 1
    omega

/-- A field extended with its sign and masked to its width is the field. -/
theorem signExtend_and {x : BitVec v} {mask : BitVec n}
    (hmask : ∀ i < n, mask.getLsbD i = decide (i < v)) : x.signExtend n &&& mask = x.setWidth n := by
  refine BitVec.eq_of_getLsbD_eq fun i hi => ?_
  rw [BitVec.getLsbD_and, BitVec.getLsbD_signExtend, hmask i hi, BitVec.getLsbD_setWidth,
    decide_eq_true hi, Bool.true_and, Bool.true_and]
  by_cases hlt : i < v
  · rw [if_pos hlt, decide_eq_true hlt, Bool.and_true]
  · rw [if_neg hlt, decide_eq_false hlt, Bool.and_false, BitVec.getLsbD_of_ge x i (not_lt.1 hlt)]

/-- A placed field stays placed in a longer word. -/
theorem setWidth_place {m : ℕ} (x : BitVec v) (h : k + v ≤ m) :
    (x.setWidth m <<< k).setWidth n = x.setWidth n <<< k := by
  refine BitVec.eq_of_getLsbD_eq fun i hi => ?_
  rw [BitVec.getLsbD_setWidth, decide_eq_true hi, Bool.true_and, getLsbD_place x hi]
  by_cases hm : i < m
  · exact getLsbD_place x hm
  · rw [BitVec.getLsbD_of_ge _ i (not_lt.1 hm), BitVec.getLsbD_of_ge x _ (by omega), Bool.and_false]

/-- A small value is its low bits. -/
theorem setWidth_setWidth_of_lt {x : BitVec n} (h : x.toNat < 2 ^ v) : (x.setWidth v).setWidth n = x := by
  refine BitVec.eq_of_toNat_eq ?_
  rw [BitVec.toNat_setWidth, BitVec.toNat_setWidth, Nat.mod_eq_of_lt h, Nat.mod_eq_of_lt x.isLt]

end Packing
end BoltsRebuilt
