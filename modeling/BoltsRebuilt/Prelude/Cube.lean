/-
# Cube coordinates there and back

src/src/gpu/native/shaders/prelude.hlsl: `XenosCube`, the guest's `cube` operation,
and `XenosCubeDirection`, which turns the face coordinates that `tfetchCube` is given
into the direction a host cube texture is sampled with.  The arithmetic here is
exact.

Between the two the guest divides the two coordinates by twice the major axis and
adds `3/2`.  Then the direction comes back, divided by its largest component
(`cube_roundTrip`): the signs of the six faces match, and a tie goes to Z before Y
before X in `XenosCube` alone, the face number telling `XenosCubeDirection` the rest.
-/

import Mathlib.Algebra.Order.Field.Rat
import Mathlib.Algebra.Order.Floor.Semiring
import Mathlib.Data.Rat.Floor
import Mathlib.Tactic.FieldSimp
import Mathlib.Tactic.LinearCombination
import Mathlib.Tactic.NormNum

namespace BoltsRebuilt
namespace Prelude

@[ext] structure Float3 where
  x : ℚ
  y : ℚ
  z : ℚ
  deriving DecidableEq

@[ext] structure Float4 where
  x : ℚ
  y : ℚ
  z : ℚ
  w : ℚ
  deriving DecidableEq

namespace Float3

/-- The operand of the `cube` operation. -/
def zzxy (d : Float3) : Float4 := ⟨d.z, d.z, d.x, d.y⟩

def div (d : Float3) (c : ℚ) : Float3 := ⟨d.x / c, d.y / c, d.z / c⟩

end Float3

/-- `XenosCube`: `(TC, SC, twice the signed major axis, face)`. -/
def xenosCube (source : Float4) : Float4 :=
  let direction : Float3 := ⟨source.z, source.w, source.x⟩
  let magnitude : Float3 := ⟨|direction.x|, |direction.y|, |direction.z|⟩
  if magnitude.z ≥ magnitude.x ∧ magnitude.z ≥ magnitude.y then
    let negative := direction.z < 0
    ⟨-direction.y, if negative then -direction.x else direction.x, 2 * direction.z,
      if negative then 5 else 4⟩
  else if magnitude.y ≥ magnitude.x then
    let negative := direction.y < 0
    ⟨if negative then -direction.z else direction.z, direction.x, 2 * direction.y,
      if negative then 3 else 2⟩
  else
    let negative := direction.x < 0
    ⟨-direction.y, if negative then direction.z else -direction.z, 2 * direction.x,
      if negative then 1 else 0⟩

/-- `(uint)` of a float: towards zero, and what does not fit is clamped. -/
def floatToUint (v : ℚ) : ℕ := min ⌊v⌋₊ (2 ^ 32 - 1)

/-- `XenosCubeDirection`. -/
def xenosCubeDirection (s t faceValue : ℚ) : Float3 :=
  let s := s * 2 - 3
  let t := t * 2 - 3
  let face := min (floatToUint faceValue) 5
  let negative := face % 2 ≠ 0
  let axis := face / 2
  if axis = 0 then ⟨if negative then -1 else 1, -t, if negative then s else -s⟩
  else if axis = 1 then ⟨s, if negative then -1 else 1, if negative then -t else t⟩
  else ⟨if negative then -s else s, -t, if negative then -1 else 1⟩

/-- A face's number is converted to itself. -/
theorem floatToUint_natCast {n : ℕ} (h : n ≤ 5) : min (floatToUint n) 5 = n := by
  rw [floatToUint, Nat.floor_natCast]
  omega

/-- The standard normalisation of a face coordinate, undone, gives the coordinate over the major
component. -/
theorem normalised (c m : ℚ) : (c / |2 * m| + 3 / 2) * 2 - 3 = c / |m| := by
  rw [abs_mul, abs_two]
  rcases eq_or_ne m 0 with rfl | hm
  · norm_num
  · have habs : |m| ≠ 0 := abs_ne_zero.2 hm
    field_simp
    ring

/-- The sign of a component is the component divided by its magnitude. -/
theorem sign_of_neg {m : ℚ} (h : m < 0) : m / |m| = -1 := by
  rw [abs_of_neg h, div_neg, div_self (ne_of_lt h)]

/-- The sign of a positive number. -/
theorem sign_of_pos {m : ℚ} (h : 0 < m) : m / |m| = 1 := by
  rw [abs_of_pos h, div_self (ne_of_gt h)]

/-- The major axis of a direction: the component `XenosCube` chose, with its sign. -/
def major (d : Float3) : ℚ := (xenosCube d.zzxy).z / 2

/-- What `XenosCube` gives on each axis, and why it chose that axis. -/
theorem xenosCube_cases (d : Float3) :
    (|d.x| ≤ |d.z| ∧ |d.y| ≤ |d.z| ∧ xenosCube d.zzxy =
      ⟨-d.y, if d.z < 0 then -d.x else d.x, 2 * d.z, if d.z < 0 then 5 else 4⟩) ∨
    (|d.x| ≤ |d.y| ∧ |d.z| ≤ |d.y| ∧ xenosCube d.zzxy =
      ⟨if d.y < 0 then -d.z else d.z, d.x, 2 * d.y, if d.y < 0 then 3 else 2⟩) ∨
    (|d.y| ≤ |d.x| ∧ |d.z| ≤ |d.x| ∧ xenosCube d.zzxy =
      ⟨-d.y, if d.x < 0 then d.z else -d.z, 2 * d.x, if d.x < 0 then 1 else 0⟩) := by
  by_cases hz : |d.z| ≥ |d.x| ∧ |d.z| ≥ |d.y|
  · exact .inl ⟨hz.1, hz.2, if_pos hz⟩
  by_cases hy : |d.y| ≥ |d.x|
  · refine .inr (.inl ⟨hy, ?_, (if_neg hz).trans (if_pos hy)⟩)
    by_contra hlt
    exact hz ⟨hy.trans (le_of_not_ge hlt), le_of_not_ge hlt⟩
  · have hyx : |d.y| ≤ |d.x| := le_of_not_ge hy
    refine .inr (.inr ⟨hyx, ?_, (if_neg hz).trans (if_neg hy)⟩)
    by_contra hlt
    exact hz ⟨le_of_not_ge hlt, hyx.trans (le_of_not_ge hlt)⟩

/-- The major component is one of the three, and no other is larger in magnitude. -/
theorem major_largest (d : Float3) : (major d = d.x ∨ major d = d.y ∨ major d = d.z) ∧
    |d.x| ≤ |major d| ∧ |d.y| ≤ |major d| ∧ |d.z| ≤ |major d| := by
  have hhalf : ∀ c : ℚ, 2 * c / 2 = c := fun c => by ring
  rcases xenosCube_cases d with ⟨h₁, h₂, hcube⟩ | ⟨h₁, h₂, hcube⟩ | ⟨h₁, h₂, hcube⟩
  · rw [major, hcube, hhalf]
    exact ⟨.inr (.inr rfl), h₁, h₂, le_rfl⟩
  · rw [major, hcube, hhalf]
    exact ⟨.inr (.inl rfl), h₁, le_rfl, h₂⟩
  · rw [major, hcube, hhalf]
    exact ⟨.inl rfl, le_rfl, h₁, h₂⟩

/-- A direction that is not zero has a major component that is not. -/
theorem major_ne_zero {d : Float3} (h : d ≠ ⟨0, 0, 0⟩) : major d ≠ 0 := by
  intro hm
  obtain ⟨-, hx, hy, hz⟩ := major_largest d
  rw [hm, abs_zero] at hx hy hz
  exact h (Float3.ext (abs_nonpos_iff.1 hx) (abs_nonpos_iff.1 hy) (abs_nonpos_iff.1 hz))

/-- The decoder on each of the six faces, the coordinates having been normalised. -/
theorem xenosCubeDirection_normalised {m : ℚ} (sc tc : ℚ) {face : ℕ} (hface : face ≤ 5) :
    xenosCubeDirection (sc / |2 * m| + 3 / 2) (tc / |2 * m| + 3 / 2) face =
      if face / 2 = 0 then
        ⟨if face % 2 ≠ 0 then -1 else 1, -(tc / |m|), if face % 2 ≠ 0 then sc / |m| else -(sc / |m|)⟩
      else if face / 2 = 1 then
        ⟨sc / |m|, if face % 2 ≠ 0 then -1 else 1, if face % 2 ≠ 0 then -(tc / |m|) else tc / |m|⟩
      else
        ⟨if face % 2 ≠ 0 then -(sc / |m|) else sc / |m|, -(tc / |m|), if face % 2 ≠ 0 then -1 else 1⟩ := by
  rw [xenosCubeDirection]
  simp only [normalised, floatToUint_natCast hface]

/-- The direction decoded from the normalised face coordinates is the one they were computed from,
divided by the magnitude of its major component. -/
theorem xenosCubeDirection_xenosCube (d : Float3) (h : d ≠ ⟨0, 0, 0⟩) :
    xenosCubeDirection ((xenosCube d.zzxy).y / |(xenosCube d.zzxy).z| + 3 / 2)
        ((xenosCube d.zzxy).x / |(xenosCube d.zzxy).z| + 3 / 2) (xenosCube d.zzxy).w =
      d.div |major d| := by
  have hm := major_ne_zero h
  have hhalf : ∀ c : ℚ, 2 * c / 2 = c := fun c => by ring
  rw [Float3.div]
  rcases xenosCube_cases d with ⟨-, -, hcube⟩ | ⟨-, -, hcube⟩ | ⟨-, -, hcube⟩
  · rw [major, hcube, hhalf] at hm ⊢
    rcases lt_or_gt_of_ne hm with hneg | hpos
    · have hdecode := xenosCubeDirection_normalised (m := d.z) (-d.x) (-d.y) (by decide : 5 ≤ 5)
      simp only [if_pos hneg]
      rw [sign_of_neg hneg]
      refine hdecode.trans ?_
      norm_num [neg_div]
    · have hdecode := xenosCubeDirection_normalised (m := d.z) (d.x) (-d.y) (by decide : 4 ≤ 5)
      simp only [if_neg (not_lt.2 hpos.le)]
      rw [sign_of_pos hpos]
      refine hdecode.trans ?_
      norm_num [neg_div]
  · rw [major, hcube, hhalf] at hm ⊢
    rcases lt_or_gt_of_ne hm with hneg | hpos
    · have hdecode := xenosCubeDirection_normalised (m := d.y) (d.x) (-d.z) (by decide : 3 ≤ 5)
      simp only [if_pos hneg]
      rw [sign_of_neg hneg]
      refine hdecode.trans ?_
      norm_num [neg_div]
    · have hdecode := xenosCubeDirection_normalised (m := d.y) (d.x) (d.z) (by decide : 2 ≤ 5)
      simp only [if_neg (not_lt.2 hpos.le)]
      rw [sign_of_pos hpos]
      refine hdecode.trans ?_
      norm_num [neg_div]
  · rw [major, hcube, hhalf] at hm ⊢
    rcases lt_or_gt_of_ne hm with hneg | hpos
    · have hdecode := xenosCubeDirection_normalised (m := d.x) (d.z) (-d.y) (by decide : 1 ≤ 5)
      simp only [if_pos hneg]
      rw [sign_of_neg hneg]
      refine hdecode.trans ?_
      norm_num [neg_div]
    · have hdecode := xenosCubeDirection_normalised (m := d.x) (-d.z) (-d.y) (by decide : 0 ≤ 5)
      simp only [if_neg (not_lt.2 hpos.le)]
      rw [sign_of_pos hpos]
      refine hdecode.trans ?_
      norm_num [neg_div]

/-- **The cube round trip.**  The direction decoded from the normalised face coordinates is the
direction divided by the magnitude of its major axis, which is a component of largest magnitude. -/
theorem cube_roundTrip (d : Float3) (h : d ≠ ⟨0, 0, 0⟩) :
    ((major d = d.x ∨ major d = d.y ∨ major d = d.z) ∧
      |d.x| ≤ |major d| ∧ |d.y| ≤ |major d| ∧ |d.z| ≤ |major d|) ∧
    xenosCubeDirection ((xenosCube d.zzxy).y / |(xenosCube d.zzxy).z| + 3 / 2)
        ((xenosCube d.zzxy).x / |(xenosCube d.zzxy).z| + 3 / 2) (xenosCube d.zzxy).w =
      d.div |major d| :=
  ⟨major_largest d, xenosCubeDirection_xenosCube d h⟩

/-- The hypotheses are satisfiable: a tie of all three components, for which the Z axis is taken, on
its negative side. -/
theorem cube_roundTrip_tie :
    xenosCubeDirection ((xenosCube ⟨-2, -2, 2, 2⟩).y / |(xenosCube ⟨-2, -2, 2, 2⟩).z| + 3 / 2)
        ((xenosCube ⟨-2, -2, 2, 2⟩).x / |(xenosCube ⟨-2, -2, 2, 2⟩).z| + 3 / 2)
        (xenosCube ⟨-2, -2, 2, 2⟩).w =
      Float3.div ⟨2, 2, -2⟩ |major ⟨2, 2, -2⟩| :=
  (cube_roundTrip ⟨2, 2, -2⟩ (by decide)).2

end Prelude
end BoltsRebuilt
