/-
# A ring of places

A ring keeps a queue in `n` places: the place of the first element and how many
there are; the places after the last one wrap around.  What it holds is a list
(`contents`).  Elements leave at the front (`contents_drop`) and enter at the back
while there is a free place (`contents_append`).
-/

import Mathlib.Algebra.GroupWithZero.Nat
import Mathlib.Algebra.Ring.Int.Defs
import Mathlib.Data.List.Range
import Mathlib.Data.Nat.ModEq
import Mathlib.Logic.Function.Basic

namespace BoltsRebuilt

/-- A queue in `n` places. -/
structure Ring (α : Type*) (n : ℕ) where
  data : ℕ → α
  head : ℕ
  count : ℕ
  head_lt : head < n
  count_le : count ≤ n

namespace Ring

variable {α : Type*} {n : ℕ}

/-- The element `i` places behind the first. -/
def get (r : Ring α n) (i : ℕ) : α := r.data ((r.head + i) % n)

/-- What the ring holds, from the first on. -/
def contents (r : Ring α n) : List α := (List.range r.count).map r.get

/-- A ring has as many elements as it counts. -/
@[simp] theorem length_contents (r : Ring α n) : r.contents.length = r.count := by
  simp [contents]

/-- And each is where it is got from. -/
theorem getElem?_contents (r : Ring α n) {i : ℕ} (h : i < r.count) :
    r.contents[i]? = some (r.get i) := by
  simp [contents, h]

/-- The first `k` elements leave. -/
def drop (r : Ring α n) (k : ℕ) : Ring α n where
  data := r.data
  head := (r.head + k) % n
  count := r.count - k
  head_lt := Nat.mod_lt _ (Nat.zero_lt_of_lt r.head_lt)
  count_le := (Nat.sub_le ..).trans r.count_le

/-- Dropping from the front moves the others forward. -/
theorem get_drop (r : Ring α n) (k i : ℕ) : (r.drop k).get i = r.get (k + i) := by
  rw [get, get, drop, Nat.mod_add_mod, Nat.add_assoc]

/-- And drops the elements. -/
theorem contents_drop (r : Ring α n) (k : ℕ) : (r.drop k).contents = r.contents.drop k := by
  refine List.ext_getElem? fun i => ?_
  rw [List.getElem?_drop]
  by_cases hi : i < r.count - k
  · rw [getElem?_contents _ (show i < (r.drop k).count from hi), getElem?_contents _ (by omega),
      get_drop]
  · have hlen : (r.drop k).count ≤ i := by
      show r.count - k ≤ i
      omega
    rw [List.getElem?_eq_none (by simpa using hlen), List.getElem?_eq_none (by simp; omega)]

/-- An element enters at the back. -/
def append (r : Ring α n) (x : α) (h : r.count < n) : Ring α n where
  data := Function.update r.data ((r.head + r.count) % n) x
  head := r.head
  count := r.count + 1
  head_lt := r.head_lt
  count_le := h

/-- Appending to a ring with room adds at the end. -/
theorem contents_append (r : Ring α n) (x : α) (h : r.count < n) :
    (r.append x h).contents = r.contents ++ [x] := by
  have hget : ∀ i < r.count, (r.append x h).get i = r.get i := by
    intro i hi
    -- two places of the ring are one only when they are `n` apart
    have hne : (r.head + i) % n ≠ (r.head + r.count) % n := by
      intro heq
      have hmod : i ≡ r.count [MOD n] := Nat.ModEq.add_left_cancel' r.head heq
      rw [Nat.ModEq, Nat.mod_eq_of_lt (by omega), Nat.mod_eq_of_lt h] at hmod
      omega
    exact Function.update_of_ne hne x r.data
  have hlast : (r.append x h).get r.count = x := Function.update_self ..
  rw [contents, show (r.append x h).count = r.count + 1 from rfl, List.range_succ, List.map_append,
    List.map_singleton, hlast, contents]
  congr 1
  exact List.map_congr_left fun i hi => hget i (List.mem_range.1 hi)

end Ring
end BoltsRebuilt
