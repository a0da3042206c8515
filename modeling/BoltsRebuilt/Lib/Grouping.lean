/-
# Grouping by key

A stable counting sort over an array: the items of each key are counted (`counts`), the
keys get consecutive ranges (`starts`), and each item is written at the next free place
of its key's range (`place`).

The ranges do not overlap (`starts_apart`), so no write hits an item written before
(`place_spec`), and the range of a key holds its items in their order (`slice_place`).
-/

import Mathlib.Algebra.GroupWithZero.Nat
import Mathlib.Algebra.Ring.Int.Defs
import Mathlib.Algebra.BigOperators.Group.List.Basic
import Mathlib.Data.List.Induction
import Mathlib.Logic.Function.Basic
import Mathlib.Order.Nat

namespace BoltsRebuilt
namespace Grouping

variable {α : Type*} {key : α → ℕ} {source : List α} {n k : ℕ}

/-- The items of a key, in order. -/
def ofKey (key : α → ℕ) (source : List α) (k : ℕ) : List α := source.filter fun b => key b = k

/-- One more element comes last in its own group. -/
theorem ofKey_concat (source : List α) (b : α) (k : ℕ) :
    ofKey key (source ++ [b]) k = if key b = k then ofKey key source k ++ [b] else ofKey key source k := by
  rw [ofKey, List.filter_append, List.filter_cons, List.filter_nil]
  by_cases h : key b = k
  · rw [if_pos h, if_pos (decide_eq_true h), ofKey]
  · rw [if_neg h, if_neg (by simpa using h), List.append_nil, ofKey]

/-- How many items each key has. -/
def counts (key : α → ℕ) (source : List α) : ℕ → ℕ :=
  source.foldl (fun count b => Function.update count (key b) (count (key b) + 1)) fun _ => 0

/-- The count of a key is the size of its group. -/
theorem counts_eq (source : List α) (k : ℕ) : counts key source k = (ofKey key source k).length := by
  induction source using List.reverseRecOn with
  | nil => rfl
  | append_singleton source b ih =>
      rw [counts] at ih ⊢
      rw [List.foldl_append, List.foldl_cons, List.foldl_nil, ofKey_concat]
      by_cases h : key b = k
      · rw [← h] at ih ⊢
        rw [Function.update_self, if_pos rfl, List.length_append, ih, List.length_singleton]
      · rw [Function.update_of_ne (Ne.symm h), if_neg h, ih]

/-- Where the range of each key starts, and the end of the last. -/
def starts (count : ℕ → ℕ) (n : ℕ) : (ℕ → ℕ) × ℕ :=
  (List.range n).foldl (fun s k => (Function.update s.1 k s.2, s.2 + count k)) (fun _ => 0, 0)

/-- Each group starts behind those of smaller keys. -/
theorem starts_eq (count : ℕ → ℕ) (n : ℕ) :
    (starts count n).2 = ((List.range n).map count).sum ∧
      ∀ k < n, (starts count n).1 k = ((List.range k).map count).sum := by
  induction n with
  | zero => exact ⟨rfl, fun k hk => absurd hk (Nat.not_lt_zero k)⟩
  | succ n ih =>
      obtain ⟨hnext, hstart⟩ := ih
      have hstep : starts count (n + 1) =
          (Function.update (starts count n).1 n (starts count n).2, (starts count n).2 + count n) := by
        rw [starts, List.range_succ, List.foldl_append]
        rfl
      rw [hstep]
      constructor
      · rw [List.range_succ, List.map_append, List.sum_append, ← hnext]
        simp
      · intro k hk
        rcases Nat.lt_succ_iff_lt_or_eq.1 hk with hlt | rfl
        · exact (Function.update_of_ne (Nat.ne_of_lt hlt) ..).trans (hstart k hlt)
        · exact (Function.update_self ..).trans hnext

/-- The range of a key ends before that of any later key starts. -/
theorem starts_apart {count : ℕ → ℕ} {k k' : ℕ} (h : k < k') (hk' : k' < n) :
    (starts count n).1 k + count k ≤ (starts count n).1 k' := by
  have hstart := (starts_eq count n).2
  rw [hstart k (h.trans hk'), hstart k' hk']
  induction k' with
  | zero => exact absurd h (Nat.not_lt_zero k)
  | succ k' ih =>
      rw [List.range_succ, List.map_append, List.sum_append]
      rcases Nat.lt_succ_iff_lt_or_eq.1 h with hlt | rfl
      · have := ih hlt (Nat.lt_of_succ_lt hk')
        omega
      · simp

/-- Each item is written at the next free place of its key. -/
def place (key : α → ℕ) (start : ℕ → ℕ) (source : List α) (target : ℕ → α) : (ℕ → α) × (ℕ → ℕ) :=
  source.foldl (fun s b => (Function.update s.1 (start (key b) + s.2 (key b)) b,
    Function.update s.2 (key b) (s.2 (key b) + 1))) (target, fun _ => 0)

/-- One more element is placed behind those of its group. -/
theorem place_concat (start : ℕ → ℕ) (source : List α) (b : α) (target : ℕ → α) :
    place key start (source ++ [b]) target =
      (Function.update (place key start source target).1
          (start (key b) + (place key start source target).2 (key b)) b,
        Function.update (place key start source target).2 (key b)
          ((place key start source target).2 (key b) + 1)) := by
  rw [place, List.foldl_append, List.foldl_cons, List.foldl_nil, place]

/-- And as many are written of each group as were counted. -/
theorem place_written (start : ℕ → ℕ) (source : List α) (target : ℕ → α) :
    (place key start source target).2 = counts key source := by
  induction source using List.reverseRecOn with
  | nil => rfl
  | append_singleton source b ih =>
      rw [place_concat, counts, List.foldl_append, List.foldl_cons, List.foldl_nil, ih, counts]

/-- **No write hits an item written before**: with each group's place long enough, the target holds
the groups one after the other. -/
theorem place_spec {start count : ℕ → ℕ} {target : ℕ → α}
    (hstart : ∀ k k', k < k' → k' < n → start k + count k ≤ start k') (hkeys : ∀ b ∈ source, key b < n)
    (hcount : ∀ k, (ofKey key source k).length ≤ count k) (hk : k < n) {j : ℕ}
    (hj : j < (ofKey key source k).length) :
    (place key start source target).1 (start k + j) = (ofKey key source k)[j] := by
  induction source using List.reverseRecOn generalizing j with
  | nil => exact absurd hj (Nat.not_lt_zero j)
  | append_singleton source b ih =>
      have hle : ∀ k, (ofKey key source k).length ≤ count k := fun k => by
        refine Nat.le_trans ?_ (hcount k)
        rw [ofKey, ofKey, List.filter_append, List.length_append]
        exact Nat.le_add_right ..
      have ih := @ih (fun b' hb' => hkeys b' (List.mem_append_left _ hb')) hle
      have hb : key b < n := hkeys b (by simp)
      have hnext : (ofKey key source (key b)).length < count (key b) := by
        have := hcount (key b)
        rw [ofKey_concat, if_pos rfl, List.length_append, List.length_singleton] at this
        omega
      rw [place_concat, place_written]
      dsimp only
      rw [counts_eq]
      by_cases h : key b = k
      · subst h
        simp only [ofKey_concat, if_pos] at hj ⊢
        rw [List.length_append, List.length_singleton] at hj
        rcases Nat.lt_succ_iff_lt_or_eq.1 hj with hlt | rfl
        · rw [Function.update_of_ne (by omega), ih hlt, List.getElem_append_left hlt]
        · rw [Function.update_self, List.getElem_concat_length rfl]
      · simp only [ofKey_concat, if_neg h] at hj ⊢
        have hk' := hle k
        rw [Function.update_of_ne, ih hj]
        rcases Nat.lt_or_gt_of_ne h with hlt | hgt
        · have := hstart _ _ hlt hk
          omega
        · have := hstart _ _ hgt hb
          omega

/-- The items in a range of an array. -/
def slice (target : ℕ → α) (start count : ℕ) : List α := (List.range count).map fun j => target (start + j)

/-- **The range of a key holds its items in order.** -/
theorem slice_place {target : ℕ → α} (hkeys : ∀ b ∈ source, key b < n) (hk : k < n) :
    slice (place key (starts (counts key source) n).1 source target).1
      ((starts (counts key source) n).1 k) (counts key source k) = ofKey key source k := by
  refine List.ext_getElem (by rw [slice, List.length_map, List.length_range, counts_eq]) fun j hj hj' => ?_
  rw [slice] at hj
  simp only [slice, List.getElem_map, List.getElem_range]
  exact place_spec (fun k k' h hk' => starts_apart h hk') hkeys (fun k => (counts_eq source k).ge) hk hj'

end Grouping
end BoltsRebuilt
