/-
# Lists of separated spans

A span is a nonempty interval of natural numbers given by its first and last
element.  A list of them is `Separated` when each is one and each ends before
the next starts; its elements in order are `cells`.

Separated spans enumerate what they contain in increasing order
(`Separated.cells_pairwise`), so below `n` they have at most `n` elements
(`Separated.length_cells_le`), and copying a block of fixed width for each
element puts the block of an element at its position (`blocks_at`).
-/

import Mathlib.Algebra.GroupWithZero.Nat
import Mathlib.Algebra.Ring.Int.Defs
import Mathlib.Data.List.Range
import Mathlib.Data.List.Nodup
import Mathlib.Data.Finset.Card
import Mathlib.Data.Finset.Range

namespace BoltsRebuilt

/-- An interval of natural numbers, first and last element. -/
abbrev Span := ℕ × ℕ

namespace Span

/-- How many elements a span has. -/
def size (s : Span) : ℕ := s.2 + 1 - s.1

/-- Its elements, in order. -/
def cells (s : Span) : List ℕ := List.range' s.1 s.size

/-- A cell of a span is one from its first to its last. -/
theorem mem_cells {s : Span} {x : ℕ} : x ∈ s.cells ↔ s.1 ≤ x ∧ x ≤ s.2 := by
  rw [cells, List.mem_range'_1, size]
  omega

/-- A span has as many cells as its size says. -/
@[simp] theorem length_cells (s : Span) : s.cells.length = s.size := by simp [cells]

end Span

namespace Spans

/-- The elements of a list of spans, span after span. -/
def cells (l : List Span) : List ℕ := l.flatMap Span.cells

/-- Each span is nonempty and ends before the next starts. -/
structure Separated (l : List Span) : Prop where
  nonempty : ∀ s ∈ l, s.1 ≤ s.2
  apart : l.Pairwise fun s t => s.2 < t.1

/-- No spans have no cells. -/
@[simp] theorem cells_nil : cells [] = [] := rfl

/-- The cells of a list are those of its first span and those of the rest. -/
@[simp] theorem cells_cons (s : Span) (l : List Span) : cells (s :: l) = s.cells ++ cells l := by
  simp [cells]

/-- A cell of a list is one of a span of the list. -/
theorem mem_cells {l : List Span} {x : ℕ} : x ∈ cells l ↔ ∃ s ∈ l, s.1 ≤ x ∧ x ≤ s.2 := by
  simp only [cells, List.mem_flatMap, Span.mem_cells]

/-- Spans have as many cells as their sizes add up to. -/
theorem length_cells (l : List Span) : (cells l).length = (l.map Span.size).sum := by
  simp [cells, List.length_flatMap]

/-- Spans are separated when the first is in order, ends before all others, and these are separated. -/
theorem separated_cons {s : Span} {l : List Span} :
    Separated (s :: l) ↔ s.1 ≤ s.2 ∧ (∀ t ∈ l, s.2 < t.1) ∧ Separated l := by
  constructor
  · rintro ⟨hn, ha⟩
    rw [List.forall_mem_cons] at hn
    rw [List.pairwise_cons] at ha
    exact ⟨hn.1, ha.1, hn.2, ha.2⟩
  · rintro ⟨hs, hl, hn, ha⟩
    exact ⟨List.forall_mem_cons.2 ⟨hs, hn⟩, List.pairwise_cons.2 ⟨hl, ha⟩⟩

/-- Separated spans enumerate their elements in increasing order, each once. -/
theorem Separated.cells_pairwise {l : List Span} (h : Separated l) :
    (cells l).Pairwise (· < ·) := by
  induction l with
  | nil => exact .nil
  | cons s l ih =>
      obtain ⟨hs, hl, htail⟩ := separated_cons.1 h
      rw [cells_cons, List.pairwise_append]
      refine ⟨List.pairwise_lt_range', ih htail, fun x hx y hy => ?_⟩
      obtain ⟨t, ht, hty, -⟩ := mem_cells.1 hy
      have := (Span.mem_cells.1 hx).2
      have := hl t ht
      omega

/-- Separated spans have no cell in common. -/
theorem Separated.nodup_cells {l : List Span} (h : Separated l) : (cells l).Nodup :=
  h.cells_pairwise.imp ne_of_lt

/-- Separated spans below `n` have at most `n` elements. -/
theorem Separated.length_cells_le {l : List Span} (h : Separated l) {n : ℕ}
    (hn : ∀ s ∈ l, s.2 < n) : (cells l).length ≤ n := by
  have hsub : (cells l).toFinset ⊆ Finset.range n := fun x hx => by
    obtain ⟨s, hs, -, hx⟩ := mem_cells.1 (List.mem_toFinset.1 hx)
    have := hn s hs
    exact Finset.mem_range.2 (by omega)
  have hcard := Finset.card_le_card hsub
  rwa [List.toFinset_card_of_nodup h.nodup_cells, Finset.card_range] at hcard

/-! ### Blocks of fixed width -/

variable {α : Type*}

/-- The block of width `w` at index `c` of `l`. -/
def block (w : ℕ) (l : List α) (c : ℕ) : List α := (l.drop (w * c)).take w

/-- A block that fits a list has its width. -/
theorem length_block {w c : ℕ} {l : List α} (h : w * (c + 1) ≤ l.length) :
    (block w l c).length = w := by
  rw [Nat.mul_add, Nat.mul_one] at h
  rw [block, List.length_take, List.length_drop]
  omega

/-- A run of blocks copied at once is its blocks one after the other. -/
theorem take_drop_eq_flatMap_block (w : ℕ) (l : List α) (first n : ℕ) :
    (l.drop (w * first)).take (w * n) = (List.range' first n).flatMap (block w l) := by
  induction n generalizing first with
  | zero => simp
  | succ n ih =>
      rw [List.range'_succ, List.flatMap_cons, ← ih, block, Nat.mul_succ, Nat.add_comm (w * n),
        List.take_add, List.drop_drop, Nat.mul_succ]

/-- Among blocks of one width, block `k` stands at `w * k`. -/
theorem blocks_at {w : ℕ} {l : List α} {cs : List ℕ} (hlen : ∀ c ∈ cs, (block w l c).length = w)
    {k : ℕ} {c : ℕ} (hk : cs[k]? = some c) :
    block w (cs.flatMap (block w l)) k = block w l c := by
  induction cs generalizing k with
  | nil => simp at hk
  | cons c₀ cs ih =>
      have h₀ : (block w l c₀).length = w := hlen c₀ (List.mem_cons_self ..)
      rw [List.flatMap_cons]
      cases k with
      | zero =>
          obtain rfl : c₀ = c := by simpa using hk
          rw [block, Nat.mul_zero, List.drop_zero, List.take_append_of_le_length h₀.ge,
            List.take_of_length_le h₀.le]
      | succ k =>
          have hmul : w * (k + 1) = (block w l c₀).length + w * k := by
            rw [h₀, Nat.mul_succ, Nat.add_comm]
          rw [block, hmul, List.drop_length_add_append]
          exact ih (fun c hc => hlen c (List.mem_cons_of_mem _ hc)) (by simpa using hk)

end Spans
end BoltsRebuilt
