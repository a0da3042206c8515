/-
# Merging intervals as they come

An interval is its first element and its length.  A list of them is `Apart` when
each holds something and each ends before the next starts with room between: two
that touch would be one.

Such a list is the only one of what it holds (`Apart.ext`).  `push` adds an
interval to it from the right: it is joined to the last one when it starts inside it
or where it ends, and follows it otherwise.  Where the intervals come in the order of
their starts, the list stays apart and holds what all of them hold (`Apart.push`,
`Apart.foldl_push`), and `push` leaves out exactly what it is told twice
(`length_cells_push`).
-/

import Mathlib.Algebra.GroupWithZero.Nat
import Mathlib.Algebra.Ring.Int.Defs
import Mathlib.Data.List.Range
import Mathlib.Data.List.Nodup
import Mathlib.Order.MinMax

namespace BoltsRebuilt

/-- The first element and the length. -/
abbrev Interval := ℕ × ℕ

namespace Interval

/-- The element after the last. -/
def stop (r : Interval) : ℕ := r.1 + r.2

/-- The elements in order. -/
def cells (r : Interval) : List ℕ := List.range' r.1 r.2

/-- A cell of an interval is one from its first to before its stop. -/
theorem mem_cells {r : Interval} {x : ℕ} : x ∈ r.cells ↔ r.1 ≤ x ∧ x < r.stop := by
  rw [cells, List.mem_range'_1, stop]

/-- Two intervals as one, the first of which starts first. -/
def join (last r : Interval) : Interval := (last.1, max last.stop r.stop - last.1)

/-- Joining two intervals stops where the later one does. -/
theorem stop_join {last r : Interval} : (last.join r).stop = max last.stop r.stop := by
  have hle : last.1 ≤ max last.stop r.stop := le_trans (Nat.le_add_right ..) (le_max_left ..)
  rw [stop, join]
  omega

end Interval

namespace Intervals

open BoltsRebuilt.Interval

/-- The elements of a list of intervals, one after another. -/
def cells (l : List Interval) : List ℕ := l.flatMap Interval.cells

/-- No intervals have no cells. -/
@[simp] theorem cells_nil : cells [] = [] := rfl

/-- The cells of a list are those of its first interval and those of the rest. -/
@[simp] theorem cells_cons (r : Interval) (l : List Interval) :
    cells (r :: l) = r.cells ++ cells l := List.flatMap_cons ..

/-- The cells of two lists are those of both. -/
@[simp] theorem cells_append (l l' : List Interval) : cells (l ++ l') = cells l ++ cells l' :=
  List.flatMap_append ..

/-- A cell of a list is one of an interval of the list. -/
theorem mem_cells {l : List Interval} {x : ℕ} :
    x ∈ cells l ↔ ∃ r ∈ l, r.1 ≤ x ∧ x < r.stop := by
  simp only [cells, List.mem_flatMap, Interval.mem_cells]

/-- Intervals have as many cells as their lengths add up to, overlaps counted twice. -/
theorem length_cells (l : List Interval) : (cells l).length = (l.map Prod.snd).sum := by
  simp [cells, List.length_flatMap, Interval.cells]

/-- Each interval holds something and ends with room before the next. -/
structure Apart (l : List Interval) : Prop where
  nonempty : ∀ r ∈ l, 0 < r.2
  apart : l.Pairwise fun r s => r.stop < s.1

/-- No intervals are apart. -/
theorem apart_nil : Apart [] := ⟨by simp, .nil⟩

/-- Two lists are apart together when each is and the first ends before the second. -/
theorem apart_append {l l' : List Interval} :
    Apart (l ++ l') ↔ Apart l ∧ Apart l' ∧ ∀ r ∈ l, ∀ s ∈ l', r.stop < s.1 := by
  constructor
  · rintro ⟨hne, hap⟩
    rw [List.forall_mem_append] at hne
    rw [List.pairwise_append] at hap
    exact ⟨⟨hne.1, hap.1⟩, ⟨hne.2, hap.2.1⟩, hap.2.2⟩
  · rintro ⟨h, h', hlt⟩
    exact ⟨List.forall_mem_append.2 ⟨h.nonempty, h'.nonempty⟩,
      List.pairwise_append.2 ⟨h.apart, h'.apart, hlt⟩⟩

/-- One interval is apart when it is not empty. -/
theorem apart_singleton {r : Interval} : Apart [r] ↔ 0 < r.2 :=
  ⟨fun h => h.nonempty r (List.mem_singleton_self r),
    fun h => ⟨fun _ hs => List.mem_singleton.1 hs ▸ h, List.pairwise_singleton ..⟩⟩

/-- The elements of intervals that are apart are in increasing order. -/
theorem Apart.cells_pairwise {l : List Interval} (h : Apart l) : (cells l).Pairwise (· < ·) := by
  induction l with
  | nil => exact .nil
  | cons r l ih =>
      obtain ⟨-, htail, hlt⟩ := apart_append.1 (show Apart ([r] ++ l) from h)
      rw [cells_cons, List.pairwise_append]
      refine ⟨List.pairwise_lt_range', ih htail, fun x hx y hy => ?_⟩
      obtain ⟨s, hs, hsy, -⟩ := mem_cells.1 hy
      have := hlt r (List.mem_singleton_self r) s hs
      have := (Interval.mem_cells.1 hx).2
      omega

/-- Intervals that are apart have no cell in common. -/
theorem Apart.nodup_cells {l : List Interval} (h : Apart l) : (cells l).Nodup :=
  h.cells_pairwise.imp fun hlt => Nat.ne_of_lt hlt

/-- The first of intervals that are apart ends before all others. -/
theorem Apart.cons {r : Interval} {l : List Interval} (h : Apart (r :: l)) :
    0 < r.2 ∧ (∀ s ∈ l, r.stop < s.1) ∧ Apart l := by
  obtain ⟨hr, htail, hlt⟩ := apart_append.1 (show Apart ([r] ++ l) from h)
  exact ⟨apart_singleton.1 hr, hlt r (List.mem_singleton_self r), htail⟩

/-- The first interval of a list is the smallest element up to the first gap. -/
theorem Apart.head_eq {r s : Interval} {l l' : List Interval} (h : Apart (r :: l))
    (h' : Apart (s :: l')) (hcells : ∀ x, x ∈ cells (r :: l) → x ∈ cells (s :: l')) :
    s.1 ≤ r.1 ∧ (s.1 = r.1 → r.stop ≤ s.stop) := by
  obtain ⟨hr, hrl, -⟩ := h.cons
  obtain ⟨hs, hsl, -⟩ := h'.cons
  have hstop : r.stop = r.1 + r.2 := rfl
  have hat : ∀ x, r.1 ≤ x → x < r.stop → s.1 ≤ x ∧ (x < s.stop ∨ s.stop < x) := by
    intro x hx hx'
    obtain ⟨t, ht, hle, hlt⟩ := mem_cells.1 (hcells x (mem_cells.2 ⟨r, List.mem_cons_self .., hx, hx'⟩))
    have hss : s.stop = s.1 + s.2 := rfl
    rcases List.mem_cons.1 ht with rfl | ht
    · exact ⟨hle, .inl hlt⟩
    · have := hsl t ht
      exact ⟨by omega, .inr (by omega)⟩
  refine ⟨(hat r.1 le_rfl (by omega)).1, fun heq => ?_⟩
  by_contra hlt
  have hss : s.stop = s.1 + s.2 := rfl
  have := (hat s.stop (by omega) (by omega)).2
  omega

/-- **A list that is apart is told by what it holds.** -/
theorem Apart.ext {l l' : List Interval} (h : Apart l) (h' : Apart l')
    (hcells : ∀ x, x ∈ cells l ↔ x ∈ cells l') : l = l' := by
  induction l generalizing l' with
  | nil =>
      cases l' with
      | nil => rfl
      | cons s l' =>
          obtain ⟨hs, -, -⟩ := h'.cons
          have hmem : s.1 ∈ cells (s :: l') :=
            mem_cells.2 ⟨s, List.mem_cons_self .., le_rfl, Nat.lt_add_of_pos_right hs⟩
          exact absurd ((hcells s.1).2 hmem) List.not_mem_nil
  | cons r l ih =>
      obtain ⟨hr, hrl, htail⟩ := h.cons
      cases l' with
      | nil =>
          have hmem : r.1 ∈ cells (r :: l) :=
            mem_cells.2 ⟨r, List.mem_cons_self .., le_rfl, Nat.lt_add_of_pos_right hr⟩
          exact absurd ((hcells r.1).1 hmem) List.not_mem_nil
      | cons s l' =>
          obtain ⟨hs, hsl, htail'⟩ := h'.cons
          have h₁ := h.head_eq h' fun x => (hcells x).1
          have h₂ := h'.head_eq h fun x => (hcells x).2
          have hstart : r.1 = s.1 := le_antisymm h₂.1 h₁.1
          have hstop : r.stop = s.stop := le_antisymm (h₁.2 hstart.symm) (h₂.2 hstart)
          have hrs : r = s := Prod.ext hstart (by rw [Interval.stop, Interval.stop] at hstop; omega)
          subst hrs
          have hrest : ∀ {m : List Interval}, (∀ t ∈ m, r.stop < t.1) → ∀ x,
              x ∈ cells m ↔ x ∈ cells (r :: m) ∧ r.stop ≤ x := by
            intro m hm x
            rw [cells_cons, List.mem_append, Interval.mem_cells]
            constructor
            · intro hx
              obtain ⟨t, ht, hle, -⟩ := mem_cells.1 hx
              have := hm t ht
              exact ⟨.inr hx, by omega⟩
            · rintro ⟨hx | hx, hle⟩
              · omega
              · exact hx
          rw [ih htail htail' fun x => by rw [hrest hrl, hrest hsl, hcells]]

/-- An interval at the end of a list: joined to the last one when it starts no
later than that one ends. -/
def push (l : List Interval) (r : Interval) : List Interval :=
  match l.getLast? with
  | none => [r]
  | some last => if r.1 ≤ last.stop then l.dropLast ++ [last.join r] else l ++ [r]

/-- Pushing onto nothing gives the interval alone. -/
@[simp] theorem push_nil (r : Interval) : push [] r = [r] := rfl

/-- Pushing joins the last interval when the new one begins inside it or right behind it, and
appends it otherwise. -/
theorem push_concat (init : List Interval) (last r : Interval) :
    push (init ++ [last]) r =
      if r.1 ≤ last.stop then init ++ [last.join r] else init ++ [last, r] := by
  simp [push]

/-- The list ends with an interval that starts no later than `n`. -/
def EndsBy (l : List Interval) (n : ℕ) : Prop := ∀ last ∈ l.getLast?, last.1 ≤ n

/-- A list that ends by where the new interval begins ends by it after the push as well. -/
theorem endsBy_push {l : List Interval} {r : Interval} (h : EndsBy l r.1) :
    EndsBy (push l r) r.1 := by
  rcases List.eq_nil_or_concat' l with rfl | ⟨init, last, rfl⟩
  · intro s hs
    obtain rfl : r = s := by simpa using hs
    exact le_rfl
  · rw [push_concat]
    split
    · intro s hs
      obtain rfl : last.join r = s := by simpa using hs
      exact h last (by simp)
    · intro s hs
      obtain rfl : r = s := by simpa using hs
      exact le_rfl

/-- **One more interval.** A list that is apart stays apart when an interval is pushed that begins
no earlier than the last. -/
theorem Apart.push {l : List Interval} (h : Apart l) {r : Interval} (hr : 0 < r.2)
    (hlast : EndsBy l r.1) : Apart (push l r) := by
  rcases List.eq_nil_or_concat' l with rfl | ⟨init, last, rfl⟩
  · exact apart_singleton.2 hr
  · obtain ⟨hinit, hlast', hlt⟩ := apart_append.1 h
    have hle : last.1 ≤ r.1 := hlast last (by simp)
    rw [push_concat]
    split
    · refine apart_append.2 ⟨hinit, apart_singleton.2 ?_, fun s hs t ht => ?_⟩
      · have hpos := apart_singleton.1 hlast'
        show 0 < max last.stop r.stop - last.1
        rw [Interval.stop, Interval.stop]
        omega
      · rw [List.mem_singleton.1 ht]
        exact hlt s hs last (List.mem_singleton_self last)
    · rename_i hgap
      have hsplit : init ++ [last, r] = (init ++ [last]) ++ [r] := by simp
      rw [hsplit]
      refine apart_append.2 ⟨h, apart_singleton.2 hr, fun s hs t ht => ?_⟩
      rw [List.mem_singleton.1 ht]
      rcases List.mem_append.1 hs with hs | hs
      · have := hlt s hs last (List.mem_singleton_self last)
        omega
      · rw [List.mem_singleton.1 hs]
        omega

/-- The list holds what it held and the new interval. -/
theorem mem_cells_push {l : List Interval} {r : Interval} (hlast : EndsBy l r.1) {x : ℕ} :
    x ∈ cells (push l r) ↔ x ∈ cells l ∨ x ∈ r.cells := by
  rcases List.eq_nil_or_concat' l with rfl | ⟨init, last, rfl⟩
  · simp
  · have hle : last.1 ≤ r.1 := hlast last (by simp)
    rw [push_concat]
    split
    · rename_i htouch
      simp only [cells_append, List.mem_append, cells_cons, cells_nil, List.append_nil,
        Interval.mem_cells, stop_join, or_assoc]
      rw [show (last.join r).1 = last.1 from rfl]
      have hstop : last.stop = last.1 + last.2 := rfl
      have hstop' : r.stop = r.1 + r.2 := rfl
      constructor
      · rintro (h | h)
        · exact .inl h
        · right
          omega
      · rintro (h | h | h)
        · exact .inl h
        · right
          omega
        · right
          omega
    · simp [or_assoc]

/-- Where the new interval starts in the last one, what both hold is left out. -/
def overlap (l : List Interval) (r : Interval) : ℕ :=
  match l.getLast? with
  | none => 0
  | some last => if r.1 ≤ last.stop then min last.stop r.stop - r.1 else 0

/-- Pushing adds as many cells as the interval has, less those it shares with what was there. -/
theorem length_cells_push {l : List Interval} {r : Interval} (hlast : EndsBy l r.1) :
    (cells (push l r)).length + overlap l r = (cells l).length + r.2 := by
  rcases List.eq_nil_or_concat' l with rfl | ⟨init, last, rfl⟩
  · simp [overlap, Interval.cells]
  · have hle : last.1 ≤ r.1 := hlast last (by simp)
    have hover : overlap (init ++ [last]) r =
        if r.1 ≤ last.stop then min last.stop r.stop - r.1 else 0 := by simp [overlap]
    rw [push_concat, hover]
    split
    · simp only [length_cells, List.map_append, List.sum_append, List.map_cons, List.map_nil,
        List.sum_cons, List.sum_nil, Interval.join, Interval.stop] at *
      omega
    · simp only [length_cells, List.map_append, List.sum_append, List.map_cons, List.map_nil,
        List.sum_cons, List.sum_nil]
      omega

/-- **Intervals in the order of their starts.**  Pushed one after another they are
apart and hold what all of them hold. -/
theorem Apart.foldl_push {l rs : List Interval} (h : Apart l) (hne : ∀ r ∈ rs, 0 < r.2)
    (hsorted : rs.Pairwise fun r s => r.1 ≤ s.1) (hlast : ∀ r ∈ rs, EndsBy l r.1) :
    Apart (rs.foldl Intervals.push l) ∧
      ∀ x, x ∈ cells (rs.foldl Intervals.push l) ↔ x ∈ cells l ∨ x ∈ cells rs := by
  induction rs generalizing l with
  | nil => exact ⟨h, by simp⟩
  | cons r rs ih =>
      rw [List.forall_mem_cons] at hne hlast
      obtain ⟨hr, hsorted'⟩ := List.pairwise_cons.1 hsorted
      have hlast' : ∀ s ∈ rs, EndsBy (Intervals.push l r) s.1 := fun s hs last hmem =>
        (endsBy_push hlast.1 last hmem).trans (hr s hs)
      obtain ⟨hap, hcells⟩ := ih (h.push hne.1 hlast.1) hne.2 hsorted' hlast'
      refine ⟨hap, fun x => ?_⟩
      rw [List.foldl_cons, hcells, mem_cells_push hlast.1, cells_cons, List.mem_append, or_assoc]

end Intervals
end BoltsRebuilt
