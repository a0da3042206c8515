/-
# Lists of parts that partition an area

An area is a set of points, given by a predicate, and a part stands for the points
`mem` puts in it.  A list of parts partitions an area when its parts cover the
area, nothing else, and no point twice (`Partitions`).

Partitions of areas that have no point in common can be appended, and where every
part is cut into smaller parts, leaving some points out, the smaller parts
partition what is left of the area (`Partitions.flatMap`).
-/

import Mathlib.Algebra.GroupWithZero.Nat
import Mathlib.Algebra.Ring.Int.Defs
import Mathlib.Data.List.Pairwise

namespace BoltsRebuilt

variable {α β γ : Type} {mem : α → β → Prop} {parts parts' : List α} {area area' keep : β → Prop}

/-- The parts are an area, and no two of them have a point in common. -/
structure Partitions (mem : α → β → Prop) (parts : List α) (area : β → Prop) : Prop where
  covers : ∀ x, (∃ p ∈ parts, mem p x) ↔ area x
  apart : parts.Pairwise fun p q => ∀ x, mem p x → ¬mem q x

namespace Partitions

/-- What the parts partition may be described in any equivalent way. -/
theorem congr (h : Partitions mem parts area) (harea : ∀ x, area x ↔ area' x) :
    Partitions mem parts area' :=
  ⟨fun x => (h.covers x).trans (harea x), h.apart⟩

/-- No parts partition nothing. -/
theorem nil (h : ∀ x, ¬area x) : Partitions mem [] area :=
  ⟨fun x => by simp [h x], .nil⟩

/-- One part partitions itself. -/
theorem singleton (p : α) : Partitions mem [p] (mem p) :=
  ⟨fun x => by simp, List.pairwise_singleton _ _⟩

/-- Partitions of two areas without a common point partition both together. -/
theorem append (h : Partitions mem parts area) (h' : Partitions mem parts' area')
    (hdisjoint : ∀ x, area x → ¬area' x) :
    Partitions mem (parts ++ parts') fun x => area x ∨ area' x := by
  constructor
  · intro x
    rw [← h.covers, ← h'.covers]
    simp [or_and_right, exists_or]
  · refine List.pairwise_append.2 ⟨h.apart, h'.apart, fun p hp q hq x hpx hqx => ?_⟩
    exact hdisjoint x ((h.covers x).1 ⟨p, hp, hpx⟩) ((h'.covers x).1 ⟨q, hq, hqx⟩)

/-- A part that is there only under a condition. -/
theorem ite (c : Prop) [Decidable c] (p : α) :
    Partitions mem (if c then [p] else []) fun x => c ∧ mem p x := by
  by_cases hc : c
  · rw [if_pos hc]
    exact (singleton p).congr fun x => by simp [hc]
  · rw [if_neg hc]
    exact nil fun x hx => hc hx.1

/-- An optional part is at most one. -/
theorem length_ite_le (c : Prop) [Decidable c] (p : α) : (if c then [p] else []).length ≤ 1 := by
  by_cases hc : c
  · rw [if_pos hc, List.length_singleton]
  · rw [if_neg hc]
    exact Nat.zero_le _

/-- **Cutting every part of a partition** leaves a partition of what the cuts keep. -/
theorem flatMap {f : α → List α} (h : Partitions mem parts area)
    (hf : ∀ p ∈ parts, Partitions mem (f p) fun x => mem p x ∧ keep x) :
    Partitions mem (parts.flatMap f) fun x => area x ∧ keep x := by
  induction parts generalizing area with
  | nil =>
    refine nil fun x hx => ?_
    obtain ⟨p, hp, -⟩ := (h.covers x).2 hx.1
    exact absurd hp List.not_mem_nil
  | cons p parts ih =>
    have hrest : Partitions mem parts fun x => ∃ q ∈ parts, mem q x :=
      ⟨fun x => .rfl, (List.pairwise_cons.1 h.apart).2⟩
    have hhead := hf p (List.mem_cons_self ..)
    have htail := ih hrest fun q hq => hf q (List.mem_cons_of_mem _ hq)
    rw [List.flatMap_cons]
    refine (hhead.append htail fun x hx hx' => ?_).congr fun x => ?_
    · obtain ⟨⟨q, hq, hqx⟩, -⟩ := hx'
      exact (List.pairwise_cons.1 h.apart).1 q hq x hx.1 hqx
    · rw [← h.covers]
      simp only [List.mem_cons, or_and_right, exists_or, exists_eq_left]

/-- So many parts of so many each. -/
theorem length_flatMap_le {f : α → List α} {n : ℕ} (h : ∀ p ∈ parts, (f p).length ≤ n) :
    (parts.flatMap f).length ≤ parts.length * n := by
  induction parts with
  | nil => simp
  | cons p parts ih =>
    have hhead := h p (List.mem_cons_self ..)
    have htail := ih fun q hq => h q (List.mem_cons_of_mem _ hq)
    rw [List.flatMap_cons, List.length_append, List.length_cons, Nat.succ_mul]
    omega

/-- Nothing is left of an area that has no parts. -/
theorem eq_nil_iff (h : Partitions mem parts area) (hne : ∀ p ∈ parts, ∃ x, mem p x) :
    parts = [] ↔ ∀ x, ¬area x := by
  constructor
  · rintro rfl x hx
    obtain ⟨p, hp, -⟩ := (h.covers x).2 hx
    exact absurd hp List.not_mem_nil
  · intro hempty
    rcases parts with _ | ⟨p, parts⟩
    · rfl
    · obtain ⟨x, hx⟩ := hne p (List.mem_cons_self ..)
      exact absurd ((h.covers x).1 ⟨p, List.mem_cons_self .., hx⟩) (hempty x)

end Partitions

end BoltsRebuilt
