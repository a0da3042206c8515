/-
# The running maximum of a scan

A loop that keeps the largest key it has met, among the items that count, starts
from a floor and replaces what it has whenever an item beats it.  `IsPeak` says
what such a loop ends with, without the order of the items: the floor or a key
of an item that counts, and no such key is larger.  Two scans of the same items
in any orders therefore end alike (`IsPeak.unique`).
-/

import Mathlib.Algebra.GroupWithZero.Nat
import Mathlib.Algebra.Ring.Int.Defs
import Mathlib.Order.Lattice
import Mathlib.Order.Basic
import Mathlib.Tactic.Common

namespace BoltsRebuilt
namespace Peak

variable {α κ : Type*} [LinearOrder κ] {floor m m' : κ} {key : α → κ} {P : α → Prop} {l l' : List α}
  {a : α}

/-- `m` is the largest key among the items of `l` with `P`, and the floor if none
lies above it. -/
structure IsPeak (floor : κ) (key : α → κ) (P : α → Prop) (l : List α) (m : κ) : Prop where
  floor_le : floor ≤ m
  key_le : ∀ a ∈ l, P a → key a ≤ m
  attained : m = floor ∨ ∃ a ∈ l, P a ∧ key a = m

/-- Of no entries the floor is the peak. -/
theorem IsPeak.nil : IsPeak floor key P [] floor :=
  ⟨le_rfl, fun _ ha => absurd ha List.not_mem_nil, .inl rfl⟩

/-- An item that does not count leaves the maximum. -/
theorem IsPeak.skip (h : IsPeak floor key P l m) (ha : ¬ P a) : IsPeak floor key P (l ++ [a]) m := by
  refine ⟨h.floor_le, fun b hb hP => ?_, h.attained.imp_right ?_⟩
  · rcases List.mem_append.1 hb with hb | hb
    · exact h.key_le b hb hP
    · obtain rfl := List.mem_singleton.1 hb
      exact absurd hP ha
  · rintro ⟨b, hb, hrest⟩
    exact ⟨b, List.mem_append_left _ hb, hrest⟩

/-- An item that counts replaces the maximum when its key is larger. -/
theorem IsPeak.take (h : IsPeak floor key P l m) (ha : P a) :
    IsPeak floor key P (l ++ [a]) (if m < key a then key a else m) := by
  have hle : m ≤ if m < key a then key a else m := by
    split
    · exact le_of_lt ‹_›
    · exact le_rfl
  refine ⟨h.floor_le.trans hle, fun b hb hP => ?_, ?_⟩
  · rcases List.mem_append.1 hb with hb | hb
    · exact (h.key_le b hb hP).trans hle
    · obtain rfl := List.mem_singleton.1 hb
      split
      · exact le_rfl
      · exact not_lt.1 ‹_›
  · split
    · exact .inr ⟨a, List.mem_append_right _ (List.mem_singleton_self a), ha, rfl⟩
    · refine h.attained.imp_right ?_
      rintro ⟨b, hb, hrest⟩
      exact ⟨b, List.mem_append_left _ hb, hrest⟩

/-- A maximum of some items is below any maximum of more items. -/
theorem IsPeak.mono (h : IsPeak floor key P l m) (h' : IsPeak floor key P l' m')
    (hsub : ∀ a ∈ l, a ∈ l') : m ≤ m' := by
  rcases h.attained with rfl | ⟨a, ha, hP, rfl⟩
  · exact h'.floor_le
  · exact h'.key_le a (hsub a ha) hP

/-- The order of the items does not matter: lists of the same items have the same peak. -/
theorem IsPeak.unique (h : IsPeak floor key P l m) (h' : IsPeak floor key P l' m')
    (hmem : ∀ a, a ∈ l ↔ a ∈ l') : m = m' :=
  le_antisymm (h.mono h' fun a => (hmem a).1) (h'.mono h fun a => (hmem a).2)

/-- With an item that counts and is not below the floor, some item has the
maximum. -/
theorem IsPeak.exists_eq (h : IsPeak floor key P l m) (ha : a ∈ l) (hP : P a) (hfloor : floor ≤ key a) :
    ∃ b ∈ l, P b ∧ key b = m := by
  rcases h.attained with rfl | hex
  · exact ⟨a, ha, hP, le_antisymm (h.key_le a ha hP) hfloor⟩
  · exact hex

end Peak
end BoltsRebuilt
