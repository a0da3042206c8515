/-
# Interval maps as lists of adjacent pieces

An interval map over the natural numbers kept the way a sorted map of ranges
keeps it: a list of pieces, each a half-open interval with one value, in order
and without gaps (`Tiles`).  What the map says about a point is `At`, a
relation because the list alone does not make it a function.

The operations such a map is edited with are the split of a piece in two
(`at_split`), the change of one piece's value, and the merge of two adjacent
pieces of equal value (`at_merge`); `Tiles` is kept by all three.
-/

import Mathlib.Algebra.GroupWithZero.Nat
import Mathlib.Algebra.Ring.Int.Defs
import Mathlib.Data.Nat.Notation
import Mathlib.Tactic.Tauto

namespace BoltsRebuilt

/-- The value `value` at every point from `first` up to `stop`, exclusive. -/
structure Piece (α : Type) where
  first : ℕ
  stop : ℕ
  value : α
deriving DecidableEq, Repr

namespace Piece

variable {α : Type} {ps qs : List (Piece α)} {p q : Piece α} {lo hi t : ℕ} {v : α}

/-- The value the pieces give to a point. -/
def At (ps : List (Piece α)) (t : ℕ) (v : α) : Prop :=
  ∃ p ∈ ps, (p.first ≤ t ∧ t < p.stop) ∧ p.value = v

/-- No pieces have no value anywhere. -/
@[simp] theorem at_nil : At ([] : List (Piece α)) t v ↔ False := by simp [At]

/-- A value is that of the first piece or of one of the others. -/
@[simp] theorem at_cons :
    At (p :: ps) t v ↔ ((p.first ≤ t ∧ t < p.stop) ∧ p.value = v) ∨ At ps t v := by
  simp [At]

/-- A value of two lists is one of either. -/
@[simp] theorem at_append : At (ps ++ qs) t v ↔ At ps t v ∨ At qs t v := by
  simp [At, or_and_right, exists_or]

/-- The order of the pieces does not matter to it. -/
@[simp] theorem at_reverse : At ps.reverse t v ↔ At ps t v := by simp [At]

/-- The pieces follow each other from `lo` to `hi`, none of them empty. -/
def Tiles (lo hi : ℕ) : List (Piece α) → Prop
  | [] => lo = hi
  | p :: ps => p.first = lo ∧ lo < p.stop ∧ Tiles p.stop hi ps

/-- No pieces tile nothing. -/
@[simp] theorem tiles_nil : Tiles lo hi ([] : List (Piece α)) ↔ lo = hi := .rfl

/-- Pieces tile from where the first begins, not empty, and the others from where it stops. -/
@[simp] theorem tiles_cons :
    Tiles lo hi (p :: ps) ↔ p.first = lo ∧ lo < p.stop ∧ Tiles p.stop hi ps := .rfl

/-- Two lists tile what the first does and, from there, what the second does. -/
theorem tiles_append : Tiles lo hi (ps ++ qs) ↔ ∃ mid, Tiles lo mid ps ∧ Tiles mid hi qs := by
  induction ps generalizing lo with
  | nil => simp
  | cons p ps ih =>
    simp only [List.cons_append, tiles_cons, ih]
    constructor
    · rintro ⟨hfirst, hstop, mid, hps, hqs⟩
      exact ⟨mid, ⟨hfirst, hstop, hps⟩, hqs⟩
    · rintro ⟨mid, ⟨hfirst, hstop, hps⟩, hqs⟩
      exact ⟨hfirst, hstop, mid, hps, hqs⟩

/-- Pieces that tile an extent do not end before it begins. -/
theorem Tiles.le (h : Tiles lo hi ps) : lo ≤ hi := by
  induction ps generalizing lo with
  | nil => exact Nat.le_of_eq h
  | cons p ps ih =>
    obtain ⟨-, hstop, hps⟩ := h
    have := ih hps
    omega

/-- Each piece lies inside what is tiled. -/
theorem Tiles.bounds (h : Tiles lo hi ps) (hp : p ∈ ps) :
    lo ≤ p.first ∧ p.first < p.stop ∧ p.stop ≤ hi := by
  induction ps generalizing lo with
  | nil => cases hp
  | cons q ps ih =>
    obtain ⟨hfirst, hstop, hps⟩ := h
    rcases List.mem_cons.mp hp with rfl | hp
    · exact ⟨Nat.le_of_eq hfirst.symm, by omega, hps.le⟩
    · obtain ⟨hlo, hne, hhi⟩ := ih hps hp
      exact ⟨by omega, hne, hhi⟩

/-- A piece gives its value to its first point. -/
theorem Tiles.at_first (h : Tiles lo hi ps) (hp : p ∈ ps) : At ps p.first p.value :=
  ⟨p, hp, ⟨Nat.le_refl _, (h.bounds hp).2.1⟩, rfl⟩

/-- And so does every place that has a value. -/
theorem Tiles.bounds_at (h : Tiles lo hi ps) (hat : At ps t v) : lo ≤ t ∧ t < hi := by
  obtain ⟨p, hp, ht, -⟩ := hat
  have := h.bounds hp
  omega

/-- Every point between the ends has a value, that of the piece it lies in. -/
theorem Tiles.exists_at (h : Tiles lo hi ps) (hlo : lo ≤ t) (hhi : t < hi) : ∃ v, At ps t v := by
  induction ps generalizing lo with
  | nil =>
    have : lo = hi := h
    omega
  | cons p ps ih =>
    obtain ⟨hfirst, -, hps⟩ := h
    rcases Nat.lt_or_ge t p.stop with hlt | hge
    · exact ⟨p.value, at_cons.2 (.inl ⟨by omega, rfl⟩)⟩
    · obtain ⟨v, hv⟩ := ih hps hge
      exact ⟨v, at_cons.2 (.inr hv)⟩

/-- And only one, since the pieces follow one another. -/
theorem Tiles.at_unique {w : α} (h : Tiles lo hi ps) (hv : At ps t v) (hw : At ps t w) : v = w := by
  induction ps generalizing lo with
  | nil => exact absurd hv (by simp)
  | cons p ps ih =>
    obtain ⟨-, -, hps⟩ := h
    rcases at_cons.1 hv with ⟨ht, hpv⟩ | hv
    · rcases at_cons.1 hw with ⟨-, hpw⟩ | hw
      · exact hpv.symm.trans hpw
      · have := hps.bounds_at hw
        omega
    · rcases at_cons.1 hw with ⟨ht, hpw⟩ | hw
      · have := hps.bounds_at hv
        omega
      · exact ih hps hv hw

/-- Cutting a piece at a point inside it changes nothing. -/
theorem at_split {cut : ℕ} (hfirst : p.first ≤ cut) (hstop : cut ≤ p.stop) :
    At [{ p with stop := cut }, { p with first := cut }] t v ↔ At [p] t v := by
  simp only [at_cons, at_nil, or_false]
  constructor
  · rintro (⟨ht, hv⟩ | ⟨ht, hv⟩)
    · exact ⟨by omega, hv⟩
    · exact ⟨by omega, hv⟩
  · rintro ⟨ht, hv⟩
    rcases Nat.lt_or_ge t cut with hlt | hge
    · exact .inl ⟨by omega, hv⟩
    · exact .inr ⟨by omega, hv⟩

/-- Two adjacent pieces of one value are one piece. -/
theorem at_merge (hp : p.first ≤ p.stop) (hq : q.first ≤ q.stop) (hadjacent : p.stop = q.first)
    (hvalue : p.value = q.value) : At [{ p with stop := q.stop }] t v ↔ At [p, q] t v := by
  simp only [at_cons, at_nil, or_false, ← hvalue]
  constructor
  · rintro ⟨ht, hv⟩
    rcases Nat.lt_or_ge t p.stop with hlt | hge
    · exact .inl ⟨by omega, hv⟩
    · exact .inr ⟨by omega, hv⟩
  · rintro (⟨ht, hv⟩ | ⟨ht, hv⟩)
    · exact ⟨by omega, hv⟩
    · exact ⟨by omega, hv⟩

end Piece

end BoltsRebuilt
