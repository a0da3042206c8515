/-
# Programs that read words one after another

`Reading S ρ` is the monad of programs over a state `S` and a reader `ρ`, which may fail
to return.  A `Source` says how a reader goes on to the next word, and when it has at
least `n` of them left.

The judgement `Takes src n k m` goes through such a program part by part: where `n` words
are left, the program moves the reader on by `k`.  It has a rule for `pure`, for the
primitives and for `>>=`, whose second part may ask for no more words than the first has
left (`Takes.bind`).  `advance_inj` says that a number of words within those left is a
matter of where the reader is.
-/

import Mathlib.Algebra.GroupWithZero.Nat
import Mathlib.Algebra.Ring.Int.Defs
import Mathlib.Logic.Function.Iterate

namespace BoltsRebuilt

/-- A program over the state `S` that reads words from `ρ`. -/
abbrev Reading (S ρ : Type) := StateT (S × ρ) Option

/-- A reader of words: its next place, and how many words are left. -/
structure Source (ρ : Type) where
  advance : ρ → ρ
  left : ρ → ℕ
  left_advance : ∀ r n, left r = n + 1 → left (advance r) = n

namespace Source

variable {ρ : Type} (src : Source ρ)

/-- Advancing `k` times leaves what is more than `k`. -/
theorem left_iterate {r : ρ} {n : ℕ} (k : ℕ) (h : n + k = src.left r) : src.left (src.advance^[k] r) = n := by
  induction k generalizing n with
  | zero => exact h.symm
  | succ k ih =>
    rw [Function.iterate_succ_apply']
    exact src.left_advance _ _ (ih (by omega))

/-- And at least what was known to be more. -/
theorem le_left_iterate {r : ρ} {n k : ℕ} (h : n ≤ src.left r) : n - k ≤ src.left (src.advance^[k] r) := by
  rcases Nat.le_total k (src.left r) with hk | hk
  · rw [src.left_iterate k (n := src.left r - k) (by omega)]
    omega
  · omega

/-- Within the words left, two places are one only if as many words were read. -/
theorem advance_inj {r : ρ} {a b : ℕ} (ha : a ≤ src.left r) (hb : b ≤ src.left r)
    (h : src.advance^[a] r = src.advance^[b] r) : a = b := by
  have hleft := congrArg src.left h
  rw [src.left_iterate a (n := src.left r - a) (by omega),
    src.left_iterate b (n := src.left r - b) (by omega)] at hleft
  omega

end Source

namespace Reading

variable {S ρ α β : Type} {src : Source ρ} {n k k' : ℕ}

/-- Look at the state. -/
def look : Reading S ρ S := fun s => some (s.1, s)

/-- Change the state. -/
def update (f : S → S) : Reading S ρ Unit := fun s => some ((), f s.1, s.2)

/-- Where `n` words are left, the program moves the reader on by `k` words. -/
def Takes (src : Source ρ) (n k : ℕ) (m : Reading S ρ α) : Prop :=
  ∀ s a s', n ≤ src.left s.2 → m s = some (a, s') → s'.2 = src.advance^[k] s.2

/-- A reading followed by another reads what both do. -/
theorem bind_eq_some {x : Reading S ρ α} {f : α → Reading S ρ β} {s : S × ρ} {r : β × S × ρ} :
    (x >>= f) s = some r ↔ ∃ a s', x s = some (a, s') ∧ f a s' = some r := by
  show (x s).bind (fun p => f p.1 p.2) = some r ↔ _
  rw [Option.bind_eq_some_iff]
  exact Prod.exists

/-- Returning takes nothing. -/
theorem Takes.pure (a : α) : Takes (S := S) src n 0 (pure a) := by
  rintro s _ _ - ⟨⟩
  rfl

/-- Looking at the state takes nothing. -/
theorem Takes.look : Takes (S := S) src n 0 look := by
  rintro s _ _ - ⟨⟩
  rfl

/-- Changing the state takes nothing from the reader, whatever the change. -/
theorem Takes.update (f : S → S) : Takes src n 0 (update f) := by
  rintro s _ _ - ⟨⟩
  rfl

/-- The count may be written differently. -/
theorem Takes.eq {m : Reading S ρ α} (h : Takes src n k m) (hk : k = k') : Takes src n k' m := hk ▸ h

/-- A program and then another, which may ask for what the first has left. -/
theorem Takes.bind {x : Reading S ρ α} {f : α → Reading S ρ β} (hx : Takes src n k x)
    (hf : ∀ a, Takes src (n - k) k' (f a)) : Takes src n (k + k') (x >>= f) := by
  intro s b s' hleft hs
  obtain ⟨a, t, ha, hb⟩ := bind_eq_some.1 hs
  have ht := hx s a t hleft ha
  have hleft' : n - k ≤ src.left t.2 := by
    rw [ht]
    exact src.le_left_iterate hleft
  rw [hf a t b s' hleft' hb, ht, ← Function.iterate_add_apply, Nat.add_comm k' k]

/-- A part that reads no words may stand in front of any other. -/
theorem Takes.step {x : Reading S ρ α} {f : α → Reading S ρ β} (hx : Takes src n 0 x)
    (hf : ∀ a, Takes src n k (f a)) : Takes src n k (x >>= f) :=
  (hx.bind hf).eq (Nat.zero_add k)

/-- Either branch of a test takes as many. -/
theorem Takes.ite {c : Prop} [Decidable c] {m m' : Reading S ρ α} (h : c → Takes src n k m)
    (h' : ¬c → Takes src n k m') : Takes src n k (if c then m else m') := by
  split
  · exact h ‹_›
  · exact h' ‹_›

end Reading
end BoltsRebuilt
