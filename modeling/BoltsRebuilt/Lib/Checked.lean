/-
# Access to bytes that is checked

`read` gives the bytes of a window of a byte string and `write` stores bytes in a
window of a memory; both fail with a given error where the access is not inside.
`Inside` says that a computation fails in no bad way, and what holds of its result
when it returns: where an access outside is bad, a program proved so has made none.

`slice` is what a read that does not fail gives; slices of adjacent windows join
(`slice_append`), and the bytes of a word are the slice it was read from
(`le_word`).
-/

import BoltsRebuilt.Lib.Bytes
import Mathlib.Data.Nat.Notation
import Mathlib.Tactic.TypeStar

namespace BoltsRebuilt
namespace Checked

universe u

variable {ε δ : Type*} {α β : Type u}

/-- A failure that is an access outside. -/
inductive Fault
  | outside

/-! ### Accesses -/

/-- The bytes of a window. -/
def slice (p : List UInt8) (offset n : ℕ) : List UInt8 := (p.drop offset).take n

/-- The bytes of a window, if it lies inside. -/
def read (outside : ε) (p : List UInt8) (offset n : ℕ) : Except ε (List UInt8) :=
  if offset + n ≤ p.length then .ok (slice p offset n) else .error outside

/-- The little endian word that the slice at an offset spells. -/
def word (p : List UInt8) (offset : ℕ) : UInt32 := UInt32.ofNat (ofLe (slice p offset 4))

/-- The memory with `data` at `a + offset`, if that lies inside the `size` bytes from `a`. -/
def write (outside : ε) (a size : ℕ) (m : Bytes) (offset : ℕ) (data : List UInt8) : Except ε Bytes :=
  if offset + data.length ≤ size then .ok (m.store (a + offset) data) else .error outside

/-! ### Slices -/

section Slices

variable {p : List UInt8} {offset n : ℕ}

/-- A slice inside the bytes has its length. -/
theorem length_slice (h : offset + n ≤ p.length) : (slice p offset n).length = n := by
  rw [slice, List.length_take, List.length_drop]
  omega

/-- Adjacent windows of the bytes make one window of both lengths. -/
theorem slice_append (p : List UInt8) (offset a b : ℕ) :
    slice p offset a ++ slice p (offset + a) b = slice p offset (a + b) := by
  rw [slice, slice, slice, List.take_add, List.drop_drop]

/-- The window from an offset to the end. -/
theorem slice_rest (p : List UInt8) (offset : ℕ) :
    slice p offset (p.length - offset) = p.drop offset := by
  rw [slice, ← List.length_drop, List.take_length]

/-- The bytes of a word are the window it was read from. -/
theorem le_word (h : offset + 4 ≤ p.length) : le 4 (word p offset).toNat = slice p offset 4 := by
  have hlength := length_slice h
  have hlt : ofLe (slice p offset 4) < 2 ^ 32 := by
    have hlt := ofLe_lt (slice p offset 4)
    rwa [hlength] at hlt
  rw [word, UInt32.toNat_ofNat_of_lt' hlt, le_ofLe hlength]

end Slices

/-! ### Programs that stay inside -/

/-- The computation does not fail in a bad way, and what it returns has `P`. -/
def Inside (bad : ε → Prop) (P : α → Prop) : Except ε α → Prop
  | .ok x => P x
  | .error e => ¬bad e

variable {bad : ε → Prop} {P Q : α → Prop} {R : β → Prop} {a : Except ε α} {f : α → Except ε β}

/-- What holds of the result may be weakened. -/
theorem Inside.mono (h : Inside bad P a) (himp : ∀ x, P x → Q x) : Inside bad Q a := by
  cases a with
  | error _ => exact h
  | ok x => exact himp x h

/-- A computation followed by another stays inside when both do. -/
theorem Inside.bind (h : Inside bad P a) (hf : ∀ x, P x → Inside bad R (f x)) :
    Inside bad R (a >>= f) := by
  cases a with
  | error _ => exact h
  | ok x => exact hf x h

/-- Renaming the errors renames which are bad. -/
theorem Inside.mapError {worse : δ → Prop} {g : ε → δ} (h : Inside bad P a)
    (hg : ∀ e, worse (g e) → bad e) : Inside worse P (a.mapError g) := by
  cases a with
  | error e => exact fun hworse => h (hg e hworse)
  | ok x => exact h

/-- So no error is a bad one. -/
theorem Inside.not_bad {e : ε} (h : Inside bad P a) (he : a = .error e) : ¬bad e := by
  subst he
  exact h

/-- And a result has what was promised of it. -/
theorem Inside.of_eq_ok {x : α} (h : Inside bad P a) (hx : a = .ok x) : P x := by
  subst hx
  exact h

/-- Where every failure is bad, a computation that stays inside returns. -/
theorem Inside.exists_ok (h : Inside (fun _ => True) P a) : ∃ x, a = .ok x ∧ P x := by
  cases a with
  | error _ => exact absurd trivial h
  | ok x => exact ⟨x, rfl, h⟩

/-- A read whose window lies inside the bytes is no access outside, and returns the window. -/
theorem inside_read {outside : ε} {p : List UInt8} {offset n : ℕ} (h : offset + n ≤ p.length) :
    Inside bad (· = slice p offset n) (read outside p offset n) := by
  rw [read, if_pos h]
  rfl

/-- A write whose window lies inside the buffer is no access outside, and stores the data there. -/
theorem inside_write {outside : ε} {b size offset : ℕ} {m : Bytes} {data : List UInt8}
    (h : offset + data.length ≤ size) :
    Inside bad (· = m.store (b + offset) data) (write outside b size m offset data) := by
  rw [write, if_pos h]
  rfl

/-- A loop whose rounds keep an invariant that knows what was done. -/
theorem inside_foldlM {γ : Type*} {g : β → γ → Except ε β} {I : List γ → β → Prop} {l : List γ}
    (hround : ∀ done x rest b, l = done ++ x :: rest → I done b →
      Inside bad (I (done ++ [x])) (g b x)) {b : β} (h : I [] b) :
    Inside bad (I l) (l.foldlM g b) := by
  suffices hrun : ∀ rest done b, l = done ++ rest → I done b → Inside bad (I l) (rest.foldlM g b) from
    hrun l [] b rfl h
  intro rest
  induction rest with
  | nil =>
      intro done b hl hI
      rw [List.append_nil] at hl
      rw [List.foldlM_nil, hl]
      exact hI
  | cons x rest ih =>
      intro done b hl hI
      rw [List.foldlM_cons]
      exact (hround done x rest b hl hI).bind fun b' hb' => ih (done ++ [x]) b' (by simp [hl]) hb'

end Checked
end BoltsRebuilt
