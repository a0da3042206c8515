/-
# Things that are held until their users are through

Users are numbered and get through in order.  A ledger has, for every thing that is held
anywhere, the last user it may have; `Sound` says that nothing is held twice and that no
recorded use is later than that.  What is held up to a user that is through can be taken
again (`Sound.idle`).

`Sound.step` is the rule for whatever happens to a ledger: what is held afterwards was held
before, with no later last user, or has not been used at all, and new uses are within the
bounds.
-/

import Mathlib.Algebra.GroupWithZero.Nat
import Mathlib.Algebra.Ring.Int.Defs
import Mathlib.Data.List.Nodup
import Mathlib.Order.Basic

namespace BoltsRebuilt
namespace Ledger

variable {ι : Type*} {uses new : List (ℕ × ι)} {held held' : List (ι × ℕ)}

/-- No use of a thing is later than the last user it is held for. -/
structure Sound (uses : List (ℕ × ι)) (held : List (ι × ℕ)) : Prop where
  nodup : (held.map Prod.fst).Nodup
  bounded : ∀ x b, (x, b) ∈ held → ∀ n, (n, x) ∈ uses → n ≤ b

/-- An item that is held once is held up to one bound. -/
theorem unique (h : (held.map Prod.fst).Nodup) {x : ι} {b b' : ℕ} (hb : (x, b) ∈ held) (hb' : (x, b') ∈ held) :
    b = b' := by
  have hpair := List.inj_on_of_nodup_map h hb hb' rfl
  exact (Prod.mk.inj hpair).2

/-- **One step of a ledger**: bounds only rise, new uses are held beyond their number, and so every
use is still covered. -/
theorem Sound.step (h : Sound uses held) (hkeys : (held'.map Prod.fst).Nodup)
    (hheld : ∀ x b', (x, b') ∈ held' → (∃ b ≤ b', (x, b) ∈ held) ∨ ∀ n, (n, x) ∉ uses)
    (hnew : ∀ n x, (n, x) ∈ new → ∃ b ≥ n, (x, b) ∈ held') : Sound (new ++ uses) held' where
  nodup := hkeys
  bounded x b' hb' n hn := by
    rcases List.mem_append.1 hn with hn | hn
    · obtain ⟨b, hle, hb⟩ := hnew n x hn
      rw [unique hkeys hb' hb]
      exact hle
    · rcases hheld x b' hb' with ⟨b, hle, hb⟩ | hunused
      · exact (h.bounded x b hb n hn).trans hle
      · exact absurd hn (hunused n)

/-- What is held for users that are through is not used any more. -/
theorem Sound.idle (h : Sound uses held) {x : ι} {b through : ℕ} (hb : (x, b) ∈ held) (hle : b ≤ through) {n : ℕ}
    (hn : (n, x) ∈ uses) : n ≤ through :=
  (h.bounded x b hb n hn).trans hle

end Ledger
end BoltsRebuilt
