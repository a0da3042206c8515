/-
# Computations that may fail

A function of the source that throws, or returns a failure its caller passes on,
is an `Except` here.  `bind_eq_ok` takes such a computation apart: it returned,
so its first part returned and then its second.
-/

import Mathlib.Algebra.GroupWithZero.Nat
import Mathlib.Algebra.Ring.Int.Defs
import Mathlib.Data.List.Forall2

namespace BoltsRebuilt
namespace Fallible

variable {ε α β : Type*}

/-- A step followed by another succeeds when both do. -/
theorem bind_eq_ok {a : Except ε α} {f : α → Except ε β} {x : β} :
    a.bind f = .ok x ↔ ∃ y, a = .ok y ∧ f y = .ok x := by
  cases a with
  | error m => exact ⟨nofun, nofun⟩
  | ok y => exact ⟨fun h => ⟨y, rfl, h⟩, fun ⟨_, hy, h⟩ => by cases hy; exact h⟩

end Fallible
end BoltsRebuilt
