/-
# Updating one record of a list

A table of records changes one record at a time.  What a later argument reads of
the table is a view, one value a record: an update the view does not see leaves
it alone (`map_modify_of_eq`), and one that sets the record's view sets that
entry (`map_modify_of_const`).
-/

import Mathlib.Algebra.GroupWithZero.Nat
import Mathlib.Algebra.Ring.Int.Defs
import Mathlib.Data.List.Basic

namespace BoltsRebuilt
namespace Records

variable {α β : Type*} {f : α → β} {u : α → α}

/-- An update of one record that keeps the view leaves the views of all records as they are. -/
theorem map_modify_of_eq (h : ∀ x, f (u x) = f x) (l : List α) (i : ℕ) :
    (l.modify i u).map f = l.map f := by
  refine List.ext_getElem? fun j => ?_
  rw [List.getElem?_map, List.getElem?_map, List.getElem?_modify]
  cases l[j]? with
  | none => rfl
  | some x =>
      by_cases hij : i = j <;> simp [hij, h]

/-- An update that sets the view of one record sets it in the list of views. -/
theorem map_modify_of_const {l : List α} {i : ℕ} {b : β}
    (h : ∀ x, l[i]? = some x → f (u x) = b) : (l.modify i u).map f = (l.map f).set i b := by
  refine List.ext_getElem? fun j => ?_
  rw [List.getElem?_map, List.getElem?_set, List.getElem?_modify]
  by_cases hij : i = j
  · subst hij
    cases hx : l[i]? with
    | none => simp [List.getElem?_eq_none_iff.1 hx]
    | some x =>
        have hlt := (List.getElem?_eq_some_iff.1 hx).1
        simp [hlt, h x hx]
  · simp [hij]

end Records
end BoltsRebuilt
