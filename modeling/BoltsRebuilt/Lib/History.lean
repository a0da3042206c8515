/-
# Histories of calls

An object takes calls one after another, and its state after a history is a fold.
`Along` says that every call of a history has a property at the state it meets.

`made_and_kept` reads a fact about the last state back into the history: where a
call either makes a fact or keeps it from the state before, a fact that holds at
the end was made by one call and kept by every later one.
-/

import Mathlib.Algebra.GroupWithZero.Nat
import Mathlib.Algebra.Ring.Int.Defs
import Mathlib.Data.List.Induction

namespace BoltsRebuilt
namespace History

variable {σ ε : Type*} {step : σ → ε → σ} {Q : σ → ε → Prop} {I P : σ → Prop}

/-- Every call of a history has `Q` at the state it meets. -/
def Along (step : σ → ε → σ) (Q : σ → ε → Prop) : σ → List ε → Prop
  | _, [] => True
  | s, e :: es => Q s e ∧ Along step Q (step s e) es

instance decidableAlong [∀ s e, Decidable (Q s e)] : ∀ s es, Decidable (Along step Q s es)
  | _, [] => inferInstanceAs (Decidable True)
  | s, e :: es => @instDecidableAnd _ _ _ (decidableAlong (step s e) es)

/-- What holds along a history holds along all but its last event, and at that event. -/
theorem along_concat (s : σ) (es : List ε) (e : ε) :
    Along step Q s (es ++ [e]) ↔ Along step Q s es ∧ Q (es.foldl step s) e := by
  induction es generalizing s with
  | nil =>
      rw [List.nil_append, Along, Along, Along, List.foldl_nil, and_comm]
  | cons e' es ih => rw [List.cons_append, Along, Along, ih, List.foldl_cons, and_assoc]

/-- What holds at the start and survives every call holds at the end. -/
theorem invariant (hstep : ∀ s e, I s → I (step s e)) {s : σ} (h : I s) (es : List ε) :
    I (es.foldl step s) := by
  induction es generalizing s with
  | nil => exact h
  | cons e es ih => exact ih (hstep s e h)

/-- An event of a history and one more is that one, or an earlier one. -/
theorem concat_eq_split {es before after : List ε} {e x : ε} (h : es ++ [e] = before ++ x :: after) :
    (es = before ∧ e = x ∧ after = []) ∨
      ∃ after', es = before ++ x :: after' ∧ after = after' ++ [e] := by
  rcases List.eq_nil_or_concat after with rfl | ⟨after', last, rfl⟩
  · obtain ⟨hes, hlast⟩ := List.append_inj' h rfl
    exact .inl ⟨hes, by simpa using hlast, rfl⟩
  · have h' : es ++ [e] = (before ++ x :: after') ++ [last] := by simpa using h
    obtain ⟨hes, hlast⟩ := List.append_inj' h' rfl
    obtain rfl : e = last := by simpa using hlast
    exact .inr ⟨after', hes, List.concat_eq_append⟩

/-- **A fact at the end of a history was made and kept.** -/
theorem made_and_kept {Makes Keeps : σ → ε → Prop} (hinvariant : ∀ s e, I s → I (step s e))
    (hstep : ∀ s e, I s → P (step s e) → Makes s e ∨ P s ∧ Keeps s e) {s : σ} {es : List ε}
    (hI : I s) (h : P (es.foldl step s)) :
    P s ∧ Along step Keeps s es ∨ ∃ before e after, es = before ++ e :: after ∧
      Makes (before.foldl step s) e ∧
      Along step Keeps (step (before.foldl step s) e) after := by
  induction es using List.reverseRecOn with
  | nil => exact .inl ⟨h, trivial⟩
  | append_singleton es e ih =>
      rw [List.foldl_append] at h
      rcases hstep _ e (invariant hinvariant hI es) h with hmakes | ⟨hbefore, hkeeps⟩
      · exact .inr ⟨es, e, [], rfl, hmakes, trivial⟩
      · rcases ih hbefore with ⟨hs, halong⟩ | ⟨before, e', after, rfl, hmakes, halong⟩
        · exact .inl ⟨hs, (along_concat s es e).2 ⟨halong, hkeeps⟩⟩
        · rw [List.foldl_append] at hkeeps
          exact .inr ⟨before, e', after ++ [e], by simp, hmakes, (along_concat ..).2 ⟨halong, hkeeps⟩⟩

end History
end BoltsRebuilt
