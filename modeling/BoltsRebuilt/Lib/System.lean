/-
# Transition systems and their invariants

A system is a set of initial states and a step relation; its reachable states
are those a run of steps leads to from an initial one.

`System.Reachable.invariant` is the induction over a run: what holds initially
and survives a step holds in every reachable state.  Where a statement speaks of
instants, a `System.Run` gives the state at each, and `Run.between` is the
induction from one instant to a later one.
-/

import Mathlib.Algebra.GroupWithZero.Nat
import Mathlib.Algebra.Ring.Int.Defs
import Mathlib.Logic.Relation
import Mathlib.Order.Basic
import Mathlib.Data.Nat.Init

namespace BoltsRebuilt

/-- Initial states and a step relation. -/
structure System (σ : Type*) where
  init : σ → Prop
  step : σ → σ → Prop

namespace System

variable {σ : Type*} {S : System σ} {I : σ → Prop} {s t : σ}

/-- The states a run leads to. -/
def Reachable (S : System σ) (s : σ) : Prop := ∃ s₀, S.init s₀ ∧ Relation.ReflTransGen S.step s₀ s

/-- An initial state is reachable. -/
theorem Reachable.of_init (h : S.init s) : S.Reachable s := ⟨s, h, .refl⟩

/-- And so is what a reachable state steps to. -/
theorem Reachable.tail (h : S.Reachable s) (hstep : S.step s t) : S.Reachable t := by
  obtain ⟨s₀, h₀, hrun⟩ := h
  exact ⟨s₀, h₀, hrun.tail hstep⟩

/-- `I` holds initially and survives every step. -/
structure Inductive (S : System σ) (I : σ → Prop) : Prop where
  init : ∀ s, S.init s → I s
  step : ∀ s t, I s → S.step s t → I t

/-- **Invariants.**  An inductive property holds in every reachable state. -/
theorem Reachable.invariant (hI : S.Inductive I) (h : S.Reachable s) : I s := by
  obtain ⟨s₀, h₀, hrun⟩ := h
  induction hrun with
  | refl => exact hI.init _ h₀
  | tail _ hstep ih => exact hI.step _ _ ih hstep

/-- A run: the state at each instant.  It may stand still. -/
structure Run (S : System σ) where
  state : ℕ → σ
  init : S.init (state 0)
  step : ∀ i, state (i + 1) = state i ∨ S.step (state i) (state (i + 1))

/-- And so is every state of a run. -/
theorem Run.reachable (r : S.Run) (i : ℕ) : S.Reachable (r.state i) := by
  induction i with
  | zero => exact .of_init r.init
  | succ i ih =>
      rcases r.step i with hstill | hstep
      · rwa [hstill]
      · exact ih.tail hstep

/-- What holds at one instant and survives the steps up to another holds there. -/
theorem Run.between (r : S.Run) {i j : ℕ} (hij : i ≤ j) (hi : I (r.state i))
    (hstep : ∀ k, i ≤ k → k < j → I (r.state k) → S.step (r.state k) (r.state (k + 1)) →
      I (r.state (k + 1))) : I (r.state j) := by
  induction j, hij using Nat.le_induction with
  | base => exact hi
  | succ j hij ih =>
      have hj := ih fun k hik hkj => hstep k hik (by omega)
      rcases r.step j with hstill | hs
      · rwa [hstill]
      · exact hstep j hij (by omega) hj hs

end System
end BoltsRebuilt
