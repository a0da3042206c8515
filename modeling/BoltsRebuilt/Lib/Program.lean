/-
# Programs that share their state

A program is a sequence of atomic steps on a state that other parties change too:
each step waits for its guard, reads and writes the state, and the rest depends on
what it returned.  `Prog.Exec R` runs a program with any number of steps of `R` by the
others before each of its own; `Prog.run` runs it alone.

A run of a sequence is a run of its parts (`exec_bind`).  A program that only looks
leaves the state to the others (`Exec.reads`), a measure that grows with every step
bounds all that happened (`Exec.restrict`), and where no guard blocks the lone run is
one of the runs (`exec_run`).
-/

import Mathlib.Algebra.GroupWithZero.Nat
import Mathlib.Algebra.Ring.Int.Defs
import Mathlib.Logic.Relation
import Mathlib.Order.Basic
import Mathlib.Data.Nat.Init

namespace BoltsRebuilt

/-- A program over the shared state `σ` with a result in `α`. -/
inductive Prog (σ α : Type) : Type 1 where
  | ret (a : α)
  | act (β : Type) (guard : σ → Prop) (step : σ → β × σ) (next : β → Prog σ α)

namespace Prog

open Relation

variable {σ α β : Type}

/-- One program after another. -/
def bind : Prog σ α → (α → Prog σ β) → Prog σ β
  | ret a, f => f a
  | act γ guard step next, f => act γ guard step fun c => bind (next c) f

instance : Monad (Prog σ) where
  pure := ret
  bind := bind

/-- A single step. -/
def atomic (guard : σ → Prop) (step : σ → β × σ) : Prog σ β := act β guard step ret

/-- A step that looks at the state. -/
def read (look : σ → β) : Prog σ β := atomic (fun _ => True) fun s => (look s, s)

/-- A run among others that step by `R`. -/
inductive Exec (R : σ → σ → Prop) : Prog σ α → σ → α → σ → Prop
  | ret {a : α} {s : σ} : Exec R (.ret a) s a s
  | act {γ : Type} {guard : σ → Prop} {step : σ → γ × σ} {next : γ → Prog σ α} {s s' t : σ} {a : α}
      (others : ReflTransGen R s s') (free : guard s') (rest : Exec R (next (step s').1) (step s').2 a t) :
      Exec R (.act γ guard step next) s a t

/-- The run alone, guards aside. -/
def run : Prog σ α → σ → α × σ
  | ret a, s => (a, s)
  | act _ _ step next, s => run (next (step s).1) (step s).2

/-- Every step of the program has the property `P`. -/
def Each (P : (γ : Type) → (σ → Prop) → (σ → γ × σ) → Prop) : Prog σ α → Prop
  | ret _ => True
  | act γ guard step next => P γ guard step ∧ ∀ c, Each P (next c)

variable {R : σ → σ → Prop} {P : (γ : Type) → (σ → Prop) → (σ → γ × σ) → Prop}
  {p : Prog σ α} {f : α → Prog σ β} {s t u : σ} {a c : α} {b : β}

/-- A program that returns at once does nothing. -/
@[simp] theorem exec_pure : Exec R (pure a : Prog σ α) s c t ↔ c = a ∧ t = s := by
  constructor
  · intro h
    cases h
    exact ⟨rfl, rfl⟩
  · rintro ⟨rfl, rfl⟩
    exact .ret

/-- A sequence runs part by part: the second part starts in a state where the first has ended. -/
theorem exec_bind : Exec R (p >>= f) s b u ↔ ∃ a t, Exec R p s a t ∧ Exec R (f a) t b u := by
  show Exec R (p.bind f) s b u ↔ _
  constructor
  · intro h
    induction p generalizing s with
    | ret a => exact ⟨a, s, .ret, h⟩
    | act γ guard step next ih =>
        cases h with
        | act hothers hfree hrest =>
          obtain ⟨a, t, hfirst, hsecond⟩ := ih _ hrest
          exact ⟨a, t, .act hothers hfree hfirst, hsecond⟩
  · rintro ⟨a, t, hfirst, hsecond⟩
    induction hfirst with
    | ret => exact hsecond
    | act hothers hfree _ ih => exact .act hothers hfree (ih hsecond)

/-- An atomic step is made when its guard holds, after others have run. -/
theorem exec_atomic {guard : σ → Prop} {step : σ → α × σ} :
    Exec R (atomic guard step) s a t ↔
      ∃ s', ReflTransGen R s s' ∧ guard s' ∧ a = (step s').1 ∧ t = (step s').2 := by
  constructor
  · intro h
    cases h with
    | act hothers hfree hrest =>
      obtain ⟨rfl, rfl⟩ := exec_pure.1 hrest
      exact ⟨_, hothers, hfree, rfl, rfl⟩
  · rintro ⟨s', hothers, hfree, rfl, rfl⟩
    exact .act hothers hfree .ret

/-- A read looks at the state after others have run. -/
theorem exec_read {look : σ → α} :
    Exec R (read look) s a t ↔ ReflTransGen R s t ∧ a = look t := by
  rw [read, exec_atomic]
  constructor
  · rintro ⟨s', hothers, -, rfl, rfl⟩
    exact ⟨hothers, rfl⟩
  · rintro ⟨hothers, rfl⟩
    exact ⟨t, hothers, trivial, rfl, rfl⟩

/-- A program followed by another has the steps of both. -/
theorem Each.bind (hp : p.Each P) (hf : ∀ a, (f a).Each P) : (p >>= f).Each P := by
  show (p.bind f).Each P
  induction p with
  | ret a => exact hf a
  | act γ guard step next ih => exact ⟨hp.1, fun c => ih c (hp.2 c)⟩

/-- A measure that no step lowers bounds every step of a run that ends below the bound. -/
theorem restrict {m : σ → ℕ} {n : ℕ} (hR : ∀ s t, R s t → m s ≤ m t) (h : ReflTransGen R s t)
    (ht : m t < n) : ReflTransGen (fun s t => R s t ∧ m t < n) s t ∧ m s ≤ m t := by
  induction h with
  | refl => exact ⟨.refl, Nat.le_refl _⟩
  | tail _ hstep ih =>
      have hle := hR _ _ hstep
      obtain ⟨hrun, hbefore⟩ := ih (by omega)
      exact ⟨hrun.tail ⟨hstep, ht⟩, by omega⟩

/-- So it does when the program leaves it alone. -/
theorem Exec.restrict {m : σ → ℕ} {n : ℕ} (hR : ∀ s t, R s t → m s ≤ m t)
    (hp : p.Each fun _ _ step => ∀ s, m (step s).2 = m s) (h : Exec R p s a t) (ht : m t < n) :
    Exec (fun s t => R s t ∧ m t < n) p s a t ∧ m s ≤ m t := by
  induction h with
  | ret => exact ⟨.ret, Nat.le_refl _⟩
  | act hs hfree _ ih =>
      obtain ⟨hrest, hle⟩ := ih (hp.2 _) ht
      rw [hp.1] at hle
      obtain ⟨hrun, hbefore⟩ := Prog.restrict hR hs (Nat.lt_of_le_of_lt hle ht)
      exact ⟨.act hrun hfree hrest, by omega⟩

/-- Where what holds of the state opens every guard, the run alone is a run. -/
theorem exec_run {I : σ → Prop}
    (hp : p.Each fun _ guard step => ∀ s, I s → guard s ∧ I (step s).2) (hs : I s) :
    Exec R p s (p.run s).1 (p.run s).2 := by
  induction p generalizing s with
  | ret a => exact .ret
  | act γ guard step next ih =>
      obtain ⟨hguard, hkeep⟩ := hp.1 s hs
      exact .act .refl hguard (ih _ (hp.2 _) hkeep)

/-- Alone, a program that returns at once changes nothing. -/
@[simp] theorem run_pure : (pure a : Prog σ α).run s = (a, s) := rfl

/-- Alone, the second program runs from where the first ends. -/
@[simp] theorem run_bind : (p >>= f).run s = (f (p.run s).1).run (p.run s).2 := by
  show (p.bind f).run s = _
  induction p generalizing s with
  | ret a => rfl
  | act γ guard step next ih => exact ih _

/-- Alone, a program that changes nothing ends where it began. -/
theorem run_reads (hp : p.Each fun _ _ step => ∀ s, (step s).2 = s) : (p.run s).2 = s := by
  induction p generalizing s with
  | ret a => rfl
  | act γ guard step next ih =>
      have hrest := ih (step s).1 (hp.2 _) (s := (step s).2)
      exact hrest.trans (hp.1 s)

/-- Alone, a read looks at the state as it is. -/
@[simp] theorem run_read {look : σ → α} : (read look).run s = (look s, s) := rfl

/-- Alone, an atomic step is its step. -/
@[simp] theorem run_atomic {guard : σ → Prop} {step : σ → α × σ} :
    (atomic guard step).run s = step s := rfl

end Prog
end BoltsRebuilt
