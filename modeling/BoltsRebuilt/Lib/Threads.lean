/-
# Threads that share a state

A `Routine` is what one thread does: operations one after another, each answered
by a reply that decides what follows.  A `Machine` says what an operation does to
the shared state.  It is a function of a fate, which stands for everything the
thread does not control (whether the operation fails, how much of it is done), so
that a run of a pool of threads is a fold over its events and can be evaluated.

The proofs go thread by thread.  `Ensures G A i p Q s` says that thread `i`, having
`p` left to do at `s`, changes the state by `G i` only and ends with `Q`, whatever
the other threads do by their own `G` in between, as long as its replies are ones
`A` accepts.  It is closed under what others do, so the facts it starts from need
to be `Stable` only, and it says what a routine does by itself too
(`Ensures.alone`).  `Sound.run` puts the threads together, and `Tracked.run`
follows one of them from the moment another fact holds.
-/

import Mathlib.Algebra.GroupWithZero.Nat
import Mathlib.Algebra.Ring.Int.Defs
import Mathlib.Logic.Relation
import Mathlib.Logic.Function.Basic
import Mathlib.Data.Nat.Init

namespace BoltsRebuilt

/-- Operations one after another; what follows depends on the replies. -/
inductive Routine (Op : Type) (Reply : Op → Type) (α : Type) : Type where
  | ret (a : α)
  | call (op : Op) (next : Reply op → Routine Op Reply α)

namespace Routine

variable {Op : Type} {Reply : Op → Type} {α β : Type}

/-- One routine after another. -/
def bind : Routine Op Reply α → (α → Routine Op Reply β) → Routine Op Reply β
  | ret a, f => f a
  | call op next, f => call op fun r => bind (next r) f

instance : Monad (Routine Op Reply) where
  pure := ret
  bind := bind

/-- A single operation. -/
def op (o : Op) : Routine Op Reply (Reply o) := call o ret

/-- Every operation of a routine has the property `T`. -/
def Each (T : Op → Prop) : Routine Op Reply α → Prop
  | ret _ => True
  | call op next => T op ∧ ∀ r, Each T (next r)

/-- A routine followed by another has the operations of both. -/
theorem Each.bind {T : Op → Prop} {p : Routine Op Reply α} {f : α → Routine Op Reply β}
    (hp : p.Each T) (hf : ∀ a, (f a).Each T) : (p >>= f).Each T := by
  show (p.bind f).Each T
  induction p with
  | ret a => exact hf a
  | call op next ih => exact ⟨hp.1, fun r => ih r (hp.2 r)⟩

/-- A routine whose first operation has the property, and what follows it as well, has it
throughout. -/
theorem each_op {T : Op → Prop} {o : Op} {f : Reply o → Routine Op Reply α} (ho : T o)
    (hf : ∀ r, (f r).Each T) : (op o >>= f).Each T :=
  ⟨ho, hf⟩

end Routine

/-- What an operation of thread `i` does to the shared state, and what else happens to it. -/
structure Machine (ι Op : Type) (Reply : Op → Type) (Fate Env σ : Type) where
  perform : ι → (op : Op) → Fate → σ → Reply op × σ
  outside : Env → σ → σ

/-- A thread that was started: what it has left to do, and the replies it has had. -/
structure Thread (Op : Type) (Reply : Op → Type) (α : Type) where
  rest : Routine Op Reply α
  replies : List ((op : Op) × Reply op)

/-- The shared state and the threads that were started. -/
structure Pool (ι Op : Type) (Reply : Op → Type) (σ α : Type) where
  shared : σ
  thread : ι → Option (Thread Op Reply α)

/-- A thread starts, a thread takes its next operation, something else happens. -/
inductive Event (ι Fate Env : Type)
  | start (i : ι)
  | act (i : ι) (fate : Fate)
  | outside (e : Env)

namespace Machine

open Relation

variable {ι Op : Type} {Reply : Op → Type} {Fate Env σ α β : Type}

/-- One event of a pool in which thread `i` runs `program i`. -/
def step [DecidableEq ι] (m : Machine ι Op Reply Fate Env σ) (program : ι → Routine Op Reply α)
    (c : Pool ι Op Reply σ α) : Event ι Fate Env → Pool ι Op Reply σ α
  | .start i =>
    match c.thread i with
    | none => { c with thread := Function.update c.thread i (some ⟨program i, []⟩) }
    | some _ => c
  | .act i fate =>
    match c.thread i with
    | some ⟨.call op next, replies⟩ =>
      let (r, s) := m.perform i op fate c.shared
      ⟨s, Function.update c.thread i (some ⟨next r, replies ++ [⟨op, r⟩]⟩)⟩
    | _ => c
  | .outside e => { c with shared := m.outside e c.shared }

/-- Thread `i` has returned `a`. -/
def Returned (c : Pool ι Op Reply σ α) (i : ι) (a : α) : Prop :=
  ∃ replies, c.thread i = some ⟨.ret a, replies⟩

variable (m : Machine ι Op Reply Fate Env σ) (G : ι → σ → σ → Prop)

/-- What may happen between two operations of thread `i`. -/
def Others (i : ι) (s t : σ) : Prop := (∃ j, j ≠ i ∧ G j s t) ∨ ∃ e, t = m.outside e s

/-- Thread `i` with `p` left to do keeps to `G i` and ends with `Q`. -/
def Ensures (A : (op : Op) → Reply op → Prop) (i : ι) :
    Routine Op Reply α → (α → σ → Prop) → σ → Prop
  | .ret a, Q, s => ∀ t, ReflTransGen (m.Others G i) s t → Q a t
  | .call op next, Q, s => ∀ t, ReflTransGen (m.Others G i) s t → ∀ fate,
      A op (m.perform i op fate t).1 →
        G i t (m.perform i op fate t).2 ∧
          Ensures A i (next (m.perform i op fate t).1) Q (m.perform i op fate t).2

/-- What the others cannot end. -/
def Stable (i : ι) (P : σ → Prop) : Prop := ∀ s t, m.Others G i s t → P s → P t

variable {m G} {A : (op : Op) → Reply op → Prop} {i : ι} {P P₁ P₂ : σ → Prop} {s t : σ}
  {p : Routine Op Reply α} {Q Q' : α → σ → Prop}

/-- What is stable under the others stays true through any run of theirs. -/
theorem Stable.run (hP : m.Stable G i P) (hrun : ReflTransGen (m.Others G i) s t) (hs : P s) :
    P t := by
  induction hrun with
  | refl => exact hs
  | tail _ hstep ih => exact hP _ _ hstep ih

/-- Two stable facts are stable together. -/
theorem Stable.and (h₁ : m.Stable G i P₁) (h₂ : m.Stable G i P₂) :
    m.Stable G i fun s => P₁ s ∧ P₂ s :=
  fun s t hst h => ⟨h₁ s t hst h.1, h₂ s t hst h.2⟩

/-- What does not depend on the state is stable. -/
theorem stable_const (b : Prop) : m.Stable G i fun _ => b := fun _ _ _ h => h

/-- The others may go on before the thread does. -/
theorem Ensures.others (h : m.Ensures G A i p Q s) (hrun : ReflTransGen (m.Others G i) s t) :
    m.Ensures G A i p Q t := by
  cases p with
  | ret a => exact fun u hu => h u (hrun.trans hu)
  | call op next => exact fun u hu => h u (hrun.trans hu)

/-- What a routine ensures may be weakened to what follows from it. -/
theorem Ensures.mono (h : m.Ensures G A i p Q s) (hQ : ∀ a s, Q a s → Q' a s) :
    m.Ensures G A i p Q' s := by
  induction p generalizing s with
  | ret a => exact fun t ht => hQ _ _ (h t ht)
  | call op next ih =>
      intro t ht fate hA
      obtain ⟨hG, hrest⟩ := h t ht fate hA
      exact ⟨hG, ih _ hrest⟩

/-- A routine that returns at once ensures what holds already and stays so. -/
theorem ensures_pure {a : α} (hP : m.Stable G i P) (hs : P s) (hQ : ∀ s, P s → Q a s) :
    m.Ensures G A i (pure a) Q s :=
  fun _ ht => hQ _ (hP.run ht hs)

/-- The first operation is performed at a state where what was stable still holds. -/
theorem ensures_op {o : Op} {f : Reply o → Routine Op Reply α} (hP : m.Stable G i P) (hs : P s)
    (h : ∀ s fate, P s → A o (m.perform i o fate s).1 → G i s (m.perform i o fate s).2 ∧
      m.Ensures G A i (f (m.perform i o fate s).1) Q (m.perform i o fate s).2) :
    m.Ensures G A i (Routine.op o >>= f) Q s :=
  fun t ht fate hA => h t fate (hP.run ht hs) hA

/-- The rule for a routine followed by another. -/
theorem ensures_bind {f : α → Routine Op Reply β} {Q' : β → σ → Prop}
    (h : m.Ensures G A i p Q s) (hf : ∀ a s, Q a s → m.Ensures G A i (f a) Q' s) :
    m.Ensures G A i (p >>= f) Q' s := by
  show m.Ensures G A i (p.bind f) Q' s
  induction p generalizing s with
  | ret a => exact hf _ _ (h s .refl)
  | call op next ih =>
      intro t ht fate hA
      obtain ⟨hG, hrest⟩ := h t ht fate hA
      exact ⟨hG, ih _ hrest⟩

/-! ### A routine by itself -/

/-- A routine run by itself, each operation with the next fate: its result and last state, and the
replies it had. -/
def alone (m : Machine ι Op Reply Fate Env σ) (i : ι) (fates : ℕ → Fate) :
    Routine Op Reply α → ℕ → σ → (α × σ) × List ((op : Op) × Reply op)
  | .ret a, _, s => ((a, s), [])
  | .call op next, n, s =>
    let first := m.perform i op (fates n) s
    let rest := alone m i fates (next first.1) (n + 1) first.2
    (rest.1, ⟨op, first.1⟩ :: rest.2)

/-- What a routine ensures among others it does by itself. -/
theorem Ensures.alone {fates : ℕ → Fate} {n : ℕ} (h : m.Ensures G A i p Q s)
    (hreplies : ∀ e ∈ (m.alone i fates p n s).2, A e.1 e.2) :
    Q (m.alone i fates p n s).1.1 (m.alone i fates p n s).1.2 := by
  induction p generalizing s n with
  | ret a => exact h s .refl
  | call op next ih =>
      have hfirst := hreplies _ (List.mem_cons_self ..)
      obtain ⟨-, hrest⟩ := h s .refl (fates n) hfirst
      exact ih _ hrest fun e he => hreplies e (List.mem_cons_of_mem _ he)

/-- Where each operation of a routine has an accepted reply, all its replies are accepted. -/
theorem alone_accepts {fates : ℕ → Fate} {n : ℕ} {T : Op → Prop}
    (hstep : ∀ op n s, T op → P s →
      A op (m.perform i op (fates n) s).1 ∧ P (m.perform i op (fates n) s).2)
    (hp : p.Each T) (hs : P s) : ∀ e ∈ (m.alone i fates p n s).2, A e.1 e.2 := by
  induction p generalizing s n with
  | ret a => exact nofun
  | call op next ih =>
      obtain ⟨hA, hs⟩ := hstep op n s hp.1 hs
      intro e he
      rcases List.mem_cons.1 he with rfl | he
      · exact hA
      · exact ih _ (hp.2 _) hs e he

/-! ### A pool of threads -/

variable {program : ι → Routine Op Reply α} {c : Pool ι Op Reply σ α}

/-- Thread `i` is idle while `P` holds, or on its way to `Q`. -/
def Tracked (m : Machine ι Op Reply Fate Env σ) (G : ι → σ → σ → Prop)
    (A : (op : Op) → Reply op → Prop) (i : ι) (P : σ → Prop) (Q : α → σ → Prop)
    (c : Pool ι Op Reply σ α) : Prop :=
  (c.thread i = none → P c.shared) ∧
    ∀ r, c.thread i = some r → (∀ e ∈ r.replies, A e.1 e.2) → m.Ensures G A i r.rest Q c.shared

/-- Every thread is on its way to what it promises. -/
def Sound (m : Machine ι Op Reply Fate Env σ) (G : ι → σ → σ → Prop) (P : σ → Prop)
    (Q : ι → α → σ → Prop) (c : Pool ι Op Reply σ α) : Prop :=
  P c.shared ∧ ∀ i, Tracked m G (fun _ _ => True) i P (Q i) c

variable {Q : ι → α → σ → Prop} {T : α → σ → Prop} {P₀ : σ → Prop}

/-- The promises of the threads as a whole: what all keep, and what each program ensures. -/
structure Promises (m : Machine ι Op Reply Fate Env σ) (G : ι → σ → σ → Prop)
    (program : ι → Routine Op Reply α) (P : σ → Prop) (Q : ι → α → σ → Prop) : Prop where
  keeps : ∀ i s t, G i s t → P s → P t
  outside : ∀ e s, P s → P (m.outside e s)
  program : ∀ i s, P s → m.Ensures G (fun _ _ => True) i (program i) (Q i) s

/-- What a thread relies on is stable under the others. -/
theorem Promises.stable (h : Promises m G program P Q) : m.Stable G i P := by
  rintro s t (⟨j, -, hG⟩ | ⟨e, rfl⟩) hs
  · exact h.keeps j s t hG hs
  · exact h.outside e s hs

/-- A pool in which nothing was started yet is sound where `P` holds. -/
theorem Sound.idle (hs : P c.shared) (hidle : ∀ i, c.thread i = none) : Sound m G P Q c :=
  ⟨hs, fun i => ⟨fun _ => hs, fun r hr => by simp [hidle i] at hr⟩⟩

/-- A thread that has returned ends with what it promised. -/
theorem Tracked.returned (h : Tracked m G A i P₀ T c) {a : α} {replies : List ((op : Op) × Reply op)}
    (hret : c.thread i = some ⟨.ret a, replies⟩) (hreplies : ∀ e ∈ replies, A e.1 e.2) :
    T a c.shared :=
  h.2 _ hret hreplies c.shared .refl

/-- A thread that has returned has ensured what it promised. -/
theorem Sound.returned (h : Sound m G P Q c) {a : α} (hret : Returned c i a) : Q i a c.shared := by
  obtain ⟨replies, hret⟩ := hret
  exact (h.2 i).returned hret fun _ _ => trivial

/-! ### Its runs -/

variable [DecidableEq ι]

/-- What an event does to the shared state, as the threads see it. -/
theorem Sound.changes (h : Sound m G P Q c) (program : ι → Routine Op Reply α)
    (e : Event ι Fate Env) :
    (m.step program c e).shared = c.shared ∨
      (∃ i fate, e = .act i fate ∧ G i c.shared (m.step program c e).shared) ∨
      ∃ x, e = .outside x ∧ (m.step program c e).shared = m.outside x c.shared := by
  cases e with
  | start i =>
      rw [step]
      split <;> exact .inl rfl
  | outside x => exact .inr (.inr ⟨x, rfl, rfl⟩)
  | act i fate =>
      rcases hthread : c.thread i with _ | ⟨_ | ⟨op, next⟩, replies⟩
      · simp [step, hthread]
      · simp [step, hthread]
      · have hensures := (h.2 i).2 _ hthread fun _ _ => trivial
        obtain ⟨hG, -⟩ := hensures c.shared .refl fate trivial
        refine .inr (.inl ⟨i, fate, rfl, ?_⟩)
        simp only [step, hthread]
        exact hG

/-- An event of another thread leaves thread `i` where it was. -/
theorem step_thread {e : Event ι Fate Env} (hstart : e ≠ .start i) (hact : ∀ fate, e ≠ .act i fate) :
    (m.step program c e).thread i = c.thread i := by
  cases e with
  | start j =>
      have hne : i ≠ j := fun h => hstart (h ▸ rfl)
      rw [step]
      split
      · exact Function.update_of_ne hne ..
      · rfl
  | outside x => rfl
  | act j fate =>
      have hne : i ≠ j := fun h => hact fate (h ▸ rfl)
      rw [step]
      split
      · exact Function.update_of_ne hne ..
      · rfl

/-- So the others have moved, as thread `i` sees it. -/
theorem Sound.others (h : Sound m G P Q c) (program : ι → Routine Op Reply α)
    {e : Event ι Fate Env} (hact : ∀ fate, e ≠ .act i fate) :
    ReflTransGen (m.Others G i) c.shared (m.step program c e).shared := by
  rcases h.changes program e with heq | ⟨j, fate, rfl, hG⟩ | ⟨x, rfl, heq⟩
  · rw [heq]
  · refine .single (.inl ⟨j, ?_, hG⟩)
    rintro rfl
    exact hact fate rfl
  · exact .single (.inr ⟨x, heq⟩)

/-- **One event brings a tracked thread on its way.** -/
theorem Tracked.step (hsound : Sound m G P Q c) (hstable : m.Stable G i P₀)
    (hprogram : ∀ s, P₀ s → m.Ensures G A i (program i) T s) (h : Tracked m G A i P₀ T c)
    (e : Event ι Fate Env) : Tracked m G A i P₀ T (m.step program c e) := by
  by_cases hact : ∃ fate, e = .act i fate
  · obtain ⟨fate, rfl⟩ := hact
    rcases hthread : c.thread i with _ | ⟨_ | ⟨op, next⟩, replies⟩
    · simpa only [Machine.step, hthread] using h
    · simpa only [Machine.step, hthread] using h
    · simp only [Machine.step, hthread]
      refine ⟨fun hnone => ?_, fun r hr hreplies => ?_⟩
      · simp at hnone
      · obtain rfl : _ = r := by simpa using hr
        have hlast := hreplies _ (List.mem_append_right _ (List.mem_singleton_self _))
        have hensures := h.2 _ hthread fun e he => hreplies e (List.mem_append_left _ he)
        exact (hensures c.shared .refl fate hlast).2
  · have hact : ∀ fate, e ≠ .act i fate := fun fate he => hact ⟨fate, he⟩
    have hothers := hsound.others program hact
    by_cases hstart : e = .start i
    · subst hstart
      rcases hthread : c.thread i with _ | r
      · simp only [Machine.step, hthread]
        refine ⟨fun hnone => ?_, fun r hr _ => ?_⟩
        · simp at hnone
        · obtain rfl : _ = r := by simpa using hr
          exact hprogram _ (h.1 hthread)
      · simpa only [Machine.step, hthread] using h
    · rw [Tracked, step_thread hstart hact]
      exact ⟨fun hnone => hstable.run hothers (h.1 hnone),
        fun r hr hreplies => (h.2 r hr hreplies).others hothers⟩

/-- **One event keeps every thread on its way**: the thread that moves by what it was promised, the
others because what they rely on is stable. -/
theorem Sound.step (hpromises : Promises m G program P Q) (h : Sound m G P Q c)
    (e : Event ι Fate Env) : Sound m G P Q (m.step program c e) := by
  refine ⟨?_, fun i => (h.2 i).step h hpromises.stable (hpromises.program i) e⟩
  rcases h.changes program e with heq | ⟨i, _, -, hG⟩ | ⟨x, -, heq⟩
  · exact heq ▸ h.1
  · exact hpromises.keeps i _ _ hG h.1
  · exact heq ▸ hpromises.outside x _ h.1

/-- **A run of the pool keeps every thread on its way.** -/
theorem Sound.run (hpromises : Promises m G program P Q) (h : Sound m G P Q c)
    (es : List (Event ι Fate Env)) : Sound m G P Q (es.foldl (m.step program) c) := by
  induction es generalizing c with
  | nil => exact h
  | cons e es ih => exact ih (h.step hpromises e)

/-- **A run brings a tracked thread on its way.** -/
theorem Tracked.run (hpromises : Promises m G program P Q) (hsound : Sound m G P Q c)
    (hstable : m.Stable G i P₀) (hprogram : ∀ s, P₀ s → m.Ensures G A i (program i) T s)
    (h : Tracked m G A i P₀ T c) (es : List (Event ι Fate Env)) :
    Tracked m G A i P₀ T (es.foldl (m.step program) c) := by
  induction es generalizing c with
  | nil => exact h
  | cons e es ih =>
      exact ih (hsound.step hpromises e) (h.step hsound hstable hprogram e)

/-- What all threads and the outside keep from one state on, a run keeps. -/
theorem Sound.preserves (hpromises : Promises m G program P Q) (h : Sound m G P Q c)
    (hG : ∀ i s t, G i s t → P₀ s → P₀ t) (hout : ∀ e s, P₀ s → P₀ (m.outside e s))
    (hs : P₀ c.shared) (es : List (Event ι Fate Env)) :
    P₀ (es.foldl (m.step program) c).shared := by
  induction es generalizing c with
  | nil => exact hs
  | cons e es ih =>
      refine ih (h.step hpromises e) ?_
      rcases h.changes program e with heq | ⟨i, _, -, hstep⟩ | ⟨x, -, heq⟩
      · exact heq ▸ hs
      · exact hG i _ _ hstep hs
      · exact heq ▸ hout x _ hs

end Machine
end BoltsRebuilt
