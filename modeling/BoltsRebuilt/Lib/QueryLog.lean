/-
# Logs of timestamp queries

A query heap is an array of slots.  One command writes the time to a slot,
another copies a range of slots to a buffer, eight bytes each, and what a log
holds of both is `written` and `resolved`.

A recorder brackets work with pairs of slots: pair `i` has slot `2 * i`, written
when the bracket begins, and slot `2 * i + 1`, written when it ends.
`Recorder.Step` is all it may do: begin the next pair of a heap, end a pair that
has not ended, and resolve pairs that all have.  In every state such steps lead
to no slot was written twice and a resolve read only pairs written before it
(`Recorder.Sound.steps`).
-/

import BoltsRebuilt.Lib.History
import Mathlib.Data.List.Nodup
import Mathlib.Data.List.Range
import Mathlib.Logic.Relation
import Mathlib.Logic.Function.Basic

namespace BoltsRebuilt

variable {κ : Type*}

/-- A command on the slots of a query heap. -/
inductive QueryCommand (κ : Type*)
  /-- Write the time to a slot. -/
  | endQuery (heap : κ) (slot : ℕ)
  /-- Copy `count` slots from `start` on to byte `offset` of the heap's buffer. -/
  | resolve (heap : κ) (start count offset : ℕ)
  deriving DecidableEq

namespace QueryLog

/-- The slots a log writes, in order. -/
def written (log : List (QueryCommand κ)) : List (κ × ℕ) :=
  log.filterMap fun
    | .endQuery heap slot => some (heap, slot)
    | .resolve .. => none

/-- The slots a log copies out, in order. -/
def resolved (log : List (QueryCommand κ)) : List (κ × ℕ) :=
  log.flatMap fun
    | .endQuery .. => []
    | .resolve heap start count _ => (List.range' start count).map (heap, ·)

/-- An empty log has written nothing. -/
@[simp] theorem written_nil : written ([] : List (QueryCommand κ)) = [] := rfl

/-- An empty log has resolved nothing. -/
@[simp] theorem resolved_nil : resolved ([] : List (QueryCommand κ)) = [] := rfl

/-- What two logs write, one after the other, is what both write. -/
@[simp] theorem written_append (l l' : List (QueryCommand κ)) :
    written (l ++ l') = written l ++ written l' := List.filterMap_append

/-- What two logs resolve, one after the other, is what both resolve. -/
@[simp] theorem resolved_append (l l' : List (QueryCommand κ)) :
    resolved (l ++ l') = resolved l ++ resolved l' := List.flatMap_append

/-- Ending a query writes its slot. -/
@[simp] theorem written_endQuery (heap : κ) (slot : ℕ) (l : List (QueryCommand κ)) :
    written (.endQuery heap slot :: l) = (heap, slot) :: written l := rfl

/-- Resolving writes no slot. -/
@[simp] theorem written_resolve (heap : κ) (start count offset : ℕ)
    (l : List (QueryCommand κ)) : written (.resolve heap start count offset :: l) = written l := rfl

/-- Ending a query resolves none. -/
@[simp] theorem resolved_endQuery (heap : κ) (slot : ℕ) (l : List (QueryCommand κ)) :
    resolved (.endQuery heap slot :: l) = resolved l := rfl

/-- Resolving reads each slot of its range once. -/
@[simp] theorem resolved_resolve (heap : κ) (start count offset : ℕ)
    (l : List (QueryCommand κ)) : resolved (.resolve heap start count offset :: l) =
      (List.range' start count).map (heap, ·) ++ resolved l := rfl

/-- The slots of one heap that a log copies out, in order. -/
def resolvedOf [DecidableEq κ] (heap : κ) (log : List (QueryCommand κ)) : List ℕ :=
  (resolved log).filterMap fun x => if x.1 = heap then some x.2 else none

section ResolvedOf

variable [DecidableEq κ]

/-- An empty log has resolved nothing of any heap. -/
@[simp] theorem resolvedOf_nil (heap : κ) : resolvedOf heap [] = [] := rfl

/-- What two logs resolve of a heap is what both do. -/
@[simp] theorem resolvedOf_append (heap : κ) (l l' : List (QueryCommand κ)) :
    resolvedOf heap (l ++ l') = resolvedOf heap l ++ resolvedOf heap l' := by
  rw [resolvedOf, resolved_append, List.filterMap_append]
  rfl

/-- Ending a query resolves nothing of any heap. -/
@[simp] theorem resolvedOf_endQuery (heap heap' : κ) (slot : ℕ) (l : List (QueryCommand κ)) :
    resolvedOf heap (.endQuery heap' slot :: l) = resolvedOf heap l := rfl

/-- Resolving a range of a heap reads its slots in order. -/
@[simp] theorem resolvedOf_resolve_self (heap : κ) (start count offset : ℕ)
    (l : List (QueryCommand κ)) : resolvedOf heap (.resolve heap start count offset :: l) =
      List.range' start count ++ resolvedOf heap l := by
  rw [resolvedOf, resolved_resolve, List.filterMap_append, List.filterMap_map, resolvedOf]
  simp

/-- Resolving one heap reads nothing of another. -/
theorem resolvedOf_resolve_of_ne {heap heap' : κ} (h : heap' ≠ heap) (start count offset : ℕ)
    (l : List (QueryCommand κ)) :
    resolvedOf heap (.resolve heap' start count offset :: l) = resolvedOf heap l := by
  rw [resolvedOf, resolved_resolve, List.filterMap_append, List.filterMap_map, resolvedOf]
  simp [h]

end ResolvedOf

/-- Two adjacent ranges make one. -/
theorem range_append_range' (a b : ℕ) : List.range a ++ List.range' a b = List.range (a + b) := by
  rw [List.range_eq_range', List.range_eq_range', ← List.range'_append_1, Nat.zero_add]

/-- Both slots of the pair of slot `x` are written. -/
def PairWritten (log : List (QueryCommand κ)) (heap : κ) (x : ℕ) : Prop :=
  (heap, 2 * (x / 2)) ∈ written log ∧ (heap, 2 * (x / 2) + 1) ∈ written log

/-- Each resolve reads slots whose pairs were written before it, and puts slot `k`
at byte `8 * k`. -/
def ReadsWritten (log : List (QueryCommand κ)) : Prop :=
  ∀ before heap start count offset after,
    log = before ++ .resolve heap start count offset :: after →
      offset = 8 * start ∧ ∀ x, start ≤ x → x < start + count → PairWritten before heap x

/-- An empty log reads nothing that was not written. -/
theorem readsWritten_nil : ReadsWritten ([] : List (QueryCommand κ)) := by
  intro before heap start count offset after h
  simp at h

/-- One more command keeps it so, when it resolves only pairs that are written and puts them where
they belong. -/
theorem ReadsWritten.concat {log : List (QueryCommand κ)} (h : ReadsWritten log)
    {c : QueryCommand κ}
    (hc : ∀ heap start count offset, c = .resolve heap start count offset →
      offset = 8 * start ∧ ∀ x, start ≤ x → x < start + count → PairWritten log heap x) :
    ReadsWritten (log ++ [c]) := by
  intro before heap start count offset after heq
  rcases History.concat_eq_split heq with ⟨rfl, hlast, -⟩ | ⟨after', hlog, -⟩
  · exact hc heap start count offset hlast
  · exact h before heap start count offset after' hlog

end QueryLog

open QueryLog

/-- Which pairs of each heap have begun and whether they ended, and the log so far. -/
@[ext]
structure Recorder (κ : Type*) where
  ended : κ → List Bool
  log : List (QueryCommand κ)

namespace Recorder

variable [DecidableEq κ] {r r' : Recorder κ}

/-- The next pair of a heap begins. -/
def begin (r : Recorder κ) (heap : κ) : Recorder κ where
  ended := Function.update r.ended heap (r.ended heap ++ [false])
  log := r.log ++ [.endQuery heap (2 * (r.ended heap).length)]

/-- Pair `i` ends. -/
def finish (r : Recorder κ) (heap : κ) (i : ℕ) : Recorder κ where
  ended := Function.update r.ended heap ((r.ended heap).set i true)
  log := r.log ++ [.endQuery heap (2 * i + 1)]

/-- `n` pairs are copied out. -/
def resolve (r : Recorder κ) (heap : κ) (first n : ℕ) : Recorder κ where
  ended := r.ended
  log := r.log ++ [.resolve heap (2 * first) (2 * n) (8 * (2 * first))]

/-- What a recorder may do. -/
inductive Step : Recorder κ → Recorder κ → Prop
  | begin (r : Recorder κ) (heap : κ) : Step r (r.begin heap)
  | finish (r : Recorder κ) (heap : κ) (i : ℕ) (h : (r.ended heap)[i]? = some false) :
      Step r (r.finish heap i)
  | resolve (r : Recorder κ) (heap : κ) (first n : ℕ)
      (h : ∀ i, first ≤ i → i < first + n → (r.ended heap)[i]? = some true) :
      Step r (r.resolve heap first n)

/-- The log writes the slots of the pairs that have begun and ended, each once,
and resolves only what is written. -/
structure Sound (r : Recorder κ) : Prop where
  nodup : (written r.log).Nodup
  begun : ∀ heap i, (heap, 2 * i) ∈ written r.log ↔ i < (r.ended heap).length
  finished : ∀ heap i, (heap, 2 * i + 1) ∈ written r.log ↔ (r.ended heap)[i]? = some true
  reads : ReadsWritten r.log

/-- Beginning an interval keeps the recorder sound. -/
theorem Sound.begin (h : r.Sound) (heap : κ) : (r.begin heap).Sound := by
  constructor
  case nodup =>
    rw [Recorder.begin, written_append, written_endQuery, written_nil]
    have hnew : (heap, 2 * (r.ended heap).length) ∉ written r.log := by
      rw [h.begun]
      exact lt_irrefl _
    have hnodup := h.nodup.concat hnew
    rwa [List.concat_eq_append] at hnodup
  case begun =>
    intro heap' i
    have := h.begun heap' i
    by_cases hheap : heap' = heap
    · subst hheap
      simp only [Recorder.begin, written_append, written_endQuery, written_nil, List.mem_append,
        List.mem_singleton, Prod.mk.injEq, Function.update_self, List.length_append,
        List.length_singleton, true_and, this]
      omega
    · simpa [Recorder.begin, hheap] using this
  case finished =>
    intro heap' i
    have := h.finished heap' i
    by_cases hheap : heap' = heap
    · subst hheap
      have hodd : ¬ 2 * i + 1 = 2 * (r.ended heap').length := by omega
      simp only [Recorder.begin, written_append, written_endQuery, written_nil, List.mem_append,
        List.mem_singleton, Prod.mk.injEq, Function.update_self, this, hodd, and_false, or_false,
        List.getElem?_append, List.getElem?_singleton]
      grind
    · simpa [Recorder.begin, hheap] using this
  case reads => exact h.reads.concat nofun

/-- Ending an interval that was open keeps it sound. -/
theorem Sound.finish (h : r.Sound) {heap : κ} {i : ℕ} (hi : (r.ended heap)[i]? = some false) :
    (r.finish heap i).Sound := by
  have hlt : i < (r.ended heap).length := (List.getElem?_eq_some_iff.1 hi).1
  constructor
  case nodup =>
    rw [Recorder.finish, written_append, written_endQuery, written_nil]
    have hnew : (heap, 2 * i + 1) ∉ written r.log := by
      rw [h.finished, hi]
      exact fun h => Bool.false_ne_true (Option.some_inj.1 h)
    have hnodup := h.nodup.concat hnew
    rwa [List.concat_eq_append] at hnodup
  case begun =>
    intro heap' j
    have := h.begun heap' j
    by_cases hheap : heap' = heap
    · subst hheap
      have heven : ¬ 2 * j = 2 * i + 1 := by omega
      simpa [Recorder.finish, heven] using this
    · simpa [Recorder.finish, hheap] using this
  case finished =>
    intro heap' j
    have := h.finished heap' j
    by_cases hheap : heap' = heap
    · subst hheap
      simp only [Recorder.finish, written_append, written_endQuery, written_nil, List.mem_append,
        List.mem_singleton, Prod.mk.injEq, Function.update_self, this, List.getElem?_set]
      by_cases hij : i = j
      · subst hij
        simp [hlt]
      · have hji : ¬ 2 * j = 2 * i := by omega
        simp [hij, hji]
    · simpa [Recorder.finish, hheap] using this
  case reads => exact h.reads.concat nofun

omit [DecidableEq κ] in
/-- Resolving intervals that have all ended keeps it sound. -/
theorem Sound.resolve (h : r.Sound) {heap : κ} {first n : ℕ}
    (hn : ∀ i, first ≤ i → i < first + n → (r.ended heap)[i]? = some true) :
    (r.resolve heap first n).Sound := by
  constructor
  case nodup => simpa [Recorder.resolve] using h.nodup
  case begun => simpa [Recorder.resolve] using h.begun
  case finished => simpa [Recorder.resolve] using h.finished
  case reads =>
    refine h.reads.concat fun heap' start count offset heq => ?_
    simp only [QueryCommand.resolve.injEq] at heq
    obtain ⟨rfl, rfl, rfl, rfl⟩ := heq
    refine ⟨rfl, fun x hx hlt => ?_⟩
    have hpair := hn (x / 2) (by omega) (by omega)
    exact ⟨(h.begun ..).2 (List.getElem?_eq_some_iff.1 hpair).1, (h.finished ..).2 hpair⟩

/-- **Every step of the recorder keeps it sound**: beginning an interval, ending one, and resolving
those that have ended. -/
theorem Sound.step (h : r.Sound) (hstep : Step r r') : r'.Sound := by
  cases hstep with
  | begin heap => exact h.begin heap
  | finish heap i hi => exact h.finish hi
  | resolve heap first n hn => exact h.resolve hn

/-- Before the first command. -/
def initial : Recorder κ := ⟨fun _ => [], []⟩

omit [DecidableEq κ] in
/-- A fresh recorder has an empty log and is sound. -/
theorem sound_initial : (initial : Recorder κ).Sound := by
  constructor
  case nodup => exact .nil
  case begun =>
    intro heap i
    simp [initial]
  case finished =>
    intro heap i
    simp [initial]
  case reads => exact readsWritten_nil

/-- **What a recorder's log is good for**: after any sequence of steps, every resolved pair was
written, and every ended interval has its pair. -/
theorem Sound.steps (h : r.Sound) (hsteps : Relation.ReflTransGen Step r r') : r'.Sound := by
  induction hsteps with
  | refl => exact h
  | tail _ hstep ih => exact ih.step hstep

end Recorder
end BoltsRebuilt
