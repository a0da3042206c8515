/-
# The constant registers a shader reads, as runs

`tools/ucode2hlsl.py`: `constant_runs` (lines 1106-1123), `packed_constant_map`
(lines 966-981) and the `cruns=` line of `write_sidecar` (line 1131).

A translated shader reads some of the 256 float constants.  The runtime uploads
only those, as at most eight runs of consecutive registers back to back, and
the shader names each register by its place among them.  `constant_runs` first
joins registers closer than the merge gap (`mergeRuns`), then joins the two
neighbours with the smallest gap until there are few enough runs (`collapse`).
A shader that addresses constants relative to `a0` can read any, and keeps the
guest's numbers.

`RunsOf`: what both phases keep.  The runs start and end at used registers, hold
every used one, and lie more than the merge gap apart.
-/

import BoltsRebuilt.Lib.Spans
import BoltsRebuilt.Lib.Text
import Mathlib.Data.Finset.Sort

namespace BoltsRebuilt
namespace Constants

open Spans Text

/-- The runs of sorted registers: a register at most `gap` after the end of the
current run extends it. -/
def mergeRuns (gap : ℕ) : Span → List ℕ → List Span
  | cur, [] => [cur]
  | (first, last), x :: xs =>
      if x - last ≤ gap then mergeRuns gap (first, x) xs
      else (first, last) :: mergeRuns gap (x, x) xs

/-- The gaps between neighbouring runs. -/
def gaps : List Span → List ℕ
  | s :: t :: rest => (t.1 - s.2) :: gaps (t :: rest)
  | _ => []

/-- The index of `min(gaps)`: the first smallest gap. -/
def smallestGap (runs : List Span) : ℕ := (gaps runs).idxOf ((gaps runs).min?.getD 0)

/-- `runs[i][1] = runs[i + 1][1]; del runs[i + 1]`. -/
def joinAt : ℕ → List Span → List Span
  | 0, s :: t :: rest => (s.1, t.2) :: rest
  | i + 1, s :: rest => s :: joinAt i rest
  | _, runs => runs

/-- `while len(runs) > max_runs`, with one iteration of `fuel` for each. -/
def collapse (maxRuns : ℕ) : ℕ → List Span → List Span
  | 0, runs => runs
  | fuel + 1, runs =>
      if maxRuns < runs.length then collapse maxRuns fuel (joinAt (smallestGap runs) runs) else runs

/-- `constant_runs`; a loop iteration removes a run, so there are fewer than
runs. -/
def constantRuns (used : Finset ℕ) (useAll : Bool) (maxRuns mergeGap : ℕ) : List Span :=
  if useAll then [(0, 255)]
  else
    match used.sort (· ≤ ·) with
    | [] => []
    | x :: xs => let runs := mergeRuns mergeGap (x, x) xs; collapse maxRuns runs.length runs

/-- What `packed_constant_map` keeps while it numbers the registers of the runs:
the dictionary and `packed`. -/
structure Numbering where
  mapping : ℕ → Option ℕ := fun _ => none
  packed : ℕ := 0

/-- `mapping[index] = packed; packed += 1`. -/
def Numbering.add (n : Numbering) (index : ℕ) : Numbering :=
  ⟨Function.update n.mapping index (some n.packed), n.packed + 1⟩

/-- The registers of the runs, numbered in order. -/
def numberRuns (runs : List Span) : Numbering :=
  runs.foldl (fun n s => (Span.cells s).foldl Numbering.add n) {}

/-- `packed_constant_map`, with `NO_PACK` as an argument.  No map means that the
shader keeps the guest's numbers. -/
def packedConstantMap (noPack : Bool) (constUsed : Finset ℕ) (constAll : Bool) :
    Option (ℕ → Option ℕ) × List Span :=
  let runs := constantRuns constUsed constAll 8 8
  if constAll || noPack then (none, [(0, 255)])
  else (some (numberRuns runs).mapping, runs)

/-- One run in the `cruns=` line. -/
def runText (s : Span) : List Char := decimal s.1 ++ '-' :: decimal s.2

/-- The value of the `cruns=` line: the runs, commas between them. -/
def crunsText (runs : List Span) : List Char := [','].intercalate (runs.map runText)

/-! ### Both phases -/

/-- Runs of the registers `used`: nonempty, more than `gap` apart, from used
registers to used registers, and around every used one. -/
structure RunsOf (gap : ℕ) (used : ℕ → Prop) (runs : List Span) : Prop where
  ordered : ∀ s ∈ runs, s.1 ≤ s.2
  apart : runs.Pairwise fun s t => s.2 + gap < t.1
  ends : ∀ s ∈ runs, used s.1 ∧ used s.2
  covers : ∀ x, used x → ∃ s ∈ runs, s.1 ≤ x ∧ x ≤ s.2

/-- Runs with a gap between them are separated. -/
theorem RunsOf.separated {gap : ℕ} {used : ℕ → Prop} {runs : List Span}
    (h : RunsOf gap used runs) : Separated runs :=
  ⟨h.ordered, h.apart.imp fun hst => by omega⟩

/-- The registers of the current run and those after it give runs of both. -/
theorem mergeRuns_spec (gap : ℕ) (cur : Span) (xs : List ℕ) (hcur : cur.1 ≤ cur.2)
    (hxs : xs.Pairwise (· < ·)) (hlt : ∀ x ∈ xs, cur.2 < x) :
    (∀ s ∈ mergeRuns gap cur xs, s.1 ≤ s.2 ∧ cur.1 ≤ s.1) ∧
      (mergeRuns gap cur xs).Pairwise (fun s t => s.2 + gap < t.1) ∧
      (∀ s ∈ mergeRuns gap cur xs, (s.1 = cur.1 ∨ s.1 ∈ xs) ∧ (s.2 = cur.2 ∨ s.2 ∈ xs)) ∧
      (∀ x, cur.1 ≤ x ∧ x ≤ cur.2 ∨ x ∈ xs → ∃ s ∈ mergeRuns gap cur xs, s.1 ≤ x ∧ x ≤ s.2) := by
  induction xs generalizing cur with
  | nil =>
      refine ⟨?_, List.pairwise_singleton .., ?_, ?_⟩ <;> simp [mergeRuns, hcur]
  | cons x xs ih =>
      obtain ⟨first, last⟩ := cur
      obtain ⟨hx, hxs'⟩ := List.pairwise_cons.1 hxs
      have hlast : last < x := hlt x (List.mem_cons_self ..)
      rw [mergeRuns]
      split
      · obtain ⟨h₁, h₂, h₃, h₄⟩ := ih (first, x) (by simp at hcur ⊢; omega) hxs' hx
        refine ⟨h₁, h₂, fun s hs => ?_, fun y hy => ?_⟩
        · obtain ⟨hf, hl⟩ := h₃ s hs
          exact ⟨hf.imp_right (List.mem_cons_of_mem _), .inr (hl.elim (fun h => h ▸ List.mem_cons_self ..)
            (List.mem_cons_of_mem _))⟩
        · refine h₄ y ?_
          rcases hy with ⟨hy₁, hy₂⟩ | hy
          · exact .inl ⟨hy₁, by simp at hy₂ ⊢; omega⟩
          · rcases List.mem_cons.1 hy with rfl | hy
            · exact .inl ⟨by simp at hcur ⊢; omega, le_rfl⟩
            · exact .inr hy
      · rename_i hgap
        obtain ⟨h₁, h₂, h₃, h₄⟩ := ih (x, x) le_rfl hxs' hx
        refine ⟨?_, ?_, ?_, fun y hy => ?_⟩
        · intro s hs
          rcases List.mem_cons.1 hs with rfl | hs
          · exact ⟨hcur, le_rfl⟩
          · have := h₁ s hs
            exact ⟨this.1, by simp at hcur this ⊢; omega⟩
        · rw [List.pairwise_cons]
          refine ⟨fun t ht => ?_, h₂⟩
          have := (h₁ t ht).2
          simp only at this ⊢
          omega
        · intro s hs
          rcases List.mem_cons.1 hs with rfl | hs
          · exact ⟨.inl rfl, .inl rfl⟩
          · obtain ⟨hf, hl⟩ := h₃ s hs
            exact ⟨.inr (hf.elim (fun h => h ▸ List.mem_cons_self ..) (List.mem_cons_of_mem _)),
              .inr (hl.elim (fun h => h ▸ List.mem_cons_self ..) (List.mem_cons_of_mem _))⟩
        · rcases hy with hy | hy
          · exact ⟨_, List.mem_cons_self .., hy⟩
          · have hy' : x ≤ y ∧ y ≤ x ∨ y ∈ xs := by
              rcases List.mem_cons.1 hy with rfl | hy
              · exact .inl ⟨le_rfl, le_rfl⟩
              · exact .inr hy
            obtain ⟨s, hs, h⟩ := h₄ y hy'
            exact ⟨s, List.mem_cons_of_mem _ hs, h⟩

/-- Joining two neighbours keeps runs of the same registers. -/
theorem RunsOf.joinAt {gap : ℕ} {used : ℕ → Prop} {runs : List Span} (h : RunsOf gap used runs)
    (i : ℕ) : RunsOf gap used (joinAt i runs) := by
  have hjoin : ∀ (i : ℕ) (runs : List Span), (∀ s ∈ runs, s.1 ≤ s.2) →
      runs.Pairwise (fun s t => s.2 + gap < t.1) →
      (∀ s ∈ Constants.joinAt i runs, s.1 ≤ s.2 ∧ (∃ t ∈ runs, s.1 = t.1) ∧ ∃ t ∈ runs, s.2 = t.2) ∧
      (Constants.joinAt i runs).Pairwise (fun s t => s.2 + gap < t.1) ∧
      ∀ t ∈ runs, ∃ s ∈ Constants.joinAt i runs, s.1 ≤ t.1 ∧ t.2 ≤ s.2 := by
    intro i runs
    induction runs generalizing i with
    | nil => intro _ _; cases i <;> simp [Constants.joinAt]
    | cons s rest ih =>
        intro hord hap
        rw [List.forall_mem_cons] at hord
        rw [List.pairwise_cons] at hap
        cases i with
        | succ i =>
            obtain ⟨h₁, h₂, h₃⟩ := ih i hord.2 hap.2
            refine ⟨?_, ?_, ?_⟩
            · intro s' hs'
              rcases List.mem_cons.1 hs' with rfl | hs'
              · exact ⟨hord.1, ⟨s', List.mem_cons_self .., rfl⟩, s', List.mem_cons_self .., rfl⟩
              · obtain ⟨hle, ⟨t, ht, hf⟩, t', ht', hl⟩ := h₁ s' hs'
                exact ⟨hle, ⟨t, List.mem_cons_of_mem _ ht, hf⟩, t', List.mem_cons_of_mem _ ht', hl⟩
            · refine List.pairwise_cons.2 ⟨fun t ht => ?_, h₂⟩
              obtain ⟨-, ⟨t', ht', hf⟩, -⟩ := h₁ t ht
              rw [hf]
              exact hap.1 t' ht'
            · intro t ht
              rcases List.mem_cons.1 ht with rfl | ht
              · exact ⟨t, List.mem_cons_self .., le_rfl, le_rfl⟩
              · obtain ⟨s', hs', hle⟩ := h₃ t ht
                exact ⟨s', List.mem_cons_of_mem _ hs', hle⟩
        | zero =>
            cases rest with
            | nil => simp [Constants.joinAt, hord.1]
            | cons t rest =>
                have hst := hap.1 t (List.mem_cons_self ..)
                have ht := hord.2 t (List.mem_cons_self ..)
                rw [List.pairwise_cons] at hap
                refine ⟨?_, ?_, ?_⟩
                · intro s' hs'
                  rcases List.mem_cons.1 hs' with rfl | hs'
                  · exact ⟨by simp only; omega, ⟨s, by simp, rfl⟩, t, by simp, rfl⟩
                  · exact ⟨hord.2 s' (List.mem_cons_of_mem _ hs'), ⟨s', by simp [hs'], rfl⟩,
                      s', by simp [hs'], rfl⟩
                · exact List.pairwise_cons.2 ⟨hap.2.1, hap.2.2⟩
                · intro u hu
                  rcases List.mem_cons.1 hu with rfl | hu
                  · exact ⟨_, List.mem_cons_self .., le_rfl, by simp only; omega⟩
                  · rcases List.mem_cons.1 hu with rfl | hu
                    · exact ⟨_, List.mem_cons_self .., by simp only; omega, le_rfl⟩
                    · exact ⟨u, List.mem_cons_of_mem _ hu, le_rfl, le_rfl⟩
  obtain ⟨h₁, h₂, h₃⟩ := hjoin i runs h.ordered h.apart
  refine ⟨fun s hs => (h₁ s hs).1, h₂, fun s hs => ?_, fun x hx => ?_⟩
  · obtain ⟨-, ⟨t, ht, hf⟩, t', ht', hl⟩ := h₁ s hs
    exact ⟨hf ▸ (h.ends t ht).1, hl ▸ (h.ends t' ht').2⟩
  · obtain ⟨t, ht, hx⟩ := h.covers x hx
    obtain ⟨s, hs, hle⟩ := h₃ t ht
    exact ⟨s, hs, by omega⟩

/-- There is one gap less than there are runs. -/
theorem length_gaps (runs : List Span) : (gaps runs).length = runs.length - 1 := by
  induction runs with
  | nil => rfl
  | cons s rest ih =>
      cases rest with
      | nil => rfl
      | cons t rest => simpa [gaps] using ih

/-- The smallest gap lies between two neighbouring runs, so there is a run behind it to be joined. -/
theorem smallestGap_lt {runs : List Span} (h : 2 ≤ runs.length) :
    smallestGap runs + 1 < runs.length := by
  have hlen := length_gaps runs
  have hne : gaps runs ≠ [] := fun he => by rw [he, List.length_nil] at hlen; omega
  obtain ⟨m, hm⟩ := Option.ne_none_iff_exists'.1 fun hn => hne (List.min?_eq_none_iff.1 hn)
  have hmem : m ∈ gaps runs := List.min?_mem hm
  have := List.idxOf_lt_length_of_mem hmem
  rw [smallestGap, hm, Option.getD_some]
  omega

/-- Joining two neighbours leaves one run less. -/
theorem length_joinAt {i : ℕ} {runs : List Span} (h : i + 1 < runs.length) :
    (joinAt i runs).length + 1 = runs.length := by
  induction runs generalizing i with
  | nil => simp at h
  | cons s rest ih =>
      cases i with
      | zero =>
          cases rest with
          | nil => simp at h
          | cons t rest => simp [joinAt]
      | succ i => simpa [joinAt] using ih (i := i) (by simpa using h)

/-- The loop keeps runs of the same registers: joining two neighbours adds only registers of the gap
between them. -/
theorem RunsOf.collapse {gap : ℕ} {used : ℕ → Prop} (maxRuns fuel : ℕ) {runs : List Span}
    (h : RunsOf gap used runs) : RunsOf gap used (collapse maxRuns fuel runs) := by
  induction fuel generalizing runs with
  | zero => exact h
  | succ fuel ih =>
      rw [Constants.collapse]
      split
      · exact ih (h.joinAt _)
      · exact h

/-- The loop ends with few enough runs: an iteration a run is enough. -/
theorem length_collapse_le {maxRuns : ℕ} (hmax : 1 ≤ maxRuns) {fuel : ℕ} {runs : List Span}
    (h : runs.length ≤ maxRuns + fuel) : (collapse maxRuns fuel runs).length ≤ maxRuns := by
  induction fuel generalizing runs with
  | zero => exact h
  | succ fuel ih =>
      rw [collapse]
      split
      · refine ih ?_
        have := length_joinAt (smallestGap_lt (show 2 ≤ runs.length by omega))
        omega
      · omega

/-- The runs of a set of registers: they hold all of it, are separated, and are at most as many as
allowed. -/
theorem constantRuns_spec (used : Finset ℕ) {maxRuns : ℕ} (hmax : 1 ≤ maxRuns) (mergeGap : ℕ) :
    RunsOf mergeGap (· ∈ used) (constantRuns used false maxRuns mergeGap) ∧
      (constantRuns used false maxRuns mergeGap).length ≤ maxRuns := by
  have hmem : ∀ x, x ∈ used ↔ x ∈ used.sort (· ≤ ·) := fun x => (Finset.mem_sort _).symm
  have hsorted : (used.sort (· ≤ ·)).Pairwise (· < ·) := Finset.sortedLT_sort used |>.pairwise
  rw [constantRuns, if_neg Bool.false_ne_true]
  cases hs : used.sort (· ≤ ·) with
  | nil =>
      refine ⟨⟨by simp, .nil, by simp, fun x hx => ?_⟩, by simp⟩
      rw [hmem, hs] at hx
      exact absurd hx List.not_mem_nil
  | cons x xs =>
      rw [hs] at hsorted
      obtain ⟨hx, hxs⟩ := List.pairwise_cons.1 hsorted
      obtain ⟨h₁, h₂, h₃, h₄⟩ := mergeRuns_spec mergeGap (x, x) xs le_rfl hxs hx
      have hruns : RunsOf mergeGap (· ∈ used) (mergeRuns mergeGap (x, x) xs) := by
        refine ⟨fun s hs' => (h₁ s hs').1, h₂, fun s hs' => ?_, fun y hy => h₄ y ?_⟩
        · rw [hmem, hmem, hs, List.mem_cons, List.mem_cons]
          exact h₃ s hs'
        · rw [hmem, hs] at hy
          rcases List.mem_cons.1 hy with rfl | hy
          · exact .inl ⟨le_rfl, le_rfl⟩
          · exact .inr hy
      exact ⟨hruns.collapse .., length_collapse_le hmax (by omega)⟩

/-- The iterations of `while len(runs) > max_runs` from `runs` to `out`: each finds
too many runs and joins two of them, and the last leaves few enough. -/
def Collapses (maxRuns : ℕ) (runs out : List Span) : Prop :=
  ∃ n, (∀ k < n, maxRuns < ((fun r => joinAt (smallestGap r) r)^[k] runs).length) ∧
    (fun r => joinAt (smallestGap r) r)^[n] runs = out ∧ out.length ≤ maxRuns

/-- With an iteration a run, `collapse` is the whole loop. -/
theorem collapses_collapse {maxRuns : ℕ} (hmax : 1 ≤ maxRuns) {fuel : ℕ} {runs : List Span}
    (h : runs.length ≤ maxRuns + fuel) : Collapses maxRuns runs (collapse maxRuns fuel runs) := by
  induction fuel generalizing runs with
  | zero => exact ⟨0, fun k hk => absurd hk (Nat.not_lt_zero k), rfl, h⟩
  | succ fuel ih =>
      rw [collapse]
      split
      · rename_i hlt
        have hlen := length_joinAt (smallestGap_lt (show 2 ≤ runs.length by omega))
        have hfuel : (joinAt (smallestGap runs) runs).length ≤ maxRuns + fuel := by omega
        obtain ⟨n, hn, hout, hle⟩ := ih hfuel
        refine ⟨n + 1, fun k hk => ?_, by rw [Function.iterate_succ_apply]; exact hout, hle⟩
        cases k with
        | zero => exact hlt
        | succ k =>
            rw [Function.iterate_succ_apply]
            exact hn k (by omega)
      · exact ⟨0, fun k hk => absurd hk (Nat.not_lt_zero k), rfl, by omega⟩

/-- The runs hold a used register exactly once: in one run, and in no other. -/
theorem RunsOf.existsUnique {gap : ℕ} {used : ℕ → Prop} {runs : List Span} (h : RunsOf gap used runs)
    {x : ℕ} (hx : used x) : ∃! s, s ∈ runs ∧ s.1 ≤ x ∧ x ≤ s.2 := by
  obtain ⟨s, hs, hsx⟩ := h.covers x hx
  refine ⟨s, ⟨hs, hsx⟩, fun t => ?_⟩
  rintro ⟨ht, htx⟩
  by_contra hne
  have hapart : runs.Pairwise fun a b => a.2 + gap < b.1 ∨ b.2 + gap < a.1 :=
    h.apart.imp fun hab => .inl hab
  have : Std.Symm fun a b : Span => a.2 + gap < b.1 ∨ b.2 + gap < a.1 := ⟨fun _ _ hab => hab.symm⟩
  have hor := hapart.forall ht hs hne
  omega

/-- The registers a shader reads: with relative addressing any of the 256, else
the ones found. -/
def Reads (used : Finset ℕ) (useAll : Bool) (x : ℕ) : Prop := if useAll then x ≤ 255 else x ∈ used

/-- **The runs of a shader's constants.** The collapse ends.  At most `maxRuns`
runs come back, each from a register that is read to one that is, in increasing
order and more than `mergeGap` apart, and a register that is read lies in exactly
one. -/
theorem constantRuns_correct (used : Finset ℕ) (useAll : Bool) {maxRuns : ℕ} (hmax : 1 ≤ maxRuns)
    (mergeGap : ℕ) :
    (∀ x xs, useAll = false → used.sort (· ≤ ·) = x :: xs →
      Collapses maxRuns (mergeRuns mergeGap (x, x) xs) (constantRuns used useAll maxRuns mergeGap)) ∧
    (constantRuns used useAll maxRuns mergeGap).length ≤ maxRuns ∧
    (∀ s ∈ constantRuns used useAll maxRuns mergeGap, s.1 ≤ s.2) ∧
    (constantRuns used useAll maxRuns mergeGap).Pairwise (fun s t => s.2 + mergeGap < t.1) ∧
    (∀ x, Reads used useAll x →
      ∃! s, s ∈ constantRuns used useAll maxRuns mergeGap ∧ s.1 ≤ x ∧ x ≤ s.2) ∧
    ∀ s ∈ constantRuns used useAll maxRuns mergeGap, Reads used useAll s.1 ∧ Reads used useAll s.2 := by
  have hruns : RunsOf mergeGap (Reads used useAll) (constantRuns used useAll maxRuns mergeGap) ∧
      (constantRuns used useAll maxRuns mergeGap).length ≤ maxRuns := by
    cases useAll with
    | false =>
        rw [show Reads used false = (· ∈ used) from funext fun x => if_neg Bool.false_ne_true]
        exact constantRuns_spec used hmax mergeGap
    | true =>
        refine ⟨⟨?_, List.pairwise_singleton .., ?_, fun x hx => ?_⟩, hmax⟩
        · simp [constantRuns]
        · simp [constantRuns, Reads]
        · exact ⟨(0, 255), List.mem_singleton.2 rfl, Nat.zero_le x, hx⟩
  obtain ⟨h, hlen⟩ := hruns
  refine ⟨fun x xs hall hs => ?_, hlen, h.ordered, h.apart, fun x hx => h.existsUnique hx, h.ends⟩
  subst hall
  rw [constantRuns, if_neg Bool.false_ne_true, hs]
  exact collapses_collapse hmax (by omega)

/-- The hypotheses are satisfiable: three registers in two runs, where the gap of nine is joined and
that of twenty kept. -/
theorem constantRuns_three :
    constantRuns {0, 10, 31} false 2 8 = [(0, 10), (31, 31)] ∧
      ∀ x, Reads {0, 10, 31} false x →
        ∃! s, s ∈ constantRuns {0, 10, 31} false 2 8 ∧ s.1 ≤ x ∧ x ≤ s.2 :=
  ⟨by rw [constantRuns, if_neg Bool.false_ne_true, Finset.sort_insert _ (by decide) (by decide),
      Finset.sort_insert _ (by decide) (by decide), Finset.sort_singleton]; decide,
    (constantRuns_correct {0, 10, 31} false (by decide : 1 ≤ 2) 8).2.2.2.2.1⟩

/-! ### The numbering -/

/-- Numbering registers that differ gives each its own place, in the order they come, and moves none
that was numbered before. -/
theorem Numbering.foldl_add (cs : List ℕ) (hcs : cs.Nodup) (n : Numbering)
    (hn : ∀ c ∈ cs, n.mapping c = none) :
    (cs.foldl Numbering.add n).packed = n.packed + cs.length ∧
      (∀ c, c ∉ cs → (cs.foldl Numbering.add n).mapping c = n.mapping c) ∧
      ∀ k c, cs[k]? = some c → (cs.foldl Numbering.add n).mapping c = some (n.packed + k) := by
  induction cs generalizing n with
  | nil => simp
  | cons c₀ cs ih =>
      obtain ⟨hc₀, hcs'⟩ := List.nodup_cons.1 hcs
      obtain ⟨h₁, h₂, h₃⟩ := ih hcs' (n.add c₀) fun c hc => by
        have hne : c ≠ c₀ := fun he => hc₀ (he ▸ hc)
        simp only [Numbering.add, Function.update_of_ne hne]
        exact hn c (List.mem_cons_of_mem _ hc)
      rw [List.foldl_cons]
      refine ⟨by rw [h₁, List.length_cons]; simp only [Numbering.add]; omega, ?_, ?_⟩
      · intro c hc
        rw [List.mem_cons, not_or] at hc
        rw [h₂ c hc.2]
        exact Function.update_of_ne hc.1 ..
      · intro k c hk
        cases k with
        | zero =>
            obtain rfl : c₀ = c := by simpa using hk
            rw [h₂ c₀ hc₀]
            exact Function.update_self ..
        | succ k =>
            rw [h₃ k c (by simpa using hk)]
            simp only [Numbering.add]
            congr 1
            omega

/-- The map sends the `k`-th register of the runs to `k`. -/
theorem mapping_eq {runs : List Span} (h : Separated runs) {k c : ℕ}
    (hk : (cells runs)[k]? = some c) :
    (numberRuns runs).mapping c = some k := by
  have hfold : numberRuns runs = (cells runs).foldl Numbering.add {} := by
    rw [numberRuns, cells, List.foldl_flatMap]
  rw [hfold, (Numbering.foldl_add _ h.nodup_cells {} fun _ _ => rfl).2.2 k c hk]
  simp

end Constants
end BoltsRebuilt
