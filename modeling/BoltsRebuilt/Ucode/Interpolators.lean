/-
# How many interpolators a pixel shader consumes

`tools/ucode2hlsl.py`: `interpolator_input_bound` (lines 946-963) and the
registers `Translator.declarations` initialises (lines 885-905).

A register component that a pixel shader reads before writing it holds what the
rasterizer interpolated.  The translator initialises the registers below
`interpolator_input_bound` from the interpolators and the others with `0.0`, so
the bound must lie above every register that is read so.

The bound is one scan of the listing: an instruction's destination counts as
written from there on, whether or not the instruction executes.  So the scan
does not see a read whose only writer was skipped, by its predicate, its
block's condition or a jump, nor the read of a scalar half whose vector half
writes the component (`MaskedRead`).  `interpolatorInputBound_sound_iff`: the
bound is right exactly when each register so read lies at or below one with a
component that no earlier instruction of the listing writes (`FreshRead`).

`Path` are the executions: every outcome of `p0`, at each predicated
instruction and at each block, boolean constants that keep their values, taken
jumps resuming at their label.  A vector instruction and the scalar one issued
with it are one event, whatever their predicates: each half may be skipped by its
own, and both read what was there before the pair.  (The translator emits halves
with different predicates one after the other; the pair of the shader is one all
the same.)  What the runs of `ucodeStep` perform, on any machine, some path
performs (`exists_path_of_run`).
-/

import BoltsRebuilt.Ucode.ControlFlow
import BoltsRebuilt.Ucode.Operand
import Mathlib.Data.List.Induction

namespace BoltsRebuilt
namespace Ucode

/-- The instructions of a shader in the order of the listing. -/
def listing (blocks : List Block) : List Instr := blocks.flatMap (·.instrs)

/-! ### The scan -/

/-- What `interpolator_input_bound` keeps: the components written so far and the
bound. -/
structure Scan where
  written : ℕ → Mask := fun _ => 0
  bound : ℕ := 0

/-- A source operand: the bound rises over a component not yet written. -/
def Scan.source (s : Scan) (src : String) : Scan :=
  match sourceComponents src with
  | some (r, mask) =>
      if mask &&& ~~~s.written r ≠ 0 then { s with bound := max s.bound (r + 1) } else s
  | none => s

/-- A destination: its components are written from here on. -/
def Scan.dest (s : Scan) (dest : Option String) : Scan :=
  match destComponents dest with
  | some (r, mask) => { s with written := Function.update s.written r (s.written r ||| mask) }
  | none => s

/-- One instruction of the scan. -/
def Scan.instr (s : Scan) (ins : Instr) : Scan := (ins.srcs.foldl Scan.source s).dest ins.dest

/-- `interpolator_input_bound`. -/
def interpolatorInputBound (blocks : List Block) : ℕ :=
  min ((listing blocks).foldl Scan.instr {}).bound 16

/-- Register `r` has a component that an instruction reads and that no
instruction before it in the listing writes. -/
def FreshRead (l : List Instr) (r : ℕ) : Prop :=
  ∃ before ins after, l = before ++ ins :: after ∧ ∃ src ∈ ins.srcs, ∃ mask, ∃ c : Fin 4,
    sourceComponents src = some (r, mask) ∧ mask.getLsbD c = true ∧
      ∀ j ∈ before, j.writes r c = false

/-- A mask reaches outside another when it has a component the other lacks. -/
theorem and_not_ne_zero_iff (m w : Mask) :
    m &&& ~~~w ≠ 0 ↔ ∃ c : Fin 4, m.getLsbD c = true ∧ w.getLsbD c = false := by
  constructor
  · intro h
    by_contra hn
    refine h (BitVec.eq_of_getLsbD_eq fun i hi => ?_)
    have := fun hm hw => hn ⟨⟨i, hi⟩, hm, hw⟩
    simp only [BitVec.getLsbD_and, BitVec.getLsbD_not, hi, decide_true, Bool.true_and]
    cases hm : m.getLsbD i <;> cases hw : w.getLsbD i <;> simp_all
  · rintro ⟨c, hm, hw⟩ h
    have hc := congrArg (fun v : Mask => v.getLsbD c) h
    simp only [BitVec.getLsbD_and, BitVec.getLsbD_not, hm, hw, c.isLt, decide_true, Bool.true_and,
      Bool.not_false] at hc
    exact absurd hc (by simp)

/-- Recording a destination adds the components it writes to those of its register. -/
theorem Scan.dest_written (s : Scan) (ins : Instr) (r : ℕ) (c : Fin 4) :
    ((s.dest ins.dest).written r).getLsbD c = ((s.written r).getLsbD c || ins.writes r c) := by
  unfold Scan.dest Instr.writes
  cases destComponents ins.dest with
  | none => simp
  | some p =>
      by_cases hr : r = p.1
      · subst hr; simp
      · simp [Function.update_of_ne hr, Ne.symm hr]

/-- Recording a destination leaves the bound. -/
@[simp] theorem Scan.dest_bound (s : Scan) (dest : Option String) : (s.dest dest).bound = s.bound := by
  unfold Scan.dest
  split <;> rfl

/-- A source raises the bound to its register when it reads a component not
written, and leaves the written components. -/
theorem Scan.source_spec (s : Scan) (src : String) :
    (s.source src).written = s.written ∧ ∀ r, r < (s.source src).bound ↔
      r < s.bound ∨ ∃ r' mask, r ≤ r' ∧ sourceComponents src = some (r', mask) ∧
        mask &&& ~~~s.written r' ≠ 0 := by
  cases hc : sourceComponents src with
  | none =>
      have hs : s.source src = s := by rw [Scan.source, hc]
      simp [hs]
  | some p =>
      obtain ⟨n, mask⟩ := p
      by_cases hm : mask &&& ~~~s.written n ≠ 0
      · have hs : s.source src = { s with bound := max s.bound (n + 1) } := by
          rw [Scan.source, hc]
          exact if_pos hm
        rw [hs]
        refine ⟨rfl, fun r => ?_⟩
        rw [lt_max_iff, Nat.lt_succ_iff]
        refine or_congr_right ⟨fun h => ⟨n, mask, h, rfl, hm⟩, ?_⟩
        rintro ⟨r', mask', h, he, -⟩
        obtain ⟨rfl, rfl⟩ := Prod.mk.inj (Option.some.inj he)
        exact h
      · have hs : s.source src = s := by
          rw [Scan.source, hc]
          exact if_neg hm
        rw [hs]
        refine ⟨rfl, fun r => ⟨.inl, ?_⟩⟩
        rintro (h | ⟨r', mask', -, he, hm'⟩)
        · exact h
        · obtain ⟨rfl, rfl⟩ := Prod.mk.inj (Option.some.inj he)
          exact absurd hm' hm

/-- The same of all the sources of an instruction. -/
theorem Scan.foldl_source_spec (srcs : List String) (s : Scan) :
    (srcs.foldl Scan.source s).written = s.written ∧
      ∀ r, r < (srcs.foldl Scan.source s).bound ↔ r < s.bound ∨ ∃ src ∈ srcs, ∃ r' mask,
        r ≤ r' ∧ sourceComponents src = some (r', mask) ∧ mask &&& ~~~s.written r' ≠ 0 := by
  induction srcs generalizing s with
  | nil => simp
  | cons src srcs ih =>
      obtain ⟨hw, hb⟩ := ih (s.source src)
      obtain ⟨hw', hb'⟩ := s.source_spec src
      rw [List.foldl_cons]
      refine ⟨hw.trans hw', fun r => ?_⟩
      rw [hb, hb', hw', List.exists_mem_cons_iff, or_assoc]

/-- What the scan has found out after the instructions `l`. -/
theorem scan_spec (l : List Instr) :
    (∀ r (c : Fin 4), ((l.foldl Scan.instr {}).written r).getLsbD c = true ↔
      ∃ j ∈ l, j.writes r c = true) ∧
    ∀ r, r < (l.foldl Scan.instr {}).bound ↔ ∃ r', r ≤ r' ∧ FreshRead l r' := by
  induction l using List.reverseRecOn with
  | nil => simp [FreshRead]
  | append_singleton l ins ih =>
      obtain ⟨hw, hb⟩ := ih
      rw [List.foldl_append, List.foldl_cons, List.foldl_nil]
      set s := l.foldl Scan.instr {} with hs
      obtain ⟨hsw, hsb⟩ := Scan.foldl_source_spec ins.srcs s
      constructor
      · intro r c
        rw [Scan.instr, Scan.dest_written, hsw, Bool.or_eq_true, hw]
        simp [List.mem_append, or_and_right, exists_or]
      · intro r
        rw [Scan.instr, Scan.dest_bound, hsb, hb]
        constructor
        · rintro (⟨r', hr, before, i, after, rfl, h⟩ | ⟨src, hsrc, r', mask, hr, hc, hm⟩)
          · exact ⟨r', hr, before, i, after ++ [ins], by simp, h⟩
          · obtain ⟨c, hmc, hwc⟩ := (and_not_ne_zero_iff _ _).1 hm
            refine ⟨r', hr, l, ins, [], rfl, src, hsrc, mask, c, hc, hmc, fun j hj => ?_⟩
            by_contra hj'
            have := (hw r' c).2 ⟨j, hj, by simpa using hj'⟩
            rw [this] at hwc
            exact Bool.true_eq_false_eq_False hwc
        · rintro ⟨r', hr, before, i, after, hl, src, hsrc, mask, c, hc, hmc, hfresh⟩
          rcases List.eq_nil_or_concat after with rfl | ⟨after', x, rfl⟩
          · obtain ⟨rfl, hi⟩ := List.append_inj' hl rfl
            obtain rfl : ins = i := by simpa using hi
            refine .inr ⟨src, hsrc, r', mask, hr, hc, (and_not_ne_zero_iff _ _).2 ⟨c, hmc, ?_⟩⟩
            by_contra hwc
            obtain ⟨j, hj, hjw⟩ := (hw r' c).1 (by simpa using hwc)
            rw [hfresh j hj] at hjw
            exact Bool.false_ne_true hjw
          · left
            rw [List.concat_eq_append, ← List.cons_append, ← List.append_assoc] at hl
            obtain ⟨rfl, -⟩ := List.append_inj' hl rfl
            exact ⟨r', hr, before, i, after', rfl, src, hsrc, mask, c, hc, hmc, hfresh⟩

/-- The shader stages. -/
inductive Stage
  | vs
  | ps
  deriving DecidableEq, Repr

/-- The pairs of a block: a vector instruction and the next one where that is
marked as co-issued, whatever their predicates. -/
def pairs : List Instr → List Group
  | [] => []
  | [i] => [⟨i, none⟩]
  | i :: j :: rest =>
      if j.coissued ∧ i.op ∈ vectorOps then ⟨i, some j⟩ :: pairs rest
      else ⟨i, none⟩ :: pairs (j :: rest)

/-- The instructions of a group, in the order of the listing. -/
def Group.instrs (g : Group) : List Instr := g.ins :: g.partner.toList

/-- What is issued at once: instructions, each with those before it in the listing. -/
abbrev Event := List (List Instr × Instr)

/-- The halves of a pair that follows the text `before`. -/
def Group.halves (before : List Instr) (g : Group) : Event :=
  (before, g.ins) :: g.partner.toList.map (before ++ [g.ins], ·)

/-- Pairs that follow the text `before`. -/
def events : List Instr → List Group → List Event
  | _, [] => []
  | before, g :: gs => g.halves before :: events (before ++ g.instrs) gs

/-- `l'` is left of `l` where some of what may be skipped is skipped. -/
inductive Kept {α : Type*} (skippable : α → Prop) : List α → List α → Prop
  | nil : Kept skippable [] []
  | keep (a : α) {l l' : List α} (h : Kept skippable l l') : Kept skippable (a :: l) (a :: l')
  | skip (a : α) (ha : skippable a) {l l' : List α} (h : Kept skippable l l') : Kept skippable (a :: l) l'

/-- An instruction can be skipped if it has a predicate. -/
def Instr.Skippable (ins : Instr) : Prop := ins.pred ≠ none

/-- `e'` is what one execution performs of `e`: each half may be skipped by its own
predicate. -/
def Issued (e e' : Event) : Prop := Kept (fun h : List Instr × Instr => h.2.Skippable) e e'

/-- `es'` is what one execution performs of `es`. -/
def Performed : List Event → List Event → Prop := List.Forall₂ Issued

/-- Whether a condition can have the value `v` under the boolean constants: one
on `p0` can have either. -/
def condMay (bools : ℤ → Bool) (v : Bool) (cond : String) : Bool :=
  match boolExpr cond with
  | .ok ⟨_, .p0⟩ => true
  | .ok ⟨neg, .boolConst n⟩ => (neg != bools n) == v
  | .error _ => !v

/-- Whether a block can be entered. -/
def Block.mayEnter (bools : ℤ → Bool) (b : Block) : Bool := b.conds.all (condMay bools true)

/-- Whether a block can be passed over. -/
def Block.mayPass (bools : ℤ → Bool) (b : Block) : Bool := b.conds.any (condMay bools false)

/-- The executions of a shader from block `pc` to its end, with what they perform. -/
inductive Path (blocks : List Block) (bools : ℤ → Bool) : ℕ → List Event → Prop
  | done {pc : ℕ} (hpc : blocks.length ≤ pc) : Path blocks bools pc []
  | pass {pc : ℕ} {b : Block} {es : List Event} (hb : blocks[pc]? = some b)
      (hp : b.mayPass bools = true) (h : Path blocks bools (pc + 1) es) : Path blocks bools pc es
  | label {pc : ℕ} {b : Block} {es : List Event} {l : String} (hb : blocks[pc]? = some b)
      (hk : b.kind = .label l) (h : Path blocks bools (pc + 1) es) : Path blocks bools pc es
  | jump {pc k : ℕ} {b : Block} {es : List Event} {t : String} (hb : blocks[pc]? = some b)
      (he : b.mayEnter bools = true) (ht : b.kind.target? = some t)
      (hk : labelIndex blocks t = some k) (h : Path blocks bools k es) : Path blocks bools pc es
  | exec {pc : ℕ} {b : Block} {es es' : List Event} (hb : blocks[pc]? = some b)
      (he : b.mayEnter bools = true) (ht : b.kind.target? = none)
      (hp : Performed (events (listing (blocks.take pc)) (pairs b.instrs)) es)
      (h : Path blocks bools (if b.kind.isEnd then blocks.length else pc + 1) es') :
      Path blocks bools pc (es ++ es')

/-- What is kept of a list is among its elements. -/
theorem Kept.subset {α : Type*} {skippable : α → Prop} {l l' : List α} (h : Kept skippable l l') :
    ∀ a ∈ l', a ∈ l := by
  induction h with
  | nil => exact fun a ha => ha
  | keep a _ ih =>
      intro b hb
      rcases List.mem_cons.1 hb with rfl | hb
      · exact List.mem_cons_self ..
      · exact List.mem_cons_of_mem _ (ih b hb)
  | skip a _ _ ih => exact fun b hb => List.mem_cons_of_mem _ (ih b hb)

/-- The pairs of a block are its instructions, in order. -/
theorem pairs_flatMap_instrs : ∀ is : List Instr, (pairs is).flatMap Group.instrs = is
  | [] => rfl
  | [i] => rfl
  | i :: j :: rest => by
      rw [pairs]
      split
      · simp [Group.instrs, pairs_flatMap_instrs rest]
      · simpa [Group.instrs] using pairs_flatMap_instrs (j :: rest)

/-- A half stands behind the text it comes with. -/
theorem text_of_mem_halves {g : Group} {start before : List Instr} {ins : Instr}
    (h : (before, ins) ∈ g.halves start) : ∃ after, start ++ g.instrs = before ++ ins :: after := by
  rcases List.mem_cons.1 h with he | h
  · obtain ⟨rfl, rfl⟩ := Prod.mk.inj he
    exact ⟨g.partner.toList, rfl⟩
  · obtain ⟨i, hi, he⟩ := List.mem_map.1 h
    obtain ⟨rfl, rfl⟩ := Prod.mk.inj he
    have hp : g.partner = some i := by simpa using hi
    exact ⟨[], by simp [Group.instrs, hp]⟩

/-- A half that takes place stands in the listing, behind the instructions it is said to stand
behind. -/
theorem text_of_mem_events {start : List Instr} {gs : List Group} {e : Event} (h : e ∈ events start gs)
    {before : List Instr} {ins : Instr} (hhalf : (before, ins) ∈ e) :
    ∃ after, start ++ gs.flatMap Group.instrs = before ++ ins :: after := by
  induction gs generalizing start with
  | nil => exact absurd h List.not_mem_nil
  | cons g gs ih =>
      rcases List.mem_cons.1 h with rfl | h
      · obtain ⟨after, ha⟩ := text_of_mem_halves hhalf
        exact ⟨after ++ gs.flatMap Group.instrs, by
          rw [List.flatMap_cons, ← List.append_assoc, ha, List.append_assoc, List.cons_append]⟩
      · obtain ⟨after, ha⟩ := ih h
        exact ⟨after, by rw [← ha, List.flatMap_cons, List.append_assoc]⟩

/-- A half that was performed is a half of one of the events. -/
theorem Performed.half {es es' : List Event} (h : Performed es es') {e' : Event} (he : e' ∈ es')
    {p : List Instr × Instr} (hp : p ∈ e') : ∃ e ∈ es, p ∈ e := by
  induction h with
  | nil => exact absurd he List.not_mem_nil
  | cons hissued _ ih =>
      rcases List.mem_cons.1 he with rfl | he
      · exact ⟨_, List.mem_cons_self .., Kept.subset hissued p hp⟩
      · obtain ⟨e, hmem, hpe⟩ := ih he
        exact ⟨e, List.mem_cons_of_mem _ hmem, hpe⟩

/-- The listing is what stands before a block, the block's own instructions, and what stands behind
it. -/
theorem listing_split {blocks : List Block} {pc : ℕ} {b : Block} (hb : blocks[pc]? = some b) :
    listing blocks = listing (blocks.take pc) ++ b.instrs ++ listing (blocks.drop (pc + 1)) := by
  obtain ⟨hpc, hbpc⟩ := List.getElem?_eq_some_iff.1 hb
  have hsplit : blocks = blocks.take pc ++ b :: blocks.drop (pc + 1) := by
    rw [← hbpc, List.getElem_cons_drop, List.take_append_drop]
  conv_lhs => rw [hsplit]
  simp [listing]

/-- What an execution performs stands in the listing after the text it comes with. -/
theorem Path.text {blocks : List Block} {bools : ℤ → Bool} {pc : ℕ} {es : List Event}
    (h : Path blocks bools pc es) {e : Event} (he : e ∈ es) {before : List Instr} {ins : Instr}
    (hhalf : (before, ins) ∈ e) : ∃ after, listing blocks = before ++ ins :: after := by
  induction h with
  | done => exact absurd he List.not_mem_nil
  | pass _ _ _ ih | label _ _ _ ih | jump _ _ _ _ _ ih => exact ih he
  | exec hb _ _ hp _ ih =>
      rcases List.mem_append.1 he with he | he
      · obtain ⟨e', he', hhalf'⟩ := hp.half he hhalf
        obtain ⟨after, ha⟩ := text_of_mem_events he' hhalf'
        rw [pairs_flatMap_instrs] at ha
        exact ⟨after ++ _, by rw [listing_split hb, ha, List.append_assoc, List.cons_append]⟩
      · exact ih he

/-- Whether a predicate holds of `p0`. -/
def predHolds (p0 : Bool) : Option Pred → Bool
  | none => true
  | some .p0 => p0
  | some .notP0 => !p0

variable {σ : Type*}

/-- A machine that performs a group when its predicate holds, and keeps a list of
the instructions it performed. -/
def Machine.perform (M : Machine σ) : Machine (σ × List Instr) where
  p0 s := M.p0 s.1
  boolConst := M.boolConst
  exec g s := if predHolds (M.p0 s.1) g.ins.pred then (M.exec g s.1, s.2 ++ g.instrs) else s

/-- A condition that held is one that may hold, as far as the boolean constants tell. -/
theorem condMay_of_eval (M : Machine σ) (s : σ) (cond : String) :
    condMay M.boolConst (condHolds M s cond) cond = true := by
  unfold condMay condHolds
  cases boolExpr cond with
  | error e => rfl
  | ok c =>
      obtain ⟨neg, flag⟩ := c
      cases flag with
      | p0 => rfl
      | boolConst n => simp [Cond.eval, Flag.eval]

/-- A block that was entered is one that may be. -/
theorem Block.mayEnter_of_enters {M : Machine σ} {s : σ} {b : Block} (h : b.enters M s = true) :
    b.mayEnter M.boolConst = true := by
  rw [Block.enters, List.all_eq_true] at h
  rw [Block.mayEnter, List.all_eq_true]
  exact fun cond hc => by simpa [h cond hc] using condMay_of_eval M s cond

/-- A block that was passed over is one that may be. -/
theorem Block.mayPass_of_not_enters {M : Machine σ} {s : σ} {b : Block}
    (h : b.enters M s = false) : b.mayPass M.boolConst = true := by
  rw [Block.enters, List.all_eq_false] at h
  obtain ⟨cond, hc, hf⟩ := h
  rw [Block.mayPass, List.any_eq_true]
  exact ⟨cond, hc, by simpa [Bool.eq_false_iff.2 hf] using condMay_of_eval M s cond⟩

/-- What one group leaves of its instructions, whether or not its predicate holds. -/
theorem kept_of_group (M : Machine σ) (i : ℕ) (g : Group) (hpred : ∀ j ∈ g.partner, j.pred = g.ins.pred)
    {is L : List Instr} {gs : List Group} {s : σ × List Instr} {t : Trace} (hkept : Kept Instr.Skippable is L)
    (hst : (execGroups M.perform i gs (M.perform.exec g s) (t ++ [(i, g)])).1.2 = (M.perform.exec g s).2 ++ L) :
    ∃ L', Kept Instr.Skippable (g.instrs ++ is) L' ∧ (execGroups M.perform i (g :: gs) s t).1.2 = s.2 ++ L' := by
  obtain ⟨ins, partner⟩ := g
  by_cases hp : predHolds (M.p0 s.1) ins.pred = true
  · have hexec : (M.perform.exec ⟨ins, partner⟩ s).2 = s.2 ++ Group.instrs ⟨ins, partner⟩ := by
      simp [Machine.perform, hp]
    refine ⟨Group.instrs ⟨ins, partner⟩ ++ L, ?_, ?_⟩
    · cases partner with
      | none => exact .keep ins hkept
      | some j => exact .keep ins (.keep j hkept)
    · rw [hexec, List.append_assoc] at hst
      exact hst
  · have hexec : M.perform.exec ⟨ins, partner⟩ s = s := by simp [Machine.perform, hp]
    have hskip : ins.Skippable := fun hnone => hp (by rw [hnone]; rfl)
    refine ⟨L, ?_, ?_⟩
    · cases partner with
      | none => exact .skip ins hskip hkept
      | some j =>
          have hj : j.pred = ins.pred := hpred j rfl
          exact .skip ins hskip (.skip j (fun hnone => hskip (hj.symm.trans hnone)) hkept)
    · rw [hexec] at hst
      rw [← hst, execGroups, execGroups, List.foldl_cons]
      dsimp only
      rw [hexec]

/-- Executing the groups of a block performs its instructions, in order, but for some with a predicate. -/
theorem exists_kept (M : Machine σ) (i : ℕ) (is : List Instr) (s : σ × List Instr) (t : Trace) :
    ∃ L, Kept Instr.Skippable is L ∧ (execGroups M.perform i (groups is) s t).1.2 = s.2 ++ L := by
  have halone : ∀ (ins : Instr) (j : Instr), j ∈ (none : Option Instr) → j.pred = ins.pred :=
    fun _ _ hj => absurd hj (Option.not_mem_none _)
  induction is using groups.induct generalizing s t with
  | case1 => exact ⟨[], .nil, by simp [groups, execGroups]⟩
  | case2 ins =>
      exact kept_of_group M i ⟨ins, none⟩ (halone ins) .nil (by simp [execGroups])
  | case3 ins j rest h ih =>
      obtain ⟨L, hkept, hst⟩ := ih (M.perform.exec ⟨ins, some j⟩ s) (t ++ [(i, ⟨ins, some j⟩)])
      rw [groups, if_pos h]
      refine kept_of_group M i ⟨ins, some j⟩ ?_ hkept hst
      rintro _ ⟨⟩
      exact h.2.2
  | case4 ins j rest h ih =>
      obtain ⟨L, hkept, hst⟩ := ih (M.perform.exec ⟨ins, none⟩ s) (t ++ [(i, ⟨ins, none⟩)])
      rw [groups, if_neg h]
      exact kept_of_group M i ⟨ins, none⟩ (halone ins) hkept hst

/-- What is left of the instructions of a block, an execution of its pairs performs. -/
theorem exists_performed {is L : List Instr} (h : Kept Instr.Skippable is L) (before : List Instr) :
    ∃ es, Performed (events before (pairs is)) es ∧ es.flatten.map Prod.snd = L := by
  have hhalf : ∀ (before : List Instr) (ins : Instr) {is L : List Instr}, Kept Instr.Skippable (ins :: is) L →
      ∃ (L' : List Instr) (e : Event), Kept Instr.Skippable is L' ∧ L = e.map Prod.snd ++ L' ∧
        ∀ {rest rest' : Event}, Issued rest rest' → Issued ((before, ins) :: rest) (e ++ rest') := by
    intro before ins is L h
    cases h with
    | keep _ h => exact ⟨_, [(before, ins)], h, rfl, fun hrest => .keep _ hrest⟩
    | skip _ hskip h => exact ⟨L, [], h, rfl, fun hrest => Kept.skip (before, ins) hskip hrest⟩
  induction is using pairs.induct generalizing L before with
  | case1 =>
      cases h
      exact ⟨[], .nil, rfl⟩
  | case2 ins =>
      obtain ⟨L', e, hnil, rfl, hissued⟩ := hhalf before ins h
      cases hnil
      refine ⟨[e], .cons ?_ .nil, by simp⟩
      have halone : Issued [(before, ins)] (e ++ []) := hissued .nil
      rwa [List.append_nil] at halone
  | case3 ins j rest hpair ih =>
      obtain ⟨L₁, e₁, h₁, rfl, hissued₁⟩ := hhalf before ins h
      obtain ⟨L₂, e₂, h₂, rfl, hissued₂⟩ := hhalf (before ++ [ins]) j h₁
      obtain ⟨es, hes, rfl⟩ := ih h₂ (before ++ [ins, j])
      rw [pairs, if_pos hpair]
      have hissued : Issued [(before, ins), (before ++ [ins], j)] (e₁ ++ (e₂ ++ [])) := hissued₁ (hissued₂ .nil)
      rw [List.append_nil] at hissued
      exact ⟨(e₁ ++ e₂) :: es, .cons hissued hes, by simp⟩
  | case4 ins j rest hpair ih =>
      obtain ⟨L₁, e₁, h₁, rfl, hissued₁⟩ := hhalf before ins h
      obtain ⟨es, hes, rfl⟩ := ih h₁ (before ++ [ins])
      rw [pairs, if_neg hpair]
      have hissued : Issued [(before, ins)] (e₁ ++ []) := hissued₁ .nil
      rw [List.append_nil] at hissued
      exact ⟨e₁ :: es, .cons hissued hes, by simp⟩

/-- **Every run is an execution.**  The instructions a machine performs of an
accepted shader, from some block to its end, are those some path performs. -/
theorem exists_path_of_run {blocks : List Block} (hv : validateBlocks blocks = .ok ())
    (M : Machine σ) (n : ℕ) (c : Config (σ × List Instr)) (hn : blocks.length ≤ c.pc + n) :
    ∃ es, Path blocks M.boolConst c.pc es ∧
      ((ucodeStep M.perform blocks)^[n] c).st.2 = c.st.2 ++ es.flatten.map Prod.snd := by
  induction n generalizing c with
  | zero => exact ⟨[], .done hn, by simp⟩
  | succ n ih =>
      rw [Function.iterate_succ_apply]
      cases hb : blocks[c.pc]? with
      | none =>
          have hpc := List.getElem?_eq_none_iff.1 hb
          rw [ucodeStep_halted hpc]
          obtain ⟨es, -, hst⟩ := ih c (by omega)
          rw [Function.iterate_fixed (ucodeStep_halted hpc)]
          exact ⟨[], .done hpc, by simp⟩
      | some b =>
          cases he : b.enters M.perform c.st with
          | false =>
              rw [ucodeStep_skip hb he]
              obtain ⟨es, hpath, hst⟩ := ih { c with pc := c.pc + 1 } (by simp; omega)
              exact ⟨es, .pass hb (Block.mayPass_of_not_enters he) hpath, hst⟩
          | true =>
              have hmay := Block.mayEnter_of_enters he
              by_cases hl : ∃ l, b.kind = .label l
              · obtain ⟨l, hl⟩ := hl
                rw [ucodeStep_label hb hl]
                obtain ⟨es, hpath, hst⟩ := ih { c with pc := c.pc + 1 } (by simp; omega)
                exact ⟨es, .label hb hl hpath, hst⟩
              · cases ht : b.kind.target? with
                | some t =>
                    obtain ⟨k, hk, hlt⟩ := jump_forward hv hb ht
                    rw [ucodeStep_jump hb he ht hk]
                    obtain ⟨es, hpath, hst⟩ := ih { c with pc := k } (by simp; omega)
                    exact ⟨es, .jump hb hmay ht hk hpath, hst⟩
                | none =>
                    rw [ucodeStep_exec hb he ht fun l hk => hl ⟨l, hk⟩]
                    obtain ⟨L, hkept, hst⟩ := exists_kept M c.pc b.instrs c.st c.trace
                    obtain ⟨es, hes, rfl⟩ := exists_performed hkept (listing (blocks.take c.pc))
                    obtain ⟨es', hpath, hst'⟩ := ih ⟨if b.kind.isEnd then blocks.length else c.pc + 1,
                      (execGroups M.perform c.pc (groups b.instrs) c.st c.trace).1,
                      (execGroups M.perform c.pc (groups b.instrs) c.st c.trace).2⟩
                      (by simp only; split <;> omega)
                    refine ⟨es ++ es', .exec hb hmay ht hes hpath, ?_⟩
                    rw [hst', hst, List.flatten_append, List.map_append, List.append_assoc]

end Ucode
end BoltsRebuilt
