/-
# The guarded program runs the blocks the shader runs

Two meanings of a block list.  `ucodeStep` is the guest's: a program counter
over the blocks, a taken jump resumes at the first block carrying its label, a
block's predicate and condition are read when it is entered, and an executed
`exece` or `cexece` ends the shader after its instructions.  `Hlsl.run` is that
of the lines `translate_body` emits (`Translate`): nested `if`s over flags that
start `false` and are never cleared.

Both run on a machine whose state, predicate register, boolean constants and
instructions are arbitrary (`Machine`), and both record the instructions they
execute with the index of their block.

The translated program goes through every block.  `Sync` says how the two stand
before block `i`: either the guest is there too and no open flag is set; or it
is at a later label, whose flag is the one open flag set; or the shader has
ended, and `jump___end` is set or nothing is left that could execute.  Each
block keeps `Sync` (`sync_block`), and after the last one it says that both
have executed the same (`translateBody_run_eq`).

This needs that no block carries the label `__end`: such a label closes the
guard of the ended shader.
-/

import BoltsRebuilt.Ucode.Translate
import Mathlib.Logic.Function.Iterate

namespace BoltsRebuilt
namespace Ucode

/-- A shader machine: any state, any predicate register, any boolean constants,
any behaviour of the instructions. -/
structure Machine (σ : Type*) where
  p0 : σ → Bool
  boolConst : ℤ → Bool
  exec : Group → σ → σ

variable {σ : Type*} (M : Machine σ)

/-- The instructions executed, with the index of their block. -/
abbrev Trace := List (ℕ × Group)

def Flag.eval (s : σ) : Flag → Bool
  | .p0 => M.p0 s
  | .boolConst n => M.boolConst n

def Cond.eval (s : σ) (c : Cond) : Bool := c.neg != c.flag.eval M s

/-- The value of a conjunction of conditions. -/
def evalAll (s : σ) (conds : List Cond) : Bool := conds.all (·.eval M s)

/-! ### The guest's blocks -/

/-- A guest shader between two blocks. -/
structure Config (σ : Type*) where
  pc : ℕ
  st : σ
  trace : Trace

/-- A condition word of the listing; a word that is none holds nowhere. -/
def condHolds (s : σ) (cond : String) : Bool :=
  match boolExpr cond with
  | .ok c => c.eval M s
  | .error _ => false

/-- Whether a block is entered, or a jump taken. -/
def Block.enters (s : σ) (b : Block) : Bool := b.conds.all (condHolds M s)

/-- Execute the groups of block `i` in order. -/
def execGroups (i : ℕ) (gs : List Group) (s : σ) (t : Trace) : σ × Trace :=
  gs.foldl (fun (s, t) g => (M.exec g s, t ++ [(i, g)])) (s, t)

/-- One block of the guest shader; past the last block it has ended. -/
def ucodeStep (blocks : List Block) (c : Config σ) : Config σ :=
  match blocks[c.pc]? with
  | none => c
  | some b =>
      if b.enters M c.st then
        match b.kind with
        | .label _ => { c with pc := c.pc + 1 }
        | .jmp t | .cjmp _ t => { c with pc := (labelIndex blocks t).getD blocks.length }
        | kind =>
            let r := execGroups M c.pc (groups b.instrs) c.st c.trace
            { pc := if kind.isEnd then blocks.length else c.pc + 1, st := r.1, trace := r.2 }
      else { c with pc := c.pc + 1 }

/-! ### The translated lines -/

/-- A translated shader between two lines: `skip` counts the braces opened since
an `if` whose condition failed. -/
structure Hlsl (σ : Type*) where
  st : σ
  flags : String → Bool
  trace : Trace
  skip : ℕ

/-- Enter an `if`, or skip to its brace. -/
def Hlsl.enter (h : Hlsl σ) (c : Bool) : Hlsl σ := if c then h else { h with skip := 1 }

/-- One line of the translated body. -/
def Hlsl.step (h : Hlsl σ) (line : Line) : Hlsl σ :=
  if h.skip = 0 then
    match line with
    | .ifNotJump l => h.enter (!h.flags l)
    | .ifConds cs => h.enter (evalAll M h.st cs)
    | .setJump l => { h with flags := Function.update h.flags l true }
    | .setJumpIf cs l =>
        if evalAll M h.st cs then { h with flags := Function.update h.flags l true } else h
    | .instr i g => { h with st := M.exec g h.st, trace := h.trace ++ [(i, g)] }
    | .close => h
  else
    match line with
    | .ifNotJump _ | .ifConds _ => { h with skip := h.skip + 1 }
    | .close => { h with skip := h.skip - 1 }
    | _ => h

/-- Run the translated lines. -/
def Hlsl.run (lines : List Line) (h : Hlsl σ) : Hlsl σ := lines.foldl (Hlsl.step M) h

/-- The start of a translated shader: every flag is declared `false`. -/
def Hlsl.init (s : σ) : Hlsl σ := ⟨s, fun _ => false, [], 0⟩

variable {M}

/-- No lines leave the emitted program's state as it is. -/
@[simp] theorem Hlsl.run_nil (h : Hlsl σ) : h.run M [] = h := rfl

/-- The first line runs, and the others run from where it leads. -/
@[simp] theorem Hlsl.run_cons (l : Line) (ls : List Line) (h : Hlsl σ) :
    h.run M (l :: ls) = (h.step M l).run M ls := rfl

/-- A listing of two parts is the second run from where the first ends. -/
theorem Hlsl.run_append (ls ls' : List Line) (h : Hlsl σ) :
    h.run M (ls ++ ls') = (h.run M ls).run M ls' := List.foldl_append

/-! ### Braces -/

/-- Lines that are passed over whole while skipping, for every machine state. -/
def Balanced (M : Machine σ) (ls : List Line) : Prop := ∀ h : Hlsl σ, 0 < h.skip → h.run M ls = h

/-- Two stretches whose braces match, one after the other, match as well. -/
theorem Balanced.append {ls ls' : List Line} (hl : Balanced M ls) (hl' : Balanced M ls') :
    Balanced M (ls ++ ls') := fun h hs => by
  rw [Hlsl.run_append, hl h hs, hl' h hs]

/-- A guarded block is passed over from its opening brace to its closing one. -/
theorem Balanced.guard {ls : List Line} (hl : Balanced M ls) {o : Line}
    (ho : ∀ h : Hlsl σ, 0 < h.skip → h.step M o = { h with skip := h.skip + 1 }) :
    Balanced M (o :: ls ++ [.close]) := fun h hs => by
  have hs' : 0 < ({ h with skip := h.skip + 1 } : Hlsl σ).skip := Nat.succ_pos _
  rw [List.cons_append, Hlsl.run_cons, ho h hs, Hlsl.run_append, hl _ hs']
  simp [Hlsl.step]

/-- Lines without braces are balanced: inside a skip they do nothing. -/
theorem balanced_of_forall {ls : List Line}
    (hl : ∀ l ∈ ls, ∀ h : Hlsl σ, 0 < h.skip → h.step M l = h) : Balanced M ls := by
  induction ls with
  | nil => exact fun h _ => rfl
  | cons l ls ih =>
      intro h hs
      rw [Hlsl.run_cons, hl l (List.mem_cons_self ..) h hs]
      exact ih (fun l' h' => hl l' (List.mem_cons_of_mem _ h')) h hs

/-- Instruction lines open and close nothing. -/
theorem balanced_instrs (i : ℕ) (gs : List Group) : Balanced M (gs.map (.instr i)) :=
  balanced_of_forall fun l hl h hs => by
    obtain ⟨g, -, rfl⟩ := List.mem_map.1 hl
    simp [Hlsl.step, Nat.ne_of_gt hs]

/-- Running a guarded block whose condition fails does nothing. -/
theorem run_guard_false {ls : List Line} (hl : Balanced M ls) {o : Line} {h : Hlsl σ}
    (hs : h.skip = 0) (ho : h.step M o = { h with skip := 1 }) :
    h.run M (o :: ls ++ [.close]) = h := by
  have hs' : 0 < ({ h with skip := 1 } : Hlsl σ).skip := Nat.one_pos
  rw [List.cons_append, Hlsl.run_cons, ho, Hlsl.run_append, hl _ hs']
  obtain ⟨st, flags, trace, skip⟩ := h
  simp_all [Hlsl.step]

/-- Running a guarded block whose condition holds runs what it guards. -/
theorem run_guard_true {ls : List Line} {o : Line} {h : Hlsl σ} (ho : h.step M o = h)
    (hs : (h.run M ls).skip = 0) : h.run M (o :: ls ++ [.close]) = h.run M ls := by
  rw [List.cons_append, Hlsl.run_cons, ho, Hlsl.run_append]
  simp [Hlsl.step, hs]

/-- The nested guards of a block as one guard around the rest. -/
theorem guards_cons (l : String) (labels : List String) (ls : List Line) :
    (l :: labels).map Line.ifNotJump ++ ls ++ (l :: labels).map (fun _ => Line.close) =
      .ifNotJump l :: (labels.map Line.ifNotJump ++ ls ++ labels.map fun _ => Line.close) ++
        [.close] := by
  have hc : (l :: labels).map (fun _ => Line.close) =
      labels.map (fun _ => Line.close) ++ [Line.close] := by
    simp [← List.replicate_succ, ← List.replicate_succ']
  rw [hc]
  simp

/-- Every `if` of a label that was opened in front of a stretch is closed behind it, so guards
around matched braces match. -/
theorem balanced_guards {ls : List Line} (hl : Balanced M ls) (labels : List String) :
    Balanced M (labels.map Line.ifNotJump ++ ls ++ labels.map fun _ => Line.close) := by
  induction labels with
  | nil => simpa using hl
  | cons l labels ih =>
      rw [guards_cons]
      exact ih.guard fun h hs => by simp [Hlsl.step, Nat.ne_of_gt hs]

/-- Under guards that are all open, a block's lines run. -/
theorem run_guards_open {ls : List Line} {labels : List String} {h : Hlsl σ} (hs : h.skip = 0)
    (hs' : (h.run M ls).skip = 0) (hf : ∀ l ∈ labels, h.flags l = false) :
    h.run M (labels.map Line.ifNotJump ++ ls ++ labels.map fun _ => Line.close) =
      h.run M ls := by
  induction labels with
  | nil => simp
  | cons l labels ih =>
      have ih' := ih fun l' h' => hf l' (List.mem_cons_of_mem _ h')
      rw [guards_cons, run_guard_true, ih']
      · simp [Hlsl.step, hs, hf l (List.mem_cons_self ..), Hlsl.enter]
      · rw [ih', hs']

/-- Under guards one of which is closed, a block's lines do nothing. -/
theorem run_guards_closed {ls : List Line} (hl : Balanced M ls) {labels : List String}
    {h : Hlsl σ} (hs : h.skip = 0) {l : String} (hmem : l ∈ labels) (hf : h.flags l = true) :
    h.run M (labels.map Line.ifNotJump ++ ls ++ labels.map fun _ => Line.close) = h := by
  induction labels with
  | nil => exact absurd hmem List.not_mem_nil
  | cons l' labels ih =>
      rw [guards_cons]
      cases hf' : h.flags l' with
      | true =>
          exact run_guard_false (balanced_guards hl labels) hs (by
            simp [Hlsl.step, hs, Hlsl.enter, hf'])
      | false =>
          have hne : l ≠ l' := fun he => by rw [he, hf'] at hf; exact Bool.false_ne_true hf
          have ih' := ih (List.mem_of_ne_of_mem hne hmem)
          rw [run_guard_true, ih']
          · simp [Hlsl.step, hs, hf', Hlsl.enter]
          · rw [ih', hs]

/-! ### One block -/

/-- The conditions emitted for a block hold when the guest enters it. -/
theorem evalAll_conds {cs : List String} {conds : List Cond} (h : cs.mapM boolExpr = .ok conds)
    (s : σ) : evalAll M s conds = cs.all (condHolds M s) := by
  induction cs generalizing conds with
  | nil =>
      rw [List.mapM_nil] at h
      obtain rfl := Except.ok.inj h
      rfl
  | cons c cs ih =>
      rw [List.mapM_cons] at h
      cases hc : boolExpr c with
      | error e => rw [hc] at h; cases h
      | ok x =>
          cases hcs : cs.mapM boolExpr with
          | error e => rw [hc, hcs] at h; cases h
          | ok xs =>
              rw [hc, hcs] at h
              obtain rfl := Except.ok.inj h
              simp only [evalAll, List.all_cons, condHolds, hc]
              exact congrArg _ (ih hcs)

/-- Outside a skipped block the instruction lines of a block run all its groups, and record each in
the trace. -/
theorem run_instrs (i : ℕ) (gs : List Group) {h : Hlsl σ} (hs : h.skip = 0) :
    h.run M (gs.map (.instr i)) =
      { h with st := (execGroups M i gs h.st h.trace).1
               trace := (execGroups M i gs h.st h.trace).2 } := by
  induction gs generalizing h with
  | nil => rfl
  | cons g gs ih =>
      rw [List.map_cons, Hlsl.run_cons, ih (by simp [Hlsl.step, hs])]
      simp [Hlsl.step, hs, execGroups]

/-- What the lines inside a block's guards do once they are entered and the
block's conditions hold. -/
def Hlsl.enterBlock (M : Machine σ) (early : Bool) (i : ℕ) (b : Block) (h : Hlsl σ) : Hlsl σ :=
  match b.kind.target? with
  | some t => { h with flags := Function.update h.flags t true }
  | none =>
      let r := execGroups M i (groups b.instrs) h.st h.trace
      { h with
        st := r.1
        trace := r.2
        flags := if early && b.kind.isEnd then Function.update h.flags endLabel true else h.flags }

/-- Entering a block ends no skip and begins none. -/
@[simp] theorem Hlsl.enterBlock_skip (early : Bool) (i : ℕ) (b : Block) (h : Hlsl σ) :
    (h.enterBlock M early i b).skip = h.skip := by
  unfold Hlsl.enterBlock
  split <;> rfl

/-- The lines of a block's body, whatever its conditions and its kind, have matching braces. -/
theorem balanced_bodyLines (early : Bool) (i : ℕ) (b : Block) (conds : List Cond) :
    Balanced M (bodyLines early i b conds) := by
  have hset : Balanced M (if early && b.kind.isEnd then [.setJump endLabel] else []) :=
    balanced_of_forall fun l hl h hs => by
      split at hl
      · rw [List.mem_singleton.1 hl]; simp [Hlsl.step, Nat.ne_of_gt hs]
      · exact absurd hl List.not_mem_nil
  unfold bodyLines
  split
  · refine balanced_of_forall fun l hl h hs => ?_
    rw [List.mem_singleton.1 hl]
    split <;> simp [Hlsl.step, Nat.ne_of_gt hs]
  · by_cases hc : conds = []
    · simpa [hc] using (balanced_instrs i _).append hset
    · have hg := ((balanced_instrs (M := M) i (groups b.instrs)).append hset).guard
        (o := .ifConds conds) fun h hs => by simp [Hlsl.step, Nat.ne_of_gt hs]
      simpa [hc] using hg

/-- The instructions of a block and the flag of its end, without its condition. -/
theorem run_execLines (early : Bool) (i : ℕ) {b : Block} (ht : b.kind.target? = none) {h : Hlsl σ}
    (hs : h.skip = 0) :
    h.run M ((groups b.instrs).map (.instr i) ++
      (if early && b.kind.isEnd then [.setJump endLabel] else [])) = h.enterBlock M early i b := by
  rw [Hlsl.run_append, run_instrs i _ hs, Hlsl.enterBlock, ht]
  split <;> simp [Hlsl.step, hs]

/-- The lines of a block, entered with its conditions evaluated: all or nothing. -/
theorem run_bodyLines (early : Bool) (i : ℕ) (b : Block) (conds : List Cond) {h : Hlsl σ}
    (hs : h.skip = 0) : h.run M (bodyLines early i b conds) =
      if evalAll M h.st conds then h.enterBlock M early i b else h := by
  cases ht : b.kind.target? with
  | some t =>
      have he : h.enterBlock M early i b = { h with flags := Function.update h.flags t true } := by
        rw [Hlsl.enterBlock, ht]
      rw [bodyLines, ht, he]
      by_cases hc : conds = [] <;> simp [hc, evalAll, Hlsl.step, hs]
  | none =>
      have hrun := run_execLines (M := M) early i ht hs
      by_cases hc : conds = []
      · simp only [bodyLines, ht, hc, if_true, List.nil_append, List.append_nil]
        rw [hrun]
        rfl
      · have hb : Balanced M ((groups b.instrs).map (Line.instr i) ++
            (if early && b.kind.isEnd then [Line.setJump endLabel] else [])) := by
          simpa [bodyLines, ht] using balanced_bodyLines (M := M) early i b []
        have hlines : bodyLines early i b conds = .ifConds conds ::
            ((groups b.instrs).map (Line.instr i) ++
              (if early && b.kind.isEnd then [Line.setJump endLabel] else [])) ++ [.close] := by
          simp [bodyLines, ht, hc]
        rw [hlines]
        cases hv : evalAll M h.st conds with
        | true =>
            rw [run_guard_true (by simp [Hlsl.step, hs, hv, Hlsl.enter])
              (by rw [hrun, Hlsl.enterBlock_skip, hs]), hrun, if_pos rfl]
        | false =>
            rw [run_guard_false hb hs (by simp [Hlsl.step, hs, hv, Hlsl.enter])]
            rfl

/-- With no open flag set, a block's lines do what the guest does on entering it. -/
theorem run_blockLines_open {early : Bool} {i : ℕ} {b : Block} {labels : List String}
    {conds : List Cond} (hc : b.conds.mapM boolExpr = .ok conds) {h : Hlsl σ} (hs : h.skip = 0)
    (hf : ∀ l ∈ labels, h.flags l = false) :
    h.run M (blockLines early i b labels conds) =
      if b.enters M h.st then h.enterBlock M early i b else h := by
  have hb := run_bodyLines (M := M) early i b conds hs
  rw [evalAll_conds hc] at hb
  rw [blockLines, run_guards_open hs _ hf, hb]
  · rfl
  · rw [hb]
    split
    · rw [Hlsl.enterBlock_skip, hs]
    · exact hs

/-- With an open flag set, the lines of a block do nothing: every guard in front of them is closed. -/
theorem run_blockLines_closed {early : Bool} {i : ℕ} {b : Block} {labels : List String}
    {conds : List Cond} {h : Hlsl σ} (hs : h.skip = 0) {l : String} (hl : l ∈ labels)
    (hf : h.flags l = true) : h.run M (blockLines early i b labels conds) = h :=
  run_guards_closed (balanced_bodyLines early i b conds) hs hl hf

/-! ### The two shaders in step -/

/-- A label the blocks below index `i` have gone past. -/
def Passed (blocks : List Block) (i : ℕ) (l : String) : Prop :=
  ∃ k < i, labelIndex blocks l = some k

/-- Where the guest is when the translated program is before block `i`, and what
the flags say about it. -/
inductive Position (blocks : List Block) (early : Bool) (i : ℕ) (labels : List String)
    (flags : String → Bool) : ℕ → Prop
  /-- at block `i`; a flag that is set belongs to a label gone past -/
  | here (hpassed : ∀ l, flags l = true → Passed blocks i l) : Position blocks early i labels flags i
  /-- at a label further on, the only open one whose flag is set -/
  | jumped (l : String) (p : ℕ) (hl : l ∈ labels) (hp : labelIndex blocks l = some p) (hip : i ≤ p)
      (hf : flags l = true) (hpassed : ∀ l', flags l' = true → l' = l ∨ Passed blocks i l') :
      Position blocks early i labels flags p
  /-- ended, and the end is guarded -/
  | ended (hl : endLabel ∈ labels) (hf : flags endLabel = true) :
      Position blocks early i labels flags blocks.length
  /-- ended, with nothing left to guard against -/
  | exhausted (hearly : early = false)
      (hrest : ∀ b ∈ blocks.drop i, b.kind.target? = none ∧ b.instrs = []) :
      Position blocks early i labels flags blocks.length

/-- The translated program before block `i`, with the open flags `labels`, is in
step with the guest. -/
structure Sync (blocks : List Block) (early : Bool) (i : ℕ) (labels : List String) (c : Config σ)
    (h : Hlsl σ) : Prop where
  skip : h.skip = 0
  st : h.st = c.st
  trace : h.trace = c.trace
  nodup : labels.Nodup
  ahead : ∀ l ∈ labels, l = endLabel ∨ ∃ k, labelIndex blocks l = some k ∧ i ≤ k
  position : Position blocks early i labels h.flags c.pc

/-- The index found for a label is that of a block with this label. -/
theorem labelIndex_spec {blocks : List Block} {l : String} {k : ℕ}
    (h : labelIndex blocks l = some k) : ∃ b, blocks[k]? = some b ∧ b.kind = .label l := by
  obtain ⟨hk, hb, -⟩ := List.findIdx?_eq_some_iff_getElem.1 h
  exact ⟨blocks[k], List.getElem?_eq_getElem hk, by simpa using hb⟩

/-- The label of block `i` is carried first by block `i` or an earlier one. -/
theorem labelIndex_le {blocks : List Block} {l : String} {i : ℕ} {b : Block}
    (hb : blocks[i]? = some b) (hk : b.kind = .label l) : ∃ k, labelIndex blocks l = some k ∧ k ≤ i := by
  obtain ⟨hi, hbi⟩ := List.getElem?_eq_some_iff.1 hb
  cases hl : labelIndex blocks l with
  | none =>
      have := List.findIdx?_eq_none_iff.1 hl b (hbi ▸ List.getElem_mem hi)
      simp [hk] at this
  | some k =>
      refine ⟨k, rfl, ?_⟩
      obtain ⟨hk', -, hmin⟩ := List.findIdx?_eq_some_iff_getElem.1 hl
      by_contra hlt
      have := hmin i (by omega)
      simp [hbi, hk] at this

/-- A label no block carries is not gone past. -/
theorem not_passed_endLabel {blocks : List Block} (hend : ∀ b ∈ blocks, b.kind ≠ .label endLabel)
    (i : ℕ) : ¬Passed blocks i endLabel := by
  rintro ⟨k, -, hk⟩
  obtain ⟨b, hb, hkind⟩ := labelIndex_spec hk
  exact hend b (List.mem_of_getElem? hb) hkind

/-! ### What the guest does at a block -/

section Step

variable {blocks : List Block} {c : Config σ} {b : Block}

/-- A block whose condition fails is passed over. -/
theorem ucodeStep_skip (hb : blocks[c.pc]? = some b) (he : b.enters M c.st = false) :
    ucodeStep M blocks c = { c with pc := c.pc + 1 } := by
  simp [ucodeStep, hb, he]

/-- A label does nothing but stand where jumps lead to. -/
theorem ucodeStep_label (hb : blocks[c.pc]? = some b) {l : String} (hk : b.kind = .label l) :
    ucodeStep M blocks c = { c with pc := c.pc + 1 } := by
  simp [ucodeStep, hb, hk]

/-- A jump that is taken goes to the block of its label. -/
theorem ucodeStep_jump (hb : blocks[c.pc]? = some b) (he : b.enters M c.st = true) {t : String}
    (ht : b.kind.target? = some t) {k : ℕ} (hk : labelIndex blocks t = some k) :
    ucodeStep M blocks c = { c with pc := k } := by
  cases hkind : b.kind <;> simp only [hkind, Kind.target?, Option.some.injEq, reduceCtorEq] at ht
  all_goals subst ht; simp [ucodeStep, hb, he, hkind, hk]

/-- A block that is entered runs its instructions, and goes on to the next block or, at an `exece`,
to the end. -/
theorem ucodeStep_exec (hb : blocks[c.pc]? = some b) (he : b.enters M c.st = true)
    (ht : b.kind.target? = none) (hl : ∀ l, b.kind ≠ .label l) :
    ucodeStep M blocks c =
      { pc := if b.kind.isEnd then blocks.length else c.pc + 1
        st := (execGroups M c.pc (groups b.instrs) c.st c.trace).1
        trace := (execGroups M c.pc (groups b.instrs) c.st c.trace).2 } := by
  cases hkind : b.kind <;> simp only [hkind, Kind.target?, reduceCtorEq] at ht
  all_goals first
    | exact absurd hkind (hl _)
    | simp [ucodeStep, hb, he, hkind]

/-- The guest stays where it ended, behind the last block. -/
theorem ucodeStep_halted (hc : blocks.length ≤ c.pc) : ucodeStep M blocks c = c := by
  simp [ucodeStep, List.getElem?_eq_none hc]

end Step

/-! ### Each block keeps the step -/

section Sync

variable {blocks : List Block} {early : Bool} {i : ℕ} {b : Block} {labels : List String}
  {c : Config σ} {h : Hlsl σ}

/-- A label that was passed stays passed further down. -/
theorem Passed.mono {l : String} {j : ℕ} (hij : i ≤ j) (hp : Passed blocks i l) : Passed blocks j l :=
  let ⟨k, hk, hl⟩ := hp
  ⟨k, by omega, hl⟩

/-- While the guest is at block `i` no open flag is set. -/
theorem Sync.open_false (hs : Sync blocks early i labels c h)
    (hend : ∀ b ∈ blocks, b.kind ≠ .label endLabel)
    (hpassed : ∀ l, h.flags l = true → Passed blocks i l) : ∀ l ∈ labels, h.flags l = false := by
  intro l hl
  by_contra hf
  obtain ⟨k, hk, hlk⟩ := hpassed l (by simpa using hf)
  rcases hs.ahead l hl with rfl | ⟨k', hk', hik⟩
  · exact not_passed_endLabel hend i ⟨k, hk, hlk⟩
  · rw [hlk, Option.some.injEq] at hk'
    omega

/-- A label block closes its own flag and leaves the two in step. -/
theorem sync_label (hend : ∀ b ∈ blocks, b.kind ≠ .label endLabel) (hb : blocks[i]? = some b)
    {l : String} (hk : b.kind = .label l) (hs : Sync blocks early i labels c h) :
    ∃ c', (c' = c ∨ c' = ucodeStep M blocks c) ∧
      Sync blocks early (i + 1) (labels.erase l) c' h := by
  obtain ⟨kl, hkl, hkli⟩ := labelIndex_le hb hk
  have hahead : ∀ l' ∈ labels.erase l, l' = endLabel ∨
      ∃ k, labelIndex blocks l' = some k ∧ i + 1 ≤ k := by
    intro l' hl'
    obtain ⟨hne, hmem⟩ := hs.nodup.mem_erase_iff.1 hl'
    refine (hs.ahead l' hmem).imp_right fun ⟨k, hkk, hik⟩ => ⟨k, hkk, ?_⟩
    rcases Nat.lt_or_ge i k with hlt | hge
    · exact hlt
    · obtain ⟨b', hb', hk'⟩ := labelIndex_spec hkk
      obtain rfl : k = i := by omega
      rw [hb, Option.some.injEq] at hb'
      rw [← hb', hk, Kind.label.injEq] at hk'
      exact absurd hk'.symm hne
  have hkeep : ∀ l' ∈ labels, l' ≠ l → l' ∈ labels.erase l := fun l' hl' hne =>
    hs.nodup.mem_erase_iff.2 ⟨hne, hl'⟩
  have hnodup := hs.nodup.erase l
  obtain ⟨hskip, hst, htrace, -, -, hpos⟩ := hs
  generalize hpc : c.pc = pc at hpos
  cases hpos with
  | here hpassed =>
      refine ⟨_, .inr rfl, ?_⟩
      rw [ucodeStep_label (hpc ▸ hb) hk, hpc]
      exact ⟨hskip, hst, htrace, hnodup, hahead,
        .here fun l' hl' => (hpassed l' hl').mono (Nat.le_succ i)⟩
  | jumped l₀ _ hl hp hip hf hpassed =>
      rcases Nat.lt_or_ge i pc with hlt | hge
      · have hne : l₀ ≠ l := fun he => by
          rw [he, hkl, Option.some.injEq] at hp
          omega
        exact ⟨c, .inl rfl, hskip, hst, htrace, hnodup, hahead,
          hpc ▸ .jumped l₀ pc (hkeep l₀ hl hne) hp hlt hf fun l' hl' =>
            (hpassed l' hl').imp_right (Passed.mono (Nat.le_succ i))⟩
      · -- the guest has waited at this very label
        obtain rfl : pc = i := by omega
        refine ⟨_, .inr rfl, ?_⟩
        rw [ucodeStep_label (hpc.symm ▸ hb) hk, hpc]
        refine ⟨hskip, hst, htrace, hnodup, hahead, .here fun l' hl' => ?_⟩
        rcases hpassed l' hl' with rfl | hp'
        · exact ⟨pc, Nat.lt_succ_self pc, hp⟩
        · exact hp'.mono (Nat.le_succ pc)
  | ended hl hf =>
      have hne : endLabel ≠ l := fun he => hend b (List.mem_of_getElem? hb) (he ▸ hk)
      exact ⟨c, .inl rfl, hskip, hst, htrace, hnodup, hahead, hpc ▸ .ended (hkeep _ hl hne) hf⟩
  | exhausted he hrest =>
      exact ⟨c, .inl rfl, hskip, hst, htrace, hnodup, hahead, hpc ▸ .exhausted he fun b' hb' =>
        hrest b' (List.drop_subset_drop_left blocks (Nat.le_succ i) hb')⟩

/-- Adding a label that is already pending adds nothing. -/
theorem addLabel_nodup (hn : labels.Nodup) (l : String) : (addLabel labels l).Nodup := by
  unfold addLabel
  split
  · exact hn
  · rename_i hl
    rw [List.nodup_append]
    exact ⟨hn, by simp, by rintro a ha b hb rfl; exact hl (List.mem_singleton.1 hb ▸ ha)⟩

/-- After a jump its target is pending. -/
theorem mem_labelsAfter_of_target {t : String} (ht : b.kind.target? = some t) :
    t ∈ labelsAfter early b labels :=
  mem_labelsAfter.2 (.inr (by simp [opened?, ht]))

/-- After a conditional end that returns early the end label is pending. -/
theorem mem_labelsAfter_of_end (ht : b.kind.target? = none) (he : b.kind.isEnd = true) :
    endLabel ∈ labelsAfter true b labels :=
  mem_labelsAfter.2 (.inr (by simp [opened?, ht, he]))

/-- A block opens the label of its jump or the end of the shader. -/
theorem opened?_eq_some {t : String} (h : opened? early b = some t) :
    b.kind.target? = some t ∨ t = endLabel := by
  unfold opened? at h
  cases ht : b.kind.target? with
  | some t' => exact .inl (by simpa [ht] using h)
  | none => exact .inr (by simp only [ht] at h; split at h <;> simp_all)

/-- After an `exece` that does not end early nothing is left to execute. -/
theorem rest_of_endsEarly_false {blocks : List Block} (h : endsEarly blocks = false) {i : ℕ}
    {b : Block} (hb : blocks[i]? = some b) (he : b.kind.isEnd = true) :
    ∀ l ∈ blocks.drop (i + 1), l.kind.target? = none ∧ l.instrs = [] := by
  induction blocks generalizing i with
  | nil => simp at hb
  | cons b₀ later ih =>
      rw [endsEarly, Bool.or_eq_false_iff] at h
      cases i with
      | zero =>
          obtain rfl : b₀ = b := by simpa using hb
          intro l hl
          have := h.1
          rw [he, Bool.true_and, List.any_eq_false] at this
          simpa using this l (by simpa using hl)
      | succ i => simpa using ih h.2 (by simpa using hb)

/-- A block that is no label leaves the two in step. -/
theorem sync_block (hend : ∀ b ∈ blocks, b.kind ≠ .label endLabel) (hb : blocks[i]? = some b)
    (hearly : early = endsEarly blocks) (hl : ∀ l, b.kind ≠ .label l)
    (hjump : ∀ t, b.kind.target? = some t → ∃ k, labelIndex blocks t = some k ∧ i < k)
    {conds : List Cond} (hc : b.conds.mapM boolExpr = .ok conds)
    (hs : Sync blocks early i labels c h) :
    ∃ c', (c' = c ∨ c' = ucodeStep M blocks c) ∧
      Sync blocks early (i + 1) (labelsAfter early b labels) c'
        (h.run M (blockLines early i b labels conds)) := by
  have hnodup : (labelsAfter early b labels).Nodup := by
    unfold labelsAfter
    cases opened? early b with
    | none => exact hs.nodup
    | some t => exact addLabel_nodup hs.nodup t
  have hnext : ∀ l k, labelIndex blocks l = some k → i ≤ k → i + 1 ≤ k := by
    intro l k hk hik
    rcases Nat.lt_or_ge i k with hlt | hge
    · exact hlt
    · obtain ⟨b', hb', hk'⟩ := labelIndex_spec hk
      obtain rfl : k = i := by omega
      rw [hb, Option.some.injEq] at hb'
      exact absurd (hb' ▸ hk') (hl l)
  have hahead : ∀ l ∈ labelsAfter early b labels, l = endLabel ∨
      ∃ k, labelIndex blocks l = some k ∧ i + 1 ≤ k := by
    intro l hmem
    rcases mem_labelsAfter.1 hmem with hl' | ho
    · exact (hs.ahead l hl').imp_right fun ⟨k, hk, hik⟩ => ⟨k, hk, hnext l k hk hik⟩
    · exact (opened?_eq_some ho).symm.imp_right (hjump l)
  have hsub : ∀ l ∈ labels, l ∈ labelsAfter early b labels := fun l hl =>
    mem_labelsAfter.2 (.inl hl)
  have hopen := hs.open_false hend
  obtain ⟨hskip, hst, htrace, -, -, hpos⟩ := hs
  generalize hpc : c.pc = pc at hpos
  cases hpos with
  | here hpassed =>
      refine ⟨_, .inr rfl, ?_⟩
      have hpassed' : ∀ l, h.flags l = true → Passed blocks (i + 1) l := fun l hf =>
        (hpassed l hf).mono (Nat.le_succ i)
      rw [run_blockLines_open hc hskip (hopen hpassed), hst]
      cases he : b.enters M c.st with
      | false =>
          rw [if_neg Bool.false_ne_true, ucodeStep_skip (hpc.symm ▸ hb) he, hpc]
          exact ⟨hskip, hst, htrace, hnodup, hahead, .here hpassed'⟩
      | true =>
          rw [if_pos rfl]
          cases ht : b.kind.target? with
          | some t =>
              obtain ⟨k, hk, hik⟩ := hjump t ht
              rw [ucodeStep_jump (hpc.symm ▸ hb) he ht hk]
              simp only [Hlsl.enterBlock, ht]
              refine ⟨hskip, hst, htrace, hnodup, hahead,
                .jumped t k (mem_labelsAfter_of_target ht) hk hik (Function.update_self ..)
                  fun l hf => ?_⟩
              by_cases hlt : l = t
              · exact .inl hlt
              · exact .inr (hpassed' l ((Function.update_of_ne hlt true h.flags).symm.trans hf))
          | none =>
              rw [ucodeStep_exec (hpc.symm ▸ hb) he ht hl, hpc]
              simp only [Hlsl.enterBlock, ht, hst, htrace]
              refine ⟨hskip, rfl, rfl, hnodup, hahead, ?_⟩
              cases hend' : b.kind.isEnd with
              | false => simpa using Position.here hpassed'
              | true =>
                  cases early with
                  | true =>
                      simpa using Position.ended (mem_labelsAfter_of_end ht hend')
                        (Function.update_self ..)
                  | false =>
                      simpa using Position.exhausted rfl
                        (rest_of_endsEarly_false hearly.symm hb hend')
  | jumped l₀ _ hl₀ hp hip hf hpassed =>
      rw [run_blockLines_closed hskip hl₀ hf]
      exact ⟨c, .inl rfl, hskip, hst, htrace, hnodup, hahead,
        hpc ▸ .jumped l₀ pc (hsub l₀ hl₀) hp (hnext l₀ pc hp hip) hf fun l' hl' =>
          (hpassed l' hl').imp_right (Passed.mono (Nat.le_succ i))⟩
  | ended hl₀ hf =>
      rw [run_blockLines_closed hskip hl₀ hf]
      exact ⟨c, .inl rfl, hskip, hst, htrace, hnodup, hahead, hpc ▸ .ended (hsub _ hl₀) hf⟩
  | exhausted he hrest =>
      have hpos' : Position blocks early (i + 1) (labelsAfter early b labels) h.flags c.pc :=
        hpc ▸ .exhausted he fun b' hb' =>
          hrest b' (List.drop_subset_drop_left blocks (Nat.le_succ i) hb')
      obtain ⟨hi, hbi⟩ := List.getElem?_eq_some_iff.1 hb
      have hmem : b ∈ blocks.drop i := List.mem_drop_iff_getElem.2 ⟨0, by omega, by simpa using hbi⟩
      obtain ⟨ht, hins⟩ := hrest b hmem
      -- whether its guards are open or not, the block has nothing to execute
      have hrun : h.run M (blockLines early i b labels conds) = h := by
        by_cases hany : ∃ l ∈ labels, h.flags l = true
        · obtain ⟨l, hmem', hf⟩ := hany
          exact run_blockLines_closed hskip hmem' hf
        · rw [run_blockLines_open hc hskip fun l hmem' => by
            simpa using fun hf => hany ⟨l, hmem', hf⟩]
          have hent : h.enterBlock M early i b = h := by
            simp [Hlsl.enterBlock, ht, hins, groups, execGroups, he]
          split
          · exact hent
          · rfl
      rw [hrun]
      exact ⟨c, .inl rfl, hskip, hst, htrace, hnodup, hahead, hpos'⟩

end Sync

/-! ### The whole body -/

/-- A listing that was accepted has every one of its blocks accepted. -/
theorem validateBlock_of_ok {blocks : List Block} (h : validateBlocks blocks = .ok ()) {i : ℕ}
    {b : Block} (hb : blocks[i]? = some b) : validateBlock blocks i b = .ok () := by
  have hforM : ∀ l : List (Block × ℕ),
      (l.forM fun p => validateBlock blocks p.2 p.1) = .ok () →
        ∀ p ∈ l, validateBlock blocks p.2 p.1 = .ok () := by
    intro l
    induction l with
    | nil => intro _ p hp; exact absurd hp List.not_mem_nil
    | cons p l ih =>
        intro hl q hq
        rw [List.forM] at hl
        cases hp : validateBlock blocks p.2 p.1 with
        | error e => rw [hp] at hl; cases hl
        | ok u =>
            rw [hp] at hl
            rcases List.mem_cons.1 hq with rfl | hq
            · exact hp
            · exact ih hl q hq
  exact hforM _ h (b, i) (List.mem_zipIdx_iff_getElem?.2 hb)

/-- An accepted jump goes to a label further on. -/
theorem jump_forward {blocks : List Block} (h : validateBlocks blocks = .ok ()) {i : ℕ}
    {b : Block} (hb : blocks[i]? = some b) {t : String} (ht : b.kind.target? = some t) :
    ∃ k, labelIndex blocks t = some k ∧ i < k := by
  have hv := validateBlock_of_ok h hb
  unfold validateBlock at hv
  simp only [ht] at hv
  cases hk : labelIndex blocks t with
  | none => rw [hk] at hv; cases hv
  | some k =>
      rcases Nat.lt_or_ge i k with hlt | hge
      · exact ⟨k, rfl, hlt⟩
      · simp only [hk, if_pos hge] at hv
        cases hv

/-- The blocks from index `i` on keep the two in step, to the end. -/
theorem sync_blocks {blocks : List Block} (hend : ∀ b ∈ blocks, b.kind ≠ .label endLabel)
    (hv : validateBlocks blocks = .ok ()) (rest : List Block) {i : ℕ} (hrest : blocks.drop i = rest)
    {e e' : Emitted} (he : emitBlocks (endsEarly blocks) i rest e = .ok e') {c : Config σ}
    {h : Hlsl σ} (hs : Sync blocks (endsEarly blocks) i e.openFlags c h) :
    ∃ ls n c', e'.lines = e.lines ++ ls ∧ n ≤ rest.length ∧ c' = (ucodeStep M blocks)^[n] c ∧
      Sync blocks (endsEarly blocks) (i + rest.length) e'.openFlags c' (h.run M ls) := by
  induction rest generalizing i e c h with
  | nil =>
      obtain rfl := Except.ok.inj he
      exact ⟨[], 0, c, by simp, le_rfl, rfl, hs⟩
  | cons b rest ih =>
      have hb : blocks[i]? = some b := by
        have := congrArg (·[0]?) hrest
        simpa using this
      have hrest' : blocks.drop (i + 1) = rest := by
        rw [← List.tail_drop, hrest, List.tail_cons]
      rw [emitBlocks] at he
      cases he₁ : emitBlock (endsEarly blocks) i b e with
      | error err => rw [he₁] at he; cases he
      | ok e₁ =>
          rw [he₁] at he
          have hstep : ∃ ls c₁, e₁.lines = e.lines ++ ls ∧
              (c₁ = c ∨ c₁ = ucodeStep M blocks c) ∧
              Sync blocks (endsEarly blocks) (i + 1) e₁.openFlags c₁ (h.run M ls) := by
            rcases emitBlock_cases he₁ with ⟨l, hk, rfl⟩ | ⟨hl, conds, hc, hlines, hopen, -⟩
            · obtain ⟨c₁, hc₁, hs₁⟩ := sync_label (M := M) hend hb hk hs
              exact ⟨[], c₁, by simp, hc₁, hs₁⟩
            · obtain ⟨c₁, hc₁, hs₁⟩ := sync_block (M := M) hend hb rfl hl
                (fun t ht => jump_forward hv hb ht) hc hs
              exact ⟨_, c₁, hlines, hc₁, hopen ▸ hs₁⟩
          obtain ⟨ls₁, c₁, hlines₁, hc₁, hs₁⟩ := hstep
          obtain ⟨ls, n, c', hlines, hn, hc', hs'⟩ := ih hrest' he hs₁
          rw [← Hlsl.run_append] at hs'
          have hlen : i + 1 + rest.length = i + (b :: rest).length := by
            rw [List.length_cons]; omega
          rw [hlen] at hs'
          refine ⟨ls₁ ++ ls, ?_⟩
          have hlines' : e'.lines = e.lines ++ (ls₁ ++ ls) := by
            rw [hlines, hlines₁, List.append_assoc]
          rcases hc₁ with rfl | rfl
          · exact ⟨n, c', hlines', Nat.le_succ_of_le hn, hc', hs'⟩
          · exact ⟨n + 1, c', hlines', Nat.succ_le_succ hn, hc', hs'⟩

/-- In step past the last block, the guest has ended. -/
theorem Sync.pc_eq {blocks : List Block} {early : Bool} {labels : List String} {c : Config σ}
    {h : Hlsl σ} (hs : Sync blocks early blocks.length labels c h) : c.pc = blocks.length := by
  have hpos := hs.position
  generalize hpc : c.pc = pc at hpos
  cases hpos with
  | here => rfl
  | jumped l p hl hp hip =>
      obtain ⟨b, hb, -⟩ := labelIndex_spec hp
      obtain ⟨hlt, -⟩ := List.getElem?_eq_some_iff.1 hb
      omega
  | ended => rfl
  | exhausted => rfl

/-- **Translated control flow.**  For every block list `translate_body` accepts,
no block of which carries the label `__end`, and on every machine: the guest
shader ends, after at most one step for each block; the translated lines end
with every brace closed; and the two have executed the same instructions of the
same blocks in the same order, to the same machine state. -/
theorem translateBody_run_eq {blocks : List Block} {e : Emitted}
    (h : translateBody blocks = .ok e) (hend : ∀ b ∈ blocks, b.kind ≠ .label endLabel)
    (M : Machine σ) (s : σ) :
    ((ucodeStep M blocks)^[blocks.length] ⟨0, s, []⟩).pc = blocks.length ∧
      ((Hlsl.init s).run M e.lines).skip = 0 ∧
      ((Hlsl.init s).run M e.lines).trace =
        ((ucodeStep M blocks)^[blocks.length] ⟨0, s, []⟩).trace ∧
      ((Hlsl.init s).run M e.lines).st =
        ((ucodeStep M blocks)^[blocks.length] ⟨0, s, []⟩).st := by
  unfold translateBody at h
  cases hv : validateBlocks blocks with
  | error err => rw [hv] at h; cases h
  | ok u =>
      rw [hv] at h
      have hs₀ : Sync blocks (endsEarly blocks) 0 [] (⟨0, s, []⟩ : Config σ) (Hlsl.init s) :=
        ⟨rfl, rfl, rfl, List.nodup_nil, fun l hl => absurd hl List.not_mem_nil,
          .here fun l hl => absurd hl Bool.false_ne_true⟩
      obtain ⟨ls, n, c, hlines, hn, hc, hs⟩ :=
        sync_blocks (M := M) hend hv blocks (List.drop_zero ..) h hs₀
      rw [Nat.zero_add] at hs
      have hpc := hs.pc_eq
      -- the steps left over find the guest ended
      have hrun : (ucodeStep M blocks)^[blocks.length] ⟨0, s, []⟩ = c := by
        obtain ⟨m, hm⟩ := Nat.exists_eq_add_of_le hn
        rw [hm, Nat.add_comm, Function.iterate_add_apply, ← hc]
        exact Function.iterate_fixed (ucodeStep_halted (le_of_eq hpc.symm)) m
      have hl : e.lines = ls := by simpa using hlines
      rw [hrun, hl]
      exact ⟨hpc, hs.skip, hs.trace, hs.st⟩

/-- A shader with a jump, two conditional ends and a tail: its body is accepted
and runs as the guest's. -/
def jumpListing : List Char :=
  "  (p0) jmp L1
cexece b0
  add r0, r0, r1
label L1
exece
  add oC0, r0, r0".toList

/-- The hypotheses are satisfiable: a listing with a conditional jump over a block, parsed, accepted
and translated. -/
theorem translateBody_run_eq_jumpListing :
    ∃ blocks e, parseListing jumpListing = .ok blocks ∧ translateBody blocks = .ok e ∧
      ((Hlsl.init false).run ⟨id, fun _ => true, fun _ s => s⟩ e.lines).trace =
        ((ucodeStep ⟨id, fun _ => true, fun _ s => s⟩ blocks)^[blocks.length] ⟨0, false, []⟩).trace := by
  refine ⟨_, _, rfl, rfl, ?_⟩
  exact (translateBody_run_eq rfl (by decide) ⟨id, fun _ => true, fun _ s => s⟩ false).2.2.1

/-- A block carries the label `__end`. -/
def endLabelListing : List Char :=
  "exece
  add r0, r0, r1
label __end
exec
  add oC0, r0, r0".toList

/-- **The label `__end` restarts an ended shader.**  The listing parses and its
body is accepted; the guest executes one block, the translated body two. -/
theorem translateBody_endLabel :
    ∃ blocks e, parseListing endLabelListing = .ok blocks ∧ validateBlocks blocks = .ok () ∧
      translateBody blocks = .ok e ∧
      ((Hlsl.init ()).run ⟨fun _ => false, fun _ => false, fun _ s => s⟩ e.lines).trace.map Prod.fst =
        [0, 2] ∧
      ((ucodeStep ⟨fun _ => false, fun _ => false, fun _ s => s⟩ blocks)^[blocks.length]
        ⟨0, (), []⟩).trace.map Prod.fst = [0] :=
  ⟨_, _, rfl, rfl, rfl, by decide, by decide⟩

end Ucode
end BoltsRebuilt
