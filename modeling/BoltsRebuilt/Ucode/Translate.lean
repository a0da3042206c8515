/-
# What `translate_body` emits for the blocks of a shader

`tools/ucode2hlsl.py`, lines 749-882: `bool_expr`, `validate_blocks` and the
block level of `translate_body`.

HLSL has no jumps.  A jump to `label l` sets a flag `jump_l`, and every block up
to `label l` stands inside `if (!jump_l) {`.  The labels whose flags guard the
current blocks are `open_flags`; a label closes its own.  The end of the shader
after an `exece` is a jump to a label `__end` that no block carries, made only
where something is left to skip (`ends_early`).

The lines are those of the source with the indentation left out, and one
`Line.instr` stands for the lines `emit_instruction` prints for an instruction
and its co-issued partner: what those do is a parameter of the semantics
(`Machine.exec`), so a shader whose blocks pass here may still be refused for
one of its instructions.
-/

import BoltsRebuilt.Lib.Bits
import BoltsRebuilt.Ucode.Listing

namespace BoltsRebuilt
namespace Ucode

open Text

/-! ### Conditions -/

/-- `int` of a text: a sign and digits, single underscores between them. -/
def pyInt (s : List Char) : Except Error ℤ :=
  let (neg, digits) := match s with
    | '-' :: rest => (true, rest)
    | '+' :: rest => (false, rest)
    | _ => (false, s)
  let runs := splitBy (· = '_') digits
  if runs.all fun r => r ≠ [] && r.all Char.isDigit then
    let value : ℤ := digitsValue runs.flatten
    .ok (if neg then -value else value)
  else .error .valueError

/-- What a condition reads. -/
inductive Flag
  | p0
  | boolConst (index : ℤ)
  deriving DecidableEq, Repr

/-- A condition of the shader: a flag, possibly negated. -/
structure Cond where
  neg : Bool
  flag : Flag
  deriving DecidableEq, Repr

/-- `bool_expr`. -/
def boolExpr (cond : String) : Except Error Cond := do
  let (neg, name) := match cond.toList with
    | '!' :: rest => (true, rest)
    | cs => (false, cs)
  match name with
  | ['p', '0'] => .ok ⟨neg, .p0⟩
  | 'b' :: digits => (fun n => ⟨neg, .boolConst n⟩) <$> pyInt digits
  | _ => .error (.notSupported ("condition " ++ cond))

/-- A block predicate as the text the parser stores. -/
def Pred.text : Pred → String
  | .p0 => "p0"
  | .notP0 => "!p0"

/-- The condition word of a block's line. -/
def Kind.cond? : Kind → Option String
  | .cexec c | .cexece c | .cjmp c _ => some c
  | _ => none

/-- The label a jump goes to. -/
def Kind.target? : Kind → Option String
  | .jmp t | .cjmp _ t => some t
  | _ => none

/-- `kind in ("exece", "cexece")`. -/
def Kind.isEnd : Kind → Bool
  | .exece | .cexece _ => true
  | _ => false

/-- What is checked when a block is entered, in the order it is checked. -/
def Block.conds (b : Block) : List String := (b.pred.map Pred.text).toList ++ b.kind.cond?.toList

/-! ### Checks -/

/-- The name of a kind in an error text. -/
def Kind.name : Kind → String
  | .exec => "exec"
  | .exece => "exece"
  | .cexec _ => "cexec"
  | .cexece _ => "cexece"
  | .jmp _ => "jmp"
  | .cjmp _ _ => "cjmp"
  | .label _ => "label"
  | .other name => name

/-- Index of the first block that carries the label (`labels.setdefault`). -/
def labelIndex (blocks : List Block) (l : String) : Option ℕ :=
  blocks.findIdx? fun b => b.kind = .label l

/-- The checks `validate_blocks` makes on block `i`. -/
def validateBlock (blocks : List Block) (i : ℕ) (b : Block) : Except Error Unit := do
  if let some target := b.kind.target? then
    match labelIndex blocks target with
    | none => throw (.notSupported ("jump to missing label " ++ target))
    | some k => if k ≤ i then throw (.notSupported ("backward jump to " ++ target))
  match b.kind with
  | .jmp _ | .cjmp _ _ | .label _ =>
      if b.instrs ≠ [] then
        throw (.notSupported ("instructions inside a " ++ b.kind.name ++ " block"))
  | _ => pure ()

/-- `validate_blocks`. -/
def validateBlocks (blocks : List Block) : Except Error Unit :=
  blocks.zipIdx.forM fun p => validateBlock blocks p.2 p.1

/-- `ends_early`: an `exece` or `cexece` has a jump or an instruction after it. -/
def endsEarly : List Block → Bool
  | [] => false
  | b :: later =>
      (b.kind.isEnd && later.any fun l => l.kind.target?.isSome || l.instrs ≠ []) ||
        endsEarly later

/-! ### Instructions of a block -/

/-- `VECTOR_OPS`. -/
def vectorOps : List String :=
  ["add", "mul", "max", "min", "seq", "sgt", "sge", "sne", "frc", "trunc", "floor", "mad",
    "cndeq", "cndge", "cndgt", "dp4", "dp3", "dp2add", "cube", "max4", "setp_eq_push",
    "setp_ne_push", "setp_gt_push", "setp_ge_push", "kill_eq", "kill_gt", "kill_ge", "kill_ne",
    "dst", "maxa"]

/-- An instruction and the scalar half issued with it. -/
structure Group where
  ins : Instr
  partner : Option Instr
  deriving DecidableEq, Repr

/-- The pairs the loop over a block's instructions emits: a vector instruction
takes the next one along when that is marked as co-issued and has the same
predicate. -/
def groups : List Instr → List Group
  | [] => []
  | [i] => [⟨i, none⟩]
  | i :: j :: rest =>
      if j.coissued ∧ i.op ∈ vectorOps ∧ j.pred = i.pred then ⟨i, some j⟩ :: groups rest
      else ⟨i, none⟩ :: groups (j :: rest)

/-! ### Emission -/

/-- Lines of the translated body. -/
inductive Line
  /-- `if (!jump_l) {` -/
  | ifNotJump (l : String)
  /-- `if (c && …) {` -/
  | ifConds (conds : List Cond)
  /-- `jump_l = true;` -/
  | setJump (l : String)
  /-- `if (c && …) jump_l = true;` -/
  | setJumpIf (conds : List Cond) (l : String)
  /-- the lines of `emit_instruction`, for a group of block `i` -/
  | instr (i : ℕ) (g : Group)
  /-- `}` -/
  | close
  deriving DecidableEq, Repr

/-- The label `__end` past the last block. -/
def endLabel : String := "__end"

/-- `if l not in labels: labels.append(l)`. -/
def addLabel (labels : List String) (l : String) : List String :=
  if l ∈ labels then labels else labels ++ [l]

/-- What `translate_body` has emitted so far: the lines, `open_flags`, and
`jump_flags`, the flags to declare. -/
structure Emitted where
  lines : List Line := []
  openFlags : List String := []
  jumpFlags : List String := []
  deriving DecidableEq, Repr

/-- The lines inside the guards of a block: one assignment for a jump, the
instructions under the block's condition otherwise. -/
def bodyLines (early : Bool) (i : ℕ) (b : Block) (conds : List Cond) : List Line :=
  match b.kind.target? with
  | some t => [if conds = [] then .setJump t else .setJumpIf conds t]
  | none =>
      (if conds = [] then [] else [.ifConds conds]) ++ (groups b.instrs).map (.instr i) ++
        (if early && b.kind.isEnd then [.setJump endLabel] else []) ++
        (if conds = [] then [] else [.close])

/-- The label a block adds to `open_flags`. -/
def opened? (early : Bool) (b : Block) : Option String :=
  b.kind.target? <|> if early && b.kind.isEnd then some endLabel else none

/-- The open flags, or the flags to declare, after a block that is no label. -/
def labelsAfter (early : Bool) (b : Block) (labels : List String) : List String :=
  (opened? early b).elim labels (addLabel labels)

/-- The lines of a block under its guards. -/
def blockLines (early : Bool) (i : ℕ) (b : Block) (labels : List String) (conds : List Cond) :
    List Line :=
  labels.map .ifNotJump ++ bodyLines early i b conds ++ labels.map fun _ => .close

/-- One block of `translate_body`. -/
def emitBlock (early : Bool) (i : ℕ) (b : Block) (e : Emitted) : Except Error Emitted :=
  match b.kind with
  | .label l => .ok { e with openFlags := e.openFlags.erase l }
  | _ => do
      let conds ← b.conds.mapM boolExpr
      .ok { lines := e.lines ++ blockLines early i b e.openFlags conds
            openFlags := labelsAfter early b e.openFlags
            jumpFlags := labelsAfter early b e.jumpFlags }

/-- The loop of `translate_body` over the blocks from index `i`. -/
def emitBlocks (early : Bool) : ℕ → List Block → Emitted → Except Error Emitted
  | _, [], e => .ok e
  | i, b :: rest, e => do emitBlocks early (i + 1) rest (← emitBlock early i b e)

/-- `translate_body`. -/
def translateBody (blocks : List Block) : Except Error Emitted := do
  validateBlocks blocks
  emitBlocks (endsEarly blocks) 0 blocks {}

/-! ### What a block emits -/

/-- What `emitBlock` can do: a label closes its flag, any other block adds its
lines and may open one. -/
theorem emitBlock_cases {early : Bool} {i : ℕ} {b : Block} {e e' : Emitted}
    (h : emitBlock early i b e = .ok e') :
    (∃ l, b.kind = .label l ∧ e' = { e with openFlags := e.openFlags.erase l }) ∨
    ((∀ l, b.kind ≠ .label l) ∧ ∃ conds, b.conds.mapM boolExpr = .ok conds ∧
      e'.lines = e.lines ++ blockLines early i b e.openFlags conds ∧
      e'.openFlags = labelsAfter early b e.openFlags ∧
      e'.jumpFlags = labelsAfter early b e.jumpFlags) := by
  unfold emitBlock at h
  split at h
  · rename_i l hk
    exact .inl ⟨l, hk, (Except.ok.inj h).symm⟩
  · rename_i hk
    cases hc : b.conds.mapM boolExpr with
    | error err => rw [hc] at h; cases h
    | ok conds =>
        rw [hc] at h
        obtain rfl := (Except.ok.inj h).symm
        exact .inr ⟨hk, conds, rfl, rfl, rfl, rfl⟩

/-- Pending after adding a label are those of before and the label. -/
theorem mem_addLabel {labels : List String} {l l' : String} :
    l' ∈ addLabel labels l ↔ l' ∈ labels ∨ l' = l := by
  unfold addLabel
  split
  · exact ⟨.inl, fun h => h.elim id fun he => he ▸ ‹_›⟩
  · simp

/-- Pending after a block are those of before and the one that it has opened. -/
theorem mem_labelsAfter {early : Bool} {b : Block} {labels : List String} {l : String} :
    l ∈ labelsAfter early b labels ↔ l ∈ labels ∨ opened? early b = some l := by
  unfold labelsAfter
  cases opened? early b with
  | none => simp
  | some t => simp [mem_addLabel, eq_comm]

/-- The label a line names. -/
def Line.label? : Line → Option String
  | .ifNotJump l | .setJump l | .setJumpIf _ l => some l
  | _ => none

/-- The lines of a block name the open flags and the one it opens. -/
theorem label_mem_of_mem_blockLines {early : Bool} {i : ℕ} {b : Block} {labels : List String}
    {conds : List Cond} {line : Line} (hline : line ∈ blockLines early i b labels conds)
    {l : String} (hl : line.label? = some l) : l ∈ labels ∨ opened? early b = some l := by
  simp only [blockLines, List.mem_append, List.mem_map] at hline
  rcases hline with (⟨l', hl', rfl⟩ | hline) | ⟨l', -, rfl⟩
  · exact .inl (Option.some.inj hl ▸ hl')
  · right
    unfold bodyLines at hline
    unfold opened?
    cases ht : b.kind.target? with
    | some t =>
        rw [ht] at hline
        rw [List.mem_singleton.1 hline] at hl
        split at hl <;> simpa [Line.label?] using hl
    | none =>
        simp only [ht, List.mem_append, List.mem_map] at hline
        rcases hline with ((hline | ⟨g, -, rfl⟩) | hline) | hline
        · split at hline <;> simp_all [Line.label?]
        · simp [Line.label?] at hl
        · split at hline
          · rw [List.mem_singleton.1 hline] at hl
            simpa [*, Line.label?] using hl
          · simp at hline
        · split at hline <;> simp_all [Line.label?]
  · simp [Line.label?] at hl

/-- Every flag the emitted lines name, and every open one, is declared. -/
def Emitted.Declared (e : Emitted) : Prop :=
  (∀ l ∈ e.openFlags, l ∈ e.jumpFlags) ∧
    ∀ line ∈ e.lines, ∀ l, line.label? = some l → l ∈ e.jumpFlags

/-- A block emits jumps only to labels that are declared. -/
theorem Emitted.Declared.emitBlock {early : Bool} {i : ℕ} {b : Block} {e e' : Emitted}
    (hd : e.Declared) (h : emitBlock early i b e = .ok e') : e'.Declared := by
  rcases emitBlock_cases h with ⟨l, -, rfl⟩ | ⟨-, conds, -, hlines, hopen, hjump⟩
  · exact ⟨fun l' hl' => hd.1 l' (List.mem_of_mem_erase hl'), hd.2⟩
  · constructor
    · intro l hl
      rw [hopen, mem_labelsAfter] at hl
      rw [hjump, mem_labelsAfter]
      exact hl.imp_left (hd.1 l)
    · intro line hline l hl
      rw [hlines, List.mem_append] at hline
      rw [hjump, mem_labelsAfter]
      rcases hline with hline | hline
      · exact .inl (hd.2 line hline l hl)
      · exact (label_mem_of_mem_blockLines hline hl).imp_left (hd.1 l)

/-- The translated body names no flag it does not declare. -/
theorem translateBody_declared {blocks : List Block} {e : Emitted}
    (h : translateBody blocks = .ok e) : e.Declared := by
  have hblocks : ∀ (rest : List Block) (i : ℕ) (e₀ : Emitted), e₀.Declared →
      emitBlocks (endsEarly blocks) i rest e₀ = .ok e → e.Declared := by
    intro rest
    induction rest with
    | nil => intro i e₀ hd h; exact Except.ok.inj h ▸ hd
    | cons b rest ih =>
        intro i e₀ hd h
        rw [emitBlocks] at h
        cases he : emitBlock (endsEarly blocks) i b e₀ with
        | error err => rw [he] at h; cases h
        | ok e₁ => rw [he] at h; exact ih (i + 1) e₁ (hd.emitBlock he) h
  unfold translateBody at h
  cases hv : validateBlocks blocks with
  | error err => rw [hv] at h; cases h
  | ok u =>
      rw [hv] at h
      exact hblocks blocks 0 {} ⟨by simp, by simp⟩ h

end Ucode
end BoltsRebuilt
