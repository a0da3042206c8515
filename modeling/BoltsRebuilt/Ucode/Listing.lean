/-
# The shader listing and its parser

`tools/ucode2hlsl.py`, lines 45-166: `Instr`, `split_operands`,
`parse_instruction` and `parse_listing`.

The SDK prints a guest shader as lines of text.  A line is an instruction, the
scalar half of a co-issued pair when a `+` stands before it, or a control-flow
instruction, which opens a block:

| line | block |
| --- | --- |
| `exec`, `exece` | its instructions; after an `exece` the shader ends |
| `cexec c`, `cexece c` | the same, when the condition `c` holds |
| `jmp l`, `cjmp c, l` | resume at `label l` |
| `label l` | nothing |

A predicate `(p0)` or `(!p0)` may stand before an instruction or before a whole
block.  `alloc`, `cnop`, `nop` and `serialize` lines say nothing to the
translator, loops and calls are refused.

A Python exception is an `Error`; the texts are the source's.
-/

import BoltsRebuilt.Lib.Text

namespace BoltsRebuilt
namespace Ucode

open Text

/-- The exceptions the translator leaves with. -/
inductive Error
  /-- `NotSupported`, with its text -/
  | notSupported (message : String)
  /-- a control-flow line shorter than its kind needs -/
  | indexError
  /-- `int` of a text that is no number -/
  | valueError
  deriving DecidableEq, Repr

/-- Predicate of an instruction or of a block, `"p0"` and `"!p0"` in the source. -/
inductive Pred
  | p0
  | notP0
  deriving DecidableEq, Repr

/-- One instruction of the listing (`Instr`). -/
structure Instr where
  op : String
  sat : Bool
  dest : Option String
  srcs : List String
  opts : List (String × String)
  pred : Option Pred
  coissued : Bool
  deriving DecidableEq, Repr

/-- `Instr.__init__`: the suffix `_sat` leaves the name of the operation. -/
def Instr.init (op : List Char) (dest : Option String) (srcs : List String)
    (opts : List (String × String)) (pred : Option Pred) (coissued : Bool) : Instr :=
  let sat := (dropPrefix? "tas_".toList op.reverse).isSome && op ≠ "kills_sat".toList
  { op := String.ofList (if sat then op.take (op.length - 4) else op)
    sat, dest, srcs, opts, pred, coissued }

/-- What a block of the listing does, with the words its line carries. -/
inductive Kind
  | exec
  | exece
  | cexec (cond : String)
  | cexece (cond : String)
  | jmp (target : String)
  | cjmp (cond target : String)
  | label (target : String)
  /-- `exec_end`, and the names starting with `alloc` other than `alloc`
  itself; the translator tells them from no other block -/
  | other (name : String)
  deriving DecidableEq, Repr

/-- One block of the listing: a dictionary `kind`, `cond`, `target`, `instrs`,
`pred` in the source. -/
structure Block where
  kind : Kind
  pred : Option Pred
  instrs : List Instr
  deriving DecidableEq, Repr

/-! ### Instructions -/

/-- `PRED_RE`: a leading `(p0)` or `(!p0)`, and the text after it. -/
def matchPred (s : List Char) : Option (Pred × List Char) :=
  match dropPrefix? "(p0)".toList s, dropPrefix? "(!p0)".toList s with
  | some rest, _ => some (.p0, lstrip rest)
  | none, some rest => some (.notP0, lstrip rest)
  | none, none => none

/-- `OPT_RE`: a run of letters, `=`, and at least one more character. -/
def matchOpt (s : List Char) : Option (String × String) :=
  let name := s.takeWhile Char.isAlpha
  match s.drop name.length with
  | '=' :: c :: value => if name = [] then none else some (String.ofList name, String.ofList (c :: value))
  | _ => none

/-- `split_operands`: the pieces between the commas outside brackets, stripped.
`depth` counts the open brackets, `cur` is the piece being read. -/
def splitOperandsAux : ℤ → List Char → List Char → List (List Char)
  | _, cur, [] => if strip cur = [] then [] else [strip cur]
  | depth, cur, c :: s =>
      let depth := if c = '[' then depth + 1 else if c = ']' then depth - 1 else depth
      if c = ',' ∧ depth = 0 then strip cur :: splitOperandsAux depth [] s
      else splitOperandsAux depth (cur ++ [c]) s

def splitOperands (s : List Char) : List (List Char) := splitOperandsAux 0 [] s

/-- Whether the operation takes named options (`Offset=1`) among its operands. -/
def takesOptions (op : List Char) : Bool :=
  ["vfetch", "tfetch", "getCompTexLOD", "setTexLOD"].any fun p => (dropPrefix? p.toList op).isSome

/-- `opts[name] = value` of a dictionary in insertion order. -/
def setOption (opts : List (String × String)) (o : String × String) : List (String × String) :=
  if opts.any (·.1 = o.1) then opts.map fun p => if p.1 = o.1 then o else p else opts ++ [o]

/-- `parse_instruction`; `none` for a line that is only a comment. -/
def parseInstruction (text : List Char) (coissued : Bool) : Option Instr :=
  let (pred, text) := match matchPred text with
    | some (p, rest) => (some p, rest)
    | none => (none, text)
  let text := strip (uncomment text)
  if text = [] then none
  else
    let op := text.takeWhile (· ≠ ' ')
    let rest := text.drop (op.length + 1)
    let ops := if strip rest = [] then [] else splitOperands rest
    let isOpt := fun o => takesOptions op && (matchOpt o).isSome
    let opts := (ops.filter isOpt).filterMap matchOpt
    let plain := (ops.filter fun o => !isOpt o).map String.ofList
    some (Instr.init op plain.head? plain.tail (opts.foldl setOption []) pred coissued)

/-! ### Blocks -/

/-- `CF_OPS`. -/
def cfOps : List String :=
  ["exec", "exece", "cexec", "cexece", "cjmp", "jmp", "label", "alloc", "cnop", "nop",
    "loop_start", "loop_end", "call", "ret", "exec_end"]

/-- `ADDR_RE`: the text after a leading `/* 12.3 */`, when there is one. -/
def matchAddr (s : List Char) : Option (List Char) := do
  let s ← dropPrefix? "/*".toList (lstrip s)
  let s := lstrip s
  let number := s.takeWhile fun c => c.isDigit || c = '.'
  if number = [] then none
  else
    let s ← dropPrefix? "*/".toList (lstrip (s.drop number.length))
    some (lstrip s)

/-- What `parse_listing` does with a line whose first word is a control-flow
name: nothing, a refusal, or a new block. -/
def parseControlFlow (body : List Char) : Except Error (Option Kind) :=
  let toks := (words ((strip (uncomment body)).map fun c => if c = ',' then ' ' else c)).map
    String.ofList
  match toks with
  | [] => .error .indexError
  | kind :: args =>
      if kind ∈ ["alloc", "cnop", "nop"] then .ok none
      else if kind ∈ ["loop_start", "loop_end", "call", "ret"] then
        .error (.notSupported ("control flow " ++ kind))
      else if kind = "exec" then .ok (some .exec)
      else if kind = "exece" then .ok (some .exece)
      else if kind = "cexec" then
        match args with
        | c :: _ => .ok (some (.cexec c))
        | _ => .error .indexError
      else if kind = "cexece" then
        match args with
        | c :: _ => .ok (some (.cexece c))
        | _ => .error .indexError
      else if kind = "cjmp" then
        match args with
        | c :: t :: _ => .ok (some (.cjmp c t))
        | _ => .error .indexError
      else if kind = "jmp" then
        match args with
        | t :: _ => .ok (some (.jmp t))
        | _ => .error .indexError
      else if kind = "label" then
        match args with
        | t :: _ => .ok (some (.label t))
        | _ => .error .indexError
      else .ok (some (.other kind))

/-- Where `parse_listing` stands between two lines: the blocks closed so far,
the block being filled (`cur`), and whether a `+` was read without its
instruction (`pending_coissue`). -/
structure Reader where
  closed : List Block := []
  cur : Option Block := none
  pendingCoissue : Bool := false
  deriving DecidableEq, Repr

/-- The blocks read so far. -/
def Reader.blocks (r : Reader) : List Block := r.closed ++ r.cur.toList

/-- One line of `parse_listing`. -/
def readLine (r : Reader) (raw : List Char) : Except Error Reader :=
  let line := rstrip raw
  if strip line = [] then .ok r
  else
    let body := strip ((matchAddr line).getD (strip line))
    let (r, body) := match body with
      | '+' :: rest => ({ r with pendingCoissue := true }, strip rest)
      | _ => (r, body)
    if body = [] then .ok r
    else
      let pm := matchPred body
      let head := String.ofList ((words ((pm.map (·.2)).getD body)).headD [])
      -- a control-flow line may carry a predicate of its own, for the whole block
      let isCf := head ∈ cfOps
      let blockPred := if isCf then pm.map (·.1) else none
      let body := if isCf then (pm.map (·.2)).getD body else body
      if head = "serialize" then .ok r
      else if isCf ∨ (dropPrefix? "alloc".toList head.toList).isSome then do
        match ← parseControlFlow body with
        | none => .ok r
        | some kind =>
            .ok { closed := r.blocks, cur := some { kind, pred := blockPred, instrs := [] } }
      else
        match parseInstruction body r.pendingCoissue with
        | none => .ok { r with pendingCoissue := false }
        | some ins =>
            let cur := r.cur.getD { kind := .exec, pred := none, instrs := [] }
            .ok { r with cur := some { cur with instrs := cur.instrs ++ [ins] }, pendingCoissue := false }

/-- `parse_listing`: the blocks of a listing. -/
def parseListing (text : List Char) : Except Error (List Block) :=
  (·.blocks) <$> (splitlines text).foldlM readLine {}

end Ucode
end BoltsRebuilt
