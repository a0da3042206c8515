/-
# A vector instruction and the scalar issued with it

tools/ucode2hlsl.py: `legacy_mul`, `legacy_dot`, `select_max`, `select_min` (lines
176-200), `operand`, `dest_parts` (lines 271-344), `write_masked`, `write_scalar` (lines
366-407), `vector_expr` (lines 409-465), `clamp_infinite`, `scalar_expr` (lines 467-564) and
`emit_alu_pair` (lines 566-599).

The two halves of a pair are issued together: both read before either writes.  The
translator prints the statements of the vector half, then those of the scalar half, each
into a temporary, and the writes at the end.  Some halves set the predicate or the address
register with a statement of their own, before the expression of the result, and an
operand is a text until its statement is reached.

An expression is the function of the state it stands for, taken where it is evaluated;
numbers and the functions of HLSL are a parameter (`Alu`).  Two operands are the same text
when their sign, register and components are.  An operation with too few operands, which
prints `None`, is refused here, and a swizzle of more than four letters is cut.
-/

import BoltsRebuilt.Ucode.VertexFetch

namespace BoltsRebuilt
namespace Ucode

/-! ### States and operands -/

/-- The numbers of a shader, its constants, and the functions of HLSL by name. -/
structure Alu (F : Type) where
  consts : ℤ → Fin 4 → F
  lit : String → F
  un : String → F → F
  bin : String → F → F → F
  cmp : String → F → F → Bool
  test : String → F → Bool
  dot : List (F × F) → F
  cube : (Fin 4 → F) → Fin 4 → F
  /-- `int(floor(clamp(v, -256.0, 255.0)))`, with `+ 0.5` or without -/
  address : Bool → F → ℤ

/-- The variables of a translated shader. -/
structure AluState (F : Type) where
  regs : Reg → Fin 4 → F
  a0 : ℤ
  ps : F
  p0 : Bool
  discarded : Bool

variable {F : Type} (A : Alu F)

/-- One component of an operand. -/
def Operand.read (m : Operand) (s : AluState F) (c : Fin 4) : F :=
  let value := match m.reg with
    | .abs n => A.un "abs" (s.regs (.r n) c)
    | .cAbs n => A.un "abs" (A.consts n c)
    | .cRel n => A.consts (n + s.a0) c
    | .c n => A.consts n c
    | reg => s.regs reg c
  if m.neg then A.un "-" value else value

/-- Whether an operand is relative to `a0`. -/
def Operand.isRelative (m : Operand) : Bool :=
  match m.reg with
  | .cRel _ => true
  | _ => false

/-- The component `i` of a swizzle, the last letter repeated. -/
def swizzleAt (letters : List Char) (i : ℕ) : Fin 4 :=
  (component? ((letters[i]?).getD (letters.getLastD 'x'))).getD 0

/-- An operand of a vector operation (`operand(text, 4)`): its text and its value in a state. -/
structure VectorSrc (F : Type) where
  text : Bool × Reg × Option (List (Fin 4))
  read : AluState F → Fin 4 → F

def Operand.vector (m : Operand) : VectorSrc F where
  text := (m.neg, m.reg, m.swizzle.map fun _ => (List.range 4).map (swizzleAt (m.letters [])))
  read s i := m.read A s (swizzleAt (m.letters "xyzw".toList) i)

/-- An operand of a scalar operation: one component of a register. -/
structure ScalarOperand where
  operand : Operand
  component : Fin 4
  deriving DecidableEq, Repr

/-- The text and the value of a scalar operand. -/
structure ScalarSrc (F : Type) where
  text : Bool × Reg × Fin 4
  read : AluState F → F

def ScalarOperand.scalar (o : ScalarOperand) : ScalarSrc F where
  text := (o.operand.neg, o.operand.reg, o.component)
  read s := o.operand.read A s o.component

/-! ### The vector half -/

/-- The branches of `vector_expr`, with what tells their operations apart. -/
inductive VectorForm
  /-- `add` -/
  | map2 (name : String)
  /-- `mul`, `max`, `min`: the function for equal texts, and the one for others -/
  | legacy (same other : String)
  /-- `seq`, `sgt`, `sge`, `sne` -/
  | compare (cmp : String)
  /-- `frc`, `trunc`, `floor` -/
  | map1 (name : String)
  | mad
  /-- `cndeq`, `cndge`, `cndgt` -/
  | cnd (cmp : String)
  /-- `dp4`, `dp3` -/
  | dot (width : ℕ)
  | dp2add
  | max4
  /-- `setp_eq_push` and its like -/
  | setpPush (cmp : String)
  /-- `kill_eq` and its like -/
  | kill (cmp : String)
  | dst
  | maxa
  | cube
  deriving DecidableEq, Repr

def vectorForms : List (String × VectorForm) :=
  [("add", .map2 "+"), ("mul", .legacy "*" "MulLegacy"), ("max", .legacy "max" "MaxLegacy"),
    ("min", .legacy "min" "MinLegacy"), ("seq", .compare "=="), ("sgt", .compare ">"),
    ("sge", .compare ">="), ("sne", .compare "!="), ("frc", .map1 "frac"), ("trunc", .map1 "trunc"),
    ("floor", .map1 "floor"), ("mad", .mad), ("cndeq", .cnd "=="), ("cndge", .cnd ">="),
    ("cndgt", .cnd ">"), ("dp4", .dot 4), ("dp3", .dot 3), ("dp2add", .dp2add), ("max4", .max4),
    ("setp_eq_push", .setpPush "=="), ("setp_ne_push", .setpPush "!="),
    ("setp_gt_push", .setpPush ">"), ("setp_ge_push", .setpPush ">="), ("kill_eq", .kill "=="),
    ("kill_gt", .kill ">"), ("kill_ge", .kill ">="), ("kill_ne", .kill "!="), ("dst", .dst),
    ("maxa", .maxa), ("cube", .cube)]

/-- How many operands the expression has. -/
def VectorForm.arity : VectorForm → ℕ
  | .map1 _ | .max4 | .cube => 1
  | .mad | .cnd _ | .dp2add => 3
  | _ => 2

/-- A vector instruction. -/
structure VectorIns where
  form : VectorForm
  a : Operand
  b : Operand
  c : Operand
  dest : Reg
  mask : Option (List Char)
  sat : Bool
  deriving DecidableEq, Repr

/-- The operands of a vector instruction as they are printed. -/
structure VectorSrcs (F : Type) where
  a : VectorSrc F
  b : VectorSrc F
  c : VectorSrc F

def VectorIns.srcs (v : VectorIns) : VectorSrcs F := ⟨v.a.vector A, v.b.vector A, v.c.vector A⟩

/-- A condition as a number. -/
def Alu.bit (b : Bool) : F := if b then A.lit "1.0" else A.lit "0.0"

/-- `legacy_dot` of the first components. -/
def Alu.legacyDot (same : Bool) (a b : Fin 4 → F) (components : List (Fin 4)) : F :=
  if same then A.dot (components.map fun i => (a i, b i))
  else
    match components.map fun i => A.bin "MulLegacy" (a i) (b i) with
    | [] => A.lit "0.0"
    | x :: xs => xs.foldl (A.bin "+") x

/-- `vector_expr`: the state after its statements, and the expression of the result. -/
def vectorHalf (stage : Stage) (form : VectorForm) (x : VectorSrcs F) (s : AluState F) :
    AluState F × (AluState F → Fin 4 → F) :=
  match form with
  | .map2 name => (s, fun s i => A.bin name (x.a.read s i) (x.b.read s i))
  | .legacy same other =>
      (s, fun s i => A.bin (if x.a.text = x.b.text then same else other) (x.a.read s i) (x.b.read s i))
  | .compare cmp => (s, fun s i => A.bit (A.cmp cmp (x.a.read s i) (x.b.read s i)))
  | .map1 name => (s, fun s i => A.un name (x.a.read s i))
  | .mad =>
      (s, fun s i => A.bin "+" (A.bin (if x.a.text = x.b.text then "*" else "MulLegacy")
        (x.a.read s i) (x.b.read s i)) (x.c.read s i))
  | .cnd cmp =>
      (s, fun s i => if A.cmp cmp (x.a.read s i) (A.lit "0.0") then x.b.read s i else x.c.read s i)
  | .dot width =>
      (s, fun s _ => A.legacyDot (x.a.text = x.b.text) (x.a.read s) (x.b.read s)
        ((List.finRange 4).take width))
  | .dp2add =>
      (s, fun s _ => A.bin "+" (A.legacyDot (x.a.text = x.b.text) (x.a.read s) (x.b.read s) [0, 1])
        (x.c.read s 0))
  | .max4 =>
      let t := x.a.read s
      (s, fun _ _ => A.bin "max" (A.bin "max" (t 0) (t 1)) (A.bin "max" (t 2) (t 3)))
  | .setpPush cmp =>
      let ta := x.a.read s
      let tb := x.b.read s
      let zero := A.lit "0.0"
      ({ s with p0 := A.cmp "==" (ta 3) zero && A.cmp cmp (tb 3) zero },
        fun _ _ => if A.cmp "==" (ta 0) zero && A.cmp cmp (tb 0) zero then zero
          else A.bin "+" (ta 0) (A.lit "1.0"))
  | .kill cmp =>
      let t := (List.finRange 4).any fun i => A.cmp cmp (x.a.read s i) (x.b.read s i)
      ({ s with discarded := s.discarded || (t && stage = .ps) }, fun _ _ => A.bit t)
  | .dst =>
      let ta := x.a.read s
      let tb := x.b.read s
      (s, fun _ i =>
        match i with
        | 0 => A.lit "1.0"
        | 1 => A.bin "MulLegacy" (ta 1) (tb 1)
        | 2 => ta 2
        | 3 => tb 3)
  | .maxa =>
      let t := x.a.read s
      ({ s with a0 := A.address true (t 3) }, fun s i => A.bin "MaxLegacy" (t i) (x.b.read s i))
  | .cube => (s, fun s => A.cube (x.a.read s))

/-! ### The scalar half -/

/-- The branches of `scalar_expr`. -/
inductive ScalarForm
  /-- `adds`, `addsc`, `subs`, `subsc` -/
  | map2 (name : String)
  /-- `muls`, `mulsc`, `maxs`, `mins` -/
  | legacy (same other : String)
  /-- `adds_prev`, `muls_prev`, `subs_prev` -/
  | prev (name : String)
  | mulsPrev2
  /-- `maxas`, `maxasf` -/
  | maxAddr (rounded : Bool)
  /-- `seqs`, `sgts`, `sges`, `snes` -/
  | test (cmp : String)
  /-- `frcs`, `truncs`, `floors`, `exp`, `log`, `sqrt`, `sin`, `cos` -/
  | map1 (name : String)
  | logc
  /-- `rcp`, `rcpc`, `rcpf` -/
  | rcp (variant : Option Char)
  /-- `rsq`, `rsqc`, `rsqf` -/
  | rsq (variant : Option Char)
  /-- `setp_eq`, `setp_ne`, `setp_gt`, `setp_ge` -/
  | setp (cmp : String)
  | setpInv
  | setpPop
  | setpClr
  | setpRstr
  /-- `kills_eq` and its like, with the number compared with -/
  | kills (cmp bound : String)
  | retainPrev
  deriving DecidableEq, Repr

def scalarForms : List (String × ScalarForm) :=
  [("adds", .map2 "+"), ("addsc", .map2 "+"), ("subs", .map2 "-"), ("subsc", .map2 "-"),
    ("muls", .legacy "*" "MulLegacy"), ("mulsc", .legacy "*" "MulLegacy"),
    ("maxs", .legacy "max" "MaxLegacy"), ("mins", .legacy "min" "MinLegacy"),
    ("adds_prev", .prev "+"), ("muls_prev", .prev "MulLegacy"), ("subs_prev", .prev "-"),
    ("muls_prev2", .mulsPrev2), ("maxas", .maxAddr true), ("maxasf", .maxAddr false),
    ("seqs", .test "=="), ("sgts", .test ">"), ("sges", .test ">="), ("snes", .test "!="),
    ("frcs", .map1 "frac"), ("truncs", .map1 "trunc"), ("floors", .map1 "floor"),
    ("exp", .map1 "exp2"), ("log", .map1 "log2"), ("sqrt", .map1 "sqrt"), ("sin", .map1 "sin"),
    ("cos", .map1 "cos"), ("logc", .logc), ("rcp", .rcp none), ("rcpc", .rcp (some 'c')),
    ("rcpf", .rcp (some 'f')), ("rsq", .rsq none), ("rsqc", .rsq (some 'c')),
    ("rsqf", .rsq (some 'f')), ("setp_eq", .setp "=="), ("setp_ne", .setp "!="),
    ("setp_gt", .setp ">"), ("setp_ge", .setp ">="), ("setp_inv", .setpInv), ("setp_pop", .setpPop),
    ("setp_clr", .setpClr), ("setp_rstr", .setpRstr), ("kills_eq", .kills "==" "0.0"),
    ("kills_gt", .kills ">" "0.0"), ("kills_ge", .kills ">=" "0.0"), ("kills_ne", .kills "!=" "0.0"),
    ("kills_one", .kills "==" "1.0"), ("retain_prev", .retainPrev)]

/-- How many operands the expression has. -/
def ScalarForm.arity : ScalarForm → ℕ
  | .map2 _ | .legacy _ _ | .mulsPrev2 | .maxAddr _ => 2
  | .setpClr | .retainPrev => 0
  | _ => 1

/-- A scalar instruction. -/
structure ScalarIns where
  form : ScalarForm
  a : ScalarOperand
  b : ScalarOperand
  dest : Reg
  mask : Option (List Char)
  sat : Bool
  deriving DecidableEq, Repr

/-- The operands of a scalar instruction as they are printed, and `ps`. -/
structure ScalarSrcs (F : Type) where
  a : ScalarSrc F
  b : ScalarSrc F
  ps : AluState F → F

def ScalarIns.srcs (x : ScalarIns) : ScalarSrcs F := ⟨x.a.scalar A, x.b.scalar A, AluState.ps⟩

/-- `FLT_MAX`, as it is printed. -/
def fltMax : String := "3.402823466e+38"

/-- `clamp_infinite` of a value in its temporary. -/
def Alu.clampInfinite (variant : Option Char) (t : F) : F :=
  match variant with
  | none => t
  | some v =>
    if A.test "isinf" t then
      if v = 'c' then
        if A.cmp ">" t (A.lit "0.0") then A.lit fltMax else A.lit ("-" ++ fltMax)
      else if A.cmp ">" t (A.lit "0.0") then A.lit "0.0" else A.lit "-0.0"
    else t

/-- `scalar_expr`: the state after its statements, and the expression of the result. -/
def scalarHalf (stage : Stage) (form : ScalarForm) (x : ScalarSrcs F) (s : AluState F) :
    AluState F × (AluState F → F) :=
  let zero := A.lit "0.0"
  let one := A.lit "1.0"
  let sentinel := A.lit ("-" ++ fltMax)
  match form with
  | .map2 name => (s, fun s => A.bin name (x.a.read s) (x.b.read s))
  | .legacy same other =>
      (s, fun s => A.bin (if x.a.text = x.b.text then same else other) (x.a.read s) (x.b.read s))
  | .prev name => (s, fun s => A.bin name (x.a.read s) (x.ps s))
  | .mulsPrev2 =>
      (s, fun s =>
        if A.cmp "==" (x.ps s) sentinel || A.test "isinf" (x.ps s) || A.test "isnan" (x.ps s) ||
          A.test "isinf" (x.b.read s) || A.test "isnan" (x.b.read s) || A.cmp "<=" (x.b.read s) zero
        then sentinel
        else A.bin "MulLegacy" (x.a.read s) (x.ps s))
  | .maxAddr rounded =>
      ({ s with a0 := A.address rounded (x.a.read s) }, fun s =>
        A.bin (if x.a.text = x.b.text then "max" else "MaxLegacy") (x.a.read s) (x.b.read s))
  | .test cmp => (s, fun s => A.bit (A.cmp cmp (x.a.read s) zero))
  | .map1 name => (s, fun s => A.un name (x.a.read s))
  | .logc =>
      let t := A.un "log2" (x.a.read s)
      (s, fun _ => if A.cmp "<" t sentinel then sentinel else t)
  | .rcp none => (s, fun s => A.bin "/" one (x.a.read s))
  | .rcp (some v) =>
      let t := A.bin "/" one (x.a.read s)
      (s, fun _ => A.clampInfinite (some v) t)
  | .rsq none => (s, fun s => A.un "rsqrt" (x.a.read s))
  | .rsq (some v) =>
      let t := A.un "rsqrt" (x.a.read s)
      (s, fun _ => A.clampInfinite (some v) t)
  | .setp cmp =>
      ({ s with p0 := A.cmp cmp (x.a.read s) zero }, fun s => if s.p0 then zero else one)
  | .setpInv =>
      let t := x.a.read s
      ({ s with p0 := A.cmp "==" t one },
        fun s => if s.p0 then zero else if A.cmp "==" t zero then one else t)
  | .setpPop =>
      let t := A.bin "-" (x.a.read s) one
      ({ s with p0 := A.cmp "<=" t zero }, fun s => if s.p0 then zero else t)
  | .setpClr => ({ s with p0 := false }, fun _ => A.lit fltMax)
  | .setpRstr =>
      let t := x.a.read s
      ({ s with p0 := A.cmp "==" t zero }, fun s => if s.p0 then zero else t)
  | .kills cmp bound =>
      let t := A.cmp cmp (x.a.read s) (A.lit bound)
      ({ s with discarded := s.discarded || (t && stage = .ps) }, fun _ => A.bit t)
  | .retainPrev => (s, x.ps)

/-! ### From an instruction to its halves -/

/-- `dest_parts`: the register and the letters of its mask. -/
def destParts (dest : Option String) : Except Error (Reg × Option (List Char)) :=
  let text := dest.getD ""
  match matchReg text with
  | some ⟨false, reg, mask⟩ =>
    match reg with
    | .r _ | .o _ | .oPos | .oPts | .oC _ | .oDepth => .ok (reg, mask)
    | _ => .error (.notSupported ("dest " ++ text))
  | _ => .error (.notSupported ("dest " ++ text))

/-- What an operand that is not there is read as; no expression names it. -/
def noOperand : Operand := ⟨false, .r 0, none⟩

/-- The vector half of a pair. -/
def Instr.vectorIns (ins : Instr) : Except Error VectorIns := do
  let form ← match vectorForms.lookup ins.op with
    | some form => pure form
    | none => throw (Error.notSupported ("vector op " ++ ins.op))
  let srcs ← (ins.srcs.take 3).mapM sourceOperand
  if form = .cube ∧ ins.srcs.length ≠ 2 then throw (Error.notSupported "cube operands")
  if srcs.length < form.arity then throw Error.indexError
  let (dest, mask) ← destParts ins.dest
  pure ⟨form, srcs.getD 0 noOperand, srcs.getD 1 noOperand, srcs.getD 2 noOperand, dest, mask, ins.sat⟩

/-- The component `i` of an operand that gives scalars (`operand(text, 1)` and `operand(text, 2)`). -/
def Operand.scalarAt (m : Operand) (i : ℕ) : ScalarOperand :=
  ⟨m, swizzleAt (m.letters ("xy".toList)) i⟩

/-- The operands of a scalar operation of two: two components of one source, or two sources. -/
def scalarPair (srcs : List String) : Except Error (ScalarOperand × ScalarOperand) := do
  match srcs with
  | [] => throw Error.indexError
  | [text] =>
    let m ← sourceOperand text
    pure (m.scalarAt 0, m.scalarAt 1)
  | first :: second :: _ =>
    let a ← sourceOperand first
    let b ← sourceOperand second
    pure (a.scalarAt 0, b.scalarAt 0)

/-- The operands of a scalar operation by its name. -/
def Instr.scalarOperands (ins : Instr) : Except Error (ScalarOperand × ScalarOperand) :=
  let absent : ScalarOperand := noOperand.scalarAt 0
  if ins.op ∈ ["adds", "muls", "subs", "maxs", "mins", "maxas", "maxasf", "muls_prev2"] then
    scalarPair ins.srcs
  else if ins.op ∈ ["addsc", "mulsc", "subsc"] then
    if ins.srcs.length < 2 then .error .indexError else scalarPair ins.srcs
  else if ins.op ∈ ["setp_clr", "retain_prev"] then .ok (absent, absent)
  else
    match ins.srcs with
    | [] => .error .indexError
    | text :: _ => (sourceOperand text).map fun m => (m.scalarAt 0, absent)

/-- The scalar half of a pair. -/
def Instr.scalarIns (ins : Instr) : Except Error ScalarIns := do
  let (a, b) ← ins.scalarOperands
  let form ← match scalarForms.lookup ins.op with
    | some form => pure form
    | none => throw (Error.notSupported ("scalar op " ++ ins.op))
  let (dest, mask) ← destParts ins.dest
  pure ⟨form, a, b, dest, mask, ins.sat⟩

/-! ### The pair -/

/-- What a letter of a destination does to a component. -/
def Alu.writeComponent (letter : Option Char) (old new : F) : F :=
  match letter with
  | none => old
  | some ch =>
    if ch = '_' then old else if ch = '0' then A.lit "0.0" else if ch = '1' then A.lit "1.0" else new

/-- The letters of a destination: all four without a mask. -/
def maskLetters (mask : Option (List Char)) : List Char := mask.getD "xyzw".toList

/-- `write_masked` and `write_scalar`. -/
def Alu.writeMasked (mask : Option (List Char)) (old new : Fin 4 → F) : Fin 4 → F := fun i =>
  A.writeComponent (maskLetters mask)[i.val]? (old i) (new i)

def Alu.write (dest : Reg) (mask : Option (List Char)) (value : Fin 4 → F)
    (regs : Reg → Fin 4 → F) : Reg → Fin 4 → F :=
  Function.update regs dest (A.writeMasked mask (regs dest) value)

/-- `saturate`, where it is asked for. -/
def Alu.saturated (sat : Bool) (v : F) : F := if sat then A.un "saturate" v else v

/-- The statements of `emit_alu_pair` for a vector instruction and its scalar half. -/
def emitAluPair (stage : Stage) (vec : VectorIns) (sca : ScalarIns) (s : AluState F) : AluState F :=
  let (s, vexpr) := vectorHalf A stage vec.form (vec.srcs A) s
  let vt := vexpr s
  let (s, sexpr) := scalarHalf A stage sca.form (sca.srcs A) s
  let st := sexpr s
  { s with
    regs := A.write sca.dest sca.mask (fun _ => A.saturated sca.sat st)
      (A.write vec.dest vec.mask (fun i => A.saturated vec.sat (vt i)) s.regs)
    ps := st }

end Ucode
end BoltsRebuilt
