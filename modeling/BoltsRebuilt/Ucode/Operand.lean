/-
# Operands: what an instruction reads and writes

`tools/ucode2hlsl.py`: `REG_RE`, `Translator.operand`, `dest_parts` (lines
173-342), the operands each opcode fetches (`vector_expr`, `scalar_expr`,
`emit_vfetch`, `emit_tfetch`, lines 409-660) and `source_components`,
`dest_components` (lines 908-943).

An operand is a register and, after a dot, one letter a component.  In a source
the letters are a swizzle: the components read.  In a destination their places
matter: the letter in place `i` says what component `i` gets, `_` that it is
left alone.  `operandReads` are the components the expression `operand` prints
names, place by place, which depend on how many the opcode wants; of these the
opcode's expression uses some places only (`Instr.uses`: a `dp3` takes `.xyz` of
its operands).  `sourceComponents` is the coarser set the interpolator scan
takes, every component the swizzle names.
-/

import BoltsRebuilt.Ucode.Translate

namespace BoltsRebuilt
namespace Ucode

open Text

/-- A set of the components `x`, `y`, `z`, `w` of a register, bit 0 for `x`. -/
abbrev Mask := BitVec 4

/-- The alternatives of `REG_RE`. -/
inductive Reg
  | abs (n : ℕ)
  | r (n : ℕ)
  | cAbs (n : ℕ)
  | cRel (n : ℕ)
  | c (n : ℕ)
  | o (n : ℕ)
  | oPos
  | oPts
  | oC (n : ℕ)
  | oDepth
  deriving DecidableEq, Repr

/-- A match of `REG_RE`: the sign, the register and the letters after the dot. -/
structure Operand where
  neg : Bool
  reg : Reg
  swizzle : Option (List Char)
  deriving DecidableEq, Repr

/-- `\d+`, and what follows. -/
def scanNumber (s : List Char) : Option (ℕ × List Char) :=
  let digits := s.takeWhile Char.isDigit
  if digits = [] then none else some (digitsValue digits, s.drop digits.length)

/-- A number between `open` and `close`, and what follows. -/
def scanIndexed (opening closing : String) (mk : ℕ → Reg) (s : List Char) :
    Option (Reg × List Char) := do
  let s ← dropPrefix? opening.toList s
  let (n, s) ← scanNumber s
  let s ← dropPrefix? closing.toList s
  some (mk n, s)

/-- A fixed word, and what follows. -/
def scanWord (word : String) (reg : Reg) (s : List Char) : Option (Reg × List Char) :=
  (dropPrefix? word.toList s).map (reg, ·)

/-- The register alternatives of `REG_RE`, in its order. -/
def scanReg (s : List Char) : Option (Reg × List Char) :=
  scanIndexed "r_abs[" "]" .abs s <|> scanIndexed "r" "" .r s <|>
    scanIndexed "c_abs[" "]" .cAbs s <|> scanIndexed "c[" "+a0]" .cRel s <|>
    scanIndexed "c" "" .c s <|> scanIndexed "o" "" .o s <|> scanWord "oPos" .oPos s <|>
    scanWord "oPts" .oPts s <|>
    (match dropPrefix? "oC".toList s with
      | some (d :: rest) => if d.isDigit then some (.oC (d.toNat - 48), rest) else none
      | _ => none) <|>
    scanWord "oDepth" .oDepth s

/-- `REG_RE` on a whole operand. -/
def matchReg (text : String) : Option Operand :=
  let (neg, s) := match text.toList with
    | '-' :: rest => (true, rest)
    | cs => (false, cs)
  match scanReg s with
  | none => none
  | some (reg, []) => some ⟨neg, reg, none⟩
  | some (reg, '.' :: swz) =>
      if swz ≠ [] ∧ swz.all (· ∈ "xyzw01_".toList) then some ⟨neg, reg, some swz⟩ else none
  | some _ => none

/-! ### Sources -/

/-- The temporary register of a source, `none` for a constant or an export. -/
def Reg.temp? : Reg → Option ℕ
  | .abs n | .r n => some n
  | _ => none

/-- Whether the register can be a source. -/
def Reg.isSource : Reg → Bool
  | .abs _ | .r _ | .cAbs _ | .cRel _ | .c _ => true
  | _ => false

/-- The component a letter names. -/
def component? (ch : Char) : Option (Fin 4) :=
  if ch = 'x' then some 0 else if ch = 'y' then some 1 else if ch = 'z' then some 2
  else if ch = 'w' then some 3 else none

/-- `SOURCE_COMPONENT_BITS.get(ch, 0)`. -/
def componentBit (ch : Char) : Mask := (component? ch).elim 0 fun c => 1#4 <<< c.val

/-- `source_components`: the register and the components its swizzle names, all
when it names none; `none` for an operand that reads no temporary register. -/
def sourceComponents (text : String) : Option (ℕ × Mask) := do
  let m ← matchReg text
  let register ← m.reg.temp?
  match m.swizzle with
  | none => some (register, 0b1111)
  | some swz =>
      let mask := swz.foldl (fun m ch => m ||| componentBit ch) 0
      some (register, if mask = 0 then 0b1111 else mask)

/-- The letters of a swizzle that name a component. -/
def Operand.letters (m : Operand) (default : List Char) : List Char :=
  (m.swizzle.getD default).filter (· ≠ '_')

/-- So many letters of a swizzle, the last one repeated where there are fewer. -/
def padded (want : ℕ) (letters : List Char) : List Char :=
  (letters ++ List.replicate want (letters.getLastD 'x')).take want

/-- The components the expression `operand(text, want)` names, place by place,
`none` for an operand it refuses: all four without a swizzle (`want = 4`), or the
swizzle's first `want`. -/
def operandReads (text : String) (want : ℕ) : Option (List (ℕ × Fin 4)) := do
  let m ← matchReg text
  let letters := m.letters ("xyzw".toList.take want)
  if m.reg.isSource = false ∨ letters = [] ∨ letters.any (component? · = none) then none
  else
    match m.reg.temp? with
    | some n => some (((padded want letters).filterMap component?).map (n, ·))
    | none => some []

/-- How many components of each source an instruction fetches: the calls of
`operand`, up to those whose expression the emitted code uses. -/
def Instr.wants (ins : Instr) : List ℕ :=
  let n := ins.srcs.length
  if ins.op = "vfetch_full" then [1]
  else if (dropPrefix? "vfetch".toList ins.op.toList).isSome then []
  else if ins.op = "tfetch2D" then [2]
  else if (dropPrefix? "tfetch".toList ins.op.toList).isSome then [3]
  else if ins.op ∈ ["frc", "trunc", "floor", "max4", "cube"] then [4]
  else if ins.op ∈ ["mad", "cndeq", "cndge", "cndgt", "dp2add"] then [4, 4, 4]
  else if ins.op ∈ vectorOps then [4, 4]
  else if ins.op ∈ ["adds", "muls", "subs", "maxs", "mins", "maxas", "maxasf", "muls_prev2"] then
    if n = 1 then [2] else [1, 1]
  else if ins.op ∈ ["addsc", "mulsc", "subsc"] then [1, 1]
  else if ins.op ∈ ["setp_clr", "retain_prev"] then []
  else [1]

/-- The places of each operand's expression that the emitted code uses: of four
components `dp3` takes `.xyz`, `dp2add` `.xy`, `.xy` and `.x`, `dst` `.y` and `.z`
of the first operand and `.y` and `.w` of the second, a predicate push `.x` and
`.w`, and `XenosCube` all but `.y`. -/
def Instr.uses (ins : Instr) : List (List ℕ) :=
  if ins.op = "dp3" then [[0, 1, 2], [0, 1, 2]]
  else if ins.op = "dp2add" then [[0, 1], [0, 1], [0]]
  else if ins.op = "dst" then [[1, 2], [1, 3]]
  else if ins.op ∈ ["setp_eq_push", "setp_ne_push", "setp_gt_push", "setp_ge_push"] then [[0, 3], [0, 3]]
  else if ins.op = "cube" then [[0, 2, 3]]
  else ins.wants.map List.range

/-- The components a source is read for: the used places of its expression. -/
def sourceReads (src : String) (want : ℕ) (uses : List ℕ) : List (ℕ × Fin 4) :=
  uses.filterMap fun i => ((operandReads src want).getD [])[i]?

/-- The register components an instruction reads. -/
def Instr.reads (ins : Instr) : List (ℕ × Fin 4) :=
  (ins.srcs.zip (ins.wants.zip ins.uses)).flatMap fun p => sourceReads p.1 p.2.1 p.2.2

/-! ### Destinations -/

/-- `dest_components`: the temporary register an instruction writes and the
components it writes. -/
def destComponents (dest : Option String) : Option (ℕ × Mask) := do
  let m ← matchReg (dest.getD "")
  match m.reg with
  | .r n =>
      match m.swizzle with
      | none => some (n, 0b1111)
      | some swz =>
          some (n, ((swz.take 4).zipIdx).foldl
            (fun mask p => if p.1 ≠ '_' then mask ||| 1#4 <<< p.2 else mask) 0)
  | _ => none

/-- The register components an instruction writes. -/
def Instr.writes (ins : Instr) (r : ℕ) (c : Fin 4) : Bool :=
  match destComponents ins.dest with
  | some (n, mask) => n = r && mask.getLsbD c
  | none => false

/-! ### The scan's components cover the reads -/

end Ucode
end BoltsRebuilt
