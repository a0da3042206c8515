/-
# The sidecar of a translated shader

`tools/ucode2hlsl.py`: `write_sidecar` (lines 1126-1140);
`src/gpu/native/native_shader_library.cpp`: `Split` (lines 43-56) and
`ParseMeta` (lines 91-165); `native_alpha_test_variant.h`: the facts
`NativeAlphaTestVariantSidecar` keeps (lines 47-61); `nb_command_processor.cpp`:
the slots of `bind_textures` (lines 1761-1775).

A sidecar is a text of lines `key=value`.  The printer writes the same keys in
the same order for every shader, some of one stage only; the parser takes them
in any order, ignores keys it does not know and lines without `=`, and reads
numbers as `strtoul` does: leading white space, a sign, as many digits as there
are, and the largest number when there are too many.
-/

import BoltsRebuilt.Sidecar.Slots

namespace BoltsRebuilt
namespace Sidecar

open Constants Spans Text
open Ucode (Stage)

/-! ### Printing -/

/-- `str` of an integer. -/
def intText (z : ℤ) : List Char := if z < 0 then '-' :: decimal z.natAbs else decimal z.natAbs

/-- `",".join`. -/
def commaJoin (items : List (List Char)) : List Char := [','].intercalate items

/-- A digit of a hash, as the dump writes it. -/
def isHexDigit (c : Char) : Bool := c.isDigit || ('A' ≤ c && c ≤ 'F')

/-- The hash in the name of a dumped shader: sixteen upper-case digits. -/
structure ShaderHash where
  text : List Char
  length_eq : text.length = 16
  digits : ∀ c ∈ text, isHexDigit c = true

/-- `f"{st['vf']}:{st['stride']}"`. -/
def streamText (st : Stream) : List Char := intText st.vf ++ ':' :: intText st.stride

/-- The lines of one stage only. -/
def stageLines : StageMeta → List (List Char)
  | .vs streams kill =>
      ["streams=".toList ++ commaJoin (streams.map streamText), "kill=".toList ++ decimal kill]
  | .ps writesDepth kills colors =>
      ["writes_depth=".toList ++ decimal writesDepth, "kills=".toList ++ decimal kills,
        "colors=".toList ++ decimal colors]

/-- `lines` of `write_sidecar`. -/
def sidecarLines (shaderHash : List Char) (m : Meta) : List (List Char) :=
  ["hash=".toList ++ shaderHash, "interp=".toList ++ decimal m.interp,
    "tex=".toList ++ commaJoin (m.tex.map intText),
    "texdim=".toList ++ commaJoin (m.texdim.map decimal),
    "consts=".toList ++ intText m.consts, "cruns=".toList ++ crunsText m.cruns] ++
  stageLines m.stageMeta

/-- `write_sidecar`: the text of the file. -/
def writeSidecar (shaderHash : List Char) (m : Meta) : List Char :=
  ['\n'].intercalate (sidecarLines shaderHash m) ++ ['\n']

/-! ### Numbers -/

/-- `isspace` of the C locale. -/
def isCSpace (c : Char) : Bool := c = ' ' || (9 ≤ c.toNat && c.toNat ≤ 13)

/-- The value of a digit, upper case or lower case. -/
def digitValue (c : Char) : ℕ :=
  if c.isDigit then c.toNat - 48
  else if 'A' ≤ c ∧ c ≤ 'Z' then c.toNat - 55
  else if 'a' ≤ c ∧ c ≤ 'z' then c.toNat - 87
  else 36

/-- The value of the digits `s` starts with. -/
def leadingValue (base : ℕ) (s : List Char) : ℕ :=
  (s.takeWhile fun c => digitValue c < base).foldl (fun v c => base * v + digitValue c) 0

/-- The `0x` that base 16 allows before a digit. -/
def dropHexMark (base : ℕ) : List Char → List Char
  | '0' :: x :: c :: s =>
      if base = 16 ∧ (x = 'x' ∨ x = 'X') ∧ digitValue c < 16 then c :: s else '0' :: x :: c :: s
  | s => s

/-- A number with its sign in an unsigned type of the given size: `limit` values, the largest for one
too large, and the negative of what follows a minus. -/
def strtou (limit base : ℕ) (s : List Char) : ℕ :=
  let body := s.dropWhile isCSpace
  let (neg, digits) := match body with
    | '-' :: rest => (true, rest)
    | '+' :: rest => (false, rest)
    | _ => (false, body)
  let value := leadingValue base (dropHexMark base digits)
  if limit ≤ value then limit - 1
  else if neg then (limit - value) % limit
  else value

/-- `strtoul(text, nullptr, 10)`; `unsigned long` has 32 bits where the runtime is built. -/
def strtoul (s : List Char) : ℕ := strtou (2 ^ 32) 10 s

/-- `strtoull(text, nullptr, 16)`. -/
def strtoull16 (s : List Char) : ℕ := strtou (2 ^ 64) 16 s

/-! ### Parsing -/

/-- `Split`: the pieces between separators, blanks and carriage returns left
out, empty ones dropped. -/
def split (separator : Char) (text : List Char) : List (List Char) :=
  ((splitBy (· = separator) text).map (·.filter fun c => c ≠ ' ' && c ≠ '\r')).filter (· ≠ [])

/-- `NativeAlphaTestVariantSidecar`. -/
structure VariantSidecar where
  noKill : Bool := false
  noDepth : Bool := false
  deriving DecidableEq, Repr

/-- `Observe`. -/
def VariantSidecar.observe (v : VariantSidecar) (key value : List Char) : VariantSidecar :=
  if key = "kills".toList then { v with noKill := value = ['0'] }
  else if key = "writes_depth".toList then { v with noDepth := value = ['0'] }
  else v

/-- `eligible`. -/
def VariantSidecar.eligible (v : VariantSidecar) : Bool := v.noKill && v.noDepth

/-- `Stream` of the runtime. -/
structure StageStream where
  fetchConstant : ℕ
  strideDwords : ℕ
  deriving DecidableEq, Repr

/-- `StageShader`: what `ParseMeta` fills in. -/
structure StageShader where
  hash : ℕ := 0
  vertex : Bool := false
  textureFetchConstants : List ℕ := []
  textureDimensions : List ℕ := []
  streams : List StageStream := []
  interpolators : ℕ := 0
  constantCount : ℕ := 256
  constantRuns : List Run := []
  packedConstants : ℕ := 0
  hasPackedLayout : Bool := false
  writesDepth : Bool := false
  noAlphaTestEligible : Bool := false
  deriving DecidableEq, Repr

/-- The variables of `ParseMeta`. -/
structure Parse where
  shader : StageShader
  haveHash : Bool := false
  haveTextureDimensions : Bool := false
  constantLayout : Layout := {}
  alphaTestVariant : VariantSidecar := {}
  deriving DecidableEq, Repr

/-- An item of `texdim=`. -/
def parseDimension (item : List Char) : Option ℕ :=
  if item ≠ ['2'] ∧ item ≠ ['3'] ∧ item ≠ ['4'] then none
  else some ((item.headD '0').toNat - '0'.toNat)

/-- An item of `streams=`. -/
def parseStream (item : List Char) : Option StageStream :=
  let before := item.takeWhile (· ≠ ':')
  match item.drop before.length with
  | [] => none
  | _ :: after =>
      let stream : StageStream := ⟨strtoul item, strtoul after⟩
      if 96 ≤ stream.fetchConstant ∨ 255 < stream.strideDwords then none else some stream

/-- The `if` chain of `ParseMeta` for one key. -/
def Parse.handle (p : Parse) (key value : List Char) : Option Parse :=
  if key = "hash".toList then
    some { p with shader := { p.shader with hash := strtoull16 value }, haveHash := true }
  else if key = "interp".toList then
    some { p with shader := { p.shader with interpolators := strtoul value } }
  else if key = "consts".toList then
    match p.constantLayout.setUpperBound value with
    | (true, constantLayout) => some { p with constantLayout }
    | (false, _) => none
  else if key = "cruns".toList then
    match p.constantLayout.setRuns value with
    | (true, constantLayout) => some { p with constantLayout }
    | (false, _) => none
  else if key = "writes_depth".toList then
    some { p with shader := { p.shader with writesDepth := value = ['1'] } }
  else if key = "tex".toList then
    some { p with shader := { p.shader with
      textureFetchConstants := p.shader.textureFetchConstants ++ (split ',' value).map strtoul } }
  else if key = "texdim".toList then
    if p.haveTextureDimensions then none
    else do
      let dimensions ← (split ',' value).mapM parseDimension
      return { p with
        haveTextureDimensions := true
        shader := { p.shader with
          textureDimensions := p.shader.textureDimensions ++ dimensions } }
  else if key = "streams".toList then do
    let streams ← (split ',' value).mapM parseStream
    return { p with shader := { p.shader with streams := p.shader.streams ++ streams } }
  else some p

/-- `value` without a carriage return at its end. -/
def popCarriageReturn (value : List Char) : List Char :=
  if value.getLast? = some '\r' then value.dropLast else value

/-- One line of `ParseMeta`. -/
def Parse.line (p : Parse) (line : List Char) : Option Parse :=
  let key := line.takeWhile (· ≠ '=')
  match line.drop key.length with
  | [] => some p
  | _ :: rest =>
      if line.head? = some '#' then some p
      else
        let value := popCarriageReturn rest
        Parse.handle { p with alphaTestVariant := p.alphaTestVariant.observe key value } key value

/-- The checks of `ParseMeta` after its loop. -/
def Parse.finish (p : Parse) : Option StageShader :=
  if ¬p.constantLayout.isValid then none
  else
    let shader := { p.shader with
      constantCount := p.constantLayout.upperBound
      hasPackedLayout := p.constantLayout.hasPackedLayout
      packedConstants := p.constantLayout.packedRegisters
      constantRuns := p.constantLayout.runs
      noAlphaTestEligible := !p.shader.vertex && p.alphaTestVariant.eligible
      textureDimensions :=
        if p.haveTextureDimensions then p.shader.textureDimensions
        else List.replicate p.shader.textureFetchConstants.length 2 }
    if shader.textureDimensions.length ≠ shader.textureFetchConstants.length then none
    else
      let textureLimit := if shader.vertex then 20 - 16 else 16
      if ¬p.haveHash ∨ textureLimit < shader.textureFetchConstants.length ∨
          16 < shader.streams.length ∨ 16 < shader.interpolators then none
      else some shader

/-- `ParseMeta` of a file's text.  The piece after the last line end is empty
and skipped as any line without `=`. -/
def parseMeta (vertex : Bool) (text : List Char) : Option StageShader := do
  let p ← (splitBy (· = '\n') text).foldlM Parse.line { shader := { vertex } }
  p.finish

/-- A texture `bind_textures` asks the texture cache for, and the slot of the
root constants it goes to. -/
structure Binding where
  slot : ℕ
  fetchConstant : ℕ
  dimension : ℕ
  deriving DecidableEq, Repr

/-- The loop of `bind_textures` over the texture fetch constants. -/
def bindTextures (stage : StageShader) (slotBase : ℕ) : List Binding :=
  (stage.textureFetchConstants.zip stage.textureDimensions).zipIdx.map fun p =>
    ⟨slotBase + p.2, p.1.1, p.1.2⟩

/-- `slot_base` of the draw: `kVertexTextureSlotBase` for the vertex stage. -/
def runtimeSlotBase (vertex : Bool) : ℕ := if vertex then 16 else 0

end Sidecar
end BoltsRebuilt
