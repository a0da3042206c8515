/-
# The library of generated shaders

src/src/gpu/native/native_shader_library.h and native_shader_library.cpp:
`NativeShaderLibrary`; native_ready_pair_memo.h: `NativeReadyPairMemo`; and what
native_geometry_pass.cpp does with the blobs (`CompileShader`, lines 412-442;
`Initialize`, lines 459-517; `SetNoAlphaTestPixelShader`, lines 519-535).

One map holds the shaders of both stages, under keys derived from their hashes, and
another the pairs, under keys folded from two hashes.  A pair is built the first time
it is asked for, when both its shaders are compiled; compiles run in the background and
are collected by the next `FindPair`.

A blob is known here by the compile it came from: the file its source was read from and
the arguments of the compiler.  Whether a compile succeeds is the environment's to say,
and so are the files and the moment a job ends.

An entry of a map is pointed at by its key: a shader stays where it is until the next
`Load`, which deletes every shader and every pair, and a pointer to a pair says which
load it was built after.  `dangling` is the answer of a `FindPair` that reads a pair
deleted since.

Left out: the log, the counters, the root signature of the other kind and what
`Initialize` keeps beside the blobs and the proofs `SetNoAlphaTestPixelShader` reads.
-/

import BoltsRebuilt.Sidecar.Format
import BoltsRebuilt.Shaders.AlphaTest
import Mathlib.Data.BitVec
import Mathlib.Logic.Function.Basic

namespace BoltsRebuilt
namespace ShaderLibrary

open Sidecar (split parseMeta)
open Shaders

/-! ### Compiles -/

/-- A blob: the file its source was read from and the compile that made it. -/
structure Blob where
  path : List Char
  name : List Char
  source : List Char
  target : List Char
  defines : List (List Char × List Char)
  deriving DecidableEq, Repr

/-- What the library runs on: the threads of the machine, `std::hash` of a text, the prelude every
source starts with, and the reflection `ShaderConstantHeaderOnly` asks about a blob. -/
structure Host where
  hardwareConcurrency : ℕ
  hash : List Char → ℕ
  prelude : List Char
  constantHeaderOnly : Option Blob → ℕ → ℕ → Bool

def flag (b : Bool) : List Char := if b then ['1'] else ['0']

/-- The arguments `CompileShader` compiles a source with. -/
def Host.blob (host : Host) (path name body : List Char) (vertex : Bool) (interpolators constants : ℕ)
    (effectiveSamplers directGuestReads : Bool) : Blob where
  path := path
  name := name
  source := host.prelude ++ body
  target := if vertex then "vs_5_1".toList else "ps_5_1".toList
  defines :=
    [("NB_PIXEL_STAGE".toList, flag !vertex), ("NB_EFFECTIVE_SAMPLERS".toList, flag effectiveSamplers),
      ("NB_DIRECT_GUEST_READS".toList, flag directGuestReads)] ++
    (if vertex ∧ interpolators ≠ 0 then [("NB_INTERPOLATORS".toList, Text.decimal interpolators)]
      else []) ++
    (if constants ≠ 0 then
        [(if vertex then "NB_VS_CONSTANTS".toList else "NB_PS_CONSTANTS".toList,
          Text.decimal (max 1 constants))]
      else [])

/-- `CompileShader`; `compiles` says whether the compiler accepts the source. -/
def Host.compileShader (host : Host) (path name hlsl : List Char) (vertex : Bool)
    (interpolators constants : ℕ) (effectiveSamplers directGuestReads alphaTest compiles : Bool) :
    Option Blob :=
  let body := if alphaTest then some hlsl else if vertex then none else stripNativeAlphaTest hlsl
  match body with
  | none => none
  | some body =>
    if compiles then
      some (host.blob path name body vertex interpolators constants effectiveSamplers directGuestReads)
    else none

/-- `State`. -/
inductive CompileState
  | idle
  | compiling
  | ready
  | failed
  deriving DecidableEq, Repr

/-- `Compiled`. -/
structure Compiled where
  blob : Option Blob := none
  sourceHash : ℕ := 0
  deriving DecidableEq, Repr

/-- A background compile: what the lambda captures, and its result once it has one.  A job that
throws has the result `none`. -/
structure Job where
  name : List Char
  path : List Char
  source : List Char
  vertex : Bool
  interpolators : ℕ
  packed : ℕ
  effectiveSamplers : Bool
  directGuestReads : Bool
  asyncReads : Bool
  alphaTest : Bool
  hashSource : Bool
  expectedHash : ℕ
  result : Option (Option Compiled) := none
  deriving DecidableEq, Repr

/-- The body of the lambda; `file` is what `ReadFile` gets of the job's path. -/
def Job.run (host : Host) (job : Job) (file : Option (List Char)) (compiles : Bool) : Compiled :=
  match if job.asyncReads then file else some job.source with
  | none => {}
  | some source =>
    let sourceHash := if job.hashSource ∨ ¬job.alphaTest then host.hash source else 0
    if ¬job.alphaTest ∧ (job.expectedHash = 0 ∨ sourceHash ≠ job.expectedHash) then {}
    else
      { blob := host.compileShader job.path job.name source job.vertex job.interpolators job.packed
          job.effectiveSamplers job.directGuestReads job.alphaTest compiles
        sourceHash }

/-- `Variant`. -/
structure Variant where
  state : CompileState := .idle
  compile : Option Job := none
  blob : Option Blob := none
  sourceHash : ℕ := 0
  noAlphaTest : Bool := false
  deriving DecidableEq, Repr

/-- `kNoAlphaTestKey`. -/
def noAlphaTestKey : ℕ := 1

/-! ### Shaders and pairs -/

/-- `StageShader`, without its variants. -/
structure StageShader where
  stem : List Char
  parsed : Sidecar.StageShader
  deriving DecidableEq, Repr

namespace StageShader

def hash (s : StageShader) : BitVec 64 := BitVec.ofNat 64 s.parsed.hash
def vertex (s : StageShader) : Bool := s.parsed.vertex
def interpolators (s : StageShader) : ℕ := s.parsed.interpolators
def packedConstants (s : StageShader) : ℕ := s.parsed.packedConstants
def noAlphaTestEligible (s : StageShader) : Bool := s.parsed.noAlphaTestEligible

end StageShader

/-- A pointer to an entry of `shaders_`: its key, and the shader, which does not change. -/
structure ShaderPtr where
  key : BitVec 64
  shader : StageShader
  deriving DecidableEq, Repr

/-- A pointer to a variant: the key of its shader and its own key. -/
structure VariantPtr where
  shader : BitVec 64
  key : ℕ
  deriving DecidableEq, Repr

/-- A pointer to a pair: the load it was built after, and its key in `pairs_`. -/
structure PairPtr where
  load : ℕ
  key : BitVec 64
  deriving DecidableEq, Repr

/-- `NativeGeometryPass`: the blobs of a pair and what is known about their constants. -/
structure Pass where
  vs : Option Blob := none
  ps : Option Blob := none
  psNoAlphaTest : Option Blob := none
  noAlphaTestFailed : Bool := false
  emptyVertexBufferSafe : Bool := false
  emptyPixelBufferSafe : Bool := false
  pixelBufferUnused : Bool := false
  initialized : Bool := false
  deriving DecidableEq, Repr

/-- `kVertexConstantHeaderBytes`. -/
def vertexConstantHeaderBytes : ℕ := 688

/-- `NativePixelConstantPacket::kHeaderBytes`: `kBoolBytes + 2 * kSlotBytes`. -/
def pixelConstantHeaderBytes : ℕ := 32 + 2 * 80

/-- `Initialize` of a new pass. -/
def Host.initialize (host : Host) (vs ps : Option Blob) (rootSignature : Bool) : Bool × Pass :=
  if vs = none ∨ ¬rootSignature then (false, { vs, ps })
  else
    (true,
      { vs, ps
        emptyVertexBufferSafe := host.constantHeaderOnly vs 1 vertexConstantHeaderBytes &&
          host.constantHeaderOnly ps 1 vertexConstantHeaderBytes
        emptyPixelBufferSafe := host.constantHeaderOnly vs 2 pixelConstantHeaderBytes &&
          host.constantHeaderOnly ps 2 pixelConstantHeaderBytes
        pixelBufferUnused := host.constantHeaderOnly vs 2 0 && host.constantHeaderOnly ps 2 0
        initialized := true })

/-- `SetNoAlphaTestPixelShader`. -/
def Host.setNoAlphaTestPixelShader (host : Host) (pass : Pass) (ps : Option Blob) : Bool × Pass :=
  if ¬pass.initialized ∨ pass.ps = none ∨ ps = none ∨ pass.psNoAlphaTest ≠ none then (false, pass)
  else if (pass.emptyVertexBufferSafe ∧ ¬host.constantHeaderOnly ps 1 vertexConstantHeaderBytes) ∨
      (pass.emptyPixelBufferSafe ∧ ¬host.constantHeaderOnly ps 2 pixelConstantHeaderBytes) ∨
      (pass.pixelBufferUnused ∧ ¬host.constantHeaderOnly ps 2 0) then (false, pass)
  else (true, { pass with psNoAlphaTest := ps })

/-- `Pair`. -/
structure Pair where
  vs : ShaderPtr
  ps : Option ShaderPtr
  stem : List Char
  usable : Bool := true
  pass : Pass := {}
  noAlphaTest : Option VariantPtr := none
  noAlphaTestRefused : Bool := false
  deriving DecidableEq, Repr

/-- `pair.ps ? pair.ps->hash : 0`. -/
def Pair.psHash (pair : Pair) : BitVec 64 :=
  match pair.ps with
  | some ps => ps.shader.hash
  | none => 0

/-- `NativeReadyPairMemo::Entry`. -/
structure MemoEntry where
  vertexHash : BitVec 64
  pixelHash : BitVec 64
  pair : PairPtr
  deriving DecidableEq, Repr

/-- `NativeShaderLibrary`. -/
structure Library where
  directory : List Char := []
  effectiveSamplers : Bool := true
  directGuestReads : Bool := false
  shaders : BitVec 64 → Option StageShader := fun _ => none
  variants : VariantPtr → Option Variant := fun _ => none
  pairs : BitVec 64 → Option Pair := fun _ => none
  compiling : List VariantPtr := []
  noAlphaTestCompiling : ℕ := 0
  filters : List (List Char) := []
  excludes : List (List Char) := []
  rootSignature : Bool := false
  readyPairMemo : Option MemoEntry := none
  loads : ℕ := 0

/-! ### Keys -/

/-- `HexHash`: `%016llX`. -/
def hexHash (hash : BitVec 64) : List Char :=
  (List.range 16).map fun i => (Nat.digitChar (hash.toNat / 16 ^ (15 - i) % 16)).toUpper

/-- `ShaderKey`. -/
def shaderKey (hash : BitVec 64) (vertex : Bool) : BitVec 64 := if vertex then hash else ~~~hash

/-- `PairKey`. -/
def pairKey (vsHash psHash : BitVec 64) : BitVec 64 :=
  vsHash ^^^ psHash * (0x9E3779B97F4A7C15 : BitVec 64) ^^^ psHash >>> 29

/-- The name of a pair. -/
def pairStem (vsHash psHash : BitVec 64) : List Char := hexHash vsHash ++ '_' :: hexHash psHash

/-- `MatchesAny`. -/
def matchesAny (stem : List Char) (needles : List (List Char)) : Bool :=
  needles.any fun needle => (findText needle stem).isSome

/-- `MaxCompilesInFlight`. -/
def Host.maxCompilesInFlight (host : Host) : ℕ :=
  if 4 < host.hardwareConcurrency then host.hardwareConcurrency / 2 else 2

/-! ### `Load` -/

/-- An entry of the directory; `text` is what `ReadFile` gets of it. -/
structure File where
  regular : Bool
  extension : List Char
  stem : List Char
  text : Option (List Char)
  deriving DecidableEq, Repr

/-- The shader a file of the directory describes. -/
def File.shader (file : File) : Option StageShader :=
  if ¬file.regular ∨ file.extension ≠ ".meta".toList then none
  else
    let vertex := "vs_".toList.isPrefixOf file.stem
    if ¬vertex ∧ ¬"ps_".toList.isPrefixOf file.stem then none
    else do
      let text ← file.text
      let parsed ← parseMeta vertex text
      return ⟨file.stem, parsed⟩

/-- `shaders_[ShaderKey(shader->hash, vertex)] = std::move(shader)`. -/
def insertShader (shaders : BitVec 64 → Option StageShader) (s : StageShader) :
    BitVec 64 → Option StageShader :=
  Function.update shaders (shaderKey s.hash s.vertex) (some s)

/-- What `Load` is called with, and the directory it finds; none where it is not one. -/
structure LoadRequest where
  directory : List Char
  filter : List Char
  exclude : List Char
  effectiveSamplers : Bool
  directGuestReads : Bool
  listing : Option (List File)
  deriving DecidableEq, Repr

/-- `Load`. -/
def load (lib : Library) (r : LoadRequest) : Library where
  directory := r.directory
  effectiveSamplers := r.effectiveSamplers
  directGuestReads := r.directGuestReads
  shaders := ((r.listing.getD []).filterMap File.shader).foldl insertShader fun _ => none
  filters := split ',' r.filter
  excludes := split ',' r.exclude
  rootSignature := lib.rootSignature
  loads := lib.loads + 1

/-! ### Compiling -/

/-- `Find`. -/
def find (lib : Library) (hash : BitVec 64) (vertex : Bool) : Option ShaderPtr :=
  (lib.shaders (shaderKey hash vertex)).map fun s => ⟨shaderKey hash vertex, s⟩

/-- `PairEnabled`. -/
def pairEnabled (lib : Library) (stem : List Char) : Bool :=
  (lib.filters = [] || matchesAny stem lib.filters) && !matchesAny stem lib.excludes

/-- A variant with the result of its job. -/
def Variant.finish (variant : Variant) (result : Option Compiled) : Variant :=
  match result with
  | some compiled =>
      { variant with
        compile := none
        blob := compiled.blob
        sourceHash := compiled.sourceHash
        state := if compiled.blob.isSome then .ready else .failed }
  | none => { variant with compile := none, blob := none, state := .failed }

/-- The job of a variant that has ended, with its result. -/
def Variant.ended (variant : Variant) : Option (Option Compiled) :=
  variant.compile.bind Job.result

def setVariant (lib : Library) (a : VariantPtr) (variant : Variant) : Library :=
  { lib with variants := Function.update lib.variants a (some variant) }

/-- The body of the loop of `ReapCompiles` for the entry `i` of `compiling_`, and the next `i`. -/
def reapOne (lib : Library) (i : ℕ) : Library × ℕ :=
  match lib.compiling[i]? with
  | none => (lib, i + 1)
  | some a =>
    match lib.variants a with
    | none => (lib, i + 1)
    | some variant =>
      match variant.ended with
      | none => (lib, i + 1)
      | some result =>
        ({ setVariant lib a (variant.finish result) with
            noAlphaTestCompiling := lib.noAlphaTestCompiling - if variant.noAlphaTest then 1 else 0
            compiling := (lib.compiling.set i (lib.compiling.getLastD a)).dropLast }, i)

/-- The loop of `ReapCompiles`: every step leaves one entry less to look at. -/
def reapLoop : ℕ → Library → ℕ → Library
  | 0, lib, _ => lib
  | n + 1, lib, i => reapLoop n (reapOne lib i).1 (reapOne lib i).2

/-- `ReapCompiles`. -/
def reapCompiles (lib : Library) : Library := reapLoop lib.compiling.length lib 0

/-- What a call finds around it: the switch `nb_native_async_shader_reads`, and what `ReadFile` gets of
a path. -/
structure Surroundings where
  asyncReads : Bool
  files : List Char → Option (List Char)

/-- The path of a shader's source. -/
def sourcePath (lib : Library) (s : StageShader) : List Char :=
  lib.directory ++ '/' :: s.stem ++ ".hlsl".toList

/-- The key of a shader's variant. -/
def variantKey (s : StageShader) (interpolators : ℕ) (alphaTest : Bool) : ℕ :=
  if s.vertex then interpolators else if alphaTest then 0 else noAlphaTestKey

/-- Whether `EnsureCompiled` may start a compile. -/
def compileAdmitted (host : Host) (lib : Library) (alphaTest : Bool) : Bool :=
  if alphaTest then
    nativeBaseSlotFree lib.compiling.length lib.noAlphaTestCompiling host.maxCompilesInFlight
  else
    nativeNoAlphaTestCompileAdmitted lib.compiling.length lib.noAlphaTestCompiling
      host.maxCompilesInFlight

/-- `expected_hash`: that of the generated form, when it is ready. -/
def expectedHash (lib : Library) (key : BitVec 64) (alphaTest : Bool) : ℕ :=
  if alphaTest then 0
  else
    match lib.variants ⟨key, 0⟩ with
    | some base => if base.state = .ready then base.sourceHash else 0
    | none => 0

/-- The job `EnsureCompiled` starts; `source` is what it has read itself. -/
def startedJob (lib : Library) (p : ShaderPtr) (interpolators : ℕ) (alphaTest asyncReads : Bool)
    (source : List Char) : Job where
  name := if alphaTest then p.shader.stem else p.shader.stem ++ "_noalphatest".toList
  path := sourcePath lib p.shader
  source := source
  vertex := p.shader.vertex
  interpolators := if p.shader.vertex then interpolators else 0
  packed := p.shader.packedConstants
  effectiveSamplers := lib.effectiveSamplers
  directGuestReads := lib.directGuestReads
  asyncReads := asyncReads
  alphaTest := alphaTest
  hashSource := !p.shader.vertex && alphaTest && p.shader.noAlphaTestEligible
  expectedHash := expectedHash lib p.key alphaTest

/-- The variant is compiled in the background. -/
def startCompile (lib : Library) (a : VariantPtr) (job : Job) : Library :=
  { setVariant lib a
      { state := .compiling, compile := some job, noAlphaTest := !job.alphaTest } with
    compiling := lib.compiling ++ [a]
    noAlphaTestCompiling := lib.noAlphaTestCompiling + if job.alphaTest then 0 else 1 }

/-- `EnsureCompiled`: the variant, or nothing where it returns null. -/
def ensureCompiled (host : Host) (around : Surroundings) (lib : Library) (p : ShaderPtr)
    (interpolators : ℕ) (alphaTest : Bool) : Option VariantPtr × Library :=
  let a : VariantPtr := ⟨p.key, variantKey p.shader interpolators alphaTest⟩
  if (lib.variants a).isSome then (some a, lib)
  else if ¬compileAdmitted host lib alphaTest then (none, lib)
  else
    match if around.asyncReads then some [] else around.files (sourcePath lib p.shader) with
    | none => (some a, setVariant lib a { state := .failed })
    | some source =>
        (some a, startCompile lib a (startedJob lib p interpolators alphaTest around.asyncReads source))

/-! ### `FindPair` -/

/-- `Lookup`; `dangling` is the model's, for a pair that has been deleted. -/
inductive Lookup
  | ready (pair : PairPtr)
  | unknownShader
  | notReady
  | unusable
  | disabled
  | dangling
  deriving DecidableEq, Repr

/-- The pair a pointer points to, while it exists. -/
def pairAt (lib : Library) (ptr : PairPtr) : Option Pair :=
  if ptr.load = lib.loads then lib.pairs ptr.key else none

/-- The checks both fast paths make of a pair. -/
def checkPair (lib : Library) (pair : Pair) (ptr : PairPtr) (vsHash psHash : BitVec 64) : Lookup :=
  if pair.vs.shader.hash ≠ vsHash ∨ pair.psHash ≠ psHash then .unusable
  else if ¬pair.usable then .unusable
  else if ¬pairEnabled lib pair.stem then .disabled
  else .ready ptr

/-- `NativeReadyPairMemo::Find`. -/
def memoFind (lib : Library) (vsHash psHash : BitVec 64) : Option PairPtr :=
  match lib.readyPairMemo with
  | some e => if e.vertexHash = vsHash ∧ e.pixelHash = psHash then some e.pair else none
  | none => none

/-- `NativeReadyPairMemo::Publish`, when the switch is on. -/
def publish (lib : Library) (memoEnabled : Bool) (vsHash psHash : BitVec 64) (pair : PairPtr) :
    Library :=
  if memoEnabled then { lib with readyPairMemo := some ⟨vsHash, psHash, pair⟩ } else lib

/-- What `FindPair` is called with, the switch `nb_native_pair_lookup_memo`, and whether
`CreateRootSignature` succeeds. -/
structure PairRequest where
  vsHash : BitVec 64
  psHash : BitVec 64
  memoEnabled : Bool
  rootSignature : Bool
  around : Surroundings

/-- The blob a variant has. -/
def variantBlob (lib : Library) (a : VariantPtr) : Option Blob := (lib.variants a).bind Variant.blob

def variantState (lib : Library) (a : VariantPtr) : CompileState :=
  ((lib.variants a).map Variant.state).getD .idle

/-- `interpolators` of `FindPair`. -/
def pairInterpolators (vs : StageShader) (ps : Option StageShader) : ℕ :=
  max vs.interpolators ((ps.map StageShader.interpolators).getD 0)

/-- The end of `FindPair`, with both variants compiled: the pair is made and stored. -/
def buildPair (host : Host) (lib : Library) (r : PairRequest) (vs : ShaderPtr) (ps : Option ShaderPtr)
    (vsVariant : VariantPtr) (psVariant : Option VariantPtr) : Lookup × Library :=
  let (initialized, pass) :=
    host.initialize (variantBlob lib vsVariant) (psVariant.bind (variantBlob lib)) lib.rootSignature
  let key := pairKey r.vsHash r.psHash
  let pair : Pair := { vs, ps, stem := pairStem r.vsHash r.psHash, usable := initialized, pass }
  let lib := { lib with pairs := Function.update lib.pairs key (some pair) }
  if ¬initialized then (.unusable, lib)
  else (.ready ⟨lib.loads, key⟩, publish lib r.memoEnabled r.vsHash r.psHash ⟨lib.loads, key⟩)

/-- `FindPair` once both variants are asked for. -/
def pairOfVariants (host : Host) (lib : Library) (r : PairRequest) (vs : ShaderPtr)
    (ps : Option ShaderPtr) (vsVariant : VariantPtr) (psVariant : Option VariantPtr) :
    Lookup × Library :=
  let states := variantState lib vsVariant :: (psVariant.map (variantState lib)).toList
  if .failed ∈ states then (.unusable, lib)
  else if ∃ s ∈ states, s ≠ .ready then (.notReady, lib)
  else if ¬lib.rootSignature ∧ ¬r.rootSignature then (.unusable, lib)
  else buildPair host { lib with rootSignature := true } r vs ps vsVariant psVariant

/-- `FindPair` asks for the variants of both shaders before it looks at either. -/
def ensurePair (host : Host) (around : Surroundings) (lib : Library) (vs : ShaderPtr)
    (ps : Option ShaderPtr) : Option (VariantPtr × Option VariantPtr) × Library :=
  let interpolators := pairInterpolators vs.shader (ps.map ShaderPtr.shader)
  let (vsVariant, lib) := ensureCompiled host around lib vs interpolators true
  match ps with
  | none => (vsVariant.map fun a => (a, none), lib)
  | some ps =>
    let (psVariant, lib) := ensureCompiled host around lib ps 0 true
    (vsVariant.bind fun a => psVariant.map fun a' => (a, some a'), lib)

/-- The pixel shader `FindPair` finds; a hash of zero asks for none. -/
def findPixel (lib : Library) (psHash : BitVec 64) : Option ShaderPtr :=
  if psHash = 0 then none else find lib psHash false

/-- `FindPair` of a pair that is not stored yet. -/
def firstPair (host : Host) (lib : Library) (r : PairRequest) : Lookup × Library :=
  match find lib r.vsHash true with
  | none => (.unknownShader, lib)
  | some vs =>
    if r.psHash ≠ 0 ∧ findPixel lib r.psHash = none then (.unknownShader, lib)
    else if ¬pairEnabled lib (pairStem r.vsHash r.psHash) then (.disabled, lib)
    else
      match ensurePair host r.around lib vs (findPixel lib r.psHash) with
      | (none, lib') => (.notReady, lib')
      | (some (vsVariant, psVariant), lib') =>
          pairOfVariants host lib' r vs (findPixel lib r.psHash) vsVariant psVariant

/-- `FindPair`. -/
def findPair (host : Host) (lib : Library) (r : PairRequest) : Lookup × Library :=
  let lib := reapCompiles lib
  match if r.memoEnabled then memoFind lib r.vsHash r.psHash else none with
  | some ptr =>
    match pairAt lib ptr with
    | some pair => (checkPair lib pair ptr r.vsHash r.psHash, lib)
    | none => (.dangling, lib)
  | none =>
    let ptr : PairPtr := ⟨lib.loads, pairKey r.vsHash r.psHash⟩
    match lib.pairs ptr.key with
    | some pair =>
      match checkPair lib pair ptr r.vsHash r.psHash with
      | .ready ptr => (.ready ptr, publish lib r.memoEnabled r.vsHash r.psHash ptr)
      | answer => (answer, lib)
    | none => firstPair host lib r

/-! ### `RequestNoAlphaTest` -/

/-- `VariantStatus`; `dangling` as in `Lookup`. -/
inductive VariantStatus
  | ready
  | pending
  | unavailable
  | dangling
  deriving DecidableEq, Repr

def setPair (lib : Library) (ptr : PairPtr) (pair : Pair) : Library :=
  { lib with pairs := Function.update lib.pairs ptr.key (some pair) }

/-- The variant `RequestNoAlphaTest` gives a pair that has none: one that another pair started, or a
new one. -/
def adoptVariant (host : Host) (around : Surroundings) (lib : Library) (ps : ShaderPtr) :
    Option VariantPtr × Library :=
  if (lib.variants ⟨ps.key, noAlphaTestKey⟩).isSome then (some ⟨ps.key, noAlphaTestKey⟩, lib)
  else if ¬compileAdmitted host lib false then (none, lib)
  else
    match find lib ps.shader.hash false with
    | some ps => ensureCompiled host around lib ps 0 false
    | none => (none, lib)

/-- The end of `RequestNoAlphaTest`: what has become of the pair's variant. -/
def finishNoAlphaTest (host : Host) (lib : Library) (ptr : PairPtr) (pair : Pair) (a : VariantPtr) :
    VariantStatus × Library :=
  let pair := { pair with noAlphaTest := some a }
  if variantState lib a = .compiling then (.pending, setPair lib ptr pair)
  else
    let (accepted, pass) := host.setNoAlphaTestPixelShader pair.pass (variantBlob lib a)
    if variantState lib a = .ready ∧ accepted then (.ready, setPair lib ptr { pair with pass })
    else (.unavailable, setPair lib ptr { pair with noAlphaTestRefused := true })

/-- `RequestNoAlphaTest`. -/
def requestNoAlphaTest (host : Host) (around : Surroundings) (lib : Library) (ptr : PairPtr) :
    VariantStatus × Library :=
  match pairAt lib ptr with
  | none => (.dangling, lib)
  | some pair =>
    if pair.pass.psNoAlphaTest.isSome then
      (if pair.pass.noAlphaTestFailed then .unavailable else .ready, lib)
    else
      match pair.ps with
      | none => (.unavailable, lib)
      | some ps =>
        if ¬ps.shader.noAlphaTestEligible ∨ pair.noAlphaTestRefused then (.unavailable, lib)
        else
          match pair.noAlphaTest with
          | some a => finishNoAlphaTest host lib ptr pair a
          | none =>
            match adoptVariant host around lib ps with
            | (some a, lib) => finishNoAlphaTest host lib ptr pair a
            | (none, lib) => (.pending, lib)

/-! ### Histories -/

/-- How a background compile ends. -/
inductive Outcome
  /-- the lambda returns; `file` is what it reads, where it reads -/
  | returns (file : Option (List Char)) (compiles : Bool)
  | throws

/-- What happens to a library.  A job ends between two calls; a pipeline of a pair's other pixel
shader may fail. -/
inductive Call
  | load (r : LoadRequest)
  | findPair (r : PairRequest)
  | requestNoAlphaTest (around : Surroundings) (pair : PairPtr)
  | jobEnds (variant : VariantPtr) (outcome : Outcome)
  | pipelineFails (pair : PairPtr)

/-- The end of a job that is still running. -/
def Variant.jobEnds (host : Host) (variant : Variant) (outcome : Outcome) : Variant :=
  match variant.compile with
  | none => variant
  | some job =>
    if job.result.isSome then variant
    else
      let result := match outcome with
        | .returns file compiles => some (job.run host file compiles)
        | .throws => none
      { variant with compile := some { job with result := some result } }

def jobEnds (host : Host) (lib : Library) (a : VariantPtr) (outcome : Outcome) : Library :=
  match lib.variants a with
  | none => lib
  | some variant => setVariant lib a (variant.jobEnds host outcome)

def pipelineFails (lib : Library) (ptr : PairPtr) : Library :=
  match pairAt lib ptr with
  | none => lib
  | some pair => setPair lib ptr { pair with pass := { pair.pass with noAlphaTestFailed := true } }

def step (host : Host) (lib : Library) : Call → Library
  | .load r => load lib r
  | .findPair r => (findPair host lib r).2
  | .requestNoAlphaTest around pair => (requestNoAlphaTest host around lib pair).2
  | .jobEnds variant outcome => jobEnds host lib variant outcome
  | .pipelineFails pair => pipelineFails lib pair

/-- The library after a history. -/
def run (host : Host) (calls : List Call) : Library := calls.foldl (step host) {}

end ShaderLibrary
end BoltsRebuilt
