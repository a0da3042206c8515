/-
# Register writes

`CommandProcessor::WriteRegister`, `WriteRegistersFromMem`, `WriteRegisterRangeFromRing`
and `ExecutePacketType0` (src/src/gpu/vendored/src/graphics/command_processor.cpp, lines
403–586 and 758–787), and what `D3D12CommandProcessor` makes of the first two
(src/src/gpu/vendored/src/graphics/d3d12/command_processor.cpp, lines 325–344 and
2235–2348).

A register write stores the value and notes what has to be refreshed for the next draw:
the constant buffers, the texture fetch constants and the vertex buffers.
`WriteRegistersFromMem` does so for a whole range at once where the range is inside a
block of constants, and register by register elsewhere.

The register numbers are those the `Write…Range…` functions of the same file add to
their base.  The number of registers, the loads and the ring buffer are the SDK's, and
part of `Environment`.  So is `special`, what the base class does beside the store to a
register that is not a constant (lines 424–556: scratch, coherency and gamma ramp
registers): it is in the repository, but the numbers and the layouts of these registers
are not.  The state it changes is the parameter `σ`, which holds the memory.  The
diagnostics are left out.
-/

import Mathlib.Algebra.GroupWithZero.Nat
import Mathlib.Algebra.Ring.Int.Defs
import Mathlib.Data.BitVec
import Mathlib.Logic.Function.Iterate
import Mathlib.Order.Nat

namespace BoltsRebuilt
namespace Registers

/-- `XE_GPU_REG_SHADER_CONSTANT_000_X` to `_511_W`. -/
def constant000X : ℕ := 0x4000
def constant511W : ℕ := 0x47FF

/-- `XE_GPU_REG_SHADER_CONSTANT_FETCH_00_0` to `_31_5`. -/
def fetch000 : ℕ := 0x4800
def fetch315 : ℕ := 0x48BF

/-- `XE_GPU_REG_SHADER_CONSTANT_BOOL_000_031` to `_LOOP_31`. -/
def bool000031 : ℕ := 0x4900
def loop31 : ℕ := 0x4927

/-- `memory::RingBuffer::ReadRange`. -/
structure ReadRange where
  first : ℕ
  firstLength : ℕ
  second : ℕ
  secondLength : ℕ

/-- What comes from the SDK or rests on its registers, over the state `σ` and the readers `ρ`. -/
structure Environment (σ ρ : Type) where
  /-- `RegisterFile::kRegisterCount` -/
  registerCount : ℕ
  /-- `vertex_buffer_states_.size()` -/
  vertexBufferStates : ℕ
  /-- `memory::load_and_swap<uint32_t>` -/
  loadAndSwap : σ → ℕ → BitVec 32
  /-- What `WriteRegister` does to a register after the store. -/
  special : ℕ → BitVec 32 → (ℕ → BitVec 32) × σ → (ℕ → BitVec 32) × σ
  /-- `read_count()` -/
  readCount : ρ → ℕ
  /-- Where `ReadAndSwap<uint32_t>` loads from, and the reader after it. -/
  address : ρ → ℕ
  advance : ρ → ρ
  beginRead : ρ → ℕ → ReadRange
  endRead : ρ → ReadRange → ρ

/-- The processor, as far as register writes go. -/
@[ext]
structure Processor (σ : Type) where
  values : ℕ → BitVec 32
  extendedRegisterValues : ℕ → Option (BitVec 32)
  rest : σ
  frameOpen : Bool
  /-- `current_float_constant_map_vertex_` and `_pixel_`, four words each -/
  floatConstantMapVertex : ℕ → BitVec 64
  floatConstantMapPixel : ℕ → BitVec 64
  /-- `cbuffer_binding_…_.up_to_date` -/
  floatVertexUpToDate : Bool
  floatPixelUpToDate : Bool
  boolLoopUpToDate : Bool
  fetchUpToDate : Bool
  hasTextureCache : Bool
  /-- The fetch constants the texture cache was notified of. -/
  textureFetchConstantsWritten : ℕ → Bool
  /-- The bits of `vertex_buffers_in_sync_`. -/
  vertexBuffersInSync : ℕ → Bool

variable {σ ρ : Type} (env : Environment σ ρ)

/-! ### One register -/

/-- `CommandProcessor::WriteRegister`. -/
def baseWriteRegister (p : Processor σ) (index : ℕ) (value : BitVec 32) : Processor σ :=
  if index ≥ env.registerCount then
    { p with extendedRegisterValues := Function.update p.extendedRegisterValues index (some value) }
  else
    let (values, rest) := env.special index value (Function.update p.values index value, p.rest)
    { p with values, rest }

/-- A bit of a usage map. -/
def used (usageMap : ℕ → BitVec 64) (constant : ℕ) : Bool :=
  usageMap (constant >>> 6) &&& (1#64 <<< (constant % 64)) ≠ 0

/-- `TextureFetchConstantWritten`, when there is a texture cache. -/
def textureFetchConstantWritten (p : Processor σ) (constant : ℕ) : Processor σ :=
  if p.hasTextureCache then
    { p with textureFetchConstantsWritten := Function.update p.textureFetchConstantsWritten constant true }
  else p

/-- `InvalidateVertexBufferResidency`. -/
def invalidateVertexBufferResidency (p : Processor σ) (vfetchIndex : ℕ) : Processor σ :=
  if vfetchIndex ≥ env.vertexBufferStates then p
  else { p with vertexBuffersInSync := Function.update p.vertexBuffersInSync vfetchIndex false }

/-- What `D3D12CommandProcessor::WriteRegister` does after calling the base class. -/
def noteRegister (p : Processor σ) (index : ℕ) : Processor σ :=
  if index ≥ constant000X ∧ index ≤ constant511W then
    if p.frameOpen then
      let floatConstantIndex := (index - constant000X) >>> 2
      if floatConstantIndex ≥ 256 then
        if used p.floatConstantMapPixel (floatConstantIndex - 256) then { p with floatPixelUpToDate := false }
        else p
      else if used p.floatConstantMapVertex floatConstantIndex then { p with floatVertexUpToDate := false }
      else p
    else p
  else if index ≥ bool000031 ∧ index ≤ loop31 then { p with boolLoopUpToDate := false }
  else if index ≥ fetch000 ∧ index ≤ fetch315 then
    let p := { p with fetchUpToDate := false }
    let p := textureFetchConstantWritten p ((index - fetch000) / 6)
    invalidateVertexBufferResidency env p ((index - fetch000) / 2)
  else p

/-- `D3D12CommandProcessor::WriteRegister`. -/
def writeRegister (p : Processor σ) (index : ℕ) (value : BitVec 32) : Processor σ :=
  noteRegister env (baseWriteRegister env p index value) index

/-! ### Ranges -/

/-- `CommandProcessor::WriteRegistersFromMem`: register by register. -/
def baseWriteRegistersFromMem (p : Processor σ) (startIndex base numRegisters : ℕ) : Processor σ :=
  (List.range numRegisters).foldl
    (fun p i => writeRegister env p (startIndex + i) (env.loadAndSwap p.rest (base + 4 * i))) p

/-- `range_has_any_constant_usage`. -/
def rangeHasAnyConstantUsage (usageMap : ℕ → BitVec 64) (firstConstant lastConstant : ℕ) : Bool :=
  if firstConstant > lastConstant then false
  else
    let firstWord := firstConstant >>> 6
    let lastWord := lastConstant >>> 6
    let firstBit := firstConstant % 64
    let lastBit := lastConstant % 64
    if firstWord = lastWord then
      let bitCount := lastBit - firstBit + 1
      let mask := if bitCount = 64 then BitVec.allOnes 64 else ((1#64 <<< bitCount) - 1#64) <<< firstBit
      usageMap firstWord &&& mask ≠ 0
    else if usageMap firstWord &&& (BitVec.allOnes 64 <<< firstBit) ≠ 0 then true
    else if (List.range' (firstWord + 1) (lastWord - (firstWord + 1))).any fun word => usageMap word ≠ 0 then
      true
    else
      let lastMask := if lastBit = 63 then BitVec.allOnes 64 else (1#64 <<< (lastBit + 1)) - 1#64
      usageMap lastWord &&& lastMask ≠ 0

/-- `memory::copy_and_swap` into the register file. -/
def copyAndSwap (p : Processor σ) (startIndex base numRegisters : ℕ) : Processor σ :=
  { p with values := fun i =>
      if startIndex ≤ i ∧ i < startIndex + numRegisters then
        env.loadAndSwap p.rest (base + 4 * (i - startIndex))
      else p.values i }

/-- `TextureFetchConstantsWritten`, when there is a texture cache. -/
def textureFetchConstantsWritten (p : Processor σ) (first last : ℕ) : Processor σ :=
  if p.hasTextureCache then
    { p with textureFetchConstantsWritten := fun i =>
        if first ≤ i ∧ i ≤ last then true else p.textureFetchConstantsWritten i }
  else p

/-- `InvalidateVertexBufferResidencyRange`. -/
def invalidateVertexBufferResidencyRange (p : Processor σ) (firstVfetch lastVfetch : ℕ) : Processor σ :=
  let (firstVfetch, lastVfetch) :=
    if firstVfetch > lastVfetch then (lastVfetch, firstVfetch) else (firstVfetch, lastVfetch)
  if firstVfetch ≥ env.vertexBufferStates then p
  else
    let lastVfetch := min lastVfetch (env.vertexBufferStates - 1)
    (List.range' firstVfetch (lastVfetch + 1 - firstVfetch)).foldl (invalidateVertexBufferResidency env) p

/-- The flags of the float constants in a range. -/
def floatConstantsWritten (p : Processor σ) (first last : ℕ) : Processor σ :=
  let p :=
    if first < 256 ∧ rangeHasAnyConstantUsage p.floatConstantMapVertex first (min last 255) then
      { p with floatVertexUpToDate := false }
    else p
  if last ≥ 256 ∧ rangeHasAnyConstantUsage p.floatConstantMapPixel
      (if first ≥ 256 then first - 256 else 0) (last - 256) then
    { p with floatPixelUpToDate := false }
  else p

/-- `D3D12CommandProcessor::WriteRegistersFromMem`. -/
def writeRegistersFromMem (p : Processor σ) (startIndex base numRegisters : ℕ) : Processor σ :=
  if numRegisters = 0 then p
  else
    let endIndex := startIndex + numRegisters - 1
    if startIndex ≥ constant000X ∧ endIndex ≤ constant511W then
      let p := copyAndSwap env p startIndex base numRegisters
      if p.frameOpen then
        floatConstantsWritten p ((startIndex - constant000X) >>> 2) ((endIndex - constant000X) >>> 2)
      else p
    else if startIndex ≥ bool000031 ∧ endIndex ≤ loop31 then
      { copyAndSwap env p startIndex base numRegisters with boolLoopUpToDate := false }
    else if startIndex ≥ fetch000 ∧ endIndex ≤ fetch315 then
      let p := { copyAndSwap env p startIndex base numRegisters with fetchUpToDate := false }
      let p := textureFetchConstantsWritten p ((startIndex - fetch000) / 6) ((endIndex - fetch000) / 6)
      invalidateVertexBufferResidencyRange env p ((startIndex - fetch000) / 2) ((endIndex - fetch000) / 2)
    else baseWriteRegistersFromMem env p startIndex base numRegisters

/-- `WriteRegisterRangeFromRing`. -/
def writeRegisterRangeFromRing (p : Processor σ) (ring : ρ) (base numRegisters : ℕ) : Processor σ × ρ :=
  if numRegisters = 0 then (p, ring)
  else
    let range := env.beginRead ring (numRegisters * 4)
    let firstCount := range.firstLength / 4
    let (p, base) :=
      if range.firstLength ≠ 0 then (writeRegistersFromMem env p base range.first firstCount, base + firstCount)
      else (p, base)
    let p :=
      if range.secondLength ≠ 0 then writeRegistersFromMem env p base range.second (range.secondLength / 4)
      else p
    (p, env.endRead ring range)

/-- The loop of `ExecutePacketType0`. -/
def writeRegisters (p : Processor σ) (reader : ρ) (targetIndex : ℕ → ℕ) (count : ℕ) : Processor σ × ρ :=
  (List.range count).foldl
    (fun s m => (writeRegister env s.1 (targetIndex m) (env.loadAndSwap s.1.rest (env.address s.2)),
      env.advance s.2)) (p, reader)

/-- `ExecutePacketType0`; `registerFastpath` is `nb_native_register_fastpath`. -/
def executePacketType0 (registerFastpath : Bool) (p : Processor σ) (reader : ρ) (packet : BitVec 32) :
    Bool × Processor σ × ρ :=
  let count := ((packet >>> 16) &&& 0x3FFF).toNat + 1
  if env.readCount reader < count * 4 then (false, p, reader)
  else
    let baseIndex := (packet &&& 0x7FFF).toNat
    let writeOneReg := (packet >>> 15) &&& 1
    if registerFastpath ∧ writeOneReg = 0 then
      (true, writeRegisterRangeFromRing env p reader baseIndex count)
    else
      (true, writeRegisters env p reader (fun m => if writeOneReg ≠ 0 then baseIndex else baseIndex + m) count)

end Registers
end BoltsRebuilt
