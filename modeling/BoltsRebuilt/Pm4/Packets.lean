/-
# The interpreter of the command buffers

`CommandProcessor::ExecutePrimaryBuffer`, `ExecuteIndirectBuffer`, `ExecutePacket` and the
packets they execute (`vendored/src/graphics/command_processor.cpp`, lines 561-600 and
682-1793).  A buffer is read packet by packet; the header of a packet has its type and how
many words follow, and a type-3 packet an opcode.

A packet is a `Reading` program over the processor `Cp`, whose registers are those of
`Registers.Writes`.  `WriteRegistersFromMem` is virtual and an argument here: the loop of
the base class, or the ranges of `D3D12CommandProcessor`.  `writeRegisterRangeFromRing` and
`executePacketType0` are those of `Registers.Writes` over the whole processor, with that
writer as an argument (`executePacketType0_regs`).  The buffers that a packet executes are an
argument too (`indirect`), and `ExecuteIndirectBuffer` ties the knot with a bound on the
nesting and on the number of packets and polls.

The enumerators, the register numbers and the layouts of the register fields are the SDK's;
so are the ring buffer and the memory.  They are in `Sdk`, with the functions of the backend
that a packet calls.  Logging, profiling and the statistics of the waits are left out, and
of the waits themselves how long they take: a `pause` is whatever the rest of the machine
does meanwhile.
-/

import BoltsRebuilt.Lib.Reading
import BoltsRebuilt.Registers.Writes

namespace BoltsRebuilt
namespace Pm4

open BoltsRebuilt.Registers

/-- The opcodes `ExecutePacketType3` has a case for, and all others. -/
inductive Opcode
  | meInit | nop | interrupt | xeSwap | indirectBuffer | indirectBufferPfd | waitRegMem | regRmw
  | regToMem | memWrite | condWrite | eventWrite | eventWriteShd | eventWriteExt | eventWriteZpd
  | drawIndx | drawIndx2 | setConstant | setConstant2 | loadAluConstant | setShaderConstants | imLoad
  | imLoadImmediate | invalidateState | vizQuery | setBinMaskLo | setBinMaskHi | setBinSelectLo
  | setBinSelectHi | setBinMask | setBinSelect | contextUpdate | waitForIdle | unimplemented
deriving DecidableEq

/-- `xenos::SourceSelect` -/
inductive SourceSelect
  | kDMA | kImmediate | kAutoIndex | invalid
deriving DecidableEq

/-- `xenos::ShaderType` -/
inductive ShaderType
  | kVertex | kPixel | other
deriving DecidableEq

/-- `reg::VGT_DRAW_INITIATOR` -/
structure DrawInitiator where
  primType : ℕ
  sourceSelect : SourceSelect
  majorMode : ℕ
  /-- `index_size` is `kInt16`. -/
  indexSizeInt16 : Bool
  numIndices : ℕ

/-- `IndexBufferInfo` -/
structure IndexBufferInfo where
  formatInt16 : Bool
  endianness : ℕ
  count : ℕ
  guestBase : BitVec 32
  length : ℕ

/-- What `IssueDraw` is called with. -/
structure Draw where
  primType : ℕ
  numIndices : ℕ
  indexBufferInfo : Option IndexBufferInfo
  majorModeExplicit : Bool

/-- The processor, as far as packets go. -/
structure Cp (σ Shader : Type) where
  regs : Processor σ
  binSelect : BitVec 64
  binMask : BitVec 64
  meBin : List (BitVec 32)
  counter : BitVec 32
  activeVertexShader : Option Shader
  activePixelShader : Option Shader

/-- What the repository does not hold, and the backend. -/
structure Sdk (σ ρ Shader : Type) where
  env : Environment σ ρ
  opcode : BitVec 7 → Opcode
  shaderType : BitVec 32 → ShaderType
  drawInitiator : BitVec 32 → DrawInitiator
  /-- `num_words` and `swap_mode` of `reg::VGT_DMA_SIZE`. -/
  dmaSize : BitVec 32 → ℕ × ℕ
  isMajorModeExplicit : ℕ → ℕ → Bool
  /-- `viz_query_ena && kill_pix_post_hi_z` of `reg::PA_SC_VIZ_QUERY`. -/
  vizQueryKills : BitVec 32 → Bool
  /-- `status` of `reg::COHER_STATUS_HOST`. -/
  coherStatus : BitVec 32 → Bool
  coherStatusHost : ℕ
  vgtEventInitiator : ℕ
  vgtDrawInitiator : ℕ
  vgtDmaBase : ℕ
  vgtDmaSize : ℕ
  paScVizQuery : ℕ
  paScVizQueryStatus0 : ℕ
  paScVizQueryStatus1 : ℕ
  vizQueryStart : BitVec 32
  vizQueryEnd : BitVec 32
  /-- `GpuSwap`, by the two bits of an `xenos::Endian`. -/
  gpuSwap : BitVec 32 → BitVec 2 → BitVec 32
  /-- `GpuToCpu(CpuToGpu(…))` -/
  gpuToCpu : BitVec 32 → BitVec 32
  /-- `memory_->TranslatePhysical` -/
  translatePhysical : BitVec 32 → ℕ
  /-- `memory::load` and `memory::store`. -/
  load : σ → ℕ → BitVec 32
  store : σ → ℕ → BitVec 32 → σ
  /-- `memory::copy_and_swap_16_unaligned` of the six extents. -/
  storeExtents : σ → ℕ → σ
  /-- `AdvanceRead`, in bytes. -/
  advanceRead : ρ → ℕ → ρ
  /-- A reader of so many bytes at an address, and one with its two offsets set. -/
  ringBuffer : ℕ → ℕ → ρ
  setOffsets : ρ → ℕ → ℕ → ρ
  /-- `read_ptr`, as the address of a host pointer. -/
  readPtr : ρ → ℕ
  issueSwap : BitVec 32 → BitVec 32 → BitVec 32 → Processor σ → Processor σ
  issueDraw : Draw → Cp σ Shader → Bool × Cp σ Shader
  loadShader : ShaderType → BitVec 32 → ℕ → ℕ → Processor σ → Option Shader × Processor σ
  dispatchInterrupt : ℕ → Processor σ → Processor σ
  /-- What `EVENT_WRITE_ZPD` does after the write to its register. -/
  occlusionQuery : Processor σ → Processor σ
  onPrimaryBufferEnd : Processor σ → Processor σ
  /-- What has happened when a wait or a yield is over. -/
  pause : BitVec 32 → Processor σ → Processor σ
  workerRunning : Processor σ → Bool

/-- `WriteRegistersFromMem` of a class. -/
abbrev WriteFromMem (σ : Type) := Processor σ → ℕ → ℕ → ℕ → Processor σ

/-- A packet, or a part of one. -/
abbrev Packet (σ ρ Shader : Type) := Reading (Cp σ Shader) ρ

section Packets

variable {σ ρ Shader : Type} (sdk : Sdk σ ρ Shader) (fromMem : WriteFromMem σ)

/-! ### Reading words and writing registers -/

/-- `reader->ReadAndSwap<uint32_t>()` -/
def readAndSwap : Packet σ ρ Shader (BitVec 32) := fun s =>
  some (sdk.env.loadAndSwap s.1.regs.rest (sdk.env.address s.2), s.1, sdk.env.advance s.2)

def advanceRead (bytes : ℕ) : Packet σ ρ Shader Unit := fun s =>
  some ((), s.1, sdk.advanceRead s.2 bytes)

/-- A change of the registers and what goes with them. -/
def onRegs (f : Processor σ → Processor σ) : Packet σ ρ Shader Unit :=
  Reading.update fun cp => { cp with regs := f cp.regs }

/-- The virtual `WriteRegister`, of `D3D12CommandProcessor`. -/
def write (index : ℕ) (value : BitVec 32) : Packet σ ρ Shader Unit :=
  onRegs fun regs => writeRegister sdk.env regs index value

/-- `WriteRegisterRangeFromRing`: in the two parts the ring has of the range. -/
def writeRegisterRangeFromRing (base numRegisters : ℕ) : Packet σ ρ Shader Unit := fun s =>
  if numRegisters = 0 then some ((), s)
  else
    let range := sdk.env.beginRead s.2 (numRegisters * 4)
    let firstCount := range.firstLength / 4
    let (regs, base) :=
      if range.firstLength ≠ 0 then (fromMem s.1.regs base range.first firstCount, base + firstCount)
      else (s.1.regs, base)
    let regs :=
      if range.secondLength ≠ 0 then fromMem regs base range.second (range.secondLength / 4) else regs
    some ((), { s.1 with regs }, sdk.env.endRead s.2 range)

/-- The five blocks of constants, by the type in the packet: ALU, FETCH, BOOL, LOOP and
REGISTERS. -/
def constantBlock (type : ℕ) : Option ℕ :=
  match type with
  | 0 => some 0x4000
  | 1 => some 0x4800
  | 2 => some 0x4900
  | 3 => some 0x4908
  | 4 => some 0x2000
  | _ => none

/-- `ReadRegisterValue` -/
def readRegisterValue (regs : Processor σ) (index : ℕ) : BitVec 32 :=
  if index < sdk.env.registerCount then regs.values index
  else (regs.extendedRegisterValues index).getD 0

/-- A value in memory, in the byte order its address asks for. -/
def loadSwapped (regs : Processor σ) (address : BitVec 32) : BitVec 32 :=
  sdk.gpuSwap (sdk.load regs.rest (sdk.translatePhysical (address &&& ~~~3))) (address.setWidth 2)

def storeSwapped (address value : BitVec 32) (regs : Processor σ) : Processor σ :=
  { regs with
    rest := sdk.store regs.rest (sdk.translatePhysical (address &&& ~~~3))
      (sdk.gpuSwap value (address.setWidth 2)) }

/-- The comparison of `WAIT_REG_MEM` and `COND_WRITE`. -/
def matched (waitInfo value mask ref : BitVec 32) : Bool :=
  match (waitInfo &&& 0x7).toNat with
  | 0 => false
  | 1 => (value &&& mask) < ref
  | 2 => (value &&& mask) ≤ ref
  | 3 => (value &&& mask) = ref
  | 4 => (value &&& mask) ≠ ref
  | 5 => (value &&& mask) ≥ ref
  | 6 => (value &&& mask) > ref
  | _ => true

/-- `MakeCoherent`: mark coherent. -/
def makeCoherent (regs : Processor σ) : Processor σ :=
  if sdk.coherStatus (regs.values sdk.coherStatusHost) then
    { regs with values := Function.update regs.values sdk.coherStatusHost 0 }
  else regs

/-! ### Packets of types 0 and 1 -/

def writeRegisters (targetIndex : ℕ → ℕ) : ℕ → ℕ → Packet σ ρ Shader Unit
  | _, 0 => pure ()
  | m, count + 1 => do
    let regData ← readAndSwap sdk
    write sdk (targetIndex m) regData
    writeRegisters targetIndex (m + 1) count

/-- `ExecutePacketType0`; `registerFastpath` is `nb_native_register_fastpath`. -/
def executePacketType0 (registerFastpath : Bool) (packet : BitVec 32) : Packet σ ρ Shader Bool := fun s =>
  let count := ((packet >>> 16) &&& 0x3FFF).toNat + 1
  if sdk.env.readCount s.2 < count * 4 then some (false, s)
  else
    let baseIndex := (packet &&& 0x7FFF).toNat
    let writeOneReg := (packet >>> 15) &&& 1
    if registerFastpath ∧ writeOneReg = 0 then
      (do
        writeRegisterRangeFromRing sdk fromMem baseIndex count
        return true) s
    else
      (do
        writeRegisters sdk (fun m => if writeOneReg ≠ 0 then baseIndex else baseIndex + m) 0 count
        return true) s

/-- `ExecutePacketType1` -/
def executePacketType1 (packet : BitVec 32) : Packet σ ρ Shader Bool := do
  let regIndex1 := (packet &&& 0x7FF).toNat
  let regIndex2 := ((packet >>> 11) &&& 0x7FF).toNat
  let regData1 ← readAndSwap sdk
  let regData2 ← readAndSwap sdk
  write sdk regIndex1 regData1
  write sdk regIndex2 regData2
  return true

/-! ### The packets of type 3 -/

def readWords : ℕ → Packet σ ρ Shader (List (BitVec 32))
  | 0 => pure []
  | count + 1 => do
    let word ← readAndSwap sdk
    let words ← readWords count
    return word :: words

def meInit (count : ℕ) : Packet σ ρ Shader Bool := do
  Reading.update fun cp => { cp with meBin := [] }
  let words ← readWords sdk count
  Reading.update fun cp => { cp with meBin := words }
  return true

def nop (count : ℕ) : Packet σ ρ Shader Bool := do
  advanceRead sdk (count * 4)
  return true

def interrupt : Packet σ ρ Shader Bool := do
  let cpuMask ← readAndSwap sdk
  onRegs fun regs => (List.range 6).foldl
    (fun regs n => if cpuMask.getLsbD n then sdk.dispatchInterrupt n regs else regs) regs
  return true

def xeSwap (count : ℕ) : Packet σ ρ Shader Bool := do
  let _magic ← readAndSwap sdk
  let frontbufferPtr ← readAndSwap sdk
  let frontbufferWidth ← readAndSwap sdk
  let frontbufferHeight ← readAndSwap sdk
  -- an unsigned difference
  advanceRead sdk ((BitVec.ofNat 32 count - 4).toNat * 4)
  onRegs (sdk.issueSwap frontbufferPtr frontbufferWidth frontbufferHeight)
  Reading.update fun cp => { cp with counter := cp.counter + 1 }
  return true

/-- `ExecuteIndirectBuffer` is an argument: a pointer and a number of words. -/
def indirectBuffer (indirect : BitVec 32 → ℕ → Cp σ Shader → Option (Cp σ Shader)) : Packet σ ρ Shader Bool := do
  let listPtr ← readAndSwap sdk
  let listLength ← readAndSwap sdk
  fun s => (indirect (sdk.gpuToCpu listPtr) (listLength &&& 0xFFFFF).toNat s.1).map fun cp => ((), cp, s.2)
  return true

/-- What `WAIT_REG_MEM` polls: memory or a register, after `MakeCoherent` for the status. -/
def polledValue (waitInfo pollRegAddr : BitVec 32) : Packet σ ρ Shader (BitVec 32) :=
  if waitInfo &&& 0x10 ≠ 0 then do
    let cp ← Reading.look
    return loadSwapped sdk cp.regs pollRegAddr
  else if pollRegAddr.toNat = sdk.coherStatusHost then do
    onRegs (makeCoherent sdk)
    let cp ← Reading.look
    return readRegisterValue sdk cp.regs pollRegAddr.toNat
  else do
    let cp ← Reading.look
    return readRegisterValue sdk cp.regs pollRegAddr.toNat

/-- The polls of `WAIT_REG_MEM`, at most so many. -/
def poll (waitInfo pollRegAddr ref mask wait : BitVec 32) : ℕ → Packet σ ρ Shader Bool
  | 0 => fun _ => none
  | polls + 1 => do
    let value ← polledValue sdk waitInfo pollRegAddr
    if matched waitInfo value mask ref then
      return true
    else
      onRegs (sdk.pause wait)
      let cp ← Reading.look
      if wait ≥ 0x100 ∧ ¬sdk.workerRunning cp.regs then
        return false
      else
        poll waitInfo pollRegAddr ref mask wait polls

def waitRegMem (polls : ℕ) : Packet σ ρ Shader Bool := do
  let waitInfo ← readAndSwap sdk
  let pollRegAddr ← readAndSwap sdk
  let ref ← readAndSwap sdk
  let mask ← readAndSwap sdk
  let wait ← readAndSwap sdk
  poll sdk waitInfo pollRegAddr ref mask wait polls

def regRmw : Packet σ ρ Shader Bool := do
  let rmwInfo ← readAndSwap sdk
  let andMask ← readAndSwap sdk
  let orMask ← readAndSwap sdk
  let cp ← Reading.look
  let value := cp.regs.values (rmwInfo &&& 0x1FFF).toNat
  let value :=
    if (rmwInfo >>> 31) &&& 1 ≠ 0 then value &&& cp.regs.values (andMask &&& 0x1FFF).toNat
    else value &&& andMask
  let value :=
    if (rmwInfo >>> 30) &&& 1 ≠ 0 then value ||| cp.regs.values (orMask &&& 0x1FFF).toNat
    else value ||| orMask
  write sdk (rmwInfo &&& 0x1FFF).toNat value
  return true

def regToMem : Packet σ ρ Shader Bool := do
  let regAddr ← readAndSwap sdk
  let memAddr ← readAndSwap sdk
  onRegs fun regs => storeSwapped sdk memAddr (readRegisterValue sdk regs regAddr.toNat) regs
  return true

def storeWords : ℕ → BitVec 32 → Packet σ ρ Shader Unit
  | 0, _ => pure ()
  | count + 1, writeAddr => do
    let writeData ← readAndSwap sdk
    onRegs (storeSwapped sdk writeAddr writeData)
    storeWords count (writeAddr + 4)

def memWrite (count : ℕ) : Packet σ ρ Shader Bool := do
  let writeAddr ← readAndSwap sdk
  storeWords sdk (count - 1) writeAddr
  return true

def condWrite : Packet σ ρ Shader Bool := do
  let waitInfo ← readAndSwap sdk
  let pollRegAddr ← readAndSwap sdk
  let ref ← readAndSwap sdk
  let mask ← readAndSwap sdk
  let writeRegAddr ← readAndSwap sdk
  let writeData ← readAndSwap sdk
  onRegs fun regs =>
    let value :=
      if waitInfo &&& 0x10 ≠ 0 then loadSwapped sdk regs pollRegAddr
      else readRegisterValue sdk regs pollRegAddr.toNat
    if matched waitInfo value mask ref then
      if waitInfo &&& 0x100 ≠ 0 then storeSwapped sdk writeRegAddr writeData regs
      else writeRegister sdk.env regs writeRegAddr.toNat writeData
    else regs
  return true

def eventWrite (count : ℕ) : Packet σ ρ Shader Bool := do
  let initiator ← readAndSwap sdk
  write sdk sdk.vgtEventInitiator (initiator &&& 0x3F)
  if count = 1 then
    return true
  else
    advanceRead sdk ((count - 1) * 4)
    return true

def eventWriteShd : Packet σ ρ Shader Bool := do
  let initiator ← readAndSwap sdk
  let address ← readAndSwap sdk
  let value ← readAndSwap sdk
  write sdk sdk.vgtEventInitiator (initiator &&& 0x3F)
  let cp ← Reading.look
  onRegs (storeSwapped sdk address (if (initiator >>> 31) &&& 1 ≠ 0 then cp.counter else value))
  return true

def eventWriteExt : Packet σ ρ Shader Bool := do
  let initiator ← readAndSwap sdk
  let address ← readAndSwap sdk
  write sdk sdk.vgtEventInitiator (initiator &&& 0x3F)
  onRegs fun regs =>
    { regs with rest := sdk.storeExtents regs.rest (sdk.translatePhysical (address &&& ~~~3)) }
  return true

def eventWriteZpd : Packet σ ρ Shader Bool := do
  let initiator ← readAndSwap sdk
  write sdk sdk.vgtEventInitiator (initiator &&& 0x3F)
  onRegs sdk.occlusionQuery
  return true

/-- The end of `ExecutePacketType3Draw`: skip what is left and draw. -/
def issue (countRemaining : ℕ) (drawSucceeded : Bool) (vgtDrawInitiator : DrawInitiator)
    (indexBufferInfo : Option IndexBufferInfo) : Packet σ ρ Shader Bool := do
  advanceRead sdk (countRemaining * 4)
  Reading.update fun cp =>
    if ¬drawSucceeded ∨ sdk.vizQueryKills (cp.regs.values sdk.paScVizQuery) then cp
    else
      (sdk.issueDraw
        { primType := vgtDrawInitiator.primType
          numIndices := vgtDrawInitiator.numIndices
          indexBufferInfo
          majorModeExplicit :=
            sdk.isMajorModeExplicit vgtDrawInitiator.majorMode vgtDrawInitiator.primType } cp).2
  return true

/-- `ExecutePacketType3Draw` -/
def draw (countRemaining : ℕ) : Packet σ ρ Shader Bool := do
  if countRemaining = 0 then
    return false
  else
    let word ← readAndSwap sdk
    let vgtDrawInitiator := sdk.drawInitiator word
    write sdk sdk.vgtDrawInitiator word
    match vgtDrawInitiator.sourceSelect with
    | .kDMA =>
      if countRemaining - 1 = 0 then
        return false
      else
        let vgtDmaBase ← readAndSwap sdk
        write sdk sdk.vgtDmaBase vgtDmaBase
        if countRemaining - 2 = 0 then
          return false
        else
          let vgtDmaSize ← readAndSwap sdk
          write sdk sdk.vgtDmaSize vgtDmaSize
          let indexSizeBytes := if vgtDrawInitiator.indexSizeInt16 then 2 else 4
          issue sdk (countRemaining - 3) true vgtDrawInitiator <| some
            { guestBase := vgtDmaBase &&& ~~~(BitVec.ofNat 32 (indexSizeBytes - 1))
              endianness := (sdk.dmaSize vgtDmaSize).2
              formatInt16 := vgtDrawInitiator.indexSizeInt16
              length := (sdk.dmaSize vgtDmaSize).1 * indexSizeBytes
              count := vgtDrawInitiator.numIndices }
    | .kImmediate => issue sdk (countRemaining - 1) false vgtDrawInitiator none
    | .kAutoIndex => issue sdk (countRemaining - 1) true vgtDrawInitiator none
    | .invalid => issue sdk (countRemaining - 1) false vgtDrawInitiator none

def drawIndx (count : ℕ) : Packet σ ρ Shader Bool := do
  if count = 0 then
    return false
  else
    let _vizQueryCondition ← readAndSwap sdk
    draw sdk (count - 1)

def setConstant (count : ℕ) : Packet σ ρ Shader Bool := do
  let offsetType ← readAndSwap sdk
  match constantBlock ((offsetType >>> 16) &&& 0xFF).toNat with
  | some block =>
    writeRegisterRangeFromRing sdk fromMem ((offsetType &&& 0x7FF).toNat + block) (count - 1)
    return true
  | none =>
    advanceRead sdk ((count - 1) * 4)
    return true

/-- `SET_CONSTANT2` and `SET_SHADER_CONSTANTS`. -/
def setConstant2 (count : ℕ) : Packet σ ρ Shader Bool := do
  let offsetType ← readAndSwap sdk
  writeRegisterRangeFromRing sdk fromMem (offsetType &&& 0xFFFF).toNat (count - 1)
  return true

def loadAluConstant : Packet σ ρ Shader Bool := do
  let address ← readAndSwap sdk
  let offsetType ← readAndSwap sdk
  let sizeDwords ← readAndSwap sdk
  match constantBlock ((offsetType >>> 16) &&& 0xFF).toNat with
  | some block =>
    onRegs fun regs => fromMem regs ((offsetType &&& 0x7FF).toNat + block)
      (sdk.translatePhysical (address &&& 0x3FFFFFFF)) (sizeDwords &&& 0xFFF).toNat
    return true
  | none => return true

/-- `LoadShader`, and the shader it loads is the active one of its type. -/
def activate (type : ShaderType) (address : BitVec 32) (host sizeDwords : ℕ) : Packet σ ρ Shader Bool := do
  Reading.update fun cp =>
    let loaded := sdk.loadShader type address host sizeDwords cp.regs
    match type with
    | .kVertex => { cp with regs := loaded.2, activeVertexShader := loaded.1 }
    | .kPixel => { cp with regs := loaded.2, activePixelShader := loaded.1 }
    | .other => { cp with regs := loaded.2 }
  return decide (type ≠ .other)

def imLoad : Packet σ ρ Shader Bool := do
  let addrType ← readAndSwap sdk
  let startSize ← readAndSwap sdk
  activate sdk (sdk.shaderType (addrType &&& 0x3)) (addrType &&& ~~~3)
    (sdk.translatePhysical (addrType &&& ~~~3)) (startSize &&& 0xFFFF).toNat

def imLoadImmediate : Packet σ ρ Shader Bool := do
  let dword0 ← readAndSwap sdk
  let dword1 ← readAndSwap sdk
  let sizeDwords := (dword1 &&& 0xFFFF).toNat
  let loaded ← fun s => activate sdk (sdk.shaderType dword0) (BitVec.ofNat 32 (sdk.readPtr s.2))
    (sdk.readPtr s.2) sizeDwords s
  if loaded then
    advanceRead sdk (sizeDwords * 4)
    return true
  else
    return false

def invalidateState : Packet σ ρ Shader Bool := do
  let _mask ← readAndSwap sdk
  return true

def vizQuery : Packet σ ρ Shader Bool := do
  let dword0 ← readAndSwap sdk
  let id := (dword0 &&& 0x3F).toNat
  if dword0 &&& 0x100 = 0 then
    write sdk sdk.vgtEventInitiator sdk.vizQueryStart
    return true
  else
    write sdk sdk.vgtEventInitiator sdk.vizQueryEnd
    onRegs fun regs =>
      let status := if id < 32 then sdk.paScVizQueryStatus0 else sdk.paScVizQueryStatus1
      { regs with values :=
          Function.update regs.values status (regs.values status ||| 1#32 <<< (id % 32)) }
    return true

/-- The `SET_BIN_…_LO` and `SET_BIN_…_HI` packets, and `CONTEXT_UPDATE` and `WAIT_FOR_IDLE`,
which only log their word. -/
def setWord (f : BitVec 32 → Cp σ Shader → Cp σ Shader) : Packet σ ρ Shader Bool := do
  let value ← readAndSwap sdk
  Reading.update (f value)
  return true

/-- `SET_BIN_MASK` and `SET_BIN_SELECT`. -/
def setBin (f : BitVec 64 → Cp σ Shader → Cp σ Shader) : Packet σ ρ Shader Bool := do
  let valHi ← readAndSwap sdk
  let valLo ← readAndSwap sdk
  Reading.update (f (valHi ++ valLo))
  return true

def lo (bin : BitVec 64) (value : BitVec 32) : BitVec 64 := bin.extractLsb' 32 32 ++ value

def hi (bin : BitVec 64) (value : BitVec 32) : BitVec 64 := value ++ bin.extractLsb' 0 32

/-- The switch of `ExecutePacketType3`. -/
def executeOpcode (indirect : BitVec 32 → ℕ → Cp σ Shader → Option (Cp σ Shader)) (polls count : ℕ) :
    Opcode → Packet σ ρ Shader Bool
  | .meInit => meInit sdk count
  | .nop => nop sdk count
  | .interrupt => interrupt sdk
  | .xeSwap => xeSwap sdk count
  | .indirectBuffer => indirectBuffer sdk indirect
  | .indirectBufferPfd => indirectBuffer sdk indirect
  | .waitRegMem => waitRegMem sdk polls
  | .regRmw => regRmw sdk
  | .regToMem => regToMem sdk
  | .memWrite => memWrite sdk count
  | .condWrite => condWrite sdk
  | .eventWrite => eventWrite sdk count
  | .eventWriteShd => eventWriteShd sdk
  | .eventWriteExt => eventWriteExt sdk
  | .eventWriteZpd => eventWriteZpd sdk
  | .drawIndx => drawIndx sdk count
  | .drawIndx2 => draw sdk count
  | .setConstant => setConstant sdk fromMem count
  | .setConstant2 => setConstant2 sdk fromMem count
  | .loadAluConstant => loadAluConstant sdk fromMem
  | .setShaderConstants => setConstant2 sdk fromMem count
  | .imLoad => imLoad sdk
  | .imLoadImmediate => imLoadImmediate sdk
  | .invalidateState => invalidateState sdk
  | .vizQuery => vizQuery sdk
  | .setBinMaskLo => setWord sdk fun value cp => { cp with binMask := lo cp.binMask value }
  | .setBinMaskHi => setWord sdk fun value cp => { cp with binMask := hi cp.binMask value }
  | .setBinSelectLo => setWord sdk fun value cp => { cp with binSelect := lo cp.binSelect value }
  | .setBinSelectHi => setWord sdk fun value cp => { cp with binSelect := hi cp.binSelect value }
  | .setBinMask => setBin sdk fun value cp => { cp with binMask := value }
  | .setBinSelect => setBin sdk fun value cp => { cp with binSelect := value }
  | .contextUpdate => setWord sdk fun _ cp => cp
  | .waitForIdle => setWord sdk fun _ cp => cp
  | .unimplemented => do
    advanceRead sdk (count * 4)
    return false

/-- `ExecutePacketType3`, without the assert at its end. -/
def executePacketType3 (indirect : BitVec 32 → ℕ → Cp σ Shader → Option (Cp σ Shader)) (polls : ℕ)
    (packet : BitVec 32) : Packet σ ρ Shader Bool := fun s =>
  let opcode := sdk.opcode (packet.extractLsb' 8 7)
  let count := ((packet >>> 16) &&& 0x3FFF).toNat + 1
  if sdk.env.readCount s.2 < count * 4 then some (false, s)
  else if packet &&& 1 ≠ 0 ∧ (s.1.binSelect &&& s.1.binMask = 0 ∨ opcode = .xeSwap) then
    (do
      advanceRead sdk (count * 4)
      return true) s
  else executeOpcode sdk fromMem indirect polls count opcode s

/-! ### Buffers -/

/-- `ExecutePacket`, of a reader. -/
def executePacket (registerFastpath : Bool)
    (indirect : BitVec 32 → ℕ → Cp σ Shader → Option (Cp σ Shader)) (polls : ℕ) : Packet σ ρ Shader Bool := do
  let packet ← readAndSwap sdk
  if packet = 0 then
    return true
  else
    match (packet >>> 30).toNat with
    | 0 => executePacketType0 sdk fromMem registerFastpath packet
    | 1 => executePacketType1 sdk packet
    | 2 => return true
    | _ => executePacketType3 sdk fromMem indirect polls packet

/-- The loop over the packets of a buffer, at most so many of them. -/
def executePackets (packet : Packet σ ρ Shader Bool) : ℕ → Packet σ ρ Shader Unit
  | 0 => fun _ => none
  | packets + 1 => do
    let executed ← packet
    if executed then
      fun s => if sdk.env.readCount s.2 ≠ 0 then executePackets packet packets s else some ((), s)
    else
      pure ()

/-- `ExecuteIndirectBuffer`, with a bound on the nesting, the packets and the polls. -/
def executeIndirectBuffer (registerFastpath : Bool) : ℕ → BitVec 32 → ℕ → Cp σ Shader → Option (Cp σ Shader)
  | 0, _, _, _ => none
  | fuel + 1, ptr, count, cp =>
    let reader := sdk.setOffsets (sdk.ringBuffer (sdk.translatePhysical ptr) (count * 4)) 0 (count * 4)
    let packet := executePacket sdk fromMem registerFastpath
      (executeIndirectBuffer registerFastpath fuel) fuel
    (executePackets sdk packet fuel (cp, reader)).map fun result => result.2.1

/-- `ExecutePrimaryBuffer`, of a buffer of so many bytes; the read index after it is the
write index. -/
def executePrimaryBuffer (registerFastpath : Bool) (fuel : ℕ) (primaryBufferPtr : BitVec 32)
    (primaryBufferSize readIndex writeIndex : ℕ) (cp : Cp σ Shader) : Option (Cp σ Shader) :=
  let reader := sdk.setOffsets (sdk.ringBuffer (sdk.translatePhysical primaryBufferPtr) primaryBufferSize)
    (readIndex * 4) (writeIndex * 4)
  let packet := executePacket sdk fromMem registerFastpath
    (executeIndirectBuffer sdk fromMem registerFastpath fuel) fuel
  (executePackets sdk packet fuel (cp, reader)).map fun result =>
    { result.2.1 with regs := sdk.onPrimaryBufferEnd result.2.1.regs }

end Packets

end Pm4
end BoltsRebuilt
