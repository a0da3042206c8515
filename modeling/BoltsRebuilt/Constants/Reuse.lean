/-
# Constants that need no second upload

src/src/gpu/native/native_constant_reuse.h: `NativePixelConstantPacket::Assign` (lines 65-72)
and `NativePixelConstantReuse` (lines 78-130); native_vertex_constant_reuse.h:
`NativeVertexConstantReuse`; native_geometry_pass.cpp: what `Record` does with them (lines
960-1002, 1058-1280 and 1340-1370).

A pass keeps the bytes of the last packet it published, in ordinary memory, with the
address of the slice they were copied to and the frame.  A draw of the same frame with the
same bytes is given that address.  Both stages keep two packets: the one published, and a
candidate that the next draw builds; publishing swaps them.

The pools are not the pass's.  A request gives a slice with its address, or nothing; a
draw carries the answers, and what the slice held before (`Draw.vertexSlice`,
`Draw.pixelSlice`).  A slice of another frame may be given again, one of this frame may
not (`Fresh`).  The 64-bit number of a frame is taken not to wrap.
-/

import BoltsRebuilt.Constants.Upload
import BoltsRebuilt.Lib.System
import Mathlib.Logic.Function.Basic

namespace BoltsRebuilt
namespace Constants

/-! ### The last packet of the pixel stage -/

/-- `NativePixelConstantPacket::kCapacity`. -/
def kPixelCapacity : ℕ := kHeaderBytes + 256 * 16

/-- `NativePixelConstantReuse`; a packet is its `bytes()`. -/
structure PixelReuse where
  packets : Bool → List UInt8
  active : Bool
  frame : ℕ
  address : ℕ
  valid : Bool
  candidateValid : Bool

namespace PixelReuse

def initial : PixelReuse := ⟨fun _ => [], false, 0, 0, false, false⟩

/-- `Find`: the address, 0 for none. -/
def find (r : PixelReuse) (frame : ℕ) (bytes : List UInt8) : ℕ :=
  if r.valid = true ∧ frame = r.frame ∧ r.packets r.active = bytes then r.address else 0

/-- `Publish`, with `Assign`. -/
def publish (r : PixelReuse) (frame : ℕ) (bytes : List UInt8) (address : ℕ) : Bool × PixelReuse :=
  if address = 0 ∨ bytes = [] ∨ kPixelCapacity < bytes.length then (false, r)
  else
    (true, ⟨Function.update r.packets r.active bytes, r.active, frame, address, true, false⟩)

/-- `BuildCandidate`: a refused packet is empty. -/
def buildCandidate (r : PixelReuse) (a : PacketArgs) : PixelReuse :=
  { r with
    packets := Function.update r.packets (!r.active) ((build a).getD [])
    candidateValid := (build a).isSome }

def candidateBytes (r : PixelReuse) : List UInt8 :=
  if r.candidateValid then r.packets (!r.active) else []

def publishCandidate (r : PixelReuse) (frame address : ℕ) : Bool × PixelReuse :=
  if address = 0 ∨ r.candidateValid = false then (false, r)
  else (true, ⟨r.packets, !r.active, frame, address, true, false⟩)

def reset (r : PixelReuse) : PixelReuse := { r with valid := false, candidateValid := false }

end PixelReuse

/-! ### The last packet of the vertex stage -/

/-- `NativeVertexConstantReuse::kCapacity`. -/
def kVertexCapacity : ℕ := kVertexConstantHeaderBytes + 256 * 16

/-- `NativeVertexConstantReuse`. -/
structure VertexReuse where
  packets : Bool → Bytes
  active : Bool
  frame : ℕ
  address : ℕ
  size : ℕ
  valid : Bool

namespace VertexReuse

/-- `candidate_data`. -/
def candidate (r : VertexReuse) : Bytes := r.packets (!r.active)

/-- A draw writes the candidate. -/
def setCandidate (r : VertexReuse) (m : Bytes) : VertexReuse :=
  { r with packets := Function.update r.packets (!r.active) m }

/-- `Find`: the address, 0 for none. -/
def find (r : VertexReuse) (frame size : ℕ) : ℕ :=
  if r.valid = true ∧ size ≠ 0 ∧ size ≤ kVertexCapacity ∧ frame = r.frame ∧ size = r.size ∧
      (r.packets r.active).load 0 size = r.candidate.load 0 size then r.address
  else 0

def publish (r : VertexReuse) (frame size address : ℕ) : Bool × VertexReuse :=
  if address = 0 ∨ size = 0 ∨ kVertexCapacity < size then (false, r)
  else (true, ⟨r.packets, !r.active, frame, address, size, true⟩)

def reset (r : VertexReuse) : VertexReuse := { r with valid := false }

end VertexReuse

/-! ### A pass and its draws -/

/-- A slice of an upload pool: the frame it was requested for, and its memory. -/
structure Slice where
  frame : ℕ
  bytes : Bytes

/-- The state of a pass, the current frame and the slices handed out. -/
structure PassState where
  pixel : PixelReuse
  vertex : VertexReuse
  /-- `vertex_constant_stage_` -/
  stage : Bytes
  frame : ℕ
  slices : ℕ → Option Slice

/-- The constants of one stage as a draw names them. -/
structure DrawConstants where
  source : Option FloatSource
  runs : List Run
  count : ℕ
  hasPackedLayout : Bool

/-- A draw: the switches as they stand, what is known of the pass's shaders, the constants, and what the
pools and the rest of `Record` answer. -/
structure Draw where
  /-- `nb_native_constant_reuse` -/
  constantReuse : Bool
  /-- `nb_native_unused_pixel_constants` -/
  unusedPixelConstants : Bool
  /-- `nb_native_double_pixel_packets` -/
  doublePixelPackets : Bool
  /-- `nb_native_stage_vertex_constants` -/
  stageVertexConstants : Bool
  /-- `nb_native_vertex_constant_reuse` -/
  vertexConstantReuse : Bool
  /-- `nb_native_vertex_packet_diagnostics` -/
  vertexPacketDiagnostics : Bool
  /-- `nb_native_empty_constant_layout` -/
  emptyConstantLayout : Bool
  /-- `ps_` -/
  hasPixelShader : Bool
  pixelBufferUnused : Bool
  legacyDepthOnlyPixelBufferUnused : Bool
  emptyVertexBufferSafe : Bool
  emptyPixelBufferSafe : Bool
  shared : SharedConstants
  extraVertexStreams : List.Vector UInt8 kExtraStreamBytes
  vs : DrawConstants
  ps : DrawConstants
  /-- `args.asset_cache != nullptr` -/
  assetCache : Bool
  /-- what the asset cache resolves -/
  bindings : Option (List.Vector UInt8 kAssetBindingBytes)
  /-- whether the checks before the constants, the pipeline and the samplers let the draw go on -/
  admitted : Bool
  /-- whether the guest ranges become resident -/
  resident : Bool
  vertexSlice : Option (ℕ × Bytes)
  pixelSlice : Option (ℕ × Bytes)

namespace Draw

/-- `request_empty_vs` and `request_empty_ps`. -/
def requestsEmpty (d : Draw) (c : DrawConstants) : Bool :=
  d.emptyConstantLayout && c.hasPackedLayout && c.count = 0

def vertexConstants (d : Draw) : StageConstants :=
  ⟨d.vs.source, d.vs.runs, d.vs.count, d.requestsEmpty d.vs && d.emptyVertexBufferSafe⟩

def pixelConstants (d : Draw) : StageConstants :=
  ⟨d.ps.source, d.ps.runs, d.ps.count, d.requestsEmpty d.ps && d.emptyPixelBufferSafe⟩

/-- An empty layout with runs refuses the draw. -/
def refused (d : Draw) : Bool :=
  !d.admitted || (d.requestsEmpty d.vs && d.vs.runs ≠ []) || (d.requestsEmpty d.ps && d.ps.runs ≠ [])

/-- `reuse_vertex_constants`: a draw with an asset cache patches its packet. -/
def reuseVertexConstants (d : Draw) : Bool := d.vertexConstantReuse && !d.assetCache

/-- `stage_vertex_constants`. -/
def stagesVertexConstants (d : Draw) : Bool :=
  d.stageVertexConstants || (d.vertexPacketDiagnostics && !d.assetCache)

/-- `complete_vertex_layout`, which is not asked for where no path needs it. -/
def completeVertexLayout (d : Draw) : Bool :=
  (d.stagesVertexConstants || d.reuseVertexConstants) && Constants.completeVertexLayout d.vertexConstants

/-- `reuse_vertex_packet`. -/
def reuseVertexPacket (d : Draw) : Bool := d.reuseVertexConstants && d.completeVertexLayout

/-- `alias_unused_pixel`. -/
def aliasUnusedPixel (d : Draw) : Bool :=
  d.constantReuse && d.hasPixelShader && d.pixelBufferUnused && d.unusedPixelConstants

/-- Whether the draw builds a pixel packet. -/
def buildsPixelPacket (d : Draw) : Bool := d.constantReuse && d.hasPixelShader && !d.aliasUnusedPixel

/-- The pixel packet, where the draw has one. -/
def pixelPacket (d : Draw) : Option (List UInt8) :=
  if d.buildsPixelPacket then build (d.pixelConstants.packetArgs d.shared) else none

/-- The bindings the draw writes over its packet. -/
def patch (d : Draw) : Option (List.Vector UInt8 kAssetBindingBytes) :=
  if d.assetCache then d.bindings else none

/-- The direct path's vertex packet over what a slice held. -/
def directVertex (d : Draw) (old : Bytes) : Bytes :=
  patchBindings (fillVertex old d.shared d.extraVertexStreams d.vertexConstants) d.patch

/-- The direct path's pixel packet over what a slice held. -/
def directPixel (d : Draw) (old : Bytes) : Bytes := fillPixel old d.shared d.pixelConstants

end Draw

/-- How the constants of a stage came to their address. -/
inductive UploadKind
  /-- an address that was published before -/
  | reused
  /-- a slice filled from a packet in memory, and remembered -/
  | published
  /-- a slice that a packet in memory is copied to when it is complete -/
  | staged
  /-- a slice written in place -/
  | direct
  deriving DecidableEq, Repr

structure Upload where
  address : ℕ
  kind : UploadKind
  deriving DecidableEq, Repr

namespace PassState

/-- A slice of this frame with its contents. -/
def put (s : PassState) (address : ℕ) (bytes : Bytes) : PassState :=
  { s with slices := Function.update s.slices address (some ⟨s.frame, bytes⟩) }

/-- The memory of a slice. -/
def memory (s : PassState) (address : ℕ) : Bytes := ((s.slices address).map Slice.bytes).getD fun _ => 0

/-- The vertex stage where the packet may be reused: into the candidate, and from there to a new slice. -/
def reuseVertex (s : PassState) (d : Draw) : PassState × Option Upload :=
  let a := d.vertexConstants
  let filled := fillVertex s.vertex.candidate d.shared d.extraVertexStreams a
  let s := { s with vertex := s.vertex.setCandidate filled }
  let address := s.vertex.find s.frame a.vertexBytes
  if address ≠ 0 then (s, some ⟨address, .reused⟩)
  else
    match d.vertexSlice with
    | none => ({ s with vertex := s.vertex.reset }, none)
    | some (address, old) =>
      let s := s.put address (old.store 0 (filled.load 0 a.vertexBytes))
      match s.vertex.publish s.frame a.vertexBytes address with
      | (false, vertex) => ({ s with vertex := vertex.reset }, none)
      | (true, vertex) => ({ s with vertex := vertex }, some ⟨address, .published⟩)

/-- `upload_stage` for the vertex stage. -/
def uploadVertex (s : PassState) (d : Draw) : PassState × Option Upload :=
  if d.reuseVertexPacket then s.reuseVertex d
  else
    let s := if d.reuseVertexConstants then { s with vertex := s.vertex.reset } else s
    match d.vertexSlice with
    | none => (s, none)
    | some (address, old) =>
      if d.stagesVertexConstants && d.completeVertexLayout then
        -- the slice is written when the packet is complete
        ({ s.put address old with
            stage := fillVertex s.stage d.shared d.extraVertexStreams d.vertexConstants },
          some ⟨address, .staged⟩)
      else
        (s.put address (fillVertex old d.shared d.extraVertexStreams d.vertexConstants),
          some ⟨address, .direct⟩)

/-- `upload_stage` for the pixel stage, with the packet of the draw. -/
def uploadPixel (s : PassState) (d : Draw) (packet : Option (List UInt8)) : PassState × Option Upload :=
  match packet with
  | some bytes =>
    let address := s.pixel.find s.frame bytes
    if address ≠ 0 then (s, some ⟨address, .reused⟩)
    else
      match d.pixelSlice with
      | none => (s, none)
      | some (address, old) =>
        let s := s.put address (old.store 0 bytes)
        -- a publication that fails is not looked at: the slice is right all the same
        let pixel :=
          if d.doublePixelPackets then (s.pixel.publishCandidate s.frame address).2
          else (s.pixel.publish s.frame bytes address).2
        ({ s with pixel := pixel }, some ⟨address, .published⟩)
  | none =>
    let s := if d.constantReuse then { s with pixel := s.pixel.reset } else s
    match d.pixelSlice with
    | none => (s, none)
    | some (address, old) => (s.put address (d.directPixel old), some ⟨address, .direct⟩)

/-- What is written after both stages: the asset bindings, and a staged packet. -/
def complete (s : PassState) (d : Draw) (vertex : Upload) : PassState :=
  match vertex.kind with
  | .staged =>
    let s := { s with stage := patchBindings s.stage d.patch }
    s.put vertex.address ((s.memory vertex.address).store 0 (s.stage.load 0 d.vertexConstants.vertexBytes))
  | .direct => s.put vertex.address (patchBindings (s.memory vertex.address) d.patch)
  -- a packet in the candidate is never patched: such a draw has no asset cache
  | _ => s

/-- The resets and the pixel packet before the uploads. -/
def prepare (s : PassState) (d : Draw) : PassState :=
  let s := if d.constantReuse then s else { s with pixel := s.pixel.reset }
  if d.buildsPixelPacket && d.doublePixelPackets then
    { s with pixel := s.pixel.buildCandidate (d.pixelConstants.packetArgs d.shared) }
  else s

/-- The addresses of a draw: the vertex stage's, and the pixel stage's where it is not the same one. -/
structure Addresses where
  vertex : Upload
  pixel : Option Upload
  deriving DecidableEq, Repr

/-- `Record`, as far as the constants go. -/
def record (s : PassState) (d : Draw) : PassState × Option Addresses :=
  let s := if d.reuseVertexConstants then s else { s with vertex := s.vertex.reset }
  if d.refused then (s, none)
  else
    let s := s.prepare d
    let packet :=
      if d.buildsPixelPacket && d.doublePixelPackets then
        if s.pixel.candidateValid then some s.pixel.candidateBytes else none
      else d.pixelPacket
    match s.uploadVertex d with
    | (s, none) => (s, none)
    | (s, some vertex) =>
      let aliased := d.aliasUnusedPixel || (d.constantReuse && d.legacyDepthOnlyPixelBufferUnused)
      if aliased && vertex.address ≠ 0 then
        if d.resident then (s.complete d vertex, some ⟨vertex, none⟩) else (s, none)
      else
        match s.uploadPixel d packet with
        | (s, none) => (s, none)
        | (s, some pixel) =>
          if d.resident then (s.complete d vertex, some ⟨vertex, some pixel⟩) else (s, none)

/-- An address that a pool may give in this frame. -/
def Free (s : PassState) (address : ℕ) : Prop :=
  ∀ slice, s.slices address = some slice → slice.frame ≠ s.frame

end PassState

/-! ### Runs -/

/-- What happens to a pass: its draws, and meanwhile other users of the pools and the next frame. -/
inductive Event
  | draw (d : Draw)
  /-- a slice for somebody else -/
  | elsewhere (address : ℕ) (bytes : Bytes)
  | nextFrame
  /-- `Initialize` with other shaders -/
  | restart

/-- The pools give slices that are free, and two different ones to one draw. -/
def Fresh (s : PassState) : Event → Prop
  | .draw d =>
      (∀ v ∈ d.vertexSlice, s.Free v.1) ∧ (∀ p ∈ d.pixelSlice, s.Free p.1) ∧
        ∀ v ∈ d.vertexSlice, ∀ p ∈ d.pixelSlice, v.1 ≠ p.1
  | .elsewhere address _ => s.Free address
  | _ => True

def apply (s : PassState) : Event → PassState
  | .draw d => (s.record d).1
  | .elsewhere address bytes => s.put address bytes
  | .nextFrame => { s with frame := s.frame + 1 }
  | .restart => { s with pixel := s.pixel.reset, vertex := s.vertex.reset }

/-- A pass from its construction on. -/
def pass : System PassState where
  init s := s.pixel = .initial ∧ s.vertex.valid = false
  step s t := ∃ e, Fresh s e ∧ t = apply s e

end Constants
end BoltsRebuilt
