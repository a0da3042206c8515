/-
# The commands of a deferred command list

`src/gpu/vendored/include/rex/graphics/d3d12/deferred_command_list.h`: the
recording functions and the argument records;
`src/gpu/vendored/src/graphics/d3d12/deferred_command_list.cpp`, lines 143-396:
the switch of `Execute`.

A `Recorder` is a call of a recording function with its arguments, each as the
bytes that hold it.  `Recorder.packet` is what the function hands to
`WriteCommand` and what it then stores through the pointer it gets: only the
fields it writes, at their offsets in the x64 layout of the argument record.
`Command.issue` is one case of the switch: it loads the fields from the stream
and calls the list.  An array behind a pointer stands for the elements the call
reads through it.

`issue_packet`: whatever the record held before, the calls are those of
`Recorder.issue`, which depend on the arguments alone.
-/

import BoltsRebuilt.Replay.CommandStream

namespace BoltsRebuilt
namespace Replay

/-- A pointer, a handle or an address. -/
abbrev Address := Blob 8

def nullAddress : Address := ⟨List.replicate 8 0, rfl⟩

/-- `UINT`, `FLOAT`, an enumeration. -/
abbrev Word32 := Blob 4

def word (n : UInt32) : Word32 := ⟨le 4 n.toNat, length_le 4 _⟩

/-- The byte of a `bool`. -/
def flag (b : Bool) : List UInt8 := [if b then 1 else 0]

/-! ### The calls -/

/-- The methods of `ID3D12GraphicsCommandList` and `ID3D12GraphicsCommandList1`. -/
inductive Method where
  | clearDepthStencilView | clearRenderTargetView | clearUnorderedAccessViewUint
  | copyBufferRegion | copyResource | copyTextureRegion
  | dispatch | drawIndexedInstanced | drawInstanced
  | beginQuery | endQuery | resolveQueryData
  | iASetIndexBuffer | iASetPrimitiveTopology | iASetVertexBuffers
  | oMSetBlendFactor | oMSetRenderTargets | oMSetStencilRef
  | resourceBarrier | rSSetScissorRects | rSSetViewports
  | setComputeRoot32BitConstants | setGraphicsRoot32BitConstants
  | setComputeRootConstantBufferView | setGraphicsRootConstantBufferView
  | setComputeRootDescriptorTable | setGraphicsRootDescriptorTable
  | setComputeRootShaderResourceView | setGraphicsRootShaderResourceView
  | setComputeRootSignature | setGraphicsRootSignature
  | setComputeRootUnorderedAccessView | setGraphicsRootUnorderedAccessView
  | setDescriptorHeaps | setPipelineState | setSamplePositions
  | beginEvent | endEvent | setMarker
  deriving DecidableEq, Repr

inductive Arg where
  | bytes (data : List UInt8)
  | null
  | number (n : ℕ)
  deriving DecidableEq, Repr

structure ApiCall where
  method : Method
  args : List Arg
  deriving DecidableEq, Repr

/-- What replaying a command or a list of commands does: the calls, how often
`execute_time_null_handle_count` is incremented, and the pipeline afterwards. -/
structure Issued where
  calls : List ApiCall
  nullHandles : ℕ
  currentPipelineState : Address

/-- Replaying `rest` from where `i` ends. -/
def Issued.andThen (i : Issued) (rest : Address → Issued) : Issued where
  calls := i.calls ++ (rest i.currentPipelineState).calls
  nullHandles := i.nullHandles + (rest i.currentPipelineState).nullHandles
  currentPipelineState := (rest i.currentPipelineState).currentPipelineState

/-- Calls that leave the pipeline alone. -/
def issued (current : Address) (calls : List ApiCall) : Issued := ⟨calls, 0, current⟩

/-- A draw or dispatch, suppressed while the pipeline is null. -/
def drawn (current : Address) (call : ApiCall) : Issued :=
  ⟨if current ≠ nullAddress then [call] else [], 0, current⟩

/-- The pipeline is set, and passed on unless it is null. -/
def piped (pipeline : Address) (nullHandles : ℕ) : Issued :=
  ⟨if pipeline ≠ nullAddress then [⟨.setPipelineState, [.bytes pipeline.1]⟩] else [],
    nullHandles, pipeline⟩

/-- `num ? pointer : nullptr`. -/
def unlessNone (num : ℕ) (data : List UInt8) : Arg := if num ≠ 0 then .bytes data else .null

/-! ### The recording functions -/

/-- A call of a recording function.  An array is what its pointer points to. -/
inductive Recorder where
  | d3DClearDepthStencilView (depthStencilView : Address) (clearFlags depth : Word32)
      (stencil : Blob 1) (numRects : UInt32) (rects : ℕ → Blob 16)
  | d3DClearRenderTargetView (renderTargetView : Address) (colorRgba : Blob 16)
      (numRects : UInt32) (rects : ℕ → Blob 16)
  | d3DClearUnorderedAccessViewUint (viewGpuHandle viewCpuHandle resource : Address)
      (values : Blob 16) (numRects : UInt32) (rects : ℕ → Blob 16)
  | d3DCopyBufferRegion (dstBuffer dstOffset srcBuffer srcOffset numBytes : Address)
  | d3DCopyResource (dstResource srcResource : Address)
  | copyTexture (dst src : Blob 48)
  | d3DCopyTextureRegion (dst : Blob 48) (dstX dstY dstZ : Word32) (src : Blob 48)
      (srcBox : Option (Blob 24))
  | d3DDispatch (threadGroupCountX threadGroupCountY threadGroupCountZ : Word32)
  | d3DDrawIndexedInstanced (indexCountPerInstance instanceCount startIndexLocation
      baseVertexLocation startInstanceLocation : Word32)
  | d3DDrawInstanced (vertexCountPerInstance instanceCount startVertexLocation
      startInstanceLocation : Word32)
  | d3DBeginQuery (queryHeap : Address) (type index : Word32)
  | d3DEndQuery (queryHeap : Address) (type index : Word32)
  | d3DResolveQueryData (queryHeap : Address) (type startIndex numQueries : Word32)
      (destinationBuffer alignedDestinationBufferOffset : Address)
  | d3DIASetIndexBuffer (view : Option (Address × Word32 × UInt32))
  | d3DIASetPrimitiveTopology (primitiveTopology : Word32)
  | d3DIASetVertexBuffers (startSlot : Word32) (numViews : UInt32) (views : ℕ → Blob 16)
  | d3DOMSetBlendFactor (blendFactor : Blob 16)
  | d3DOMSetRenderTargets (numRenderTargetDescriptors : UInt32)
      (renderTargetDescriptors : ℕ → Address) (rtsSingleHandleToDescriptorRange : Bool)
      (depthStencilDescriptor : Option Address)
  | d3DOMSetStencilRef (stencilRef : Word32)
  | d3DResourceBarrier (numBarriers : UInt32) (barriers : ℕ → Blob 32)
  | rSSetScissorRect (rect : Blob 16)
  | rSSetViewport (viewport : Blob 24)
  | d3DSetComputeRoot32BitConstants (rootParameterIndex : Word32) (num32BitValuesToSet : UInt32)
      (srcData : ℕ → Word32) (destOffsetIn32BitValues : Word32)
  | d3DSetGraphicsRoot32BitConstants (rootParameterIndex : Word32) (num32BitValuesToSet : UInt32)
      (srcData : ℕ → Word32) (destOffsetIn32BitValues : Word32)
  | d3DSetComputeRootConstantBufferView (rootParameterIndex : Word32) (bufferLocation : Address)
  | d3DSetGraphicsRootConstantBufferView (rootParameterIndex : Word32) (bufferLocation : Address)
  | d3DSetComputeRootDescriptorTable (rootParameterIndex : Word32) (baseDescriptor : Address)
  | d3DSetGraphicsRootDescriptorTable (rootParameterIndex : Word32) (baseDescriptor : Address)
  | d3DSetComputeRootShaderResourceView (rootParameterIndex : Word32) (bufferLocation : Address)
  | d3DSetGraphicsRootShaderResourceView (rootParameterIndex : Word32) (bufferLocation : Address)
  | d3DSetComputeRootSignature (rootSignature : Address)
  | d3DSetGraphicsRootSignature (rootSignature : Address)
  | d3DSetComputeRootUnorderedAccessView (rootParameterIndex : Word32) (bufferLocation : Address)
  | d3DSetGraphicsRootUnorderedAccessView (rootParameterIndex : Word32) (bufferLocation : Address)
  | setDescriptorHeaps (cbvSrvUavDescriptorHeap samplerDescriptorHeap : Address)
  | d3DSetPipelineState (pipelineState : Address)
  | setPipelineStateHandle (pipelineStateHandle : Address)
  | d3DSetSamplePositions (numSamplesPerPixel numPixels : UInt32) (samplePositions : ℕ → Blob 2)
  | beginDebugMarker (labelName : List UInt8)
  | endDebugMarker
  | insertDebugMarker (labelName : List UInt8)
  | d3DSetNativeGraphicsConstantBufferViews (root0 vertex pixel : Address) (writePixel : Bool)

/-- What a recording function writes: the command, the size of its arguments and
the fields it stores, in the order of their offsets. -/
structure Packet where
  command : Command
  argumentsSizeBytes : ℕ
  pieces : List (ℕ × List UInt8)

/-- The elements of the arguments. -/
def Packet.elements (p : Packet) : ℕ :=
  DeferredCommandList.argumentsSizeElements p.argumentsSizeBytes

/-- Words in a row. -/
def wordsPacket (command : Command) (words : List Word32) : Packet :=
  ⟨command, 4 * words.length, words.mapIdx fun i w => (4 * i, w.1)⟩

/-- `D3DQueryArguments`. -/
def queryPacket (command : Command) (queryHeap : Address) (type index : Word32) : Packet :=
  ⟨command, 16, [(0, queryHeap.1), (8, type.1), (12, index.1)]⟩

/-- `SetRoot32BitConstantsHeader` and the constants. -/
def constantsPacket (command : Command) (rootParameterIndex : Word32) (num : UInt32)
    (srcData : ℕ → Word32) (destOffset : Word32) : Packet :=
  ⟨command, 12 + num.toNat * 4, [(0, rootParameterIndex.1), (4, (word num).1), (8, destOffset.1),
    (12, Blob.take srcData num.toNat)]⟩

/-- `SetRootConstantBufferViewArguments` and `SetRootDescriptorTableArguments`. -/
def rootPacket (command : Command) (rootParameterIndex : Word32) (location : Address) : Packet :=
  ⟨command, 16, [(0, rootParameterIndex.1), (8, location.1)]⟩

/-- One pointer or handle. -/
def addressPacket (command : Command) (address : Address) : Packet := ⟨command, 8, [(0, address.1)]⟩

/-- `DebugMarkerHeader` and the label with its terminator. -/
def markerPacket (command : Command) (labelName : List UInt8) : Packet :=
  ⟨command, 4 + labelName.length + 1,
    [(0, le 4 (labelName.length % 2 ^ 32)), (4, labelName ++ [0])]⟩

/-- What a call records, if anything. -/
def Recorder.packet : Recorder → Option Packet
  | d3DClearDepthStencilView depthStencilView clearFlags depth stencil numRects rects =>
      some ⟨.d3DClearDepthStencilView, 24 + numRects.toNat * 16,
        [(0, depthStencilView.1), (8, clearFlags.1), (12, depth.1), (16, stencil.1),
          (20, (word numRects).1), (24, Blob.take rects numRects.toNat)]⟩
  | d3DClearRenderTargetView renderTargetView colorRgba numRects rects =>
      some ⟨.d3DClearRenderTargetView, 32 + numRects.toNat * 16,
        [(0, renderTargetView.1), (8, colorRgba.1), (24, (word numRects).1),
          (32, Blob.take rects numRects.toNat)]⟩
  | d3DClearUnorderedAccessViewUint viewGpuHandle viewCpuHandle resource values numRects rects =>
      some ⟨.d3DClearUnorderedAccessViewUint, 48 + numRects.toNat * 16,
        [(0, viewGpuHandle.1), (8, viewCpuHandle.1), (16, resource.1), (24, values.1),
          (40, (word numRects).1), (48, Blob.take rects numRects.toNat)]⟩
  | d3DCopyBufferRegion dstBuffer dstOffset srcBuffer srcOffset numBytes =>
      some ⟨.d3DCopyBufferRegion, 40, [(0, dstBuffer.1), (8, dstOffset.1), (16, srcBuffer.1),
        (24, srcOffset.1), (32, numBytes.1)]⟩
  | d3DCopyResource dstResource srcResource =>
      some ⟨.d3DCopyResource, 16, [(0, dstResource.1), (8, srcResource.1)]⟩
  | copyTexture dst src => some ⟨.copyTexture, 96, [(0, dst.1), (48, src.1)]⟩
  | d3DCopyTextureRegion dst dstX dstY dstZ src srcBox =>
      some ⟨.d3DCopyTextureRegion, 144,
        [(0, dst.1), (48, dstX.1), (52, dstY.1), (56, dstZ.1), (64, src.1)] ++
          (match srcBox with
            | some box => [(112, box.1), (136, flag true)]
            | none => [(136, flag false)])⟩
  | d3DDispatch x y z => some (wordsPacket .d3DDispatch [x, y, z])
  | d3DDrawIndexedInstanced indexCount instanceCount startIndex baseVertex startInstance =>
      some (wordsPacket .d3DDrawIndexedInstanced
        [indexCount, instanceCount, startIndex, baseVertex, startInstance])
  | d3DDrawInstanced vertexCount instanceCount startVertex startInstance =>
      some (wordsPacket .d3DDrawInstanced [vertexCount, instanceCount, startVertex, startInstance])
  | d3DBeginQuery queryHeap type index => some (queryPacket .d3DBeginQuery queryHeap type index)
  | d3DEndQuery queryHeap type index => some (queryPacket .d3DEndQuery queryHeap type index)
  | d3DResolveQueryData queryHeap type startIndex numQueries destination offset =>
      some ⟨.d3DResolveQueryData, 40, [(0, queryHeap.1), (8, type.1), (12, startIndex.1),
        (16, numQueries.1), (24, destination.1), (32, offset.1)]⟩
  | d3DIASetIndexBuffer view =>
      match view with
      | some (location, size, format) =>
          some ⟨.d3DIASetIndexBuffer, 16, [(0, location.1), (8, size.1), (12, (word format).1)]⟩
      | none =>
          some ⟨.d3DIASetIndexBuffer, 16, [(0, nullAddress.1), (8, (word 0).1), (12, (word 0).1)]⟩
  | d3DIASetPrimitiveTopology topology => some (wordsPacket .d3DIASetPrimitiveTopology [topology])
  | d3DIASetVertexBuffers startSlot numViews views =>
      if numViews = 0 then none
      else some ⟨.d3DIASetVertexBuffers, 8 + numViews.toNat * 16,
        [(0, startSlot.1), (4, (word numViews).1), (8, Blob.take views numViews.toNat)]⟩
  | d3DOMSetBlendFactor blendFactor => some ⟨.d3DOMSetBlendFactor, 16, [(0, blendFactor.1)]⟩
  | d3DOMSetRenderTargets num descriptors range depthStencil =>
      let num := min num.toNat 8
      some ⟨.d3DOMSetRenderTargets, 80,
        [(0, le 1 num), (1, flag range), (2, flag depthStencil.isSome),
          (8, Blob.take descriptors (if num ≠ 0 then if range then 1 else num else 0))] ++
          (match depthStencil with
            | some descriptor => [(72, descriptor.1)]
            | none => [])⟩
  | d3DOMSetStencilRef stencilRef => some (wordsPacket .d3DOMSetStencilRef [stencilRef])
  | d3DResourceBarrier numBarriers barriers =>
      if numBarriers = 0 then none
      else some ⟨.d3DResourceBarrier, 8 + numBarriers.toNat * 32,
        [(0, (word numBarriers).1), (8, Blob.take barriers numBarriers.toNat)]⟩
  | rSSetScissorRect rect => some ⟨.rSSetScissorRect, 16, [(0, rect.1)]⟩
  | rSSetViewport viewport => some ⟨.rSSetViewport, 24, [(0, viewport.1)]⟩
  | d3DSetComputeRoot32BitConstants index num srcData destOffset =>
      if num = 0 then none
      else some (constantsPacket .d3DSetComputeRoot32BitConstants index num srcData destOffset)
  | d3DSetGraphicsRoot32BitConstants index num srcData destOffset =>
      if num = 0 then none
      else some (constantsPacket .d3DSetGraphicsRoot32BitConstants index num srcData destOffset)
  | d3DSetComputeRootConstantBufferView index location =>
      some (rootPacket .d3DSetComputeRootConstantBufferView index location)
  | d3DSetGraphicsRootConstantBufferView index location =>
      some (rootPacket .d3DSetGraphicsRootConstantBufferView index location)
  | d3DSetComputeRootDescriptorTable index base =>
      some (rootPacket .d3DSetComputeRootDescriptorTable index base)
  | d3DSetGraphicsRootDescriptorTable index base =>
      some (rootPacket .d3DSetGraphicsRootDescriptorTable index base)
  | d3DSetComputeRootShaderResourceView index location =>
      some (rootPacket .d3DSetComputeRootShaderResourceView index location)
  | d3DSetGraphicsRootShaderResourceView index location =>
      some (rootPacket .d3DSetGraphicsRootShaderResourceView index location)
  | d3DSetComputeRootSignature rootSignature =>
      some (addressPacket .d3DSetComputeRootSignature rootSignature)
  | d3DSetGraphicsRootSignature rootSignature =>
      some (addressPacket .d3DSetGraphicsRootSignature rootSignature)
  | d3DSetComputeRootUnorderedAccessView index location =>
      some (rootPacket .d3DSetComputeRootUnorderedAccessView index location)
  | d3DSetGraphicsRootUnorderedAccessView index location =>
      some (rootPacket .d3DSetGraphicsRootUnorderedAccessView index location)
  | setDescriptorHeaps cbvSrvUav sampler =>
      some ⟨.setDescriptorHeaps, 16, [(0, cbvSrvUav.1), (8, sampler.1)]⟩
  | d3DSetPipelineState pipelineState => some (addressPacket .d3DSetPipelineState pipelineState)
  | setPipelineStateHandle handle => some (addressPacket .setPipelineStateHandle handle)
  | d3DSetSamplePositions numSamples numPixels positions =>
      some ⟨.d3DSetSamplePositions, 40, [(0, (word numSamples).1), (4, (word numPixels).1),
        (8, Blob.take positions (min (numSamples * numPixels).toNat 16))]⟩
  | beginDebugMarker labelName => some (markerPacket .beginDebugMarker labelName)
  | endDebugMarker => some ⟨.endDebugMarker, 0, []⟩
  | insertDebugMarker labelName => some (markerPacket .insertDebugMarker labelName)
  | d3DSetNativeGraphicsConstantBufferViews root0 vertex pixel writePixel =>
      some ⟨.d3DSetNativeGraphicsConstantBufferViews, 32, [(0, root0.1), (8, vertex.1),
        (16, pixel.1), (24, le 8 (if writePixel then 1 else 0))]⟩

/-! ### The switch of `Execute` -/

/-- `GetD3D12PipelineByHandle`. -/
abbrev Lookup := Address → Address

section Issue

variable (lookup : Lookup) (list1 : Bool)

/-- The elements `OMSetRenderTargets` reads. -/
def descriptorCount (num : ℕ) (range : Bool) : ℕ :=
  if num ≠ 0 then if range then 1 else num else 0

/-- The positions `SetSamplePositions` reads: the call takes at most sixteen. -/
def positionCount (numSamples numPixels : ℕ) : ℕ :=
  if numSamples * numPixels ≤ 16 then numSamples * numPixels else 0

/-- The heaps that are not null, counted. -/
def heapsCall (heaps : List Address) : ApiCall :=
  let heaps := heaps.filter (· ≠ nullAddress)
  ⟨.setDescriptorHeaps, .number heaps.length :: heaps.map fun heap => .bytes heap.1⟩

/-- `SetGraphicsRootConstantBufferView` of one of the native views. -/
def nativeView (root : ℕ) (location : List UInt8) : ApiCall :=
  ⟨.setGraphicsRootConstantBufferView, [.number root, .bytes location]⟩

/-- One case of the switch: the record's arguments are at `a`. -/
def Command.issue (m : Bytes) (a : ℕ) (current : Address) : Command → Issued
  | .d3DClearDepthStencilView =>
      let numRects := m.load (a + 20) 4
      issued current [⟨.clearDepthStencilView, [.bytes (m.load a 8), .bytes (m.load (a + 8) 4),
        .bytes (m.load (a + 12) 4), .bytes (m.load (a + 16) 1), .bytes numRects,
        unlessNone (ofLe numRects) (m.load (a + 24) (ofLe numRects * 16))]⟩]
  | .d3DClearRenderTargetView =>
      let numRects := m.load (a + 24) 4
      issued current [⟨.clearRenderTargetView, [.bytes (m.load a 8), .bytes (m.load (a + 8) 16),
        .bytes numRects, unlessNone (ofLe numRects) (m.load (a + 32) (ofLe numRects * 16))]⟩]
  | .d3DClearUnorderedAccessViewUint =>
      let numRects := m.load (a + 40) 4
      issued current [⟨.clearUnorderedAccessViewUint, [.bytes (m.load a 8),
        .bytes (m.load (a + 8) 8), .bytes (m.load (a + 16) 8), .bytes (m.load (a + 24) 16),
        .bytes numRects, unlessNone (ofLe numRects) (m.load (a + 48) (ofLe numRects * 16))]⟩]
  | .d3DCopyBufferRegion =>
      issued current [⟨.copyBufferRegion, [.bytes (m.load a 8), .bytes (m.load (a + 8) 8),
        .bytes (m.load (a + 16) 8), .bytes (m.load (a + 24) 8), .bytes (m.load (a + 32) 8)]⟩]
  | .d3DCopyResource =>
      issued current [⟨.copyResource, [.bytes (m.load a 8), .bytes (m.load (a + 8) 8)]⟩]
  | .copyTexture =>
      issued current [⟨.copyTextureRegion, [.bytes (m.load a 48), .number 0, .number 0, .number 0,
        .bytes (m.load (a + 48) 48), .null]⟩]
  | .d3DCopyTextureRegion =>
      let hasSrcBox := m.load (a + 136) 1
      issued current [⟨.copyTextureRegion, [.bytes (m.load a 48), .bytes (m.load (a + 48) 4),
        .bytes (m.load (a + 52) 4), .bytes (m.load (a + 56) 4), .bytes (m.load (a + 64) 48),
        unlessNone (ofLe hasSrcBox) (m.load (a + 112) 24)]⟩]
  | .d3DDispatch =>
      drawn current ⟨.dispatch, [.bytes (m.load a 4), .bytes (m.load (a + 4) 4),
        .bytes (m.load (a + 8) 4)]⟩
  | .d3DDrawIndexedInstanced =>
      drawn current ⟨.drawIndexedInstanced, [.bytes (m.load a 4), .bytes (m.load (a + 4) 4),
        .bytes (m.load (a + 8) 4), .bytes (m.load (a + 12) 4), .bytes (m.load (a + 16) 4)]⟩
  | .d3DDrawInstanced =>
      drawn current ⟨.drawInstanced, [.bytes (m.load a 4), .bytes (m.load (a + 4) 4),
        .bytes (m.load (a + 8) 4), .bytes (m.load (a + 12) 4)]⟩
  | .d3DBeginQuery =>
      issued current [⟨.beginQuery, [.bytes (m.load a 8), .bytes (m.load (a + 8) 4),
        .bytes (m.load (a + 12) 4)]⟩]
  | .d3DEndQuery =>
      issued current [⟨.endQuery, [.bytes (m.load a 8), .bytes (m.load (a + 8) 4),
        .bytes (m.load (a + 12) 4)]⟩]
  | .d3DResolveQueryData =>
      issued current [⟨.resolveQueryData, [.bytes (m.load a 8), .bytes (m.load (a + 8) 4),
        .bytes (m.load (a + 12) 4), .bytes (m.load (a + 16) 4), .bytes (m.load (a + 24) 8),
        .bytes (m.load (a + 32) 8)]⟩]
  | .d3DIASetIndexBuffer =>
      issued current [⟨.iASetIndexBuffer,
        if ofLe (m.load (a + 12) 4) ≠ 0 then
          [.bytes (m.load a 8), .bytes (m.load (a + 8) 4), .bytes (m.load (a + 12) 4)]
        else [.null]⟩]
  | .d3DIASetPrimitiveTopology =>
      issued current [⟨.iASetPrimitiveTopology, [.bytes (m.load a 4)]⟩]
  | .d3DIASetVertexBuffers =>
      let numViews := m.load (a + 4) 4
      issued current [⟨.iASetVertexBuffers, [.bytes (m.load a 4), .bytes numViews,
        .bytes (m.load (a + 8) (ofLe numViews * 16))]⟩]
  | .d3DOMSetBlendFactor => issued current [⟨.oMSetBlendFactor, [.bytes (m.load a 16)]⟩]
  | .d3DOMSetRenderTargets =>
      let num := ofLe (m.load a 1)
      let range := ofLe (m.load (a + 1) 1) ≠ 0
      issued current [⟨.oMSetRenderTargets, [.number num,
        .bytes (m.load (a + 8) (descriptorCount num range * 8)), .number (if range then 1 else 0),
        unlessNone (ofLe (m.load (a + 2) 1)) (m.load (a + 72) 8)]⟩]
  | .d3DOMSetStencilRef => issued current [⟨.oMSetStencilRef, [.bytes (m.load a 4)]⟩]
  | .d3DResourceBarrier =>
      let numBarriers := m.load a 4
      issued current [⟨.resourceBarrier, [.bytes numBarriers,
        .bytes (m.load (a + 8) (ofLe numBarriers * 32))]⟩]
  | .rSSetScissorRect => issued current [⟨.rSSetScissorRects, [.number 1, .bytes (m.load a 16)]⟩]
  | .rSSetViewport => issued current [⟨.rSSetViewports, [.number 1, .bytes (m.load a 24)]⟩]
  | .d3DSetComputeRoot32BitConstants => rootConstants .setComputeRoot32BitConstants
  | .d3DSetGraphicsRoot32BitConstants => rootConstants .setGraphicsRoot32BitConstants
  | .d3DSetComputeRootConstantBufferView => rootLocation .setComputeRootConstantBufferView
  | .d3DSetGraphicsRootConstantBufferView => rootLocation .setGraphicsRootConstantBufferView
  | .d3DSetComputeRootDescriptorTable => rootLocation .setComputeRootDescriptorTable
  | .d3DSetGraphicsRootDescriptorTable => rootLocation .setGraphicsRootDescriptorTable
  | .d3DSetComputeRootShaderResourceView => rootLocation .setComputeRootShaderResourceView
  | .d3DSetGraphicsRootShaderResourceView => rootLocation .setGraphicsRootShaderResourceView
  | .d3DSetComputeRootSignature =>
      issued current [⟨.setComputeRootSignature, [.bytes (m.load a 8)]⟩]
  | .d3DSetGraphicsRootSignature =>
      issued current [⟨.setGraphicsRootSignature, [.bytes (m.load a 8)]⟩]
  | .d3DSetComputeRootUnorderedAccessView => rootLocation .setComputeRootUnorderedAccessView
  | .d3DSetGraphicsRootUnorderedAccessView => rootLocation .setGraphicsRootUnorderedAccessView
  | .setDescriptorHeaps => issued current [heapsCall [m.blob a 8, m.blob (a + 8) 8]]
  | .d3DSetPipelineState => piped (m.blob a 8) 0
  | .setPipelineStateHandle =>
      let pipeline := lookup (m.blob a 8)
      piped pipeline (if pipeline ≠ nullAddress then 0 else 1)
  | .d3DSetSamplePositions =>
      let numSamples := m.load a 4
      let numPixels := m.load (a + 4) 4
      issued current (if list1 then [⟨.setSamplePositions, [.bytes numSamples, .bytes numPixels,
        if ofLe numSamples ≠ 0 ∧ ofLe numPixels ≠ 0 then
          .bytes (m.load (a + 8) (positionCount (ofLe numSamples) (ofLe numPixels) * 2))
        else .null]⟩] else [])
  | .beginDebugMarker => marker .beginEvent
  | .endDebugMarker => issued current [⟨.endEvent, []⟩]
  | .insertDebugMarker => marker .setMarker
  | .d3DSetNativeGraphicsConstantBufferViews =>
      issued current ([nativeView 0 (m.load a 8), nativeView 1 (m.load (a + 8) 8)] ++
        if ofLe (m.load (a + 24) 8) ≠ 0 then [nativeView 4 (m.load (a + 16) 8)] else [])
where
  /-- `SetRoot32BitConstantsHeader` and the constants. -/
  rootConstants (method : Method) : Issued :=
    let num := m.load (a + 4) 4
    issued current [⟨method, [.bytes (m.load a 4), .bytes num,
      .bytes (m.load (a + 12) (ofLe num * 4)), .bytes (m.load (a + 8) 4)]⟩]
  /-- `SetRootConstantBufferViewArguments`, `SetRootDescriptorTableArguments`. -/
  rootLocation (method : Method) : Issued :=
    issued current [⟨method, [.bytes (m.load a 4), .bytes (m.load (a + 8) 8)]⟩]
  /-- `DebugMarkerHeader`. -/
  marker (method : Method) : Issued :=
    let size := (ofLe (m.load a 4) + 1) % 2 ^ 32
    issued current [⟨method, [.number 1, .bytes (m.load (a + 4) size), .number size]⟩]

/-! ### What a recorded call stands for -/

/-- The calls of a recorded call with the current pipeline, from its arguments. -/
def Recorder.issue (current : Address) : Recorder → Issued
  | d3DClearDepthStencilView depthStencilView clearFlags depth stencil numRects rects =>
      issued current [⟨.clearDepthStencilView, [.bytes depthStencilView.1, .bytes clearFlags.1,
        .bytes depth.1, .bytes stencil.1, .bytes (word numRects).1,
        unlessNone numRects.toNat (Blob.take rects numRects.toNat)]⟩]
  | d3DClearRenderTargetView renderTargetView colorRgba numRects rects =>
      issued current [⟨.clearRenderTargetView, [.bytes renderTargetView.1, .bytes colorRgba.1,
        .bytes (word numRects).1, unlessNone numRects.toNat (Blob.take rects numRects.toNat)]⟩]
  | d3DClearUnorderedAccessViewUint viewGpuHandle viewCpuHandle resource values numRects rects =>
      issued current [⟨.clearUnorderedAccessViewUint, [.bytes viewGpuHandle.1,
        .bytes viewCpuHandle.1, .bytes resource.1, .bytes values.1, .bytes (word numRects).1,
        unlessNone numRects.toNat (Blob.take rects numRects.toNat)]⟩]
  | d3DCopyBufferRegion dstBuffer dstOffset srcBuffer srcOffset numBytes =>
      issued current [⟨.copyBufferRegion, [.bytes dstBuffer.1, .bytes dstOffset.1,
        .bytes srcBuffer.1, .bytes srcOffset.1, .bytes numBytes.1]⟩]
  | d3DCopyResource dstResource srcResource =>
      issued current [⟨.copyResource, [.bytes dstResource.1, .bytes srcResource.1]⟩]
  | copyTexture dst src =>
      issued current [⟨.copyTextureRegion, [.bytes dst.1, .number 0, .number 0, .number 0,
        .bytes src.1, .null]⟩]
  | d3DCopyTextureRegion dst dstX dstY dstZ src srcBox =>
      issued current [⟨.copyTextureRegion, [.bytes dst.1, .bytes dstX.1, .bytes dstY.1,
        .bytes dstZ.1, .bytes src.1, (srcBox.map fun box => .bytes box.1).getD .null]⟩]
  | d3DDispatch x y z => drawn current ⟨.dispatch, [.bytes x.1, .bytes y.1, .bytes z.1]⟩
  | d3DDrawIndexedInstanced indexCount instanceCount startIndex baseVertex startInstance =>
      drawn current ⟨.drawIndexedInstanced, [.bytes indexCount.1, .bytes instanceCount.1,
        .bytes startIndex.1, .bytes baseVertex.1, .bytes startInstance.1]⟩
  | d3DDrawInstanced vertexCount instanceCount startVertex startInstance =>
      drawn current ⟨.drawInstanced, [.bytes vertexCount.1, .bytes instanceCount.1,
        .bytes startVertex.1, .bytes startInstance.1]⟩
  | d3DBeginQuery queryHeap type index =>
      issued current [⟨.beginQuery, [.bytes queryHeap.1, .bytes type.1, .bytes index.1]⟩]
  | d3DEndQuery queryHeap type index =>
      issued current [⟨.endQuery, [.bytes queryHeap.1, .bytes type.1, .bytes index.1]⟩]
  | d3DResolveQueryData queryHeap type startIndex numQueries destination offset =>
      issued current [⟨.resolveQueryData, [.bytes queryHeap.1, .bytes type.1, .bytes startIndex.1,
        .bytes numQueries.1, .bytes destination.1, .bytes offset.1]⟩]
  | d3DIASetIndexBuffer view =>
      issued current [⟨.iASetIndexBuffer,
        match view with
        | some (location, size, format) =>
            if format.toNat ≠ 0 then [.bytes location.1, .bytes size.1, .bytes (word format).1]
            else [.null]
        | none => [.null]⟩]
  | d3DIASetPrimitiveTopology topology =>
      issued current [⟨.iASetPrimitiveTopology, [.bytes topology.1]⟩]
  | d3DIASetVertexBuffers startSlot numViews views =>
      issued current (if numViews = 0 then [] else [⟨.iASetVertexBuffers, [.bytes startSlot.1,
        .bytes (word numViews).1, .bytes (Blob.take views numViews.toNat)]⟩])
  | d3DOMSetBlendFactor blendFactor => issued current [⟨.oMSetBlendFactor, [.bytes blendFactor.1]⟩]
  | d3DOMSetRenderTargets num descriptors range depthStencil =>
      let num := min num.toNat 8
      issued current [⟨.oMSetRenderTargets, [.number num,
        .bytes (Blob.take descriptors (descriptorCount num range)),
        .number (if range then 1 else 0),
        (depthStencil.map fun descriptor => .bytes descriptor.1).getD .null]⟩]
  | d3DOMSetStencilRef stencilRef => issued current [⟨.oMSetStencilRef, [.bytes stencilRef.1]⟩]
  | d3DResourceBarrier numBarriers barriers =>
      issued current (if numBarriers = 0 then [] else [⟨.resourceBarrier,
        [.bytes (word numBarriers).1, .bytes (Blob.take barriers numBarriers.toNat)]⟩])
  | rSSetScissorRect rect => issued current [⟨.rSSetScissorRects, [.number 1, .bytes rect.1]⟩]
  | rSSetViewport viewport => issued current [⟨.rSSetViewports, [.number 1, .bytes viewport.1]⟩]
  | d3DSetComputeRoot32BitConstants index num srcData destOffset =>
      rootConstants .setComputeRoot32BitConstants index num srcData destOffset
  | d3DSetGraphicsRoot32BitConstants index num srcData destOffset =>
      rootConstants .setGraphicsRoot32BitConstants index num srcData destOffset
  | d3DSetComputeRootConstantBufferView index location =>
      rootLocation .setComputeRootConstantBufferView index location
  | d3DSetGraphicsRootConstantBufferView index location =>
      rootLocation .setGraphicsRootConstantBufferView index location
  | d3DSetComputeRootDescriptorTable index base =>
      rootLocation .setComputeRootDescriptorTable index base
  | d3DSetGraphicsRootDescriptorTable index base =>
      rootLocation .setGraphicsRootDescriptorTable index base
  | d3DSetComputeRootShaderResourceView index location =>
      rootLocation .setComputeRootShaderResourceView index location
  | d3DSetGraphicsRootShaderResourceView index location =>
      rootLocation .setGraphicsRootShaderResourceView index location
  | d3DSetComputeRootSignature rootSignature =>
      issued current [⟨.setComputeRootSignature, [.bytes rootSignature.1]⟩]
  | d3DSetGraphicsRootSignature rootSignature =>
      issued current [⟨.setGraphicsRootSignature, [.bytes rootSignature.1]⟩]
  | d3DSetComputeRootUnorderedAccessView index location =>
      rootLocation .setComputeRootUnorderedAccessView index location
  | d3DSetGraphicsRootUnorderedAccessView index location =>
      rootLocation .setGraphicsRootUnorderedAccessView index location
  | setDescriptorHeaps cbvSrvUav sampler => issued current [heapsCall [cbvSrvUav, sampler]]
  | d3DSetPipelineState pipelineState => piped pipelineState 0
  | setPipelineStateHandle handle =>
      piped (lookup handle) (if lookup handle ≠ nullAddress then 0 else 1)
  | d3DSetSamplePositions numSamples numPixels positions =>
      issued current (if list1 then [⟨.setSamplePositions,
        [.bytes (word numSamples).1, .bytes (word numPixels).1,
          if numSamples.toNat ≠ 0 ∧ numPixels.toNat ≠ 0 then
            .bytes (Blob.take positions (positionCount numSamples.toNat numPixels.toNat))
          else .null]⟩] else [])
  | beginDebugMarker labelName => marker .beginEvent labelName
  | endDebugMarker => issued current [⟨.endEvent, []⟩]
  | insertDebugMarker labelName => marker .setMarker labelName
  | d3DSetNativeGraphicsConstantBufferViews root0 vertex pixel writePixel =>
      issued current ([nativeView 0 root0.1, nativeView 1 vertex.1] ++
        if writePixel then [nativeView 4 pixel.1] else [])
where
  rootConstants (method : Method) (index : Word32) (num : UInt32) (srcData : ℕ → Word32)
      (destOffset : Word32) : Issued :=
    issued current (if num = 0 then [] else [⟨method, [.bytes index.1, .bytes (word num).1,
      .bytes (Blob.take srcData num.toNat), .bytes destOffset.1]⟩])
  rootLocation (method : Method) (index : Word32) (location : Address) : Issued :=
    issued current [⟨method, [.bytes index.1, .bytes location.1]⟩]
  marker (method : Method) (labelName : List UInt8) : Issued :=
    let size := (labelName.length + 1) % 2 ^ 32
    issued current [⟨method, [.number 1, .bytes ((labelName ++ [0]).take size), .number size]⟩]

end Issue

/-! ### Stale bytes are not replayed -/

/-- A word is read back from its four bytes. -/
@[simp] theorem ofLe_word (n : UInt32) : ofLe (word n).1 = n.toNat := by
  rw [word, ofLe_le]
  exact Nat.mod_eq_of_lt n.toNat_lt

/-- A flag is read back as zero or one. -/
@[simp] theorem ofLe_flag (b : Bool) : ofLe (flag b) = if b then 1 else 0 := by cases b <;> rfl

/-- A flag is one byte. -/
@[simp] theorem length_flag (b : Bool) : (flag b).length = 1 := rfl

/-- The pieces of a record are in the memory at `a`. -/
def Loads (m : Bytes) (a : ℕ) (pieces : List (ℕ × List UInt8)) : Prop :=
  ∀ q ∈ pieces, m.load (a + q.1) q.2.length = q.2

section Stale

variable {lookup : Lookup} {list1 : Bool} {m : Bytes} {a : ℕ} {current : Address} {r : Recorder}
  {p : Packet}

/-- Nothing is loaded of no pieces. -/
@[simp] theorem loads_nil : Loads m a [] := nofun

/-- The first piece is loaded and so are the others. -/
@[simp] theorem loads_cons {offset : ℕ} {data : List UInt8} {pieces : List (ℕ × List UInt8)} :
    Loads m a ((offset, data) :: pieces) ↔
      m.load (a + offset) data.length = data ∧ Loads m a pieces := List.forall_mem_cons

/-- Two lists of pieces are loaded when each is. -/
@[simp] theorem loads_append {pieces pieces' : List (ℕ × List UInt8)} :
    Loads m a (pieces ++ pieces') ↔ Loads m a pieces ∧ Loads m a pieces' :=
  List.forall_mem_append

/-- Bytes that load as a blob's are that blob. -/
theorem blob_eq {n : ℕ} {b : Blob n} (h : m.load a n = b.1) : m.blob a n = b := Subtype.ext h

/-- The label that is read back is cut where its length, as a `UINT`, wraps. -/
theorem load_label (labelName : List UInt8) (h : m.load a (labelName.length + 1) = labelName ++ [0]) :
    m.load a ((labelName.length + 1) % 2 ^ 32) =
      (labelName ++ [0]).take ((labelName.length + 1) % 2 ^ 32) := by
  rw [← h, Bytes.load_take (Nat.mod_le _ _)]

/-- The sample positions of a command are loaded, as many as were recorded. -/
theorem load_positions (numSamples numPixels : UInt32) (positions : ℕ → Blob 2)
    (h : m.load a (min (numSamples * numPixels).toNat 16 * 2) =
      Blob.take positions (min (numSamples * numPixels).toNat 16)) :
    m.load a (positionCount numSamples.toNat numPixels.toNat * 2) =
      Blob.take positions (positionCount numSamples.toNat numPixels.toNat) := by
  rw [positionCount]
  split
  next hle =>
    have hmul : (numSamples * numPixels).toNat = numSamples.toNat * numPixels.toNat := by
      rw [UInt32.toNat_mul]
      exact Nat.mod_eq_of_lt (by omega)
    rwa [hmul, Nat.min_eq_left hle] at h
  · rfl

/-- **Stale bytes are not replayed.**  The calls of a record are those of the
recorded call, whatever else is in the memory. -/
theorem issue_packet (hp : r.packet = some p) (hm : Loads m a p.pieces) :
    p.command.issue lookup list1 m a current = r.issue lookup list1 current := by
  cases r with
  | d3DIASetIndexBuffer view =>
      rcases view with _ | ⟨location, size, format⟩ <;> cases hp <;>
        simp only [loads_cons, Blob.length_val, Nat.add_zero] at hm <;>
        simp [Command.issue, Recorder.issue, hm]
  | d3DIASetVertexBuffers startSlot numViews views =>
      simp only [Recorder.packet] at hp
      split at hp <;> cases hp
      next hnum =>
        simp only [loads_cons, Blob.length_val, Blob.length_take, Nat.add_zero] at hm
        simp [Command.issue, Recorder.issue, hm, hnum]
  | d3DResourceBarrier numBarriers barriers =>
      simp only [Recorder.packet] at hp
      split at hp <;> cases hp
      next hnum =>
        simp only [loads_cons, Blob.length_val, Blob.length_take, Nat.add_zero] at hm
        simp [Command.issue, Recorder.issue, hm, hnum]
  | d3DSetComputeRoot32BitConstants | d3DSetGraphicsRoot32BitConstants =>
      simp only [Recorder.packet] at hp
      split at hp <;> cases hp
      next hnum =>
        simp only [constantsPacket, loads_cons, Blob.length_val, Blob.length_take,
          Nat.add_zero] at hm
        simp [constantsPacket, Command.issue, Command.issue.rootConstants, Recorder.issue,
          Recorder.issue.rootConstants, hm, hnum]
  | d3DCopyTextureRegion dst dstX dstY dstZ src srcBox =>
      cases srcBox <;> cases hp <;>
        simp only [loads_append, loads_cons, Blob.length_val, length_flag, Nat.add_zero] at hm <;>
        simp [Command.issue, Recorder.issue, unlessNone, hm]
  | d3DOMSetRenderTargets num descriptors range depthStencil =>
      have hnum : ofLe (le 1 (min num.toNat 8)) = min num.toNat 8 := by
        rw [ofLe_le]
        exact Nat.mod_eq_of_lt (by omega)
      have hrange : decide (ofLe (flag range) ≠ 0) = range := by cases range <;> rfl
      simp only [Recorder.packet] at hp
      simp only [Recorder.issue]
      generalize min num.toNat 8 = k at hnum hp ⊢
      cases hp
      simp only [loads_append, loads_cons, Blob.length_take, length_flag, length_le,
        Nat.add_zero] at hm
      obtain ⟨⟨hk, hr, hd, hdescriptors, -⟩, hdepth⟩ := hm
      change m.load (a + 8) (descriptorCount k range * 8) =
        Blob.take descriptors (descriptorCount k range) at hdescriptors
      simp only [Command.issue, hk, hr, hd, hnum, hrange, hdescriptors]
      cases depthStencil with
      | none => cases range <;> simp [unlessNone]
      | some descriptor =>
          simp only [loads_cons, Blob.length_val] at hdepth
          cases range <;> simp [unlessNone, hdepth.1]
  | d3DSetSamplePositions numSamples numPixels positions =>
      cases hp
      simp only [loads_cons, Blob.length_val, Blob.length_take, Nat.add_zero] at hm
      obtain ⟨hsamples, hpixels, hpositions, -⟩ := hm
      simp [Command.issue, Recorder.issue, hsamples, hpixels,
        load_positions numSamples numPixels positions hpositions]
  | beginDebugMarker labelName | insertDebugMarker labelName =>
      cases hp
      simp only [markerPacket, loads_cons, length_le, List.length_append, List.length_singleton,
        Nat.add_zero] at hm
      obtain ⟨hlength, hlabel, -⟩ := hm
      have hsize : (ofLe (m.load a 4) + 1) % 2 ^ 32 = (labelName.length + 1) % 2 ^ 32 := by
        rw [hlength, ofLe_le]
        omega
      simp only [markerPacket, Command.issue, Command.issue.marker, Recorder.issue,
        Recorder.issue.marker, hsize, load_label labelName hlabel]
  | setDescriptorHeaps cbvSrvUav sampler =>
      cases hp
      simp only [loads_cons, Blob.length_val, Nat.add_zero] at hm
      simp only [Command.issue, Recorder.issue, blob_eq hm.1, blob_eq hm.2.1]
  | d3DSetPipelineState address | setPipelineStateHandle address =>
      cases hp
      simp only [addressPacket, loads_cons, Blob.length_val, Nat.add_zero] at hm
      simp only [addressPacket, Command.issue, Recorder.issue, blob_eq hm.1]
  | d3DSetNativeGraphicsConstantBufferViews root0 vertex pixel writePixel =>
      cases hp
      simp only [loads_cons, Blob.length_val, length_le, Nat.add_zero] at hm
      cases writePixel <;> simp [Command.issue, Recorder.issue, hm]
  | _ =>
      cases hp
      simp [wordsPacket, queryPacket, addressPacket, rootPacket] at hm
      simp [wordsPacket, queryPacket, addressPacket, rootPacket, Command.issue,
        Command.issue.rootLocation, Recorder.issue, Recorder.issue.rootLocation, hm]

/-- A call that records nothing stands for nothing in a replay. -/
theorem issue_of_packet_none (hp : r.packet = none) :
    r.issue lookup list1 current = issued current [] := by
  cases r with
  | d3DIASetVertexBuffers _ num _ | d3DResourceBarrier num _
  | d3DSetComputeRoot32BitConstants _ num _ _ | d3DSetGraphicsRoot32BitConstants _ num _ _ =>
      simp only [Recorder.packet] at hp
      split at hp
      next hnum => simp [Recorder.issue, Recorder.issue.rootConstants, hnum]
      · cases hp
  | d3DIASetIndexBuffer view => cases view <;> cases hp
  | _ => cases hp

end Stale

end Replay
end BoltsRebuilt
