/-
# The storage of a deferred command list

`src/gpu/vendored/include/rex/graphics/d3d12/deferred_command_list.h`,
`src/gpu/vendored/src/graphics/d3d12/deferred_command_list.cpp`:
`DeferredCommandList`, `Reset`, `SwapStorage` and `WriteCommand`.

The storage is a vector of eight byte elements, of which a prefix is in use; it
is modelled by its bytes.  A record is a header of one element (the command and
the number of elements of its arguments) and the arguments, which the recording
function fills in through the pointer `WriteCommand` returns.  With reuse on,
`Reset` keeps the vector, so what a new record does not fill in is stale.

`WriteCommand` throws when the record does not fit the vector's bounds or the
vector cannot grow; either way the list is as it was.
-/

import BoltsRebuilt.Lib.Bytes

namespace BoltsRebuilt
namespace Replay

/-- `DeferredCommandList::Command`, in the order of its values. -/
inductive Command where
  | d3DClearDepthStencilView
  | d3DClearRenderTargetView
  | d3DClearUnorderedAccessViewUint
  | d3DCopyBufferRegion
  | d3DCopyResource
  | copyTexture
  | d3DCopyTextureRegion
  | d3DDispatch
  | d3DDrawIndexedInstanced
  | d3DDrawInstanced
  | d3DBeginQuery
  | d3DEndQuery
  | d3DResolveQueryData
  | d3DIASetIndexBuffer
  | d3DIASetPrimitiveTopology
  | d3DIASetVertexBuffers
  | d3DOMSetBlendFactor
  | d3DOMSetRenderTargets
  | d3DOMSetStencilRef
  | d3DResourceBarrier
  | rSSetScissorRect
  | rSSetViewport
  | d3DSetComputeRoot32BitConstants
  | d3DSetGraphicsRoot32BitConstants
  | d3DSetComputeRootConstantBufferView
  | d3DSetGraphicsRootConstantBufferView
  | d3DSetComputeRootDescriptorTable
  | d3DSetGraphicsRootDescriptorTable
  | d3DSetComputeRootShaderResourceView
  | d3DSetGraphicsRootShaderResourceView
  | d3DSetComputeRootSignature
  | d3DSetGraphicsRootSignature
  | d3DSetComputeRootUnorderedAccessView
  | d3DSetGraphicsRootUnorderedAccessView
  | setDescriptorHeaps
  | d3DSetPipelineState
  | setPipelineStateHandle
  | d3DSetSamplePositions
  | beginDebugMarker
  | endDebugMarker
  | insertDebugMarker
  | d3DSetNativeGraphicsConstantBufferViews
  deriving DecidableEq, Repr

/-- `DeferredCommandList`.  The bytes at or past `8 * size` are no part of the
vector. -/
structure DeferredCommandList where
  commandStream : Bytes
  /-- `command_stream_.size()`, in elements. -/
  size : ℕ
  commandStreamUsed : ℕ
  reuseCommandStorage : Bool
  pipelineHandlesResolvedForReplay : Bool

namespace DeferredCommandList

/-- `Reset`, with the setting `nb_native_deferred_storage` of the moment. -/
def reset (reuse : Bool) (l : DeferredCommandList) : DeferredCommandList where
  commandStream := l.commandStream
  size := if reuse then l.size else 0
  commandStreamUsed := 0
  reuseCommandStorage := reuse
  pipelineHandlesResolvedForReplay := false

/-- `SwapStorage`: the lists afterwards. -/
def swapStorage (l other : DeferredCommandList) : DeferredCommandList × DeferredCommandList :=
  (other, l)

/-- `command_stream_.resize(required)` of a growing vector: the new elements are
zero. -/
def resize (l : DeferredCommandList) (required : ℕ) : DeferredCommandList :=
  { l with
    commandStream := fun i =>
      if 8 * l.size ≤ i ∧ i < 8 * required then 0 else l.commandStream i
    size := required }

/-- The elements that hold a number of bytes. -/
def argumentsSizeElements (argumentsSizeBytes : ℕ) : ℕ :=
  argumentsSizeBytes / 8 + if argumentsSizeBytes % 8 ≠ 0 then 1 else 0

/-- The vector after `if (required > previous_size) command_stream_.resize(required)`. -/
def grown (l : DeferredCommandList) (required : ℕ) : DeferredCommandList :=
  if required > l.size then l.resize required else l

/-- `WriteCommand` with the vector's bound and whether it can grow.  `none` is
an exception; else the address of the arguments. -/
def writeCommand (maxSize : ℕ) (grows : Bool) (command : Command) (argumentsSizeBytes : ℕ)
    (l : DeferredCommandList) : Option ℕ × DeferredCommandList :=
  let elements := argumentsSizeElements argumentsSizeBytes
  let offset := l.commandStreamUsed
  if elements > 2 ^ 32 - 1 ∨ offset > maxSize ∨ 1 > maxSize - offset ∨
      elements > maxSize - offset - 1 then
    (none, l)
  else
    let required := offset + 1 + elements
    if required > l.size ∧ grows = false then (none, l)
    else
      let l := l.grown required
      (some (8 * (offset + 1)),
        { l with
          commandStreamUsed := required
          commandStream := (l.commandStream.store (8 * offset) (le 4 command.ctorIdx)).store
            (8 * offset + 4) (le 4 elements) })

end DeferredCommandList
end Replay
end BoltsRebuilt
