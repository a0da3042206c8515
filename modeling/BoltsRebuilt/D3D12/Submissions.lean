/-
# Submissions and what they use

`D3D12CommandProcessor` (`vendored/src/graphics/d3d12/command_processor.cpp`): `BeginSubmission`,
`EndSubmission`, `CheckSubmissionFence` and `EnsureWritableCommandAllocator` (lines 3758-3773 and
3835-4408), the beginning of a chunk session (3776-3823), the bindless view descriptors (843-900) and
the scratch buffer (1028-1074); and of the texture cache the usage list, the eviction and the
descriptors of a texture (`pipeline/texture/cache.cpp`, lines 369-426, 757-806 and 826-852;
`d3d12/texture_cache.cpp`, lines 1441-1445, 2085-2093 and 2177-2228).

The GPU executes submissions in order and long after they are recorded.  Command allocators,
descriptors, buffers and textures are given back with the number of the last submission that uses
them, and taken again when the fence has passed it.

`World` holds the processor and what the proofs speak of: how far the GPU is (`fence`), every use
that was recorded (`uses`), and what the last step overwrites or releases (`handed`).  Objects are
numbered as they are created.  The 64-bit numbers of submissions and frames are naturals: they are taken
not to wrap.  The linked lists of the source are lists, first to last; the vector of free descriptors has
its back first.  What the outside decides (results of calls, the clock, how many
submissions the GPU completes meanwhile) is in `Closing`, `Observation` and the arguments.

Left out are the contents of the command lists, the readback buffers, the post-processing textures and
the descriptor heaps of the bindful path.
-/

import Mathlib.Algebra.GroupWithZero.Nat
import Mathlib.Algebra.Ring.Int.Defs
import Mathlib.Data.List.Basic
import Mathlib.Logic.Function.Basic

namespace BoltsRebuilt
namespace D3D12

/-- What a submission uses: a command allocator, a bindless view descriptor, or a buffer or texture. -/
inductive Item
  | allocator (number : ℕ)
  | view (index : ℕ)
  | resource (number : ℕ)
deriving DecidableEq

structure CommandAllocator where
  commandAllocator : ℕ
  lastUsageSubmission : ℕ

/-- `D3D12TextureCache::D3D12Texture`, over the keys `κ`. -/
structure Texture (κ : Type) where
  key : κ
  resource : ℕ
  lastUsageSubmissionIndex : ℕ
  lastUsageTime : ℕ
  hostMemoryUsage : ℕ
  /-- `srv_descriptors_`, by the word of an `SRVDescriptorKey`. -/
  srvDescriptors : List (ℕ × ℕ)

/-- The indices of a texture's descriptors. -/
def Texture.views {κ : Type} (t : Texture κ) : List ℕ := t.srvDescriptors.map Prod.snd

/-- `kQueueFrames` -/
def kQueueFrames : ℕ := 3

/-- `SystemBindlessView::kCount` -/
def kSystemBindlessViewCount : ℕ := 23

def kViewBindlessHeapSize : ℕ := 262144

def kScratchBufferSizeIncrement : ℕ := 16 * 1024 * 1024

/-- The processor with its texture cache, and the GPU. -/
structure World (κ : Type) where
  deviceRemoved : Bool
  submissionOpen : Bool
  submissionCurrent : ℕ
  submissionCompleted : ℕ
  frameOpen : Bool
  frameCurrent : ℕ
  frameCompleted : ℕ
  closedFrameSubmissions : ℕ → ℕ
  commandAllocatorWritable : List CommandAllocator
  commandAllocatorSubmitted : List CommandAllocator
  nativeChunkAllocator : Option CommandAllocator
  viewBindlessHeapFree : List ℕ
  viewBindlessHeapAllocated : ℕ
  viewBindlessOneUseDescriptors : List (ℕ × ℕ)
  resourcesForDeletion : List (ℕ × ℕ)
  scratchBuffer : Option ℕ
  scratchBufferSize : ℕ
  scratchBufferUsed : Bool
  cacheClearRequested : Bool
  /-- The textures, in the order of their usage, and the texture of each binding. -/
  textures : List (Texture κ)
  texturesTotalHostMemoryUsage : ℕ
  textureBindings : ℕ → Option ℕ
  currentSubmissionIndex : ℕ
  currentSubmissionTime : ℕ
  created : ℕ
  /-- The last submission the GPU has completed. -/
  fence : ℕ
  uses : List (ℕ × Item)
  handed : List Item

namespace World

variable {κ : Type} (w : World κ)

/-! ### Closing a submission -/

/-- What calls from `EndSubmission` return. -/
structure Closing where
  /-- `FlushNativeReplay` at the beginning. -/
  flush : Bool
  /-- `CreateCommandAllocator`. -/
  creates : Bool
  /-- The end of the chunks, or `ResolvePipelineHandlesForReplay` of an asynchronous replay. -/
  replays : Bool
  /-- `FlushNativeReplay` after the end of the chunks. -/
  flushChunks : Bool

/-- `CheckNativeReplayResult` of a failure. -/
def removed : World κ := { w with deviceRemoved := true }

/-- `EnsureWritableCommandAllocator` -/
def ensureWritableCommandAllocator (creates : Bool) : Bool × World κ :=
  match w.commandAllocatorWritable with
  | _ :: _ => (true, w)
  | [] =>
    if creates then
      (true, { w with commandAllocatorWritable := [⟨w.created, 0⟩], created := w.created + 1 })
    else (false, w)

/-- The bookkeeping of a submission that has been given to the queue. -/
def submitted (allocator : CommandAllocator) : World κ :=
  { w with
    commandAllocatorSubmitted := w.commandAllocatorSubmitted ++
      [{ allocator with lastUsageSubmission := w.submissionCurrent }]
    submissionCurrent := w.submissionCurrent + 1
    submissionOpen := false
    uses := (w.submissionCurrent, .allocator allocator.commandAllocator) :: w.uses }

/-- The commands of the submission are recorded with the first writable allocator, which is reset. -/
def submitWritable (c : Closing) : Bool × World κ :=
  match w.commandAllocatorWritable with
  | allocator :: next =>
    if c.replays then
      (true, { w with
        commandAllocatorWritable := next
        handed := .allocator allocator.commandAllocator :: w.handed }.submitted allocator)
    else (false, w.removed)
  | [] => (false, w)

/-- The end of the chunks, whose allocator is kept until now. -/
def submitChunks (c : Closing) (isSwap : Bool) (allocator : CommandAllocator) : Bool × World κ :=
  if ¬c.replays then (false, w.removed)
  else if isSwap ∧ ¬c.flushChunks then (false, w.removed)
  else (true, { w with nativeChunkAllocator := none }.submitted allocator)

/-- `EndSubmission`, up to the end of the frame. -/
def closeSubmission (c : Closing) (isSwap : Bool) : Bool × World κ :=
  if ¬c.flush then (false, w.removed)
  else if w.deviceRemoved then (false, w)
  else if w.submissionOpen then
    match w.nativeChunkAllocator with
    | some allocator => w.submitChunks c isSwap allocator
    | none =>
      match w.ensureWritableCommandAllocator c.creates with
      | (false, w) => (false, w)
      | (true, w) => w.submitWritable c
  else (true, w)

/-- The first chunk of a submission, which the worker accepts. -/
def beginChunks (creates : Bool) : World κ :=
  match w.ensureWritableCommandAllocator creates with
  | (false, w) => w
  | (true, w) =>
    match w.commandAllocatorWritable with
    | allocator :: next =>
      { w with
        commandAllocatorWritable := next
        nativeChunkAllocator := some allocator
        handed := .allocator allocator.commandAllocator :: w.handed
        uses := (w.submissionCurrent, .allocator allocator.commandAllocator) :: w.uses }
    | [] => w

/-! ### What the fence gives back -/

/-- The command allocators whose submissions are completed. -/
def reclaimCommandAllocators : World κ :=
  { w with
    commandAllocatorWritable := w.commandAllocatorWritable ++
      w.commandAllocatorSubmitted.takeWhile fun a => a.lastUsageSubmission ≤ w.submissionCompleted
    commandAllocatorSubmitted :=
      w.commandAllocatorSubmitted.dropWhile fun a => a.lastUsageSubmission ≤ w.submissionCompleted }

/-- `ReleaseViewBindlessDescriptorImmediately`, of each. -/
def releaseViews (indices : List ℕ) : World κ :=
  { w with viewBindlessHeapFree := indices.reverse ++ w.viewBindlessHeapFree }

/-- The single-use descriptors. -/
def releaseOneUseDescriptors : World κ :=
  { w.releaseViews ((w.viewBindlessOneUseDescriptors.takeWhile fun d => d.2 ≤ w.submissionCompleted).map Prod.fst) with
    viewBindlessOneUseDescriptors :=
      w.viewBindlessOneUseDescriptors.dropWhile fun d => d.2 ≤ w.submissionCompleted }

/-- The transient resources. -/
def deleteResources : World κ :=
  { w with
    resourcesForDeletion := w.resourcesForDeletion.dropWhile fun r => r.1 ≤ w.submissionCompleted
    handed := ((w.resourcesForDeletion.takeWhile fun r => r.1 ≤ w.submissionCompleted).map fun r =>
      Item.resource r.2) ++ w.handed }

/-- The limits on the memory of the textures, in megabytes, and their lifetime. -/
structure Limits where
  soft : ℕ
  hard : ℕ
  softLifetime : ℕ

/-- `total_host_memory_usage_mb` -/
def megabytes (total : ℕ) : ℕ := (total + (2 ^ 20 - 1)) / 2 ^ 20

/-- A texture stays: the usage is within the limits, it is in use, or it is young. -/
def stays (limits : Limits) (completed now total : ℕ) (t : Texture κ) : Bool :=
  (megabytes total ≤ limits.soft ∧ megabytes total ≤ limits.hard) ∨
    completed < t.lastUsageSubmissionIndex ∨
    (megabytes total ≤ limits.hard ∧ now < t.lastUsageTime + limits.softLifetime)

/-- The textures to destroy, from the first of the usage list on, and those that are left. -/
def evict (limits : Limits) (completed now : ℕ) : ℕ → List (Texture κ) → List (Texture κ) × List (Texture κ)
  | _, [] => ([], [])
  | total, t :: rest =>
    if stays limits completed now total t then ([], t :: rest)
    else
      let evicted := evict limits completed now (total - t.hostMemoryUsage) rest
      (t :: evicted.1, evicted.2)

/-- `~D3D12Texture` of textures that are no longer in the list. -/
def destroyTextures (destroyed : List (Texture κ)) : World κ :=
  { w.releaseViews (destroyed.flatMap Texture.views) with
    texturesTotalHostMemoryUsage := w.texturesTotalHostMemoryUsage - (destroyed.map Texture.hostMemoryUsage).sum
    handed := (destroyed.map fun t => Item.resource t.resource) ++ w.handed }

/-- `TextureCache::CompletedSubmissionUpdated` -/
def texturesCompletedSubmissionUpdated (limits : Limits) (now : ℕ) : World κ :=
  let evicted := evict limits w.submissionCompleted now w.texturesTotalHostMemoryUsage w.textures
  { w.destroyTextures evicted.1 with
    textures := evicted.2
    textureBindings := if evicted.1.isEmpty then w.textureBindings else fun _ => none }

/-! ### The fence -/

/-- What `CheckSubmissionFence` finds; `none` where `GetCompletedValue` tells that the device is removed,
else how many more submissions are completed. -/
structure Observation where
  /-- The result of the replay worker. -/
  result : Bool
  closing : Closing
  /-- `FlushNativeReplay` before the wait for the queue operations, where there are any. -/
  flushQueue : Bool
  completed : Option ℕ
  /-- `FlushNativeReplay` before the wait. -/
  flush : Bool
  /-- The wait, where it can be set up. -/
  waited : Option (Option ℕ)
  /-- `queue_operations_done_since_submission_signal_` afterwards. -/
  queueOperationsDone : Bool
  limits : Limits
  now : ℕ

/-- The GPU completes more of what has been submitted. -/
def complete (more : ℕ) : World κ := { w with fence := min (w.fence + more) (w.submissionCurrent - 1) }

/-- `GetCompletedValue` -/
def readFence (more : ℕ) : World κ :=
  { w.complete more with submissionCompleted := (w.complete more).fence }

/-- The reading of the fence, with the wait; `none` where the function returns. -/
def awaitFence (o : Observation) (awaitSubmission : ℕ) : Bool × World κ :=
  match o.completed with
  | none => (false, w.removed)
  | some more =>
    let w := w.readFence more
    if w.submissionCompleted < awaitSubmission then
      if ¬o.flush then (false, w.removed)
      else
        match o.waited with
        | none => (true, w)
        | some none => (false, w.removed)
        | some (some more) => (true, w.readFence more)
    else (true, w)

/-- The ends of the lists that are reclaimed. -/
def reclaim (limits : Limits) (now : ℕ) : World κ :=
  w.reclaimCommandAllocators.releaseOneUseDescriptors.deleteResources.texturesCompletedSubmissionUpdated limits now

/-- `CheckSubmissionFence`, from the reading of the fence on. -/
def updateCompleted (o : Observation) (awaitSubmission : ℕ) : World κ :=
  match w.awaitFence o awaitSubmission with
  | (false, w) => w
  | (true, w') => if w'.submissionCompleted ≤ w.submissionCompleted then w' else w'.reclaim o.limits o.now

/-- `CheckSubmissionFence` -/
def checkSubmissionFence (o : Observation) (awaitSubmission : ℕ) : World κ :=
  if ¬o.result then w.removed
  else if awaitSubmission ≥ w.submissionCurrent then
    match (if w.submissionOpen then w.closeSubmission o.closing false else (true, w)) with
    | (false, w) => w
    | (true, w) =>
      if ¬o.flushQueue then w.removed else w.updateCompleted o (w.submissionCurrent - 1)
  else w.updateCompleted o awaitSubmission

/-! ### Submissions and frames -/

/-- The frames from the one after `frame` on whose submissions are completed, at most so many. -/
def completedFrames (frame : ℕ) : ℕ → ℕ
  | 0 => frame
  | count + 1 =>
    if w.closedFrameSubmissions ((frame + 1) % kQueueFrames) > w.submissionCompleted then frame
    else completedFrames (frame + 1) count

/-- The completed frame, when a frame is opened. -/
def updateFrameCompleted : World κ :=
  let frameCompleted := max w.frameCurrent kQueueFrames - kQueueFrames
  { w with frameCompleted := w.completedFrames frameCompleted (w.frameCurrent - 1 - frameCompleted) }

/-- `TextureCache::BeginSubmission` -/
def openSubmission (now : ℕ) : World κ :=
  if w.submissionOpen then w
  else
    { w with submissionOpen := true, currentSubmissionIndex := w.submissionCurrent, currentSubmissionTime := now }

/-- `BeginSubmission`; `available` is whether the device is. -/
def beginSubmission (isGuestCommand result available : Bool) (o : Observation) (now : ℕ) : World κ :=
  if ¬result then w.removed
  else if w.deviceRemoved then w
  else
    let isOpeningFrame := isGuestCommand && !w.frameOpen
    if w.submissionOpen ∧ ¬isOpeningFrame then w
    else if ¬available then w.removed
    else
      let awaitSubmission :=
        if isOpeningFrame then w.closedFrameSubmissions (w.frameCurrent % kQueueFrames) else 0
      let w := w.checkSubmissionFence o awaitSubmission
      if w.deviceRemoved then w
      else if isOpeningFrame then
        { w.updateFrameCompleted.openSubmission now with frameOpen := true, textureBindings := fun _ => none }
      else w.openSubmission now

/-- The result of `AwaitAllQueueOperationsCompletion` after `CheckSubmissionFence`. -/
def idle (o : Observation) : Bool :=
  o.flush ∧ ¬w.deviceRemoved ∧ ¬w.submissionOpen ∧ w.nativeChunkAllocator.isNone ∧ ¬o.queueOperationsDone ∧
    w.submissionCompleted + 1 ≥ w.submissionCurrent

/-- The caches that are cleared at the end of a frame, all queue operations being completed. -/
def clearCaches : World κ :=
  { w.destroyTextures w.textures with
    cacheClearRequested := false
    commandAllocatorWritable := []
    commandAllocatorSubmitted := []
    scratchBuffer := none
    scratchBufferSize := 0
    textures := []
    textureBindings := fun _ => none
    handed := (w.commandAllocatorWritable ++ w.commandAllocatorSubmitted).map
        (fun a => Item.allocator a.commandAllocator) ++
      w.scratchBuffer.toList.map Item.resource ++ (w.destroyTextures w.textures).handed }

/-- The end of a frame. -/
def closeFrame (o : Observation) : World κ :=
  let w := { w with
    frameOpen := false
    closedFrameSubmissions := Function.update w.closedFrameSubmissions (w.frameCurrent % kQueueFrames)
      (w.submissionCurrent - 1)
    frameCurrent := w.frameCurrent + 1 }
  if w.cacheClearRequested then
    let w := w.checkSubmissionFence o w.submissionCurrent
    if w.idle o then w.clearCaches else w
  else w

/-- `EndSubmission` -/
def endSubmission (c : Closing) (isSwap : Bool) (o : Observation) : World κ :=
  match w.closeSubmission c isSwap with
  | (false, w) => w
  | (true, w) => if isSwap ∧ w.frameOpen then w.closeFrame o else w

/-! ### Descriptors and the scratch buffer -/

/-- A free descriptor, or a new one. -/
def takeView : ℕ × World κ :=
  match w.viewBindlessHeapFree with
  | index :: rest => (index, { w with viewBindlessHeapFree := rest, handed := .view index :: w.handed })
  | [] =>
    (w.viewBindlessHeapAllocated,
      { w with
        viewBindlessHeapAllocated := w.viewBindlessHeapAllocated + 1
        handed := .view w.viewBindlessHeapAllocated :: w.handed })

/-- `RequestPersistentViewBindlessDescriptor` -/
def requestPersistentViewBindlessDescriptor : Option ℕ × World κ :=
  if w.viewBindlessHeapFree = [] ∧ w.viewBindlessHeapAllocated ≥ kViewBindlessHeapSize then (none, w)
  else (some w.takeView.1, w.takeView.2)

/-- The loop of `RequestOneUseSingleViewDescriptors`; the commands that follow use the descriptors. -/
def takeOneUse : ℕ → World κ → World κ
  | 0, w => w
  | count + 1, w =>
    takeOneUse count { w.takeView.2 with
      viewBindlessOneUseDescriptors := w.viewBindlessOneUseDescriptors ++ [(w.takeView.1, w.submissionCurrent)]
      uses := (w.submissionCurrent, .view w.takeView.1) :: w.uses }

/-- `RequestOneUseSingleViewDescriptors` -/
def requestOneUseSingleViewDescriptors (count : ℕ) : World κ :=
  if count > kViewBindlessHeapSize - w.viewBindlessHeapAllocated + w.viewBindlessHeapFree.length then w
  else takeOneUse count w

/-- `RequestScratchGPUBuffer`; the commands that follow use the buffer. -/
def requestScratchGPUBuffer (size : ℕ) (creates : Bool) : World κ :=
  if ¬w.submissionOpen ∨ w.scratchBufferUsed ∨ size = 0 then w
  else if size ≤ w.scratchBufferSize then
    { w with
      scratchBufferUsed := true
      uses := w.scratchBuffer.toList.map (fun r => (w.submissionCurrent, Item.resource r)) ++ w.uses }
  else if creates then
    { w with
      resourcesForDeletion := w.resourcesForDeletion ++ w.scratchBuffer.toList.map fun r => (w.submissionCurrent, r)
      scratchBuffer := some w.created
      scratchBufferSize :=
        (size + kScratchBufferSizeIncrement - 1) / kScratchBufferSizeIncrement * kScratchBufferSizeIncrement
      scratchBufferUsed := true
      created := w.created + 1
      uses := (w.submissionCurrent, .resource w.created) :: w.uses }
  else w

/-! ### Textures -/

variable [DecidableEq κ]

/-- `FindOrCreateTexture`, where the texture can be created. -/
def findOrCreateTexture (key : κ) (hostMemoryUsage : ℕ) : World κ :=
  if w.textures.any (·.key = key) then w
  else
    { w with
      textures := w.textures ++
        [⟨key, w.created, w.currentSubmissionIndex, w.currentSubmissionTime, hostMemoryUsage, []⟩]
      texturesTotalHostMemoryUsage := w.texturesTotalHostMemoryUsage + hostMemoryUsage
      created := w.created + 1 }

omit [DecidableEq κ] in
/-- A binding of the texture that was found, or of none. -/
def bindTexture (index : ℕ) (texture : Option (Texture κ)) : World κ :=
  { w with textureBindings := Function.update w.textureBindings index (texture.map Texture.resource) }

omit [DecidableEq κ] in
/-- `FindOrCreateTextureDescriptor`, of a supported format. -/
def findOrCreateTextureDescriptor (before : List (Texture κ)) (t : Texture κ) (after : List (Texture κ))
    (descriptorKey : ℕ) : World κ :=
  if t.srvDescriptors.any (·.1 = descriptorKey) then w
  else
    match w.requestPersistentViewBindlessDescriptor with
    | (none, w) => w
    | (some index, w) =>
      { w with
        textures := before ++ { t with srvDescriptors := t.srvDescriptors ++ [(descriptorKey, index)] } :: after }

omit [DecidableEq κ] in
/-- `MarkAsUsed`, of the texture between the others in the usage list; the commands that follow use the
texture and its descriptors. -/
def markAsUsed (before : List (Texture κ)) (t : Texture κ) (after : List (Texture κ)) : World κ :=
  { w with
    textures :=
      if t.lastUsageSubmissionIndex ≥ w.currentSubmissionIndex then before ++ t :: after
      else
        before ++ after ++
          [{ t with
              lastUsageSubmissionIndex := w.currentSubmissionIndex
              lastUsageTime := w.currentSubmissionTime }]
    uses := ((.resource t.resource :: t.views.map Item.view).map fun item => (w.submissionCurrent, item)) ++ w.uses }

end World
end D3D12
end BoltsRebuilt
