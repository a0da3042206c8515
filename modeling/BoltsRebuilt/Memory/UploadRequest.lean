/-
# Shared memory requests with the upload shadow

`src/gpu/vendored/src/graphics/d3d12/shared_memory.cpp`: `UploadRanges`,
`UpdateUploadShadow`, `UploadShadowInvalidated`, `UploadRangesWithShadow` (lines
333-637); `native_upload_shadow_compare.h`: `ClassifyUploadPages`;
`src/gpu/vendored/src/graphics/shared_memory.cpp`: `InvalidateAllPages`,
`SetSystemPageBlocksValidWithGpuDataWritten`, `ClearCache`, `FireWatches`,
`RangeWrittenByGpu`, `MakeRangeValid`, `VisitCpuAuthoritativeRange`,
`MemoryInvalidationCallback`.

The command processor thread runs requests one at a time.  `Point` is where it
stands: between two points it takes the global lock at most once, or does not
touch what the lock protects.  It is also the thread that records GPU writes and
calls `RangeWrittenByGpu` (memory export, resolve), so these fall between
requests.  Between any two of its points other threads write guest memory, which
the access callback turns into an invalidation, and invalidate everything.

Memory is counted in pages of the host.  What the GPU buffer holds is followed
in two ghost fields, which no code reads: `buffer`, its bytes once everything
queued so far has run, and `queued`, the bytes of the last upload of a page if
no GPU write touched the page since.
-/

import BoltsRebuilt.Lib.System
import BoltsRebuilt.Memory.Shadow
import Mathlib.Data.Vector.Basic

namespace BoltsRebuilt
namespace Memory

/-- `SharedMemory::kBufferSize`. -/
def kBufferSize : ℕ := 2 ^ 29

/-- The bytes of a host page. -/
abbrev PageData (pageBytes : ℕ) := List.Vector UInt8 pageBytes

/-- An upload range: its first page and how many. -/
abbrev PageRange := ℕ × ℕ

/-- The pages of upload ranges. -/
def pagesOf (ranges : List PageRange) : List ℕ := ranges.flatMap fun r => List.range' r.1 r.2

/-- Where `UploadRangesWithShadow` stands: the ranges of the request, the epoch
at its start, the pages of the current allocation still to do, and the ranges
after it. -/
structure Loop where
  ranges : List PageRange
  requestEpoch : ℕ
  first : ℕ := 0
  count : ℕ := 0
  rest : List PageRange

/-- Where the command processor thread stands. -/
inductive Point where
  | idle
  /-- A request has just returned. -/
  | returned (ok : Bool)
  /-- A GPU write is recorded, its watches have not been fired. -/
  | gpuWritten (first last : ℕ)
  /-- Its watches have been fired, its pages are not marked valid yet. -/
  | gpuFired (first last : ℕ)
  /-- `UploadRanges`. -/
  | entered (ranges : List PageRange)
  /-- `UpdateUploadShadow` has compared the setting with the last one. -/
  | modeSet (enabled : Bool) (ranges : List PageRange)
  /-- `UpdateUploadShadow` returned true. -/
  | shadowReady (ranges : List PageRange)
  /-- `RequestPartial` comes next. -/
  | allocating (l : Loop)
  /-- The loop over the chunks of an allocation. -/
  | chunks (l : Loop)
  /-- The pages of the chunk could not be captured. -/
  | refused (l : Loop)
  /-- They are out of the shadow and are copied next. -/
  | forgotten (l : Loop)
  /-- The chunk is captured; the runs of pages still to copy. -/
  | captured (l : Loop) (epoch : ℕ) (runs : List (List ℕ))
  /-- The copy of a run is recorded, the run is published next. -/
  | copied (l : Loop) (epoch : ℕ) (run : List ℕ) (runs : List (List ℕ))
  /-- The recursive `RequestRanges`. -/
  | retrying (ranges : List PageRange)
  /-- The loop of `UploadRanges` without the shadow. -/
  | plain (rest : List PageRange)
  /-- The pages of its allocation are marked valid and are copied next. -/
  | plainValid (first count : ℕ) (rest : List PageRange)

/-- The shared memory, with the ghost fields `queued`, `buffer` and `captures`
(the bytes the current request read last for a page). -/
structure State (pageBytes : ℕ) where
  mem : ℕ → PageData pageBytes
  valid : ℕ → Bool
  gpuWritten : ℕ → Bool
  requested : Bool
  failed : Bool
  shadow : Option UploadShadow
  scratch : ℕ → PageData pageBytes
  cp : Point
  queued : ℕ → Option (PageData pageBytes)
  buffer : ℕ → PageData pageBytes
  captures : ℕ → Option (PageData pageBytes)

section Operations

variable {pageBytes : ℕ}

/-- `UploadShadowInvalidated`. -/
def uploadShadowInvalidated (s : State pageBytes) (addressFirst addressLast : ℕ)
    (invalidatedByGpu : Bool) : State pageBytes :=
  match s.shadow with
  | none => s
  | some shadow =>
      if !s.requested then s
      else if addressFirst = 0 ∧ kBufferSize - 1 ≤ addressLast then
        { s with shadow := some shadow.reset }
      else if invalidatedByGpu then
        { s with shadow := some (shadow.invalidate addressFirst addressLast) }
      else s

/-- `FireWatches`, as far as the shadow is concerned. -/
def fireWatches (s : State pageBytes) (pageFirst pageLast : ℕ) (invalidatedByGpu : Bool) :
    State pageBytes :=
  uploadShadowInvalidated s (pageFirst * pageBytes) (pageLast * pageBytes + pageBytes - 1)
    invalidatedByGpu

/-- `MakeRangeValid`. -/
def makeRangeValid (s : State pageBytes) (pages : List ℕ) (writtenByGpu : Bool) :
    State pageBytes :=
  { s with
    valid := fun p => p ∈ pages || s.valid p
    gpuWritten := fun p => if p ∈ pages then writtenByGpu else s.gpuWritten p }

/-- `MemoryInvalidationCallback`, with the pages it selects. -/
def memoryInvalidationCallback (s : State pageBytes) (first last : ℕ) : State pageBytes :=
  fireWatches
    { s with
      valid := fun p => !(p ∈ Span.cells (first, last)) && s.valid p
      gpuWritten := fun p => !(p ∈ Span.cells (first, last)) && s.gpuWritten p }
    first last false

/-- `InvalidateAllPages`. -/
def invalidateAllPages (s : State pageBytes) : State pageBytes :=
  fireWatches { s with valid := fun _ => false, gpuWritten := fun _ => false }
    0 ((kBufferSize - 1) / pageBytes) false

/-- The first part of `UpdateUploadShadow`: a changed setting forgets
everything. -/
def updateMode (s : State pageBytes) (enabled : Bool) : State pageBytes :=
  if enabled = s.requested then s
  else { s with requested := enabled, failed := false, shadow := s.shadow.map .reset }

/-- Recording a copy of pages from `source` into the buffer. -/
def queueCopy (s : State pageBytes) (pages : List ℕ) (source : ℕ → PageData pageBytes) :
    State pageBytes :=
  { s with
    queued := fun p => if p ∈ pages then some (source p) else s.queued p
    buffer := fun p => if p ∈ pages then source p else s.buffer p }

/-- The request reads pages of guest memory. -/
def captureMem (s : State pageBytes) (pages : List ℕ) : State pageBytes :=
  { s with captures := fun p => if p ∈ pages then some (s.mem p) else s.captures p }

/-- The pages of the next chunk: at most 64 KiB of the allocation. -/
def Loop.chunk (l : Loop) (pageBytes : ℕ) : List ℕ :=
  List.range' l.first (min (kSnapshotBytes / pageBytes) l.count)

/-- The loop after that chunk. -/
def Loop.advance (l : Loop) (pageBytes : ℕ) : Loop :=
  { l with
    first := l.first + min (kSnapshotBytes / pageBytes) l.count
    count := l.count - min (kSnapshotBytes / pageBytes) l.count }

/-- `VisitCpuAuthoritativeRange` lets the visitor read the pages. -/
def cpuAuthoritative (s : State pageBytes) (pages : List ℕ) : Bool :=
  pages.all fun p => decide (p * pageBytes + pageBytes ≤ kBufferSize) && s.valid p && !s.gpuWritten p

/-- `ClassifyUploadPages`: the pages to copy. -/
def changed (s : State pageBytes) (shadow : UploadShadow) (p : ℕ) : Bool :=
  !shadow.matches? (p * pageBytes) (s.mem p).toList

/-- The maximal runs of changed pages of a chunk, after the run so far. -/
def changedRuns (changed : ℕ → Bool) : List ℕ → List ℕ → List (List ℕ)
  | run, [] => if run = [] then [] else [run]
  | run, p :: ps =>
      if changed p then changedRuns changed (run ++ [p]) ps
      else (if run = [] then [] else [run]) ++ changedRuns changed [] ps

/-- What `inspect` leaves in the scratch buffer: the whole chunk, or with direct
comparison only its changed pages. -/
def fillScratch (s : State pageBytes) (shadow : UploadShadow) (direct : Bool) (l : Loop) :
    ℕ → PageData pageBytes := fun i =>
  if l.first + i ∈ l.chunk pageBytes ∧ (direct = false ∨ changed s shadow (l.first + i)) then
    s.mem (l.first + i)
  else s.scratch i

/-- The page of the chunk in the scratch buffer. -/
def fromScratch (s : State pageBytes) (l : Loop) (p : ℕ) : PageData pageBytes :=
  s.scratch (p - l.first)

/-- `inspect`: the chunk is read and compared. -/
def inspect (s : State pageBytes) (shadow : UploadShadow) (direct : Bool) (l : Loop) :
    State pageBytes :=
  { captureMem s (l.chunk pageBytes) with
    scratch := fillScratch s shadow direct l
    cp := .captured l shadow.epoch (changedRuns (changed s shadow) [] (l.chunk pageBytes)) }

/-- `Publish` for the pages of a run. -/
def publishRun (s : State pageBytes) (shadow : UploadShadow) (l : Loop) (epoch : ℕ)
    (run : List ℕ) : UploadShadow :=
  run.foldl (fun shadow p => (shadow.publish (p * pageBytes) (fromScratch s l p).toList epoch).2)
    shadow

/-- The `Invalidate` of a range of pages. -/
def invalidateRange (pageBytes : ℕ) (shadow : UploadShadow) (r : PageRange) : UploadShadow :=
  shadow.invalidate (r.1 * pageBytes) (r.1 * pageBytes + r.2 * pageBytes - 1)

end Operations

/-- One step of the command processor thread or of another thread. -/
inductive Step (pageBytes : ℕ) : State pageBytes → State pageBytes → Prop
  /-- Another thread writes guest memory. -/
  | cpuWrite (s p bytes) : Step pageBytes s { s with mem := Function.update s.mem p bytes }
  /-- The access callback of a write. -/
  | cpuInvalidated (s first last) :
      Step pageBytes s (memoryInvalidationCallback s first last)
  | invalidateAll (s) : Step pageBytes s (invalidateAllPages s)
  /-- A GPU write to a range of pages is recorded. -/
  | gpuWrite {s} (first last) (contents : ℕ → PageData pageBytes) : s.cp = .idle →
      Step pageBytes s { s with
        cp := .gpuWritten first last
        queued := fun p => if p ∈ Span.cells (first, last) then none else s.queued p
        buffer := fun p => if p ∈ Span.cells (first, last) then contents p else s.buffer p }
  | gpuFire {s first last} : s.cp = .gpuWritten first last →
      Step pageBytes s { fireWatches s first last true with cp := .gpuFired first last }
  | gpuValid {s first last} : s.cp = .gpuFired first last →
      Step pageBytes s { makeRangeValid s (Span.cells (first, last)) true with cp := .idle }
  /-- `SetSystemPageBlocksValidWithGpuDataWritten`. -/
  | endFrame {s} : s.cp = .idle → Step pageBytes s { s with valid := s.gpuWritten }
  /-- The watches `ClearCache` fires. -/
  | clearCache {s} : s.cp = .idle →
      Step pageBytes s (fireWatches s 0 ((kBufferSize - 1) / pageBytes) true)
  /-- `RequestRanges` finds pages to upload. -/
  | request {s} (ranges) : s.cp = .idle → (∀ p ∈ pagesOf ranges, s.valid p = false) →
      Step pageBytes s { s with cp := .entered ranges, captures := fun _ => none }
  | setMode {s ranges} (enabled) : s.cp = .entered ranges →
      Step pageBytes s { updateMode s enabled with cp := .modeSet enabled ranges }
  | modeOff {s enabled ranges} : s.cp = .modeSet enabled ranges → enabled = false ∨ s.failed →
      Step pageBytes s { s with cp := .plain ranges }
  | modeKept {s ranges shadow} : s.cp = .modeSet true ranges → s.failed = false →
      s.shadow = some shadow →
      Step pageBytes s { s with
        cp := if shadow.pageBytes = 0 then .plain ranges else .shadowReady ranges }
  /-- The first use sets the shadow up. -/
  | modeCreated {s ranges shadow} : s.cp = .modeSet true ranges → s.failed = false →
      s.shadow = none →
      UploadShadow.initializeWith {} pageBytes kDefaultCapacityBytes = (true, shadow) →
      Step pageBytes s { s with shadow := some shadow, cp := .shadowReady ranges }
  /-- The page size or an allocation does not allow it. -/
  | modeFailed {s ranges} : s.cp = .modeSet true ranges → s.failed = false → s.shadow = none →
      Step pageBytes s { s with failed := true, cp := .plain ranges }
  | start {s ranges shadow} : s.cp = .shadowReady ranges → s.shadow = some shadow →
      Step pageBytes s { s with
        cp := .allocating { ranges, requestEpoch := shadow.epoch, rest := ranges } }
  | nextRange {s l first rest} : s.cp = .allocating l → l.rest = (first, 0) :: rest →
      Step pageBytes s { s with cp := .allocating { l with rest } }
  /-- `RequestPartial` returns room for `size` pages, which become valid. -/
  | allocate {s l first length rest} (size) : s.cp = .allocating l →
      l.rest = (first, length) :: rest → 0 < size → size ≤ length →
      Step pageBytes s { makeRangeValid s (List.range' first size) false with
        cp := .chunks { l with
          first, count := size, rest := (first + size, length - size) :: rest } }
  | allocateFails {s l first length rest} : s.cp = .allocating l →
      l.rest = (first, length) :: rest → 0 < length →
      Step pageBytes s { s with cp := .returned false }
  | chunksDone {s l} : s.cp = .chunks l → l.count = 0 →
      Step pageBytes s { s with cp := .allocating l }
  /-- A shadow that was switched off meanwhile has no page size to divide by. -/
  | visit {s l shadow} (direct) : s.cp = .chunks l → 0 < l.count → s.shadow = some shadow →
      shadow.pageBytes ≠ 0 → cpuAuthoritative s (l.chunk pageBytes) →
      Step pageBytes s (inspect s shadow direct l)
  | visitRefused {s l} : s.cp = .chunks l → 0 < l.count →
      cpuAuthoritative s (l.chunk pageBytes) = false →
      Step pageBytes s { s with cp := .refused l }
  | forget {s l} : s.cp = .refused l →
      Step pageBytes s { s with
        shadow := s.shadow.map (invalidateRange pageBytes ·
          (l.first, min (kSnapshotBytes / pageBytes) l.count))
        cp := .forgotten l }
  | copyRefused {s l} : s.cp = .forgotten l →
      Step pageBytes s { queueCopy (captureMem s (l.chunk pageBytes)) (l.chunk pageBytes) s.mem with
        cp := .chunks (l.advance pageBytes) }
  | copyRun {s l epoch run runs} : s.cp = .captured l epoch (run :: runs) →
      Step pageBytes s { queueCopy s run (fromScratch s l) with cp := .copied l epoch run runs }
  | publish {s l epoch run runs} : s.cp = .copied l epoch run runs →
      Step pageBytes s { s with
        shadow := s.shadow.map (publishRun s · l epoch run)
        cp := .captured l epoch runs }
  | runsDone {s l epoch} : s.cp = .captured l epoch [] →
      Step pageBytes s { s with cp := .chunks (l.advance pageBytes) }
  | finish {s l shadow} : s.cp = .allocating l → l.rest = [] → s.shadow = some shadow →
      shadow.epoch = l.requestEpoch → Step pageBytes s { s with cp := .returned true }
  /-- No memory for the ranges to retry. -/
  | retryFails {s l shadow} : s.cp = .allocating l → l.rest = [] → s.shadow = some shadow →
      shadow.epoch ≠ l.requestEpoch →
      Step pageBytes s { s with shadow := some shadow.reset, cp := .returned false }
  | retry {s l shadow} : s.cp = .allocating l → l.rest = [] → s.shadow = some shadow →
      shadow.epoch ≠ l.requestEpoch →
      Step pageBytes s { s with
        shadow := some (l.ranges.foldl (invalidateRange pageBytes) shadow)
        cp := .retrying l.ranges }
  /-- The recursive `RequestRanges` finds the pages that are not valid. -/
  | retryScan {s ranges} (uploads) : s.cp = .retrying ranges →
      (∀ p, p ∈ pagesOf uploads ↔ p ∈ pagesOf ranges ∧ s.valid p = false) →
      Step pageBytes s { s with cp := .plain uploads }
  | retryScanFails {s ranges} : s.cp = .retrying ranges →
      Step pageBytes s { s with cp := .returned false }
  | plainNextRange {s first rest} : s.cp = .plain ((first, 0) :: rest) →
      Step pageBytes s { s with cp := .plain rest }
  | plainAllocate {s first length rest} (size) : s.cp = .plain ((first, length) :: rest) →
      0 < size → size ≤ length →
      Step pageBytes s { makeRangeValid s (List.range' first size) false with
        cp := .plainValid first size ((first + size, length - size) :: rest) }
  | plainAllocateFails {s first length rest} : s.cp = .plain ((first, length) :: rest) →
      0 < length → Step pageBytes s { s with cp := .returned false }
  | plainCopy {s first count rest} : s.cp = .plainValid first count rest →
      Step pageBytes s
        { queueCopy (captureMem s (List.range' first count)) (List.range' first count) s.mem with
          cp := .plain rest }
  | plainDone {s} : s.cp = .plain [] → Step pageBytes s { s with cp := .returned true }
  | leave {s ok} : s.cp = .returned ok → Step pageBytes s { s with cp := .idle }

/-- The shared memory of a process: nothing is valid or uploaded at its start. -/
def uploads (pageBytes : ℕ) : System (State pageBytes) where
  init s := s.cp = .idle ∧ s.requested = false ∧ s.failed = false ∧ s.shadow = none ∧
    (∀ p, s.valid p = false ∧ s.gpuWritten p = false ∧ s.queued p = none)
  step := Step pageBytes

end Memory
end BoltsRebuilt
