/-
# The GPU budget probe

`gpu/native/native_gpu_budget_probe.cpp`: the recording calls (lines 89-226),
`TryFinish` and `Finish` (lines 232-346).

The probe waits until the game has run for a while, then brackets every
submission of the next frames, and the render target scopes inside, with
timestamps.  It keeps going whatever happens and latches what went wrong;
`finish` tells whether the capture is worth reading.

A slot index `kNoSlot` is `none` here.  The clock, the mapping of the readback
buffers, their contents and the outcome of writing the two files are arguments;
the text of the files is not modelled.
-/

import BoltsRebuilt.Lib.QueryLog
import Mathlib.Data.Int.Notation

namespace BoltsRebuilt
namespace BudgetProbe

/-- `kSubmissionCapacity`. -/
def submissionCapacity : ℕ := 8192

/-- `kGroupCapacity`. -/
def groupCapacity : ℕ := 3072

/-- `kGroupsPerFrame`. -/
def groupsPerFrame : ℕ := 512

/-- `kNoSlot` where the source returns it. -/
def noSlot : UInt32 := 0xFFFFFFFF

/-- The initial `observed_frame_`, `UINT64_MAX`. -/
def noFrame : UInt64 := 0xFFFFFFFFFFFFFFFF

inductive Category
  | other
  | transfer
  | stencil1
  | stencil2
  | stencil4
  | dump
  | resolveCopy
  deriving DecidableEq, Inhabited

/-- The value of the source's enumerator. -/
def Category.code : Category → UInt32
  | .other => 0
  | .transfer => 1
  | .stencil1 => 2
  | .stencil2 => 3
  | .stencil4 => 4
  | .dump => 5
  | .resolveCopy => 6

/-- The two query heaps. -/
inductive Heap
  | submission
  | group
  deriving DecidableEq

/-- The counters of `Operation`. -/
structure Tally where
  operations : UInt64 := 0
  draws : UInt64 := 0
  dispatches : UInt64 := 0
  copyBytes : UInt64 := 0
  deriving DecidableEq, Inhabited

def Tally.add (t : Tally) (op : UInt32) (copyBytes : UInt64) : Tally where
  operations := t.operations + 1
  draws := t.draws + if op = 0 then 1 else 0
  dispatches := t.dispatches + if op = 1 then 1 else 0
  copyBytes := t.copyBytes + copyBytes

structure Submission where
  frame : UInt64
  resourceFrame : UInt64
  submission : UInt64
  firstGroup : ℕ
  ended : Bool := false
  closesFrame : Bool := false
  total : Tally := {}
  transfers : UInt64 := 0
  tiles : UInt64 := 0
  dumps : UInt64 := 0
  scopeEntries : UInt64 := 0
  scopeTotal : Tally := {}
  /-- `category_entries`, by the value of the enumerator. -/
  categoryEntries : List UInt64 := List.replicate 7 0
  deriving DecidableEq, Inhabited

structure Group where
  frame : UInt64
  submission : UInt64
  category : Category
  total : Tally := {}
  ended : Bool := false
  deriving DecidableEq, Inhabited

/-- The probe's members, and `list`, what it has recorded for the device. -/
structure Probe where
  startSeconds : UInt32
  frameCount : UInt32
  groupPeriod : UInt32
  submissions : List Submission := []
  groups : List Group := []
  firstFrameTime : ℤ := 0
  observedFrame : UInt64 := noFrame
  firstFrame : UInt64 := 0
  lastSubmission : UInt64 := 0
  submissionOverflow : UInt64 := 0
  groupOverflow : UInt64 := 0
  previousTransfers : UInt64 := 0
  previousTiles : UInt64 := 0
  previousDumps : UInt64 := 0
  counterReset : Bool := false
  scopeError : Bool := false
  alignmentError : Bool := false
  frameCloses : UInt32 := 0
  currentSubmission : Option ℕ := none
  currentGroup : Option ℕ := none
  groupsThisFrame : ℕ := 0
  scope : Category := .other
  frameSelected : Bool := false
  groupsSelected : Bool := false
  groupsTruncated : Bool := false
  finished : Bool := false
  completionProven : Bool := false
  /-- `RetainInFlight` has detached the query objects.  No recording call reads it: the source
  goes on with null heaps. -/
  retained : Bool := false
  list : List (QueryCommand Heap) := []

/-- `Create`: the device, the queue and the path are there, the window and the
number of grouped frames in range, and the device gave a timestamp frequency and
the query heaps. -/
def create (device queue : Bool) (path : String) (startSeconds frameCount groupPeriod : UInt32)
    (frequency : Option UInt64) (submissionQueries groupQueries : Bool) : Option Probe :=
  if !device || !queue || path.isEmpty || frameCount == 0 || decide (frameCount > 2400) ||
      (groupPeriod != 0 && decide ((frameCount - 1) / groupPeriod + 1 > 6)) then none
  else if (frequency.getD 0) == 0 || !submissionQueries then none
  else if groupPeriod != 0 && !groupQueries then none
  else some { startSeconds, frameCount, groupPeriod }

/-- A probe before its first call. -/
def fresh (startSeconds frameCount groupPeriod : UInt32) : Probe :=
  { startSeconds, frameCount, groupPeriod }

/-- A probe that was created is a fresh one. -/
theorem create_eq_fresh {device queue : Bool} {path : String}
    {startSeconds frameCount groupPeriod : UInt32} {frequency : Option UInt64}
    {submissionQueries groupQueries : Bool} {p : Probe}
    (h : create device queue path startSeconds frameCount groupPeriod frequency submissionQueries
      groupQueries = some p) : p = fresh startSeconds frameCount groupPeriod := by
  unfold create at h
  split_ifs at h
  exact (Option.some.inj h).symm

namespace Probe

/-- The first frame number past the capture, in 64 bits. -/
def captureEnd (p : Probe) (firstFrame : UInt64) : UInt64 := firstFrame + p.frameCount.toUInt64

/-- `first_frame_time_` once a frame is observed at `now`. -/
def firstTime (p : Probe) (now : ℤ) : ℤ :=
  if p.observedFrame = noFrame then now else p.firstFrameTime

/-- `first_frame_` once `frame` is observed: the first frame late enough. -/
def firstOf (p : Probe) (frame : UInt64) (now : ℤ) : UInt64 :=
  if p.firstFrame = 0 ∧ frame ≠ 0 ∧
      now - p.firstTime now ≥ (p.startSeconds.toNat : ℤ) * 1000000000 then frame
  else p.firstFrame

/-- The check of `ObserveFrame` at a boundary of the capture that begins at
`firstFrame`, the one into it and the one out of its last frame included. -/
def misaligned (p : Probe) (frame firstFrame : UInt64) : Bool :=
  decide (firstFrame ≠ 0 ∧ p.observedFrame ≠ noFrame ∧
      p.observedFrame < p.captureEnd firstFrame) &&
    decide (frame ≠ p.observedFrame + 1 ∨ p.frameCloses ≠ 1 ∨ p.currentSubmission ≠ none)

/-- `ObserveFrame`, at the time `now` in nanoseconds. -/
def observeFrame (p : Probe) (frame : UInt64) (now : ℤ) : Probe :=
  if frame = p.observedFrame then p
  else
    let firstFrame := p.firstOf frame now
    let frameSelected :=
      !p.finished && decide (firstFrame ≠ 0 ∧ frame ≥ firstFrame ∧
        frame - firstFrame < p.frameCount.toUInt64)
    { p with
      firstFrameTime := p.firstTime now
      firstFrame
      alignmentError := p.alignmentError || p.misaligned frame firstFrame
      observedFrame := frame
      frameCloses := 0
      frameSelected
      groupsSelected := frameSelected && decide (p.groupPeriod ≠ 0 ∧
        (frame - firstFrame) % p.groupPeriod.toUInt64 = 0)
      groupsThisFrame := 0
      groupsTruncated := false }

/-- `BeginSubmission`. -/
def beginSubmission (p : Probe) (frame resourceFrame submission : UInt64) (now : ℤ) : Probe :=
  let p := { p.observeFrame frame now with currentSubmission := none, currentGroup := none }
  if !p.frameSelected then p
  else if p.submissions.length = submissionCapacity then
    { p with submissionOverflow := p.submissionOverflow + 1 }
  else
    { p with
      currentSubmission := some p.submissions.length
      submissions := p.submissions ++
        [{ frame, resourceFrame, submission, firstGroup := p.groups.length }]
      lastSubmission := submission
      list := p.list ++ [.endQuery .submission (2 * p.submissions.length)] }

/-- `EndGroup`. -/
def endGroup (p : Probe) : Probe :=
  match p.currentGroup with
  | none => p
  | some g =>
    { p with
      list := p.list ++ [.endQuery .group (2 * g + 1)]
      groups := p.groups.modify g ({ · with ended := true })
      currentGroup := none }

/-- The part of `EndSubmission` that counts a close, and the counters' deltas. -/
def closeFrame (p : Probe) (transfers tiles dumps : UInt64) : Probe × UInt64 × UInt64 × UInt64 :=
  let frameCloses := p.frameCloses + 1
  let monotonic := decide (transfers ≥ p.previousTransfers ∧ tiles ≥ p.previousTiles ∧
    dumps ≥ p.previousDumps)
  let delta := if monotonic then
    (transfers - p.previousTransfers, tiles - p.previousTiles, dumps - p.previousDumps)
    else (0, 0, 0)
  ({ p with
      frameCloses
      alignmentError := p.alignmentError || (p.frameSelected && decide (frameCloses ≠ 1))
      counterReset := p.counterReset || !monotonic
      previousTransfers := transfers
      previousTiles := tiles
      previousDumps := dumps }, delta)

/-- `scope_error_` is latched if `wrong`. -/
def scopeErrorIf (p : Probe) (wrong : Bool) : Probe :=
  { p with scopeError := p.scopeError || wrong }

/-- The part of `EndSubmission` that ends the recorded submission `i`. -/
def endRecorded (p : Probe) (i : ℕ) (closesFrame : Bool) (delta : UInt64 × UInt64 × UInt64) :
    Probe :=
  let q := (p.scopeErrorIf (p.scope ≠ .other)).endGroup
  let firstGroup := (q.submissions.getD i default).firstGroup
  let count := q.groups.length - firstGroup
  { q with
    scope := .other
    submissions := q.submissions.modify i fun s =>
      { s with
        closesFrame
        transfers := if closesFrame then delta.1 else s.transfers
        tiles := if closesFrame then delta.2.1 else s.tiles
        dumps := if closesFrame then delta.2.2 else s.dumps
        ended := true }
    -- only ended pairs are resolved, one batch for each heap
    list := q.list ++ [.endQuery .submission (2 * i + 1),
        .resolve .submission (2 * i) 2 (8 * (2 * i))] ++
      if count ≠ 0 then [.resolve .group (2 * firstGroup) (2 * count) (8 * (2 * firstGroup))]
      else []
    currentSubmission := none }

/-- `EndSubmission`. -/
def endSubmission (p : Probe) (closesFrame : Bool) (transfers tiles dumps : UInt64) : Probe :=
  let (q, delta) := if closesFrame then p.closeFrame transfers tiles dumps else (p, 0, 0, 0)
  match q.currentSubmission with
  | none => q
  | some i => q.endRecorded i closesFrame delta

/-- What a label says to `EnterScope`. -/
inductive Label
  | unknown
  | badSamples
  | leaf (category : Category)

/-- The comparisons of `EnterScope`. -/
def label (name : String) (detail0 : UInt64) : Label :=
  if name = "transfer_color_depth" then .leaf .transfer
  else if name = "transfer_stencil_bits" then
    let log2Samples := (detail0 >>> 32) &&& 255
    if log2Samples > 2 then .badSamples
    else .leaf (if log2Samples = 0 then .stencil1 else if log2Samples = 1 then .stencil2
      else .stencil4)
  else if name = "resolve_dump" then .leaf .dump
  else if name = "resolve_copy" then .leaf .resolveCopy
  else .unknown

/-- The part of `EnterScope` that opens a group of submission `s`. -/
def openGroup (p : Probe) (s : Submission) (category : Category) : Probe :=
  if p.groupsSelected && !p.groupsTruncated then
    if p.groupsThisFrame = groupsPerFrame ∨ p.groups.length = groupCapacity then
      { p with groupOverflow := p.groupOverflow + 1, groupsTruncated := true }
    else
      { p with
        currentGroup := some p.groups.length
        groups := p.groups ++ [{ frame := s.frame, submission := s.submission, category }]
        groupsThisFrame := p.groupsThisFrame + 1
        list := p.list ++ [.endQuery .group (2 * p.groups.length)] }
  else p

/-- The part of `EnterScope` that opens a scope of submission `i`. -/
def openScope (p : Probe) (i : ℕ) (category : Category) : Probe :=
  { p with
    scope := category
    submissions := p.submissions.modify i fun s =>
      { s with
        scopeEntries := s.scopeEntries + 1
        categoryEntries := s.categoryEntries.modify category.code.toNat (· + 1) } }

/-- `EnterScope`, with what it returns. -/
def enterScope (p : Probe) (name : String) (detail0 : UInt64) : Probe × UInt32 :=
  match p.currentSubmission with
  | none => (p, noSlot)
  | some i =>
    match label name detail0 with
    | .unknown => (p, noSlot)
    | .badSamples => (p.scopeErrorIf true, noSlot)
    | .leaf category =>
      -- the leaves do not nest
      if p.scope ≠ .other then (p.scopeErrorIf true, noSlot)
      else
        ((p.openScope i category).openGroup (p.submissions.getD i default) category, category.code)

/-- `LeaveScope`. -/
def leaveScope (p : Probe) (category : UInt32) : Probe :=
  let q := (p.scopeErrorIf (p.scope.code ≠ category ∨ p.currentSubmission = none)).endGroup
  { q with scope := .other }

/-- `Operation`: counting only. -/
def operation (p : Probe) (op : UInt32) (copyBytes : UInt64) : Probe :=
  match p.currentSubmission with
  | none => p
  | some i =>
    let submissions := p.submissions.modify i fun s =>
      { s with
        total := s.total.add op copyBytes
        scopeTotal := if p.scope ≠ .other then s.scopeTotal.add op copyBytes else s.scopeTotal }
    match p.currentGroup with
    | none => { p with submissions }
    | some g =>
      { p with
        submissions
        groups := p.groups.modify g fun grp => { grp with total := grp.total.add op copyBytes } }

/-- What the device and the files answer to `Finish`. -/
structure Outcome where
  /-- There is a device and it was not removed. -/
  deviceHealthy : Bool
  /-- The mapped submission timestamps. -/
  submissionTicks : Option (ℕ → UInt64)
  /-- The mapped group timestamps. -/
  groupTicks : Option (ℕ → UInt64)
  fileWritten : Bool
  groupsWritten : Bool

/-- The timestamps of the first `n` pairs are there and in order. -/
def ticksValid (ticks : Option (ℕ → UInt64)) (n : ℕ) : Bool :=
  match ticks with
  | none => false
  | some ticks =>
    (List.range n).all fun i => ticks (2 * i) != 0 && decide (ticks (2 * i + 1) ≥ ticks (2 * i))

/-- `capture_ended`. -/
def captureEnded (p : Probe) : Bool :=
  p.firstFrame != 0 && decide (p.observedFrame ≥ p.captureEnd p.firstFrame)

/-- `all_ended`. -/
def allEnded (p : Probe) : Bool := p.submissions.all (·.ended) && p.groups.all (·.ended)

/-- The check of `Finish` over both lists: all submissions and all groups have ended. -/
theorem allEnded_iff {p : Probe} : p.allEnded = true ↔
    (∀ x ∈ p.submissions, x.ended = true) ∧ ∀ g ∈ p.groups, g.ended = true := by
  rw [allEnded, Bool.and_eq_true, List.all_eq_true, List.all_eq_true]

/-- The part of `Finish` that judges the capture, `proven` being `completion_proven_`. -/
def valid (p : Probe) (outcome : Outcome) (proven : Bool) : Bool :=
  proven && p.allEnded && p.captureEnded && p.submissionOverflow == 0 && !p.alignmentError &&
    !p.submissions.isEmpty && ticksValid outcome.submissionTicks p.submissions.length &&
    (p.groups.isEmpty || ticksValid outcome.groupTicks p.groups.length)

/-- `Finish`, with whether it succeeded. -/
def finish (p : Probe) (outcome : Outcome) (completion : Bool) (completed : UInt64) :
    Probe × Bool :=
  if p.finished then (p, false)
  else
    let proven := completion && completed != noFrame && decide (completed ≥ p.lastSubmission) &&
      outcome.deviceHealthy
    let written := outcome.fileWritten && (p.groupPeriod == 0 || outcome.groupsWritten)
    ({ p with
        finished := true
        completionProven := proven && p.allEnded
        retained := p.retained || !proven || !p.allEnded },
      p.valid outcome proven && written && p.groupOverflow == 0 && !p.scopeError)

inductive Publication
  | pending
  | written
  | failed
  deriving DecidableEq

/-- `TryFinish`. -/
def tryFinish (p : Probe) (outcome : Outcome) (completed : UInt64) : Probe × Publication :=
  if p.finished || !p.captureEnded then (p, .pending)
  else if completed ≠ noFrame ∧ completed < p.lastSubmission then (p, .pending)
  else
    let (p, ok) := p.finish outcome (completed != noFrame) completed
    (p, if ok then .written else .failed)

end Probe

open Probe

/-- A call of the probe. -/
inductive Call
  | observeFrame (frame : UInt64) (now : ℤ)
  | beginSubmission (frame resourceFrame submission : UInt64) (now : ℤ)
  | endSubmission (closesFrame : Bool) (transfers tiles dumps : UInt64)
  | enterScope (name : String) (detail0 : UInt64)
  | leaveScope (category : UInt32)
  | operation (op : UInt32) (copyBytes : UInt64)
  | tryFinish (outcome : Outcome) (completed : UInt64)
  | finish (outcome : Outcome) (completion : Bool) (completed : UInt64)

/-- The probe after a call. -/
def Probe.call (p : Probe) : Call → Probe
  | .observeFrame frame now => p.observeFrame frame now
  | .beginSubmission frame resourceFrame submission now =>
      p.beginSubmission frame resourceFrame submission now
  | .endSubmission closesFrame transfers tiles dumps =>
      p.endSubmission closesFrame transfers tiles dumps
  | .enterScope name detail0 => (p.enterScope name detail0).1
  | .leaveScope category => p.leaveScope category
  | .operation op copyBytes => p.operation op copyBytes
  | .tryFinish outcome completed => (p.tryFinish outcome completed).1
  | .finish outcome completion completed => (p.finish outcome completion completed).1

end BudgetProbe
end BoltsRebuilt
