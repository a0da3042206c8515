/-
# The CPU replay worker

`src/gpu/native/native_replay_worker.h`, `src/gpu/native/native_replay_worker.cpp`:
`NativeReplayWorker`, its `Start` (`Submit`, `BeginChunks`), `ReadyForChunk`,
`TryAppendChunk`, `FinishChunks`, `ReapCompletedLocked`, `Wait`, destructor,
`Run` and `ExecuteJob`.

Two threads share a slot for one job.  The owner hands it a stream and the
worker thread replays it on the worker's one command list; a chunk session
spreads one recording over several jobs.  A step is what a thread does under the
mutex between two releases of it, or one call of `ExecuteJob`, which runs
without the mutex; a wait on the condition variable sleeps until a notification
or for no reason, and then looks at its predicate again.  The machine also keeps
the accepted streams, the calls that returned and the API calls in the order
they happened.
-/

import BoltsRebuilt.Lib.System
import BoltsRebuilt.Replay.CommandStream
import Mathlib.Logic.Function.Basic

namespace BoltsRebuilt
namespace Replay

/-! ### The worker's fields -/

/-- `HRESULT`, read as the signed number `FAILED` tests. -/
abbrev HResult := Int

/-- `FAILED`. -/
def failed (r : HResult) : Bool := r < 0

def sOk : HResult := 0
def ePending : HResult := -0x7ffffff6
def eOutOfMemory : HResult := -0x7ff8fff2
def eUnexpected : HResult := -0x7fff0001

/-- A pointer to an allocator, a queue or a fence; zero is null. -/
abbrev Pointer := ℕ

structure JobResult where
  fenceValue : UInt64 := 0
  allocatorReset : HResult := ePending
  listReset : HResult := ePending
  replay : HResult := ePending
  close : HResult := ePending
  signal : HResult := ePending
  result : HResult := sOk
  queueExecuteAttempted : Bool := false

structure Stats where
  submitted : ℕ := 0
  completed : ℕ := 0
  failed : ℕ := 0
  chunkSessions : ℕ := 0
  chunksSubmitted : ℕ := 0
  chunksCompleted : ℕ := 0
  chunkSessionsCompleted : ℕ := 0
  chunksFailed : ℕ := 0
  last : JobResult := {}

inductive SlotState where
  | idle | queued | running | complete
  deriving DecidableEq

inductive Operation where
  | whole | begin | append | finish
  deriving DecidableEq

/-- A recording starts with this job. -/
def Operation.opens : Operation → Bool
  | whole | begin => true
  | append | finish => false

/-- A recording ends with this job. -/
def Operation.final : Operation → Bool
  | whole | finish => true
  | begin | append => false

structure Job where
  allocator : Pointer := 0
  queue : Pointer := 0
  fence : Pointer := 0
  report : JobResult := {}
  operation : Operation := .whole

/-- `NativeReplayWorker`.  `thread_` is joinable until the destructor joins it,
so the tests of `joinable()` always pass. -/
structure Worker where
  stream : DeferredCommandList
  job : Job := {}
  /-- `replay_state_`, as the streams that were replayed with it since it was
  last cleared. -/
  replayState : List DeferredCommandList := []
  state : SlotState := .idle
  stop : Bool := false
  sessionActive : Bool := false
  result : HResult := sOk
  stats : Stats := {}

/-! ### The owner's calls -/

/-- `ReapCompletedLocked`. -/
def Worker.reapCompleted (w : Worker) : Worker :=
  if w.state ≠ .complete then w
  else
    let final := w.job.operation = .whole ∨ w.job.operation = .finish
    let failed := failed w.job.report.result
    let stats := if w.job.operation ≠ .whole then
        { w.stats with
          chunksCompleted := w.stats.chunksCompleted + 1
          chunksFailed := w.stats.chunksFailed + failed.toNat }
      else w.stats
    if final then
      { w with
        stats := { stats with
          last := w.job.report
          completed := stats.completed + 1
          failed := stats.failed + failed.toNat
          chunkSessionsCompleted := stats.chunkSessionsCompleted +
            if w.job.operation = .finish ∧ failed = false then 1 else 0 }
        job := { w.job with allocator := 0, queue := 0, fence := 0 }
        sessionActive := false
        state := .idle }
    else { w with stats := stats, state := .idle }

/-- `Start`: what it returns, the worker and the caller's list afterwards. -/
def Worker.start (w : Worker) (source : DeferredCommandList) (allocator queue fence : Pointer)
    (value : UInt64) (chunks : Bool) : Bool × Worker × DeferredCommandList :=
  if allocator = 0 ∨ queue = 0 ∨ fence = 0 ∨ value = 0 ∨ value = UInt64.ofNat (2 ^ 64 - 1) ∨
      source.pipelineHandlesResolvedForReplay = false then (false, w, source)
  else if w.stop ∨ w.state ≠ .idle ∨ w.sessionActive ∨ failed w.result then (false, w, source)
  else
    let swapped := w.stream.swapStorage source
    (true,
      { w with
        job := {
          allocator := allocator
          queue := queue
          fence := fence
          report := { fenceValue := value }
          operation := if chunks then .begin else .whole }
        stream := swapped.1
        sessionActive := chunks
        state := .queued
        stats := if chunks then
            { w.stats with
              chunkSessions := w.stats.chunkSessions + 1
              chunksSubmitted := w.stats.chunksSubmitted + 1 }
          else { w.stats with submitted := w.stats.submitted + 1 } },
      swapped.2)

/-- `Submit`. -/
def Worker.submit (w : Worker) (source : DeferredCommandList) (allocator queue fence : Pointer)
    (value : UInt64) : Bool × Worker × DeferredCommandList :=
  w.start source allocator queue fence value false

/-- `BeginChunks`. -/
def Worker.beginChunks (w : Worker) (source : DeferredCommandList)
    (allocator queue fence : Pointer) (value : UInt64) : Bool × Worker × DeferredCommandList :=
  w.start source allocator queue fence value true

/-- `ReadyForChunk`. -/
def Worker.readyForChunk (w : Worker) : Bool × Worker :=
  let w := w.reapCompleted
  (!w.stop && w.state == .idle && !failed w.result, w)

/-- `TryAppendChunk`. -/
def Worker.tryAppendChunk (w : Worker) (source : DeferredCommandList) :
    Bool × Worker × DeferredCommandList :=
  if source.pipelineHandlesResolvedForReplay = false then (false, w, source)
  else
    let w := w.reapCompleted
    if w.stop ∨ w.state ≠ .idle ∨ w.sessionActive = false ∨ failed w.result then (false, w, source)
    else
      let swapped := w.stream.swapStorage source
      (true,
        { w with
          job := { w.job with operation := .append }
          stream := swapped.1
          state := .queued
          stats := { w.stats with chunksSubmitted := w.stats.chunksSubmitted + 1 } },
        swapped.2)

/-- `FinishChunks`. -/
def Worker.finishChunks (w : Worker) (source : DeferredCommandList) :
    Bool × Worker × DeferredCommandList :=
  if source.pipelineHandlesResolvedForReplay = false then (false, w, source)
  else if w.stop ∨ w.state ≠ .idle ∨ w.sessionActive = false ∨ failed w.result then
    (false, w, source)
  else
    let swapped := w.stream.swapStorage source
    (true,
      { w with
        job := { w.job with operation := .finish }
        stream := swapped.1
        state := .queued
        stats := { w.stats with
          chunksSubmitted := w.stats.chunksSubmitted + 1
          submitted := w.stats.submitted + 1 } },
      swapped.2)

/-! ### What the machine remembers -/

/-- Where a recording goes: the arguments of `Start`. -/
structure Target where
  allocator : Pointer
  queue : Pointer
  fence : Pointer
  value : UInt64

/-- An accepted call. -/
inductive Accepted where
  | whole (stream : DeferredCommandList) (target : Target)
  | begin (stream : DeferredCommandList) (target : Target)
  | append (stream : DeferredCommandList)
  | finish (stream : DeferredCommandList)

def Accepted.stream : Accepted → DeferredCommandList
  | whole stream _ | begin stream _ | append stream | finish stream => stream

/-- A recording starts with this call. -/
def Accepted.opens : Accepted → Bool
  | whole _ _ | begin _ _ => true
  | append _ | finish _ => false

/-- A call of `ExecuteJob` on the API, or `Execute` on a stream with the streams
already replayed with the same `ReplayState`. -/
inductive Call where
  | allocatorReset (allocator : Pointer)
  | listReset (allocator : Pointer)
  | replay (stream : DeferredCommandList) (replayed : List DeferredCommandList)
  | close
  | executeCommandLists (queue : Pointer)
  | signal (queue fence : Pointer) (value : UInt64)

/-- A call that happened, whether it succeeded, the recording it belongs to
(they are counted from zero), and how many jobs had been accepted by then. -/
structure Event where
  call : Call
  ok : Bool
  session : ℕ
  jobs : ℕ

/-- What a call of the owner returned and what it did to the owner's lists. -/
structure Return where
  accepted : Bool
  before : ℕ → DeferredCommandList
  after : ℕ → DeferredCommandList

/-- Where the owner's thread stands. -/
inductive Owner where
  | outside
  /-- A call has accepted a stream and released the mutex. -/
  | notifying
  /-- In `Wait`, about to look at its predicate; `destroying` from the
  destructor. -/
  | waiting (destroying : Bool)
  | asleep (destroying : Bool)
  | stopping
  | notifyingStop
  | joining
  | destroyed

/-- Where the worker thread stands. -/
inductive Thread where
  /-- In `Run`, about to look at the predicate of its wait. -/
  | waiting
  | asleep
  | allocatorReset
  | listReset
  | clearReplayState
  | replay
  | close
  | executeCommandLists
  | signal
  /-- `ExecuteJob` has returned. -/
  | returned (r : HResult)
  /-- `result_` is stored. -/
  | stored (r : HResult)
  | exited

structure State where
  worker : Worker
  owner : Owner
  thread : Thread
  /-- The owner's lists. -/
  sources : ℕ → DeferredCommandList
  accepted : List Accepted
  returns : List Return
  events : List Event

/-! ### Steps -/

/-- A call that takes the list `i` of the owner has ended with `out`. -/
def State.returned (s : State) (i : ℕ) (entry : DeferredCommandList → Accepted)
    (out : Bool × Worker × DeferredCommandList) : State :=
  let sources := Function.update s.sources i out.2.2
  { s with
    worker := out.2.1
    owner := if out.1 then .notifying else .outside
    sources := sources
    accepted := if out.1 then s.accepted ++ [entry (s.sources i)] else s.accepted
    returns := s.returns ++ [⟨out.1, s.sources, sources⟩] }

/-- A notification reaches the worker thread if it sleeps. -/
def Thread.notified : Thread → Thread
  | asleep => waiting
  | thread => thread

/-- A notification reaches the owner if it sleeps. -/
def Owner.notified : Owner → Owner
  | asleep destroying => waiting destroying
  | owner => owner

/-- The first call of `ExecuteJob`. -/
def Operation.entry (operation : Operation) : Thread :=
  if operation = .whole ∨ operation = .begin then .allocatorReset else .replay

/-- The wait of `Run` looks at its predicate. -/
def State.runWait (s : State) : State :=
  if s.worker.stop then { s with thread := .exited }
  else if s.worker.state = .queued then
    { s with
      worker := { s.worker with state := .running }
      thread := s.worker.job.operation.entry }
  else { s with thread := .asleep }

/-- The thread's wait ends it, takes a queued job or goes to sleep. -/
theorem State.runWait_eq (s : State) : s.runWait =
    if s.worker.stop then { s with thread := .exited }
    else if s.worker.state = .queued then
      { s with
        worker := { s.worker with state := .running }
        thread := s.worker.job.operation.entry }
    else { s with thread := .asleep } := rfl

/-- The recording of the last accepted call. -/
def State.session (s : State) : ℕ := s.accepted.countP Accepted.opens - 1

/-- A call of `ExecuteJob` has ended. -/
def State.called (s : State) (call : Call) (ok : Bool) : State :=
  { s with events := s.events ++ [⟨call, ok, s.session, s.accepted.length⟩] }

/-- The report of the job in the slot. -/
def State.report (s : State) (f : JobResult → JobResult) : State :=
  { s with worker := { s.worker with job := { s.worker.job with report := f s.worker.job.report } } }

/-- The state that `Execute` is given: none for a whole submission, which starts
with a fresh one. -/
def Worker.carried (w : Worker) : List DeferredCommandList :=
  if w.job.operation = .whole then [] else w.replayState

inductive Step : State → State → Prop
  -- the owner
  | record {s} (i : ℕ) (l : DeferredCommandList) : s.owner = .outside →
      Step s { s with sources := Function.update s.sources i l }
  | submit {s} (i : ℕ) (t : Target) : s.owner = .outside →
      Step s (s.returned i (.whole · t)
        (s.worker.submit (s.sources i) t.allocator t.queue t.fence t.value))
  | beginChunks {s} (i : ℕ) (t : Target) : s.owner = .outside →
      Step s (s.returned i (.begin · t)
        (s.worker.beginChunks (s.sources i) t.allocator t.queue t.fence t.value))
  | readyForChunk {s} : s.owner = .outside → Step s { s with worker := s.worker.readyForChunk.2 }
  | tryAppendChunk {s} (i : ℕ) : s.owner = .outside →
      Step s (s.returned i .append (s.worker.tryAppendChunk (s.sources i)))
  | finishChunks {s} (i : ℕ) : s.owner = .outside →
      Step s (s.returned i .finish (s.worker.finishChunks (s.sources i)))
  | notify {s} : s.owner = .notifying →
      Step s { s with owner := .outside, thread := s.thread.notified }
  | wait {s} : s.owner = .outside → Step s { s with owner := .waiting false }
  | destroy {s} : s.owner = .outside → Step s { s with owner := .waiting true }
  | waitSleep {s destroying} : s.owner = .waiting destroying → s.worker.state ≠ .idle →
      s.worker.state ≠ .complete → Step s { s with owner := .asleep destroying }
  | waitReturn {s destroying} : s.owner = .waiting destroying →
      s.worker.state = .idle ∨ s.worker.state = .complete →
      Step s { s with
        worker := s.worker.reapCompleted
        owner := if destroying then .stopping else .outside }
  | waitWake {s destroying} : s.owner = .asleep destroying →
      Step s { s with owner := .waiting destroying }
  | stop {s} : s.owner = .stopping →
      Step s { s with worker := { s.worker with stop := true }, owner := .notifyingStop }
  | notifyStop {s} : s.owner = .notifyingStop →
      Step s { s with owner := .joining, thread := s.thread.notified }
  | join {s} : s.owner = .joining → s.thread = .exited → Step s { s with owner := .destroyed }
  -- the worker thread
  | runWait {s} : s.thread = .waiting → Step s s.runWait
  | runWake {s} : s.thread = .asleep → Step s { s with thread := .waiting }
  | allocatorReset {s} (r : HResult) : s.thread = .allocatorReset →
      Step s { (s.report ({ · with allocatorReset := r })).called
          (.allocatorReset s.worker.job.allocator) (!failed r) with
        thread := if failed r then .returned r else .listReset }
  | listReset {s} (r : HResult) : s.thread = .listReset →
      Step s { (s.report ({ · with listReset := r })).called
          (.listReset s.worker.job.allocator) (!failed r) with
        thread := if failed r then .returned r else .clearReplayState }
  | clearReplayState {s} : s.thread = .clearReplayState →
      Step s { s with worker := { s.worker with replayState := [] }, thread := .replay }
  | replay {s} : s.thread = .replay →
      Step s
        (let s' := (s.report ({ · with replay := sOk })).called
            (.replay s.worker.stream s.worker.carried) true
        { s' with
          worker := { s'.worker with
            replayState := if s.worker.job.operation = .whole then s.worker.replayState
              else s.worker.replayState ++ [s.worker.stream] }
          thread := if s.worker.job.operation = .begin ∨ s.worker.job.operation = .append then
              .returned sOk
            else .close })
  -- `Execute` throws; a carried state is left anyhow
  | replayThrow {s} (badAlloc : Bool) (left : List DeferredCommandList) : s.thread = .replay →
      Step s
        (let s' := s.called (.replay s.worker.stream s.worker.carried) false
        { s' with
          worker := { s'.worker with
            replayState := if s.worker.job.operation = .whole then s.worker.replayState else left }
          thread := .returned (if badAlloc then eOutOfMemory else eUnexpected) })
  | close {s} (r : HResult) : s.thread = .close →
      Step s { (s.report ({ · with close := r })).called .close (!failed r) with
        thread := if failed r then .returned r else .executeCommandLists }
  | executeCommandLists {s} : s.thread = .executeCommandLists →
      Step s { (s.report ({ · with queueExecuteAttempted := true })).called
          (.executeCommandLists s.worker.job.queue) true with
        thread := .signal }
  | signal {s} (r : HResult) : s.thread = .signal →
      Step s { (s.report ({ · with signal := r })).called
          (.signal s.worker.job.queue s.worker.job.fence s.worker.job.report.fenceValue)
          (!failed r) with
        thread := .returned r }
  | store {s r} : s.thread = .returned r →
      Step s { s with
        worker := { s.worker with result := if failed r then r else s.worker.result }
        thread := .stored r }
  -- the mutex is held until the next wait has looked at its predicate
  | publish {s r} : s.thread = .stored r →
      Step s
        (let s' := s.report ({ · with result := r })
        { s' with
          worker := { s'.worker with state := .complete }
          owner := s.owner.notified }.runWait)

/-- A fresh worker. -/
def replayWorker : System State where
  init s := (∃ stream, s.worker = { stream := stream }) ∧ s.owner = .outside ∧
    s.thread = .waiting ∧ s.accepted = [] ∧ s.returns = [] ∧ s.events = []
  step := Step

end Replay
end BoltsRebuilt
