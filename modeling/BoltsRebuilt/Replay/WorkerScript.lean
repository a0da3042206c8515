/-
# The calls a replay worker makes

`src/gpu/native/native_replay_worker.cpp`, lines 165-215.

`sessions` says what the accepted calls ask for: a whole submission and a
finished chunk session are recorded, closed, executed and signalled, an open
session is recorded.  `Scripted` is the invariant behind it: the calls that have
happened and the calls the job in the slot has ahead of it are together the
script of the sessions (`Good`), until a step fails (`Broken`); then nothing
happens any more and `result_` keeps the failure.
-/

import BoltsRebuilt.Replay.WorkerSchedule
import Mathlib.Data.List.Induction

namespace BoltsRebuilt
namespace Replay

/-! ### What is asked for -/

/-- A recording of the worker's list: the arguments of `Start` and the streams
of its jobs. -/
structure Session where
  target : Target
  streams : List DeferredCommandList
  /-- A whole submission, or a chunk session whose last job is accepted. -/
  finished : Bool

/-- The streams are replayed one after another with one `ReplayState`. -/
def replays (before : List DeferredCommandList) : List DeferredCommandList → List Call
  | [] => []
  | stream :: streams => .replay stream before :: replays (before ++ [stream]) streams

/-- The calls that record a session. -/
def Session.recording (σ : Session) : List Call :=
  [.allocatorReset σ.target.allocator, .listReset σ.target.allocator] ++ replays [] σ.streams

def Session.execution (σ : Session) : Call := .executeCommandLists σ.target.queue

def Session.signal (σ : Session) : Call :=
  .signal σ.target.queue σ.target.fence σ.target.value

/-- All calls of a session. -/
def Session.calls (σ : Session) : List Call :=
  σ.recording ++ if σ.finished then [.close, σ.execution, σ.signal] else []

/-- One more accepted call. -/
def addCall (σs : List Session) : Accepted → List Session
  | .whole stream target => σs ++ [⟨target, [stream], true⟩]
  | .begin stream target => σs ++ [⟨target, [stream], false⟩]
  | .append stream =>
      σs.dropLast ++ (σs.getLast?.map fun σ => ⟨σ.target, σ.streams ++ [stream], false⟩).toList
  | .finish stream =>
      σs.dropLast ++ (σs.getLast?.map fun σ => ⟨σ.target, σ.streams ++ [stream], true⟩).toList

/-- The sessions of the accepted calls, in order. -/
def sessions (as : List Accepted) : List Session := as.foldl addCall []

/-- One more call that was accepted is added to the sessions at their end. -/
@[simp] theorem sessions_append (as : List Accepted) (a : Accepted) :
    sessions (as ++ [a]) = addCall (sessions as) a := by simp [sessions]

/-- Streams replayed one more are replayed after those before them. -/
theorem replays_append (before streams : List DeferredCommandList) (stream : DeferredCommandList) :
    replays before (streams ++ [stream]) =
      replays before streams ++ [.replay stream (before ++ streams)] := by
  induction streams generalizing before with
  | nil => simp [replays]
  | cons first streams ih => simp [replays, ih]

/-- The calls of the sessions, each with the number of its session. -/
def script : List Session → List (ℕ × Call) :=
  fun σs => (σs.zipIdx.map fun (σ, k) => σ.calls.map (k, ·)).flatten

/-- One more session comes after the script of the others. -/
theorem script_append (σs : List Session) (σ : Session) :
    script (σs ++ [σ]) = script σs ++ σ.calls.map (σs.length, ·) := by
  simp [script, List.zipIdx_append]

/-! ### The script -/

/-- The arguments of the `Start` of the job's recording. -/
def Worker.target (w : Worker) : Target :=
  ⟨w.job.allocator, w.job.queue, w.job.fence, w.job.report.fenceValue⟩

/-- The last calls of a recording. -/
def Worker.submission (w : Worker) : List Call :=
  [.close, .executeCommandLists w.job.queue,
    .signal w.job.queue w.job.fence w.job.report.fenceValue]

/-- `ExecuteJob` from the call of `Execute` on. -/
def Worker.fromReplay (w : Worker) (carried : List DeferredCommandList) : List Call :=
  .replay w.stream carried :: if w.job.operation.final then w.submission else []

/-- The calls `ExecuteJob` still makes when nothing fails. -/
def Worker.callsFrom (w : Worker) : Thread → List Call
  | .allocatorReset =>
      .allocatorReset w.job.allocator :: .listReset w.job.allocator :: w.fromReplay []
  | .listReset => .listReset w.job.allocator :: w.fromReplay []
  | .clearReplayState => w.fromReplay []
  | .replay => w.fromReplay w.carried
  | .close => w.submission
  | .executeCommandLists => w.submission.tail
  | .signal => w.submission.tail.tail
  | _ => []

/-- The calls ahead of the job in the slot. -/
def ahead (w : Worker) (thread : Thread) : List Call :=
  match w.state with
  | .queued => w.callsFrom w.job.operation.entry
  | .running => w.callsFrom thread
  | .idle | .complete => []

/-- An event under the number of its recording. -/
def Event.entry (e : Event) : ℕ × Call := (e.session, e.call)

/-- The stream a call replays. -/
def Call.stream? : Call → Option DeferredCommandList
  | .replay stream _ => some stream
  | _ => none

/-- The recording of the last accepted call. -/
def lastSession (as : List Accepted) : ℕ := as.countP Accepted.opens - 1

/-- Nothing has failed: what happened and what is ahead are the script. -/
structure Good (w : Worker) (thread : Thread) (as : List Accepted) (es : List Event) : Prop where
  ok : ∀ e ∈ es, e.ok = true
  unfailed : failed w.result = false
  result : ∀ r, thread = .returned r ∨ thread = .stored r → failed r = false
  script : es.map Event.entry ++ (ahead w thread).map (lastSession as, ·) = script (sessions as)
  carried : ahead w thread = [] → w.job.operation.final = false → ∀ earlier σ,
    sessions as = earlier ++ [σ] → w.replayState = σ.streams

/-- The last step failed, in the last job, and `result_` has it or is about to. -/
structure Broken (w : Worker) (thread : Thread) (as : List Accepted) (es : List Event) : Prop where
  events : ∃ before e rest, es = before ++ [e] ∧ (∀ e' ∈ before, e'.ok = true) ∧ e.ok = false ∧
    e.jobs = as.length ∧ e.session = lastSession as ∧
    es.map Event.entry ++ rest = script (sessions as) ∧
    (rest.filterMap fun c => c.2.stream?).length ≤ 1
  latched : (∃ r, failed r = true ∧ thread = .returned r) ∨
    failed w.result = true ∧ (thread.working = true → ∃ r, thread = .stored r)
  unqueued : w.state ≠ .queued

/-- The slot holds the last job of the last session, and the events follow the
script. -/
structure Scripted (w : Worker) (thread : Thread) (as : List Accepted) (es : List Event) :
    Prop where
  active : w.state ≠ .idle → (w.sessionActive = true ↔ w.job.operation ≠ .whole)
  open' : w.state = .idle → w.sessionActive = true → w.job.operation.final = false
  slot : w.sessionActive = true ∨ w.state ≠ .idle → ∃ earlier σ before,
    sessions as = earlier ++ [σ] ∧ σ.target = w.target ∧ σ.streams = before ++ [w.stream] ∧
    σ.finished = w.job.operation.final ∧ (w.job.operation.opens = true → before = [])
  streams : ((sessions as).flatMap (·.streams)) = as.map Accepted.stream
  count : (sessions as).length = as.countP Accepted.opens
  progress : Good w thread as es ∨ Broken w thread as es

section Script

variable {w w' : Worker} {thread thread' : Thread} {as : List Accepted} {es : List Event}
  {call : Call} {rest : List Call}

/-- A running worker has ahead of it what its thread has still to call. -/
theorem ahead_of_running (h : w.state = .running) : ahead w thread = w.callsFrom thread := by
  rw [ahead, h]

/-- An idle worker has nothing ahead of it. -/
theorem ahead_of_idle (h : w.state = .idle) : ahead w thread = [] := by rw [ahead, h]

/-- A queued worker has the whole of its job ahead of it. -/
theorem ahead_of_queued (h : w.state = .queued) :
    ahead w thread = w.callsFrom w.job.operation.entry := by rw [ahead, h]

/-- A session has one `Execute` for each stream, in the order they were handed over. -/
theorem filterMap_stream_calls (σ : Session) : σ.calls.filterMap Call.stream? = σ.streams := by
  have hreplays : ∀ before streams, (replays before streams).filterMap Call.stream? = streams := by
    intro before streams
    induction streams generalizing before with
    | nil => rfl
    | cons stream streams ih => simp [replays, Call.stream?, ih]
  have htail : (if σ.finished then [Call.close, σ.execution, σ.signal] else []).filterMap
      Call.stream? = [] := by split <;> rfl
  rw [Session.calls, List.filterMap_append, htail, List.append_nil]
  exact hreplays [] σ.streams

/-- The streams of a script are those of its sessions, in order. -/
theorem filterMap_stream_script (σs : List Session) :
    (script σs).filterMap (fun c => c.2.stream?) = σs.flatMap (·.streams) := by
  induction σs using List.reverseRecOn with
  | nil => rfl
  | append_singleton σs σ ih =>
      rw [script_append, List.filterMap_append, ih, List.flatMap_append, List.filterMap_map]
      congr 1
      rw [List.flatMap_singleton, ← filterMap_stream_calls]
      rfl

/-- A call that succeeds is the next of the script. -/
theorem Good.called (h : Good w thread as es) (hahead : ahead w thread = call :: rest)
    (hahead' : ahead w' thread' = rest) (hresult : w'.result = w.result)
    (hthread : ∀ r, thread' = .returned r ∨ thread' = .stored r → failed r = false)
    (hcarried : rest = [] → w'.job.operation.final = false → ∀ earlier σ,
      sessions as = earlier ++ [σ] → w'.replayState = σ.streams) :
    Good w' thread' as (es ++ [⟨call, true, lastSession as, as.length⟩]) where
  ok e he := by
    rcases List.mem_append.1 he with he | he
    · exact h.ok e he
    · rw [List.mem_singleton.1 he]
  unfailed := hresult ▸ h.unfailed
  result := hthread
  script := by
    rw [← h.script, hahead, hahead']
    simp [Event.entry]
  carried hnil := hcarried (hahead' ▸ hnil)

/-- A call that fails is the next of the script, and the last: all that was accepted has been called
up to it. -/
theorem Good.fails (h : Good w thread as es) (hahead : ahead w thread = call :: rest)
    (hrest : (rest.filterMap Call.stream?).length ≤ 1) {r : HResult} (hr : failed r = true)
    (hqueued : w'.state ≠ .queued) :
    Broken w' (.returned r) as (es ++ [⟨call, false, lastSession as, as.length⟩]) where
  events := by
    refine ⟨es, _, rest.map (lastSession as, ·), rfl, h.ok, rfl, rfl, rfl, ?_, ?_⟩
    · rw [← h.script, hahead]
      simp [Event.entry]
    · rw [List.filterMap_map]
      exact hrest
  latched := .inl ⟨r, hr, rfl⟩
  unqueued := hqueued

/-- Nothing is called once a step has failed. -/
theorem Broken.not_calling (h : Broken w thread as es) (hworking : thread.working = true)
    (hreturned : ∀ r, thread ≠ .returned r) (hstored : ∀ r, thread ≠ .stored r) : False := by
  rcases h.latched with ⟨r, -, hr⟩ | ⟨-, hr⟩
  · exact hreturned r hr
  · obtain ⟨r, hr⟩ := hr hworking
    exact hstored r hr

/-- The fields of the slot that stay during a job. -/
structure SameSlot (w w' : Worker) : Prop where
  stream : w'.stream = w.stream
  target : w'.target = w.target
  operation : w'.job.operation = w.job.operation
  active : w'.sessionActive = w.sessionActive

/-- The job goes on, with the call that was next made and the others still to come. -/
theorem Scripted.continue (h : Scripted w thread as es) (hsame : SameSlot w w')
    (hbusy : w.state ≠ .idle) (hbusy' : w'.state ≠ .idle) {es' : List Event}
    (hprogress : Good w' thread' as es' ∨ Broken w' thread' as es') :
    Scripted w' thread' as es' where
  active _ := by rw [hsame.active, hsame.operation]; exact h.active hbusy
  open' hidle := absurd hidle hbusy'
  slot _ := by
    rw [hsame.stream, hsame.target, hsame.operation]
    exact h.slot (.inr hbusy)
  streams := h.streams
  count := h.count
  progress := hprogress

/-- A worker with the same job has the same calls ahead of it. -/
theorem SameSlot.callsFrom (h : SameSlot w w') (hreplay : w'.replayState = w.replayState) :
    w'.callsFrom thread = w.callsFrom thread := by
  have hallocator : w'.job.allocator = w.job.allocator := congrArg Target.allocator h.target
  have hqueue : w'.job.queue = w.job.queue := congrArg Target.queue h.target
  have hfence : w'.job.fence = w.job.fence := congrArg Target.fence h.target
  have hvalue : w'.job.report.fenceValue = w.job.report.fenceValue := congrArg Target.value h.target
  cases thread <;>
    simp only [Worker.callsFrom, Worker.fromReplay, Worker.submission, Worker.carried, hallocator,
      hqueue, hfence, hvalue, h.stream, h.operation, hreplay]

/-- And the same submission. -/
theorem SameSlot.submission (h : SameSlot w w') : w'.submission = w.submission := by
  have hqueue : w'.job.queue = w.job.queue := congrArg Target.queue h.target
  have hfence : w'.job.fence = w.job.fence := congrArg Target.fence h.target
  have hvalue : w'.job.report.fenceValue = w.job.report.fenceValue := congrArg Target.value h.target
  rw [Worker.submission, Worker.submission, hqueue, hfence, hvalue]

/-- A thread that does not work calls nothing. -/
theorem callsFrom_of_not_working (h : thread.working = false) : w.callsFrom thread = [] := by
  cases thread <;> first | rfl | cases h

/-- The worker thread rests, which changes neither the events nor what is ahead. -/
theorem Scripted.setThread (h : Scripted w thread as es) (hthread : thread.working = false)
    (hthread' : thread'.working = false) : Scripted w thread' as es := by
  have hahead : ahead w thread' = ahead w thread := by
    rw [ahead, ahead, callsFrom_of_not_working hthread, callsFrom_of_not_working hthread']
  refine { h with progress := h.progress.imp (fun good => ?_) fun broken => ?_ }
  · exact {
      ok := good.ok
      unfailed := good.unfailed
      result := fun r hr => by rcases hr with rfl | rfl <;> cases hthread'
      script := hahead ▸ good.script
      carried := hahead ▸ good.carried }
  · refine ⟨broken.events, ?_, broken.unqueued⟩
    rcases broken.latched with ⟨r, -, rfl⟩ | ⟨hresult, -⟩
    · cases hthread
    · exact .inr ⟨hresult, fun hworking => absurd hworking (by rw [hthread']; nofun)⟩

/-- Waking a thread changes no event that has been recorded. -/
theorem Scripted.notified (h : Scripted w thread as es) : Scripted w thread.notified as es := by
  cases thread with
  | asleep => exact h.setThread rfl rfl
  | _ => exact h

/-- What the events speak of is the same in two workers that agree on the job, the session and the
result. -/
theorem Scripted.congr (h : Scripted w thread as es) (hsame : SameSlot w w')
    (hstate : w'.state = w.state) (hreplay : w'.replayState = w.replayState)
    (hresult : w'.result = w.result) : Scripted w' thread as es := by
  have hahead : ahead w' thread = ahead w thread := by
    rw [ahead, ahead, hstate, hsame.callsFrom hreplay, hsame.callsFrom hreplay, hsame.operation]
  exact {
    active := by rw [hstate, hsame.active, hsame.operation]; exact h.active
    open' := by rw [hstate, hsame.active, hsame.operation]; exact h.open'
    slot := by
      rw [hstate, hsame.active, hsame.operation, hsame.stream, hsame.target]
      exact h.slot
    streams := h.streams
    count := h.count
    progress := h.progress.imp
      (fun good => {
        ok := good.ok
        unfailed := hresult ▸ good.unfailed
        result := good.result
        script := hahead ▸ good.script
        carried := by rw [hahead, hsame.operation, hreplay]; exact good.carried })
      fun broken => {
        events := broken.events
        latched := by rw [hresult]; exact broken.latched
        unqueued := by rw [hstate]; exact broken.unqueued } }

/-- Reaping the last job of a session ends it. -/
theorem Worker.reapCompleted_final (hcomplete : w.state = .complete)
    (hfinal : w.job.operation.final = true) : w.reapCompleted.sessionActive = false := by
  rw [Worker.reapCompleted, if_neg (not_not.2 hcomplete)]
  cases hop : w.job.operation <;> rw [hop] at hfinal <;> first | rfl | cases hfinal

/-- Reaping another one leaves the session as it is. -/
theorem Worker.reapCompleted_intermediate (hcomplete : w.state = .complete)
    (hfinal : w.job.operation.final = false) : SameSlot w w.reapCompleted := by
  rw [Worker.reapCompleted, if_neg (not_not.2 hcomplete)]
  cases hop : w.job.operation <;> rw [hop] at hfinal <;> first | exact ⟨rfl, rfl, rfl, rfl⟩ | cases hfinal

/-- The slot is emptied, its job having been completed. -/
theorem Scripted.reap (h : Scripted w thread as es) : Scripted w.reapCompleted thread as es := by
  rcases ne_or_eq w.state .complete with hne | hcomplete
  · rwa [Worker.reapCompleted_of_ne hne]
  have hidle := Worker.state_reapCompleted hcomplete
  have hahead : ahead w thread = [] := by rw [ahead, hcomplete]
  have hahead' : ahead w.reapCompleted thread = [] := ahead_of_idle hidle
  have hprogress : Good w.reapCompleted thread as es ∨ Broken w.reapCompleted thread as es :=
    h.progress.imp
      (fun good => {
        ok := good.ok
        unfailed := by simpa using good.unfailed
        result := good.result
        script := by rw [hahead', ← hahead]; exact good.script
        carried := fun _ => by simpa using good.carried hahead })
      fun broken => {
        events := broken.events
        latched := by simpa using broken.latched
        unqueued := by rw [hidle]; nofun }
  cases hfinal : w.job.operation.final with
  | true =>
      have hactive := Worker.reapCompleted_final hcomplete hfinal
      exact {
        active := fun hbusy => absurd hidle hbusy
        open' := fun _ ha => by rw [hactive] at ha; cases ha
        slot := fun hslot => by
          rw [hactive] at hslot
          exact absurd hidle (hslot.resolve_left Bool.false_ne_true)
        streams := h.streams
        count := h.count
        progress := hprogress }
  | false =>
      have hsame := Worker.reapCompleted_intermediate hcomplete hfinal
      exact {
        active := fun hbusy => absurd hidle hbusy
        open' := fun _ _ => by rw [hsame.operation, hfinal]
        slot := fun _ => by
          rw [hsame.stream, hsame.target, hsame.operation]
          exact h.slot (.inr (by rw [hcomplete]; nofun))
        streams := h.streams
        count := h.count
        progress := hprogress }

/-- The wait of `Run` starts the job that is queued, and so brings what is ahead to the thread. -/
theorem Scripted.runWait {s : State} (h : Scripted s.worker thread s.accepted s.events)
    (hthread : thread.working = false) :
    Scripted s.runWait.worker s.runWait.thread s.runWait.accepted s.runWait.events := by
  rw [State.runWait_eq]
  split_ifs with hstop hqueued
  · exact h.setThread hthread rfl
  · have hentry : ∀ r, s.worker.job.operation.entry ≠ .returned r ∧
        s.worker.job.operation.entry ≠ .stored r := fun r => by
      cases s.worker.job.operation <;> exact ⟨nofun, nofun⟩
    have hbusy : s.worker.state ≠ .idle := by rw [hqueued]; nofun
    have hsame : SameSlot s.worker { s.worker with state := .running } := ⟨rfl, rfl, rfl, rfl⟩
    refine h.continue hsame hbusy nofun (.inl ?_)
    rcases h.progress with good | broken
    · have hahead : ahead s.worker thread = s.worker.callsFrom s.worker.job.operation.entry :=
        ahead_of_queued hqueued
      exact {
        ok := good.ok
        unfailed := good.unfailed
        result := fun r hr => by
          rcases hr with hr | hr
          · exact absurd hr (hentry r).1
          · exact absurd hr (hentry r).2
        script := by
          rw [← good.script, hahead]
          rfl
        carried := fun hnil => by
          refine absurd hnil ?_
          cases hop : s.worker.job.operation <;>
            simp [ahead, Operation.entry, hop, Worker.callsFrom, Worker.fromReplay] }
    · exact absurd hqueued broken.unqueued
  · exact h.setThread hthread rfl

/-- A whole submission or a chunk session starts: the script gets a session, whose calls are ahead. -/
theorem Scripted.start (h : Scripted w thread as es) (hthread : thread.working = false)
    (hidle : w.state = .idle) (hfailed : failed w.result = false)
    (source : DeferredCommandList) (t : Target)
    (chunks : Bool) (stats : Stats) :
    Scripted
      { w with
        job := ⟨t.allocator, t.queue, t.fence, { fenceValue := t.value },
          if chunks then .begin else .whole⟩
        stream := source
        sessionActive := chunks
        state := .queued
        stats := stats }
      thread (as ++ [if chunks then Accepted.begin source t else .whole source t]) es := by
  have hsessions : sessions (as ++ [if chunks then Accepted.begin source t else .whole source t]) =
      sessions as ++ [⟨t, [source], !chunks⟩] := by
    rw [sessions_append]
    cases chunks <;> rfl
  have hcount : (as ++ [if chunks then Accepted.begin source t else .whole source t]).countP
      Accepted.opens = as.countP Accepted.opens + 1 := by
    rw [List.countP_append]
    cases chunks <;> rfl
  have hgood : Good w thread as es := by
    refine h.progress.resolve_right fun broken => ?_
    rcases broken.latched with ⟨r, -, rfl⟩ | ⟨hresult, -⟩
    · cases hthread
    · rw [hfailed] at hresult
      cases hresult
  have hscript := hgood.script
  rw [ahead_of_idle hidle, List.map_nil, List.append_nil] at hscript
  refine {
    active := fun _ => by cases chunks <;> simp
    open' := nofun
    slot := fun _ => ⟨sessions as, _, [], hsessions, rfl, rfl, by cases chunks <;> rfl, fun _ => rfl⟩
    streams := ?_
    count := ?_
    progress := .inl {
      ok := hgood.ok
      unfailed := hfailed
      result := hgood.result
      script := ?_
      carried := fun hnil => ?_ } }
  · rw [hsessions, List.flatMap_append, h.streams]
    cases chunks <;> simp [Accepted.stream]
  · rw [hsessions, hcount, ← h.count]
    simp
  · rw [hsessions, script_append, ← hscript, lastSession, hcount, Nat.add_sub_cancel, h.count]
    congr 2
    cases chunks <;> rfl
  · refine absurd hnil ?_
    cases chunks <;> simp [ahead, Operation.entry, Worker.callsFrom]

/-- A chunk session takes one more stream: its session's calls grow by those of the chunk. -/
theorem Scripted.chunk (h : Scripted w thread as es) (hthread : thread.working = false)
    (hidle : w.state = .idle) (hactive : w.sessionActive = true)
    (hfailed : failed w.result = false) (source : DeferredCommandList) (final : Bool)
    (stats : Stats) :
    Scripted
      { w with
        job := { w.job with operation := if final then .finish else .append }
        stream := source
        state := .queued
        stats := stats }
      thread (as ++ [if final then Accepted.finish source else .append source]) es := by
  obtain ⟨earlier, σ, before, hσ, htarget, hstreams, hfinished, -⟩ := h.slot (.inl hactive)
  have hopen : σ.finished = false := by rw [hfinished, h.open' hidle hactive]
  have hgood : Good w thread as es := by
    refine h.progress.resolve_right fun broken => ?_
    rcases broken.latched with ⟨r, -, rfl⟩ | ⟨hresult, -⟩
    · cases hthread
    · rw [hfailed] at hresult
      cases hresult
  have hscript := hgood.script
  rw [ahead_of_idle hidle, List.map_nil, List.append_nil] at hscript
  have hcarried : w.replayState = σ.streams :=
    hgood.carried (ahead_of_idle hidle) (h.open' hidle hactive) earlier σ hσ
  have hsessions : sessions (as ++ [if final then Accepted.finish source else .append source]) =
      earlier ++ [⟨σ.target, σ.streams ++ [source], final⟩] := by
    rw [sessions_append, hσ]
    cases final <;> simp [addCall]
  have hcount : (as ++ [if final then Accepted.finish source else .append source]).countP
      Accepted.opens = as.countP Accepted.opens := by
    rw [List.countP_append]
    cases final <;> rfl
  refine {
    active := fun _ => by cases final <;> simp [hactive]
    open' := nofun
    slot := fun _ => ⟨earlier, _, σ.streams, hsessions, htarget, rfl, by cases final <;> rfl,
      fun hopens => by cases final <;> cases hopens⟩
    streams := ?_
    count := ?_
    progress := .inl {
      ok := hgood.ok
      unfailed := hfailed
      result := hgood.result
      script := ?_
      carried := fun hnil => ?_ } }
  · rw [List.map_append, ← h.streams, hsessions, hσ]
    cases final <;> simp [Accepted.stream]
  · rw [hcount, ← h.count, hsessions, hσ]
    simp
  · have hlast : lastSession (as ++ [if final then Accepted.finish source else .append source]) =
        earlier.length := by
      rw [lastSession, hcount, ← h.count, hσ]
      simp
    have hcalls : ({ σ with streams := σ.streams ++ [source], finished := final } : Session).calls =
        σ.calls ++ .replay source w.replayState ::
          if final then [.close, σ.execution, σ.signal] else [] := by
      simp [Session.calls, Session.recording, hopen, replays_append, hcarried, Session.execution,
        Session.signal]
    rw [hsessions, script_append, hcalls, List.map_append, ← List.append_assoc, ← script_append,
      ← hσ, ← hscript, hlast, Session.execution, Session.signal, htarget]
    congr 2
    cases final <;> rfl
  · refine absurd hnil ?_
    cases final <;> simp [ahead, Operation.entry, Worker.callsFrom, Worker.fromReplay]

/-- A replay makes exactly one call with a stream. -/
theorem length_stream_fromReplay (carried : List DeferredCommandList) :
    ((w.fromReplay carried).filterMap Call.stream?).length = 1 := by
  have htail : (if w.job.operation.final then w.submission else []).filterMap Call.stream? = [] := by
    split <;> rfl
  simp only [Worker.fromReplay, List.filterMap_cons, Call.stream?, htail, List.length_singleton]

/-- A call of `ExecuteJob` that may fail: it is the next of the script either way. -/
theorem Scripted.fallible (h : Scripted w thread as es) (hrunning : w.state = .running)
    (hworking : thread.working = true) (hreturned : ∀ r, thread ≠ .returned r)
    (hstored : ∀ r, thread ≠ .stored r) (f : JobResult → JobResult)
    (hf : (f w.job.report).fenceValue = w.job.report.fenceValue) (thread' : Thread)
    (hcalls : w.callsFrom thread = call :: w.callsFrom thread')
    (hrest : ((w.callsFrom thread').filterMap Call.stream?).length ≤ 1)
    (hnil : w.callsFrom thread' = [] → w.job.operation.final = true) (r : HResult)
    (hthread' : ∀ r', thread' = .returned r' ∨ thread' = .stored r' → r' = r) :
    Scripted { w with job := { w.job with report := f w.job.report } }
      (if failed r then .returned r else thread') as
      (es ++ [⟨call, !failed r, lastSession as, as.length⟩]) := by
  have hbusy : w.state ≠ .idle := by rw [hrunning]; nofun
  have hqueued : w.state ≠ .queued := by rw [hrunning]; nofun
  have hsame : SameSlot w { w with job := { w.job with report := f w.job.report } } :=
    ⟨rfl, congrArg (Target.mk _ _ _) hf, rfl, rfl⟩
  have good : Good w thread as es :=
    h.progress.resolve_right fun broken => broken.not_calling hworking hreturned hstored
  have hahead : ahead w thread = call :: w.callsFrom thread' := by
    rw [ahead_of_running hrunning, hcalls]
  refine h.continue hsame hbusy hbusy ?_
  cases hr : failed r with
  | true => exact .inr (good.fails hahead hrest hr hqueued)
  | false =>
      refine .inl (good.called hahead ?_ rfl (fun r' hr' => ?_) fun hn hfinal => ?_)
      · rw [if_neg Bool.false_ne_true]
        simp only [ahead, hrunning]
        exact hsame.callsFrom rfl
      · rw [if_neg Bool.false_ne_true] at hr'
        rw [hthread' r' hr', hr]
      · rw [hsame.operation, hnil hn] at hfinal
        cases hfinal

/-- The script of an open session ends with the `Execute` of its last stream. -/
theorem Scripted.getLast_script (h : Scripted w thread as es) (hbusy : w.state ≠ .idle)
    (hfinal : w.job.operation.final = false) :
    ∃ earlier σ before, sessions as = earlier ++ [σ] ∧ σ.streams = before ++ [w.stream] ∧
      (script (sessions as)).getLast? = some (earlier.length, .replay w.stream before) := by
  obtain ⟨earlier, σ, before, hσ, -, hstreams, hfinished, -⟩ := h.slot (.inr hbusy)
  refine ⟨earlier, σ, before, hσ, hstreams, ?_⟩
  rw [hσ, script_append, Session.calls, Session.recording, hstreams, replays_append, hfinished,
    hfinal, if_neg Bool.false_ne_true]
  simp only [List.append_nil, List.map_append, List.map_singleton, ← List.append_assoc,
    List.getLast?_concat, List.nil_append]

/-- `Execute` returns: its stream is replayed after those carried over from the chunks before. -/
theorem Scripted.replay (h : Scripted w .replay as es) (hrunning : w.state = .running)
    (f : JobResult → JobResult)
    (hf : (f w.job.report).fenceValue = w.job.report.fenceValue) :
    Scripted
      { w with
        job := { w.job with report := f w.job.report }
        replayState := if w.job.operation = .whole then w.replayState
          else w.replayState ++ [w.stream] }
      (if w.job.operation = .begin ∨ w.job.operation = .append then .returned sOk else .close) as
      (es ++ [⟨.replay w.stream w.carried, true, lastSession as, as.length⟩]) := by
  have hbusy : w.state ≠ .idle := by rw [hrunning]; nofun
  have good : Good w .replay as es :=
    h.progress.resolve_right fun broken => broken.not_calling rfl nofun nofun
  have hahead : ahead w .replay = w.fromReplay w.carried := ahead_of_running hrunning
  have hfinal : w.job.operation.final = true ↔
      ¬(w.job.operation = .begin ∨ w.job.operation = .append) := by
    cases w.job.operation <;> simp [Operation.final]
  have hsame : SameSlot w
      { w with
        job := { w.job with report := f w.job.report }
        replayState := if w.job.operation = .whole then w.replayState
          else w.replayState ++ [w.stream] } := ⟨rfl, congrArg (Target.mk _ _ _) hf, rfl, rfl⟩
  refine h.continue hsame hbusy hbusy (.inl (good.called hahead ?_ rfl ?_ ?_))
  · simp only [ahead, hrunning]
    by_cases hop : w.job.operation = .begin ∨ w.job.operation = .append
    · rw [if_pos hop, if_neg fun hfin => hfinal.1 hfin hop]
      rfl
    · rw [if_neg hop, if_pos (hfinal.2 hop)]
      exact hsame.submission
  · intro r hr
    split at hr
    · rcases hr with hr | hr <;> cases hr
      rfl
    · rcases hr with hr | hr <;> cases hr
  · intro _ hintermediate earlier σ hσ
    change w.job.operation.final = false at hintermediate
    obtain ⟨earlier', σ', before, hσ', hstreams, hlast⟩ := h.getLast_script hbusy hintermediate
    obtain ⟨rfl, hone⟩ := List.append_inj' (hσ.symm.trans hσ') rfl
    obtain rfl : σ = σ' := List.singleton_inj.1 hone
    have hop : w.job.operation ≠ .whole := fun hw => by rw [hw] at hintermediate; cases hintermediate
    rw [← good.script, hahead, Worker.fromReplay, hintermediate, if_neg Bool.false_ne_true,
      List.map_singleton, List.getLast?_concat, Option.some.injEq, Prod.mk.injEq,
      Call.replay.injEq, Worker.carried, if_neg hop] at hlast
    change (if w.job.operation = .whole then w.replayState else w.replayState ++ [w.stream]) = _
    rw [if_neg hop, hstreams, hlast.2.2]

/-- `Signal` ends a recording: it is the last call of its session. -/
theorem Scripted.signal (h : Scripted w .signal as es) (hrunning : w.state = .running)
    (f : JobResult → JobResult)
    (hf : (f w.job.report).fenceValue = w.job.report.fenceValue) (r : HResult) :
    Scripted { w with job := { w.job with report := f w.job.report } } (.returned r) as
      (es ++ [⟨.signal w.job.queue w.job.fence w.job.report.fenceValue, !failed r,
        lastSession as, as.length⟩]) := by
  have hbusy : w.state ≠ .idle := by rw [hrunning]; nofun
  have good : Good w .signal as es :=
    h.progress.resolve_right fun broken => broken.not_calling rfl nofun nofun
  have hfinal : w.job.operation.final = true := by
    by_contra hintermediate
    obtain ⟨earlier, σ, before, -, -, hlast⟩ :=
      h.getLast_script hbusy (Bool.not_eq_true _ ▸ hintermediate)
    rw [← good.script, ahead_of_running hrunning] at hlast
    simp [Worker.callsFrom, Worker.submission] at hlast
  have hnext := h.fallible hrunning rfl nofun nofun f hf (.returned r) rfl (Nat.zero_le 1)
    (fun _ => hfinal) r fun r' hr' => by
      rcases hr' with hr' | hr' <;> cases hr'
      rfl
  rwa [ite_self] at hnext

/-- `Execute` throws: the job ends with its error, and no call follows. -/
theorem Scripted.replayThrow (h : Scripted w .replay as es) (hrunning : w.state = .running)
    (left : List DeferredCommandList) {r : HResult} (hr : failed r = true) :
    Scripted { w with replayState := left } (.returned r) as
      (es ++ [⟨.replay w.stream w.carried, false, lastSession as, as.length⟩]) := by
  have hbusy : w.state ≠ .idle := by rw [hrunning]; nofun
  have hqueued : w.state ≠ .queued := by rw [hrunning]; nofun
  have good : Good w .replay as es :=
    h.progress.resolve_right fun broken => broken.not_calling rfl nofun nofun
  have hahead : ahead w .replay = w.fromReplay w.carried := ahead_of_running hrunning
  have hsame : SameSlot w { w with replayState := left } := ⟨rfl, rfl, rfl, rfl⟩
  refine h.continue hsame hbusy hbusy (.inr (good.fails hahead ?_ hr hqueued))
  have hstream := length_stream_fromReplay (w := w) w.carried
  simp only [Worker.fromReplay, List.filterMap_cons, Call.stream?, List.length_cons] at hstream
  omega

/-- `replay_state_` is cleared between the list's `Reset` and `Execute`, which is no event of the
script. -/
theorem Scripted.clearReplayState (h : Scripted w .clearReplayState as es)
    (hrunning : w.state = .running) :
    Scripted { w with replayState := [] } .replay as es := by
  have hbusy : w.state ≠ .idle := by rw [hrunning]; nofun
  have hsame : SameSlot w { w with replayState := [] } := ⟨rfl, rfl, rfl, rfl⟩
  have good : Good w .clearReplayState as es :=
    h.progress.resolve_right fun broken => broken.not_calling rfl nofun nofun
  have hahead : ahead { w with replayState := [] } .replay = ahead w .clearReplayState := by
    simp [ahead, hrunning, Worker.callsFrom, Worker.carried, Worker.fromReplay, Worker.submission]
  refine h.continue hsame hbusy hbusy (.inl {
    ok := good.ok
    unfailed := good.unfailed
    result := fun r hr => by rcases hr with hr | hr <;> cases hr
    script := hahead ▸ good.script
    carried := fun hnil => ?_ })
  rw [hahead, ahead_of_running hrunning] at hnil
  cases hnil

/-- `result_` is stored, and a failure is remembered from here on. -/
theorem Scripted.store {r : HResult} (h : Scripted w (.returned r) as es)
    (hrunning : w.state = .running) :
    Scripted { w with result := if failed r then r else w.result } (.stored r) as es := by
  have hbusy : w.state ≠ .idle := by rw [hrunning]; nofun
  have hsame : SameSlot w { w with result := if failed r then r else w.result } :=
    ⟨rfl, rfl, rfl, rfl⟩
  have hahead : ahead w (.returned r) = [] := ahead_of_running hrunning
  have hahead' : ahead { w with result := if failed r then r else w.result } (.stored r) = [] :=
    ahead_of_running hrunning
  refine h.continue hsame hbusy hbusy (h.progress.imp (fun good => ?_) fun broken => ?_)
  · have hr : failed r = false := good.result r (.inl rfl)
    exact {
      ok := good.ok
      unfailed := by rw [if_neg (by rw [hr]; nofun)]; exact good.unfailed
      result := fun r' hr' => by
        rcases hr' with hr' | hr' <;> cases hr'
        exact hr
      script := by rw [hahead', ← hahead]; exact good.script
      carried := fun _ => good.carried hahead }
  · refine ⟨broken.events, .inr ⟨?_, fun _ => ⟨r, rfl⟩⟩, by rw [hrunning]; nofun⟩
    rcases broken.latched with ⟨r', hr', heq⟩ | ⟨-, hstored⟩
    · cases heq
      rw [if_pos hr']
      exact hr'
    · obtain ⟨r', heq⟩ := hstored rfl
      cases heq

/-- The job is complete, and the owner may take the slot back. -/
theorem Scripted.publish {r : HResult} (h : Scripted w (.stored r) as es)
    (hrunning : w.state = .running) :
    Scripted
      { w with
        job := { w.job with report := { w.job.report with result := r } }
        state := .complete }
      .waiting as es := by
  have hbusy : w.state ≠ .idle := by rw [hrunning]; nofun
  have hahead : ahead w (.stored r) = [] := ahead_of_running hrunning
  have hsame : SameSlot w
      { w with
        job := { w.job with report := { w.job.report with result := r } }
        state := .complete } := ⟨rfl, rfl, rfl, rfl⟩
  refine h.continue hsame hbusy nofun (h.progress.imp (fun good => ?_) fun broken => ?_)
  · exact {
      ok := good.ok
      unfailed := good.unfailed
      result := fun r' hr' => by rcases hr' with hr' | hr' <;> cases hr'
      script := by rw [← good.script, hahead]; rfl
      carried := fun _ => good.carried hahead }
  · refine ⟨broken.events, .inr ⟨?_, nofun⟩, nofun⟩
    rcases broken.latched with ⟨r', -, heq⟩ | ⟨hfailed, -⟩
    · cases heq
    · exact hfailed

end Script

/-- **Every step keeps the events a prefix of the script of the accepted calls**, and what is left
ahead of the worker is the rest of it. -/
theorem Scripted.step {s s' : State} (h : Scripted s.worker s.thread s.accepted s.events)
    (hs : Scheduled s.worker s.thread s.owner) (hstep : Step s s') :
    Scripted s'.worker s'.thread s'.accepted s'.events := by
  have hidle : s.worker.state = .idle → s.thread.working = false := fun hidle => by
    have := hs.working
    rw [hidle] at this
    by_contra hw
    exact absurd (this.2 (by simpa using hw)) nofun
  have hrunning : s.thread.working = true → s.worker.state = .running := hs.working.2
  cases hstep with
  | readyForChunk howner => exact h.reap
  | notify | notifyStop => exact h.notified
  | waitReturn => exact h.reap
  | stop => exact h.congr ⟨rfl, rfl, rfl, rfl⟩ rfl rfl rfl
  | runWait hthread =>
      rw [hthread] at h
      exact h.runWait rfl
  | runWake hthread =>
      rw [hthread] at h
      exact h.setThread rfl rfl
  | allocatorReset r hthread =>
      have hstate := hrunning (by rw [hthread]; rfl)
      rw [hthread] at h
      exact h.fallible hstate rfl nofun nofun ({ · with allocatorReset := r }) rfl .listReset rfl
        (Nat.le_of_eq (length_stream_fromReplay [])) nofun r (by simp)
  | listReset r hthread =>
      have hstate := hrunning (by rw [hthread]; rfl)
      rw [hthread] at h
      exact h.fallible hstate rfl nofun nofun ({ · with listReset := r }) rfl .clearReplayState rfl
        (Nat.le_of_eq (length_stream_fromReplay [])) nofun r (by simp)
  | clearReplayState hthread =>
      have hstate := hrunning (by rw [hthread]; rfl)
      rw [hthread] at h
      exact h.clearReplayState hstate
  | replay hthread =>
      have hstate := hrunning (by rw [hthread]; rfl)
      rw [hthread] at h
      exact h.replay hstate ({ · with replay := sOk }) rfl
  | replayThrow badAlloc left hthread =>
      have hstate := hrunning (by rw [hthread]; rfl)
      have hr : failed (if badAlloc then eOutOfMemory else eUnexpected) = true := by
        cases badAlloc <;> rfl
      rw [hthread] at h
      exact h.replayThrow hstate _ hr
  | close r hthread =>
      have hstate := hrunning (by rw [hthread]; rfl)
      rw [hthread] at h
      exact h.fallible hstate rfl nofun nofun ({ · with close := r }) rfl .executeCommandLists rfl
        (Nat.zero_le 1) nofun r (by simp)
  | executeCommandLists hthread =>
      have hstate := hrunning (by rw [hthread]; rfl)
      rw [hthread] at h
      exact h.fallible hstate rfl nofun nofun ({ · with queueExecuteAttempted := true }) rfl .signal
        rfl (Nat.zero_le 1) nofun sOk (by simp)
  | signal r hthread =>
      have hstate := hrunning (by rw [hthread]; rfl)
      rw [hthread] at h
      exact h.signal hstate ({ · with signal := r }) rfl r
  | store hthread =>
      have hstate := hrunning (by rw [hthread]; rfl)
      rw [hthread] at h
      exact h.store hstate
  | publish hthread =>
      have hstate := hrunning (by rw [hthread]; rfl)
      rw [hthread] at h
      exact (h.publish hstate).runWait rfl
  | record | wait | destroy | waitSleep | waitWake | join => exact h
  | submit i t howner =>
      rcases s.worker.start_cases (s.sources i) t.allocator t.queue t.fence t.value false with
        hout | ⟨-, hslot, -, hfailed, stats, -, hout⟩ <;>
        simp only [State.returned, Worker.submit, hout]
      · exact h
      · exact h.start (hidle hslot) hslot hfailed (s.sources i) t false stats
  | beginChunks i t howner =>
      rcases s.worker.start_cases (s.sources i) t.allocator t.queue t.fence t.value true with
        hout | ⟨-, hslot, -, hfailed, stats, -, hout⟩ <;>
        simp only [State.returned, Worker.beginChunks, hout]
      · exact h
      · exact h.start (hidle hslot) hslot hfailed (s.sources i) t true stats
  | tryAppendChunk i howner =>
      rcases s.worker.tryAppendChunk_cases (s.sources i) with
        hout | hout | ⟨w', rfl, -, hslot, hactive, hfailed, hout⟩ <;>
        simp only [State.returned, hout]
      · exact h
      · exact h.reap
      · have hthread : s.thread.working = false := by
          by_contra hw
          have hstate := hrunning (by simpa using hw)
          rw [Worker.reapCompleted_of_ne (by rw [hstate]; decide), hstate] at hslot
          cases hslot
        exact h.reap.chunk hthread hslot hactive hfailed (s.sources i) false _
  | finishChunks i howner =>
      rcases s.worker.finishChunks_cases (s.sources i) with
        hout | ⟨-, hslot, hactive, hfailed, hout⟩ <;> simp only [State.returned, hout]
      · exact h
      · exact h.chunk (hidle hslot) hslot hactive hfailed (s.sources i) true _

end Replay
end BoltsRebuilt
