/-
# Who runs when in the replay worker

`src/gpu/native/native_replay_worker.cpp`, lines 62-163: the calls of the owner
case by case, and three invariants.  `Scheduled` says who sleeps and who will be
woken: the worker thread never sleeps past a job, and the slot is busy exactly
while the thread is inside `ExecuteJob`.  `Refused` says that a call that
returned false left the owner's lists alone.  `Counted` says that the counters
differ by the job in the slot.
-/

import BoltsRebuilt.Replay.Worker

namespace BoltsRebuilt
namespace Replay

/-! ### The owner's calls -/

/-- `Start` refuses and leaves all as it was, or takes the recorded commands into the worker, which
was idle, outside a session and had not failed. -/
theorem Worker.start_cases (w : Worker) (source : DeferredCommandList)
    (allocator queue fence : Pointer) (value : UInt64) (chunks : Bool) :
    w.start source allocator queue fence value chunks = (false, w, source) ∨
      w.stop = false ∧ w.state = .idle ∧ w.sessionActive = false ∧ failed w.result = false ∧
        ∃ stats, (w.stats.chunksCompleted = stats.chunksCompleted ∧
            w.stats.completed = stats.completed ∧
            stats.chunksSubmitted = w.stats.chunksSubmitted + chunks.toNat ∧
            stats.submitted = w.stats.submitted + (!chunks).toNat) ∧
          w.start source allocator queue fence value chunks =
            (true,
              { w with
                job := ⟨allocator, queue, fence, { fenceValue := value },
                  if chunks then .begin else .whole⟩
                stream := source
                sessionActive := chunks
                state := .queued
                stats := stats },
              w.stream) := by
  rw [Worker.start]
  split
  · exact .inl rfl
  split
  · exact .inl rfl
  next hslot =>
    simp only [not_or, not_not, Bool.not_eq_true] at hslot
    obtain ⟨hstop, hidle, hactive, hfailed⟩ := hslot
    refine .inr ⟨hstop, hidle, hactive, hfailed, _, ?_, rfl⟩
    cases chunks <;> simp

/-- `TryAppendChunk` refuses at once, refuses after reaping a finished job, or takes the next chunk
into an idle worker in a session. -/
theorem Worker.tryAppendChunk_cases (w : Worker) (source : DeferredCommandList) :
    w.tryAppendChunk source = (false, w, source) ∨
      w.tryAppendChunk source = (false, w.reapCompleted, source) ∨
      ∃ w', w' = w.reapCompleted ∧ w'.stop = false ∧ w'.state = .idle ∧ w'.sessionActive = true ∧
        failed w'.result = false ∧
        w.tryAppendChunk source =
          (true,
            { w' with
              job := { w'.job with operation := .append }
              stream := source
              state := .queued
              stats := { w'.stats with chunksSubmitted := w'.stats.chunksSubmitted + 1 } },
            w'.stream) := by
  simp only [Worker.tryAppendChunk]
  split
  · exact .inl rfl
  split
  · exact .inr (.inl rfl)
  next hslot =>
    simp only [not_or, not_not, Bool.not_eq_true, Bool.not_eq_false] at hslot
    obtain ⟨hstop, hidle, hactive, hfailed⟩ := hslot
    exact .inr (.inr ⟨_, rfl, hstop, hidle, hactive, hfailed, rfl⟩)

/-- `FinishChunks` refuses or takes the last chunk into an idle worker in a session. -/
theorem Worker.finishChunks_cases (w : Worker) (source : DeferredCommandList) :
    w.finishChunks source = (false, w, source) ∨
      w.stop = false ∧ w.state = .idle ∧ w.sessionActive = true ∧ failed w.result = false ∧
        w.finishChunks source =
          (true,
            { w with
              job := { w.job with operation := .finish }
              stream := source
              state := .queued
              stats := { w.stats with
                chunksSubmitted := w.stats.chunksSubmitted + 1
                submitted := w.stats.submitted + 1 } },
            w.stream) := by
  rw [Worker.finishChunks]
  split
  · exact .inl rfl
  split
  · exact .inl rfl
  next hslot =>
    simp only [not_or, not_not, Bool.not_eq_true, Bool.not_eq_false] at hslot
    obtain ⟨hstop, hidle, hactive, hfailed⟩ := hslot
    exact .inr ⟨hstop, hidle, hactive, hfailed, rfl⟩

section Reap

variable (w : Worker)

/-- A worker that has nothing complete is left as it is. -/
theorem Worker.reapCompleted_of_ne {w : Worker} (h : w.state ≠ .complete) :
    w.reapCompleted = w := by rw [Worker.reapCompleted, if_pos h]

/-- A completed worker is idle after reaping. -/
theorem Worker.state_reapCompleted {w : Worker} (h : w.state = .complete) :
    w.reapCompleted.state = .idle := by
  rw [Worker.reapCompleted, if_neg (not_not.2 h)]
  dsimp only
  split_ifs <;> rfl

/-- Reaping does not stop the worker. -/
@[simp] theorem Worker.stop_reapCompleted : w.reapCompleted.stop = w.stop := by
  simp only [Worker.reapCompleted]
  split_ifs <;> rfl

/-- Reaping keeps the result of the last job. -/
@[simp] theorem Worker.result_reapCompleted : w.reapCompleted.result = w.result := by
  simp only [Worker.reapCompleted]
  split_ifs <;> rfl

/-- Reaping keeps the replay state. -/
@[simp] theorem Worker.replayState_reapCompleted :
    w.reapCompleted.replayState = w.replayState := by
  simp only [Worker.reapCompleted]
  split_ifs <;> rfl

/-- Reaping keeps the kind of the last job. -/
@[simp] theorem Worker.operation_reapCompleted :
    w.reapCompleted.job.operation = w.job.operation := by
  simp only [Worker.reapCompleted]
  split_ifs <;> rfl

end Reap

/-! ### Scheduling -/

/-- Inside `ExecuteJob`, or between it and the publication of its result. -/
def Thread.working : Thread → Bool
  | .waiting | .asleep | .exited => false
  | _ => true

/-- The destructor is past its `Wait`. -/
def Owner.leaving : Owner → Bool
  | .stopping | .notifyingStop | .joining | .destroyed => true
  | _ => false

/-- Who sleeps, who runs, and who will be woken. -/
structure Scheduled (w : Worker) (thread : Thread) (owner : Owner) : Prop where
  working : w.state = .running ↔ thread.working = true
  awake : thread = .asleep → w.state = .queued → owner = .notifying
  stopAwake : thread = .asleep → w.stop = true → owner = .notifyingStop
  exited : thread = .exited → w.stop = true
  leaving : owner.leaving = true → w.state = .idle
  stopped : w.stop = true → owner.leaving = true
  ownerAwake : ∀ destroying, owner = .asleep destroying → w.state ≠ .idle ∧ w.state ≠ .complete

/-- The thread enters every job as a working one. -/
theorem Operation.working_entry (operation : Operation) : operation.entry.working = true := by
  cases operation <;> rfl

namespace Scheduled

variable {w : Worker} {thread : Thread} {owner : Owner}

/-- A worker whose thread is waiting is not running a job. -/
theorem not_running (h : Scheduled w thread owner) (hthread : thread.working = false) :
    w.state ≠ .running := by
  rw [Ne, h.working, hthread]
  exact Bool.false_ne_true

/-- While the owner is free the slot may be taken. -/
theorem queue (h : Scheduled w thread .outside) (hidle : w.state = .idle) {w' : Worker}
    (hstate : w'.state = .queued) (hstop : w'.stop = w.stop) :
    Scheduled w' thread .notifying where
  working := by
    have := h.working
    rw [hidle] at this
    rw [hstate]
    exact ⟨nofun, fun hw => absurd (this.2 hw) nofun⟩
  awake _ _ := rfl
  stopAwake hasleep hw := nomatch h.stopAwake hasleep (hstop ▸ hw)
  exited hexited := hstop ▸ h.exited hexited
  leaving := nofun
  stopped hw := nomatch h.stopped (hstop ▸ hw)
  ownerAwake := nofun

/-- The slot is emptied by the owner, who alone may do so. -/
theorem reap (h : Scheduled w thread owner) (howner : ∀ destroying, owner ≠ .asleep destroying) :
    Scheduled w.reapCompleted thread owner := by
  rcases ne_or_eq w.state .complete with hne | hcomplete
  · rwa [Worker.reapCompleted_of_ne hne]
  · have hidle := Worker.state_reapCompleted hcomplete
    have hworking := h.working
    rw [hcomplete] at hworking
    exact {
      working := by rw [hidle]; exact ⟨nofun, fun hw => absurd (hworking.2 hw) nofun⟩
      awake := fun _ hqueued => by rw [hidle] at hqueued; cases hqueued
      stopAwake := fun hasleep hstop => h.stopAwake hasleep (by simpa using hstop)
      exited := fun hexited => by simpa using h.exited hexited
      leaving := fun _ => hidle
      stopped := fun hstop => h.stopped (by simpa using hstop)
      ownerAwake := fun destroying hasleep => absurd hasleep (howner destroying) }

/-- The owner moves on without touching the worker, and not while it is telling the thread. -/
theorem setOwner (h : Scheduled w thread owner) {owner' : Owner} (hnot : owner ≠ .notifying)
    (hnotStop : owner ≠ .notifyingStop)
    (hleaving : owner'.leaving = true ↔ owner.leaving = true)
    (hasleep : ∀ destroying, owner' = .asleep destroying → w.state ≠ .idle ∧ w.state ≠ .complete) :
    Scheduled w thread owner' where
  working := h.working
  awake hthread hstate := absurd (h.awake hthread hstate) hnot
  stopAwake hthread hstop := absurd (h.stopAwake hthread hstop) hnotStop
  exited := h.exited
  leaving hl := h.leaving (hleaving.1 hl)
  stopped hstop := hleaving.2 (h.stopped hstop)
  ownerAwake := hasleep

/-- Waking a thread does not make it work. -/
theorem working_notified (thread : Thread) : thread.notified.working = thread.working := by
  cases thread <;> rfl

/-- A notified thread is not asleep. -/
theorem notified_ne_asleep (thread : Thread) : thread.notified ≠ .asleep := by
  cases thread <;> nofun

/-- A notified owner is not asleep, whether it waits for a job or to be destroyed. -/
theorem owner_notified_ne_asleep (owner : Owner) (destroying : Bool) :
    owner.notified ≠ .asleep destroying := by
  cases owner <;> nofun

/-- Only an exited thread is exited after being notified. -/
theorem eq_exited_of_notified {thread : Thread} (h : thread.notified = .exited) :
    thread = .exited := by
  cases thread <;> first | rfl | cases h

/-- The worker thread is told, and wakes if it was asleep. -/
theorem notify (h : Scheduled w thread owner) {owner' : Owner}
    (hleaving : owner'.leaving = true ↔ owner.leaving = true)
    (hasleep : ∀ destroying, owner' ≠ .asleep destroying) :
    Scheduled w thread.notified owner' where
  working := by rw [working_notified]; exact h.working
  awake hthread := absurd hthread (notified_ne_asleep thread)
  stopAwake hthread := absurd hthread (notified_ne_asleep thread)
  exited hthread := h.exited (eq_exited_of_notified hthread)
  leaving hl := h.leaving (hleaving.1 hl)
  stopped hstop := hleaving.2 (h.stopped hstop)
  ownerAwake destroying howner := absurd howner (hasleep destroying)

/-- A step of `ExecuteJob`, made by the thread while the worker is running. -/
theorem execute (h : Scheduled w thread owner) (hthread : thread.working = true) {w' : Worker}
    {thread' : Thread} (hthread' : thread'.working = true) (hstate : w'.state = w.state)
    (hstop : w'.stop = w.stop) : Scheduled w' thread' owner where
  working := by rw [hstate, h.working, hthread, hthread']
  awake hasleep := by rw [hasleep] at hthread'; cases hthread'
  stopAwake hasleep := by rw [hasleep] at hthread'; cases hthread'
  exited hexited := by rw [hexited] at hthread'; cases hthread'
  leaving hl := hstate ▸ h.leaving hl
  stopped hs := h.stopped (hstop ▸ hs)
  ownerAwake destroying howner := hstate ▸ h.ownerAwake destroying howner

/-- The wait of `Run` looks at its predicate: it leaves, takes the job, or sleeps. -/
theorem runWait {s : State} (hrunning : s.worker.state ≠ .running)
    (hleaving : s.owner.leaving = true → s.worker.state = .idle)
    (hstopped : s.worker.stop = true → s.owner.leaving = true)
    (howner : ∀ destroying, s.owner = .asleep destroying →
      s.worker.state ≠ .idle ∧ s.worker.state ≠ .complete) :
    Scheduled s.runWait.worker s.runWait.thread s.runWait.owner := by
  rw [State.runWait]
  split_ifs with hstop hqueued
  · exact {
      working := ⟨fun h => absurd h hrunning, nofun⟩
      awake := nofun
      stopAwake := nofun
      exited := fun _ => hstop
      leaving := hleaving
      stopped := hstopped
      ownerAwake := howner }
  · exact {
      working := iff_of_true rfl (Operation.working_entry _)
      awake := fun _ h => nomatch h
      stopAwake := fun _ h => absurd h hstop
      exited := fun h => by
        have hentry := Operation.working_entry s.worker.job.operation
        rw [show s.worker.job.operation.entry = .exited from h] at hentry
        cases hentry
      leaving := fun h => by rw [hleaving h] at hqueued; cases hqueued
      stopped := hstopped
      ownerAwake := fun _ _ => ⟨nofun, nofun⟩ }
  · exact {
      working := ⟨fun h => absurd h hrunning, nofun⟩
      awake := fun _ hq => absurd hq hqueued
      stopAwake := fun _ hs => absurd hs hstop
      exited := nofun
      leaving := hleaving
      stopped := hstopped
      ownerAwake := howner }

/-- A call that takes a stream ends as it began, with the slot emptied, or with
the slot taken. -/
theorem start (h : Scheduled w thread .outside) (source : DeferredCommandList)
    (allocator queue fence : Pointer) (value : UInt64) (chunks : Bool) :
    let out := w.start source allocator queue fence value chunks
    Scheduled out.2.1 thread (if out.1 then .notifying else .outside) := by
  rcases w.start_cases source allocator queue fence value chunks with
    hout | ⟨-, hidle, -, -, _, -, hout⟩ <;> rw [hout]
  · exact h
  · exact h.queue hidle rfl rfl

/-- The owner's appending a chunk keeps thread, worker and owner in step. -/
theorem tryAppendChunk (h : Scheduled w thread .outside) (source : DeferredCommandList) :
    let out := w.tryAppendChunk source
    Scheduled out.2.1 thread (if out.1 then .notifying else .outside) := by
  rcases w.tryAppendChunk_cases source with hout | hout | ⟨w', rfl, -, hidle, -, -, hout⟩ <;>
    rw [hout]
  · exact h
  · exact h.reap nofun
  · exact (h.reap nofun).queue hidle rfl rfl

/-- So does its finishing the chunks of a session. -/
theorem finishChunks (h : Scheduled w thread .outside) (source : DeferredCommandList) :
    let out := w.finishChunks source
    Scheduled out.2.1 thread (if out.1 then .notifying else .outside) := by
  rcases w.finishChunks_cases source with hout | ⟨-, hidle, -, -, hout⟩ <;> rw [hout]
  · exact h
  · exact h.queue hidle rfl rfl

/-- **Every step of either party keeps them in step.** -/
theorem step {s s' : State} (h : Scheduled s.worker s.thread s.owner) (hstep : Step s s') :
    Scheduled s'.worker s'.thread s'.owner := by
  cases hstep with
  | record i l howner => exact h
  | submit i t howner =>
      rw [howner] at h
      exact h.start ..
  | beginChunks i t howner =>
      rw [howner] at h
      exact h.start ..
  | readyForChunk howner => exact h.reap (by rw [howner]; nofun)
  | tryAppendChunk i howner =>
      rw [howner] at h
      exact h.tryAppendChunk _
  | finishChunks i howner =>
      rw [howner] at h
      exact h.finishChunks _
  | notify howner =>
      rw [howner] at h
      exact h.notify Iff.rfl nofun
  | wait howner =>
      rw [howner] at h
      exact h.setOwner nofun nofun Iff.rfl nofun
  | destroy howner =>
      rw [howner] at h
      exact h.setOwner nofun nofun Iff.rfl nofun
  | waitSleep howner hidle hcomplete =>
      rw [howner] at h
      exact h.setOwner nofun nofun Iff.rfl fun _ _ => ⟨hidle, hcomplete⟩
  | @waitReturn destroying howner hslot =>
      rw [howner] at h
      have hreap := h.reap nofun
      cases destroying with
      | false => exact hreap.setOwner nofun nofun Iff.rfl nofun
      | true =>
          have hidle : s.worker.reapCompleted.state = .idle := by
            rcases hslot with hidle | hcomplete
            · rw [Worker.reapCompleted_of_ne (by rw [hidle]; nofun), hidle]
            · exact Worker.state_reapCompleted hcomplete
          exact { hreap with
            awake := fun _ hqueued => by
              rw [show s.worker.reapCompleted.state = .queued from hqueued] at hidle
              cases hidle
            stopAwake := fun hasleep hstop => nomatch hreap.stopAwake hasleep hstop
            leaving := fun _ => hidle
            stopped := fun _ => rfl
            ownerAwake := nofun }
  | waitWake howner =>
      rw [howner] at h
      exact h.setOwner nofun nofun Iff.rfl nofun
  | stop howner =>
      rw [howner] at h
      have hidle := h.leaving rfl
      exact {
        working := h.working
        awake := fun _ hqueued => by
          rw [show s.worker.state = .queued from hqueued] at hidle
          cases hidle
        stopAwake := fun _ _ => rfl
        exited := fun _ => rfl
        leaving := fun _ => hidle
        stopped := fun _ => rfl
        ownerAwake := nofun }
  | notifyStop howner =>
      rw [howner] at h
      exact h.notify Iff.rfl nofun
  | join howner hthread =>
      rw [howner] at h
      exact h.setOwner nofun nofun Iff.rfl nofun
  | runWait hthread =>
      exact runWait (h.not_running (by rw [hthread]; rfl)) h.leaving h.stopped h.ownerAwake
  | runWake hthread =>
      exact {
        working := by rw [h.working, hthread]; rfl
        awake := nofun
        stopAwake := nofun
        exited := nofun
        leaving := h.leaving
        stopped := h.stopped
        ownerAwake := h.ownerAwake }
  | allocatorReset r hthread =>
      exact h.execute (by rw [hthread]; rfl) (by dsimp only; split <;> rfl) rfl rfl
  | listReset r hthread =>
      exact h.execute (by rw [hthread]; rfl) (by dsimp only; split <;> rfl) rfl rfl
  | clearReplayState hthread => exact h.execute (by rw [hthread]; rfl) rfl rfl rfl
  | replay hthread => exact h.execute (by rw [hthread]; rfl) (by dsimp only; split <;> rfl) rfl rfl
  | replayThrow badAlloc left hthread => exact h.execute (by rw [hthread]; rfl) rfl rfl rfl
  | close r hthread =>
      exact h.execute (by rw [hthread]; rfl) (by dsimp only; split <;> rfl) rfl rfl
  | executeCommandLists hthread => exact h.execute (by rw [hthread]; rfl) rfl rfl rfl
  | signal r hthread => exact h.execute (by rw [hthread]; rfl) rfl rfl rfl
  | store hthread => exact h.execute (by rw [hthread]; rfl) rfl rfl rfl
  | @publish r hthread =>
      have hrunning := h.working.2 (by rw [hthread]; rfl)
      have hleaving : s.owner.leaving = false := by
        by_contra hl
        rw [h.leaving (by simpa using hl)] at hrunning
        cases hrunning
      have hnotified : s.owner.notified.leaving = false := by
        cases ho : s.owner <;> rw [ho] at hleaving <;> first | rfl | cases hleaving
      refine runWait nofun (fun hl => ?_) (fun hstop => ?_) fun destroying hasleep => ?_
      · rw [show s.owner.notified.leaving = true from hl] at hnotified
        cases hnotified
      · rw [h.stopped hstop] at hleaving
        cases hleaving
      · exact absurd (show s.owner.notified = .asleep destroying from hasleep)
          (owner_notified_ne_asleep _ _)

end Scheduled

/-! ### Refused calls and counts -/

/-- A refused call leaves every list of the owner as it was. -/
def Refused (returns : List Return) : Prop := ∀ r ∈ returns, r.accepted = false → r.after = r.before

/-- A call that refused has given its commands back. -/
theorem Refused.returned {s : State} (h : Refused s.returns) {i : ℕ}
    {entry : DeferredCommandList → Accepted} {out : Bool × Worker × DeferredCommandList}
    (hout : out.1 = false → out.2.2 = s.sources i) : Refused (s.returned i entry out).returns := by
  intro r hr hrefused
  rcases List.mem_append.1 hr with hr | hr
  · exact h r hr hrefused
  · rw [List.mem_singleton] at hr
    subst hr
    exact (congrArg _ (hout hrefused)).trans (Function.update_eq_self i s.sources)

/-- The jobs that are submitted and not completed: the one in the slot. -/
structure Counted (w : Worker) : Prop where
  chunks : w.stats.chunksSubmitted = w.stats.chunksCompleted +
    if w.state ≠ .idle ∧ w.job.operation ≠ .whole then 1 else 0
  jobs : w.stats.submitted = w.stats.completed +
    if w.state ≠ .idle ∧ w.job.operation.final = true then 1 else 0

namespace Counted

variable {w : Worker}

/-- An idle worker has completed every job it has taken. -/
theorem idle (h : Counted w) (hidle : w.state = .idle) :
    w.stats.chunksSubmitted = w.stats.chunksCompleted ∧
      w.stats.submitted = w.stats.completed := by
  have hchunks := h.chunks
  have hjobs := h.jobs
  simp only [hidle, ne_eq, not_true_eq_false, false_and, if_false, Nat.add_zero] at hchunks hjobs
  exact ⟨hchunks, hjobs⟩

/-- Reaping keeps the counts true. -/
theorem reap (h : Counted w) : Counted w.reapCompleted := by
  rcases ne_or_eq w.state .complete with hne | hcomplete
  · rwa [Worker.reapCompleted_of_ne hne]
  · have hchunks := h.chunks
    have hjobs := h.jobs
    constructor <;> rw [Worker.state_reapCompleted hcomplete] <;>
      simp only [Worker.reapCompleted, hcomplete] <;>
      cases hop : w.job.operation <;> simp_all [Operation.final]

/-- Starting a session or a single job keeps the counts true. -/
theorem start (h : Counted w) (source : DeferredCommandList) (allocator queue fence : Pointer)
    (value : UInt64) (chunks : Bool) :
    Counted (w.start source allocator queue fence value chunks).2.1 := by
  rcases w.start_cases source allocator queue fence value chunks with
    hout | ⟨-, hidle, -, -, stats, ⟨hc, hj, hsc, hsj⟩, hout⟩ <;> rw [hout]
  · exact h
  · obtain ⟨hchunks, hjobs⟩ := h.idle hidle
    rw [hc] at hchunks
    rw [hj] at hjobs
    cases chunks <;> constructor <;> simp [hsc, hsj, hchunks, hjobs, Operation.final, ← hc, ← hj]

/-- So does appending a chunk. -/
theorem tryAppendChunk (h : Counted w) (source : DeferredCommandList) :
    Counted (w.tryAppendChunk source).2.1 := by
  rcases w.tryAppendChunk_cases source with hout | hout | ⟨w', rfl, -, hidle, -, -, hout⟩ <;>
    rw [hout]
  · exact h
  · exact h.reap
  · obtain ⟨hchunks, hjobs⟩ := h.reap.idle hidle
    constructor <;> simp [hchunks, hjobs, Operation.final]

/-- So does finishing the chunks. -/
theorem finishChunks (h : Counted w) (source : DeferredCommandList) :
    Counted (w.finishChunks source).2.1 := by
  rcases w.finishChunks_cases source with hout | ⟨-, hidle, -, -, hout⟩ <;> rw [hout]
  · exact h
  · obtain ⟨hchunks, hjobs⟩ := h.idle hidle
    constructor <;> simp [hchunks, hjobs, Operation.final]

/-- The state of a job that is submitted and not completed changes. -/
theorem busy (h : Counted w) (hbusy : w.state ≠ .idle) {w' : Worker} (hbusy' : w'.state ≠ .idle)
    (hoperation : w'.job.operation = w.job.operation) (hstats : w'.stats = w.stats) :
    Counted w' := by
  constructor
  · rw [hstats, hoperation, h.chunks]
    simp only [ne_eq, hbusy, hbusy']
  · rw [hstats, hoperation, h.jobs]
    simp only [ne_eq, hbusy, hbusy']

/-- So does the thread waiting for its next job. -/
theorem runWait {s : State} (h : Counted s.worker) : Counted s.runWait.worker := by
  rw [State.runWait]
  split_ifs with hstop hqueued
  · exact h
  · exact h.busy (by rw [hqueued]; nofun) nofun rfl rfl
  · exact h

/-- And so does every step, a job being finished only by a thread that works on one. -/
theorem step {s s' : State} (h : Counted s.worker)
    (hrunning : s.thread.working = true → s.worker.state = .running) (hstep : Step s s') :
    Counted s'.worker := by
  have hcall : s.thread.working = true → ∀ {w' : Worker}, w'.state ≠ .idle →
      w'.job.operation = s.worker.job.operation → w'.stats = s.worker.stats → Counted w' :=
    fun hworking _ => h.busy (by rw [hrunning hworking]; nofun)
  have hbusy : s.thread.working = true → s.worker.state ≠ .idle := fun hworking => by
    rw [hrunning hworking]; nofun
  cases hstep with
  | submit i t => exact h.start ..
  | beginChunks i t => exact h.start ..
  | readyForChunk => exact h.reap
  | tryAppendChunk i => exact h.tryAppendChunk _
  | finishChunks i => exact h.finishChunks _
  | waitReturn => exact h.reap
  | stop => exact ⟨h.chunks, h.jobs⟩
  | runWait => exact h.runWait
  | allocatorReset r hthread | listReset r hthread | clearReplayState hthread | replay hthread
  | replayThrow _ _ hthread | close r hthread | executeCommandLists hthread | signal r hthread
  | store hthread =>
      have hworking : s.thread.working = true := by rw [hthread]; rfl
      exact hcall hworking (hbusy hworking) rfl rfl
  | publish hthread =>
      have hworking : s.thread.working = true := by rw [hthread]; rfl
      exact runWait (hcall hworking nofun rfl rfl)
  | record | notify | wait | destroy | waitSleep | waitWake | notifyStop | join | runWake => exact h

end Counted

/-- Every step keeps it true that a refused call gave its commands back. -/
theorem Refused.step {s s' : State} (h : Refused s.returns) (hstep : Step s s') :
    Refused s'.returns := by
  have hrunWait : ∀ {s : State}, s.runWait.returns = s.returns := fun {s} => by
    rw [State.runWait]
    split_ifs <;> rfl
  cases hstep with
  | submit i t =>
      refine h.returned fun hrefused => ?_
      rcases s.worker.start_cases (s.sources i) t.allocator t.queue t.fence t.value false with
        hout | ⟨-, -, -, -, _, -, hout⟩ <;> rw [Worker.submit, hout] at hrefused ⊢
      cases hrefused
  | beginChunks i t =>
      refine h.returned fun hrefused => ?_
      rcases s.worker.start_cases (s.sources i) t.allocator t.queue t.fence t.value true with
        hout | ⟨-, -, -, -, _, -, hout⟩ <;> rw [Worker.beginChunks, hout] at hrefused ⊢
      cases hrefused
  | tryAppendChunk i =>
      refine h.returned fun hrefused => ?_
      rcases s.worker.tryAppendChunk_cases (s.sources i) with hout | hout | ⟨_, -, -, -, -, -, hout⟩ <;>
        rw [hout] at hrefused ⊢
      cases hrefused
  | finishChunks i =>
      refine h.returned fun hrefused => ?_
      rcases s.worker.finishChunks_cases (s.sources i) with hout | ⟨-, -, -, -, hout⟩ <;>
        rw [hout] at hrefused ⊢
      cases hrefused
  | runWait => rwa [hrunWait]
  | publish => exact (congrArg Refused hrunWait).mpr h
  | record | readyForChunk | notify | wait | destroy | waitSleep | waitReturn | waitWake | stop
  | notifyStop | join | runWake | allocatorReset | listReset | clearReplayState | replay
  | replayThrow | close | executeCommandLists | signal | store => exact h

end Replay
end BoltsRebuilt
