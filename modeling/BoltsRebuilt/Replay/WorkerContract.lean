/-
# The contract of the replay worker

`src/gpu/native/native_replay_worker.h`, lines 30-56;
`src/tools/test_native_replay_worker.cpp`.

`Contract` says what a caller may rely on: a refused call leaves its stream
alone; the streams are executed in the order they were accepted in, each once
unless a step failed; a recording is executed and signalled at most once, with
its own queue, fence and value, after its own streams were replayed and the list
was closed; nothing follows a step that failed.  It holds in every reachable
state (`replayWorker_contract`), so for every order of the owner's calls and the
thread's steps and every outcome of them.
-/

import BoltsRebuilt.Replay.WorkerScript

namespace BoltsRebuilt
namespace Replay

def Call.executes : Call → Bool
  | .executeCommandLists _ => true
  | _ => false

def Call.signals : Call → Bool
  | .signal _ _ _ => true
  | _ => false

/-- The calls that belong to a recording. -/
def callsOf (k : ℕ) (es : List Event) : List Call := (es.filter (·.session = k)).map (·.call)

/-- The streams that `Execute` was called for. -/
def executed (es : List Event) : List DeferredCommandList := es.filterMap fun e => e.call.stream?

/-- An upper bound on the steps up to the end of the job in the slot. -/
def Thread.left : Thread → ℕ
  | .asleep => 12
  | .waiting => 11
  | .allocatorReset => 10
  | .listReset => 9
  | .clearReplayState => 8
  | .replay => 7
  | .close => 6
  | .executeCommandLists => 5
  | .signal => 4
  | .returned _ => 3
  | .stored _ => 2
  | .exited => 1

def State.left (s : State) : ℕ :=
  match s.worker.state with
  | .queued | .running => s.thread.left
  | .idle | .complete => 0

/-- What a caller may rely on. -/
structure Contract (s : State) : Prop where
  /-- A call that returned false left the owner's lists as they were. -/
  refused : ∀ r ∈ s.returns, r.accepted = false → r.after = r.before
  /-- The `k`th `Execute` is that of the `k`th accepted stream. -/
  order : executed s.events <+: s.accepted.map Accepted.stream
  /-- With no job in the slot, a stream was executed, or its own job or an
  earlier one failed. -/
  once : s.worker.state = .idle ∨ s.worker.state = .complete → ∀ k < s.accepted.length,
    k < (executed s.events).length ∨ ∃ e ∈ s.events, e.ok = false ∧ e.jobs ≤ k + 1
  /-- A job in the slot comes to its end: the thread does not sleep past it, each
  step of the thread brings the end closer, and no step puts it off. -/
  awake : s.worker.state = .queued → s.thread = .asleep → s.owner = .notifying
  advances : s.left ≠ 0 → s.thread ≠ .asleep → ∃ s', Step s s' ∧ s'.left < s.left
  steady : s.left ≠ 0 → ∀ s', Step s s' → s'.left ≤ s.left
  execution : ∀ before e after, s.events = before ++ e :: after → e.call.executes = true →
    ∃ σ, (sessions s.accepted)[e.session]? = some σ ∧ σ.finished = true ∧ e.call = σ.execution ∧
      callsOf e.session before = σ.recording ++ [.close] ∧ (∀ e' ∈ before, e'.ok = true) ∧
      ∀ e' ∈ after, e'.session = e.session → e'.call.executes = false
  signal : ∀ before e after, s.events = before ++ e :: after → e.call.signals = true →
    ∃ σ, (sessions s.accepted)[e.session]? = some σ ∧ σ.finished = true ∧ e.call = σ.signal ∧
      callsOf e.session before = σ.recording ++ [.close, σ.execution] ∧
      (∀ e' ∈ before, e'.ok = true) ∧ ∀ e' ∈ after, e'.session ≠ e.session
  /-- A recording in which a step failed is never signalled. -/
  unsignalled : ∀ e ∈ s.events, e.ok = false → ∀ e' ∈ s.events, e'.session = e.session →
    e'.call.signals = true → e'.ok = false
  /-- No step follows one that failed, and no stream is accepted any more. -/
  latched : ∀ before e after, s.events = before ++ e :: after → e.ok = false →
    after = [] ∧ s.accepted.length = e.jobs
  chunks : s.worker.stats.chunksSubmitted = s.worker.stats.chunksCompleted ∨
    s.worker.stats.chunksSubmitted = s.worker.stats.chunksCompleted + 1

/-! ### Cutting the script into recordings -/

/-- The part of the script under the number of a recording are its calls. -/
theorem filter_script (σs : List Session) (k : ℕ) :
    ((script σs).filter (·.1 = k)).map Prod.snd = (σs[k]?.map Session.calls).getD [] := by
  induction σs using List.reverseRecOn with
  | nil => rfl
  | append_singleton σs σ ih =>
      rw [script_append, List.filter_append, List.map_append, ih, List.filter_map, List.map_map]
      rcases Nat.lt_trichotomy k σs.length with hlt | rfl | hgt
      · have hnil : σ.calls.filter ((fun c : ℕ × Call => decide (c.1 = k)) ∘ (σs.length, ·)) = [] :=
          List.filter_eq_nil_iff.2 fun _ _ => by simp; omega
        rw [hnil, List.getElem?_append_left hlt]
        simp
      · simp [Function.comp_def]
      · have hnil : σ.calls.filter ((fun c : ℕ × Call => decide (c.1 = k)) ∘ (σs.length, ·)) = [] :=
          List.filter_eq_nil_iff.2 fun _ _ => by simp; omega
        rw [hnil, List.getElem?_eq_none (by omega), List.getElem?_eq_none (by simp; omega)]
        rfl

section Scripted

variable {w : Worker} {thread : Thread} {as : List Accepted} {es before after : List Event}
  {e : Event}

/-- The events are the beginning of the script, and the rest of it is still to come. -/
theorem Scripted.exists_rest (h : Scripted w thread as es) :
    ∃ rest, es.map Event.entry ++ rest = script (sessions as) := by
  rcases h.progress with good | broken
  · exact ⟨_, good.script⟩
  · obtain ⟨-, -, rest, -, -, -, -, -, hscript, -⟩ := broken.events
    exact ⟨rest, hscript⟩

/-- The events of a recording are the beginning of its calls. -/
theorem Scripted.callsOf_prefix (h : Scripted w thread as es) (k : ℕ) :
    callsOf k es <+: ((sessions as)[k]?.map Session.calls).getD [] := by
  obtain ⟨rest, hscript⟩ := h.exists_rest
  refine ⟨(rest.filter (·.1 = k)).map Prod.snd, ?_⟩
  rw [← filter_script, ← hscript, List.filter_append, List.map_append, List.filter_map,
    List.map_map]
  rfl

/-- Up to a step that failed everything succeeded, and behind it there is nothing. -/
theorem Scripted.failed_last (h : Scripted w thread as es) (hes : es = before ++ e :: after)
    (he : e.ok = false) : after = [] ∧ as.length = e.jobs := by
  rcases h.progress with good | broken
  · rw [good.ok e (by simp [hes])] at he
    cases he
  · obtain ⟨before', e', -, hes', hok, -, hjobs, -, -, -⟩ := broken.events
    rcases List.eq_nil_or_concat after with rfl | ⟨after, last, rfl⟩
    · have hlast := List.append_inj' (hes.symm.trans hes') rfl
      rw [List.singleton_inj.1 hlast.2]
      exact ⟨rfl, hjobs.symm⟩
    · have hcut : (before ++ e :: after) ++ [last] = before' ++ [e'] := by
        rw [← hes', hes]
        simp
      rw [hok e (by simp [← (List.append_inj' hcut rfl).1])] at he
      cases he

/-- Every event before another one has succeeded: a failure is the last. -/
theorem Scripted.ok_before (h : Scripted w thread as es) (hes : es = before ++ e :: after) :
    ∀ e' ∈ before, e'.ok = true := by
  intro e' he'
  by_contra hfailed
  obtain ⟨left, right, rfl⟩ := List.append_of_mem he'
  have hcut : es = left ++ e' :: (right ++ e :: after) := by simp [hes]
  have hnil := h.failed_last hcut (Bool.not_eq_true _ ▸ hfailed)
  simp at hnil

/-- A recording ends with `ExecuteCommandLists` and `Signal`, if at all. -/
theorem Session.calls_split {σ : Session} {calls calls' : List Call} {call : Call}
    (h : calls ++ call :: calls' = σ.calls) (hcall : call.executes = true ∨ call.signals = true) :
    σ.finished = true ∧
      (calls = σ.recording ++ [.close] ∧ call = σ.execution ∧ calls' = [σ.signal] ∨
        calls = σ.recording ++ [.close, σ.execution] ∧ call = σ.signal ∧ calls' = []) := by
  have hreplays : ∀ before streams, call ∉ replays before streams := by
    intro before streams
    induction streams generalizing before with
    | nil => exact List.not_mem_nil
    | cons stream streams ih =>
        rw [replays, List.mem_cons, not_or]
        refine ⟨?_, ih _⟩
        rintro rfl
        rcases hcall with hcall | hcall <;> cases hcall
  have hrecording : call ∉ σ.recording := by
    rw [Session.recording, List.mem_append, not_or]
    refine ⟨fun hmem => ?_, hreplays _ _⟩
    simp only [List.mem_cons, List.not_mem_nil, or_false] at hmem
    rcases hmem with rfl | rfl <;> rcases hcall with hcall | hcall <;> cases hcall
  rw [Session.calls, List.append_eq_append_iff] at h
  rcases h with ⟨left, hleft, hright⟩ | ⟨left, rfl, hright⟩
  · cases left with
    | nil =>
        split at hright
        · rw [List.nil_append, List.cons.injEq] at hright
          rw [hright.1] at hcall
          rcases hcall with hcall | hcall <;> cases hcall
        · cases hright
    | cons c left =>
        rw [List.cons_append, List.cons.injEq] at hright
        exact absurd (by rw [hleft, hright.1]; simp) hrecording
  · split at hright
    next hfinished =>
      refine ⟨hfinished, ?_⟩
      rcases left with _ | ⟨c₁, _ | ⟨c₂, _ | ⟨c₃, left⟩⟩⟩ <;>
        simp only [List.nil_append, List.cons_append, List.cons.injEq, List.nil_eq,
          List.append_eq_nil_iff, reduceCtorEq, and_false] at hright
      · rw [← hright.1] at hcall
        rcases hcall with hcall | hcall <;> cases hcall
      · obtain ⟨rfl, rfl, rfl⟩ := hright
        exact .inl ⟨rfl, rfl, rfl⟩
      · obtain ⟨rfl, rfl, rfl, rfl⟩ := hright
        exact .inr ⟨rfl, rfl, rfl⟩
    · simp at hright

/-- Where a recording is executed or signalled, its calls are known. -/
theorem Scripted.submitted (h : Scripted w thread as es) (hes : es = before ++ e :: after)
    (hcall : e.call.executes = true ∨ e.call.signals = true) :
    ∃ σ, (sessions as)[e.session]? = some σ ∧ σ.finished = true ∧
      (callsOf e.session before = σ.recording ++ [.close] ∧ e.call = σ.execution ∧
          (∀ e' ∈ after, e'.session = e.session → e'.call.executes = false) ∨
        callsOf e.session before = σ.recording ++ [.close, σ.execution] ∧ e.call = σ.signal ∧
          ∀ e' ∈ after, e'.session ≠ e.session) := by
  obtain ⟨rest, hprefix⟩ := h.callsOf_prefix e.session
  have hsplit : callsOf e.session es =
      callsOf e.session before ++ e.call :: callsOf e.session after := by
    simp [callsOf, hes]
  rw [hsplit, List.append_assoc, List.cons_append] at hprefix
  cases hσ : (sessions as)[e.session]? with
  | none => simp [hσ] at hprefix
  | some σ =>
      rw [hσ] at hprefix
      obtain ⟨hfinished, hcase⟩ := Session.calls_split hprefix hcall
      have hmem : ∀ e' ∈ after, e'.session = e.session →
          e'.call ∈ callsOf e.session after ++ rest := fun e' he' hsession =>
        List.mem_append_left _ (List.mem_map.2 ⟨e', by simp [he', hsession], rfl⟩)
      refine ⟨σ, rfl, hfinished, hcase.imp ?_ ?_⟩
      · rintro ⟨hbefore, hexecution, hafter⟩
        refine ⟨hbefore, hexecution, fun e' he' hsession => ?_⟩
        have hcall' := hmem e' he' hsession
        rw [hafter, List.mem_singleton] at hcall'
        rw [hcall']
        rfl
      · rintro ⟨hbefore, hsignal, hafter⟩
        refine ⟨hbefore, hsignal, fun e' he' hsession => ?_⟩
        have hcall' := hmem e' he' hsession
        rw [hafter] at hcall'
        cases hcall'

/-- The streams executed are, in order, the first of those accepted. -/
theorem Scripted.order (h : Scripted w thread as es) : executed es <+: as.map Accepted.stream := by
  obtain ⟨rest, hscript⟩ := h.exists_rest
  refine ⟨rest.filterMap fun c => c.2.stream?, ?_⟩
  rw [← h.streams, ← filterMap_stream_script, ← hscript, List.filterMap_append,
    List.filterMap_map]
  rfl

/-- With no job in the slot only the last stream may be missing. -/
theorem Scripted.once (h : Scripted w thread as es) (hslot : w.state = .idle ∨ w.state = .complete)
    (k : ℕ) (hk : k < as.length) :
    k < (executed es).length ∨ ∃ e ∈ es, e.ok = false ∧ e.jobs ≤ k + 1 := by
  have hstreams : ∀ rest, es.map Event.entry ++ rest = script (sessions as) →
      (executed es).length + (rest.filterMap fun c => c.2.stream?).length = as.length := by
    intro rest hscript
    have hall := filterMap_stream_script (sessions as)
    rw [h.streams, ← hscript, List.filterMap_append, List.filterMap_map] at hall
    have hlength := congrArg List.length hall
    rw [List.length_append, List.length_map] at hlength
    exact hlength
  rcases h.progress with good | broken
  · have hahead : ahead w thread = [] := by rcases hslot with hs | hs <;> rw [ahead, hs]
    have hlength := hstreams _ good.script
    rw [hahead, List.map_nil, List.filterMap_nil, List.length_nil] at hlength
    exact .inl (by omega)
  · obtain ⟨before, e, rest, rfl, -, he, hjobs, -, hscript, hrest⟩ := broken.events
    have hlength := hstreams rest hscript
    by_cases hlt : k < (executed (before ++ [e])).length
    · exact .inl hlt
    · exact .inr ⟨e, by simp, he, by omega⟩

end Scripted

/-! ### A job comes to its end -/

/-- A running job has left what its thread has still to do. -/
theorem State.left_of_running {s : State} (h : s.worker.state = .running) :
    s.left = s.thread.left := by rw [State.left, h]

/-- So has a queued one. -/
theorem State.left_of_queued {s : State} (h : s.worker.state = .queued) :
    s.left = s.thread.left := by rw [State.left, h]

/-- While something is left the worker is queued or running. -/
theorem State.busy_of_left {s : State} (h : s.left ≠ 0) :
    s.worker.state = .queued ∨ s.worker.state = .running := by
  cases hstate : s.worker.state with
  | queued => exact .inl rfl
  | running => exact .inr rfl
  | idle | complete => exact absurd (by rw [State.left, hstate]) h

/-- No job takes more than ten steps of the thread. -/
theorem Operation.left_entry_le (operation : Operation) : operation.entry.left ≤ 10 := by
  cases operation <;> decide

/-- Waking the thread adds no steps. -/
theorem Thread.left_notified_le (thread : Thread) : thread.notified.left ≤ thread.left := by
  cases thread <;> simp [Thread.notified, Thread.left]

section Progress

variable {s s' : State}

/-- A queued job is started, with its own steps before it and no others. -/
theorem State.left_runWait (hqueued : s.worker.state = .queued) (hstop : s.worker.stop = false) :
    s.runWait.left ≤ 10 := by
  rw [State.runWait, if_neg (by rw [hstop]; exact Bool.false_ne_true), if_pos hqueued]
  exact Operation.left_entry_le _

/-- A worker that is busy has not been stopped. -/
theorem Scheduled.stop_of_busy (h : Scheduled s.worker s.thread s.owner)
    (hbusy : s.worker.state ≠ .idle) : s.worker.stop = false := by
  by_contra hstop
  exact hbusy (h.leaving (h.stopped (Bool.not_eq_false _ ▸ hstop)))

/-- **A busy worker whose thread is awake can make a step that leaves less to do.** -/
theorem Scheduled.advances (h : Scheduled s.worker s.thread s.owner) (hleft : s.left ≠ 0)
    (hasleep : s.thread ≠ .asleep) : ∃ s', Step s s' ∧ s'.left < s.left := by
  rcases State.busy_of_left hleft with hqueued | hrunning
  · have hstop := h.stop_of_busy (by rw [hqueued]; nofun)
    have hthread : s.thread = .waiting := by
      cases hthread : s.thread with
      | waiting => rfl
      | asleep => exact absurd hthread hasleep
      | exited => rw [h.exited hthread] at hstop; cases hstop
      | _ =>
          have hrunning := h.working.2 (by rw [hthread]; rfl)
          rw [hqueued] at hrunning
          cases hrunning
    have hle := State.left_runWait hqueued hstop
    refine ⟨_, .runWait hthread, ?_⟩
    rw [State.left_of_queued hqueued, hthread]
    show s.runWait.left < 11
    omega
  · have hleft' := State.left_of_running hrunning
    have hworking := h.working.1 hrunning
    have hnext : ∀ {s'}, Step s s' → s'.worker.state = .running → s'.thread.left < s.thread.left →
        ∃ s', Step s s' ∧ s'.left < s.left := fun {s'} hstep hrunning' hlt =>
      ⟨s', hstep, by rw [State.left_of_running hrunning', hleft']; exact hlt⟩
    cases hthread : s.thread with
    | waiting | asleep | exited => rw [hthread] at hworking; cases hworking
    | allocatorReset => exact hnext (.allocatorReset 0 hthread) hrunning (by rw [hthread]; exact Nat.lt_succ_self 9)
    | listReset => exact hnext (.listReset 0 hthread) hrunning (by rw [hthread]; exact Nat.lt_succ_self 8)
    | clearReplayState => exact hnext (.clearReplayState hthread) hrunning (by rw [hthread]; exact Nat.lt_succ_self 7)
    | replay =>
        refine hnext (.replay hthread) hrunning ?_
        rw [hthread]
        dsimp only
        split <;> simp [Thread.left]
    | close => exact hnext (.close 0 hthread) hrunning (by rw [hthread]; exact Nat.lt_succ_self 5)
    | executeCommandLists =>
        exact hnext (.executeCommandLists hthread) hrunning (by rw [hthread]; exact Nat.lt_succ_self 4)
    | signal => exact hnext (.signal 0 hthread) hrunning (by rw [hthread]; exact Nat.lt_succ_self 3)
    | returned r => exact hnext (.store hthread) hrunning (by rw [hthread]; exact Nat.lt_succ_self 2)
    | stored r =>
        refine ⟨_, .publish hthread, ?_⟩
        rw [hleft', hthread]
        dsimp only [State.runWait, State.report]
        split_ifs <;> simp_all [State.left, Thread.left]

/-- While the slot is busy the owner's calls leave it alone. -/
theorem Worker.start_of_busy {w : Worker} (h : w.state ≠ .idle) (source : DeferredCommandList)
    (allocator queue fence : Pointer) (value : UInt64) (chunks : Bool) :
    w.start source allocator queue fence value chunks = (false, w, source) := by
  rcases w.start_cases source allocator queue fence value chunks with hout | ⟨-, hidle, -⟩
  · exact hout
  · exact absurd hidle h

/-- A busy worker refuses a chunk at once. -/
theorem Worker.tryAppendChunk_of_busy {w : Worker} (h : w.state ≠ .idle) (h' : w.state ≠ .complete)
    (source : DeferredCommandList) : w.tryAppendChunk source = (false, w, source) := by
  have hreap := Worker.reapCompleted_of_ne h'
  rcases w.tryAppendChunk_cases source with hout | hout | ⟨_, rfl, -, hidle, -⟩
  · exact hout
  · rw [hout, hreap]
  · rw [hreap] at hidle
    exact absurd hidle h

/-- And it refuses to finish. -/
theorem Worker.finishChunks_of_busy {w : Worker} (h : w.state ≠ .idle)
    (source : DeferredCommandList) : w.finishChunks source = (false, w, source) := by
  rcases w.finishChunks_cases source with hout | ⟨-, hidle, -⟩
  · exact hout
  · exact absurd hidle h

/-- No step of either party adds to what is left. -/
theorem Scheduled.steady (h : Scheduled s.worker s.thread s.owner) (hleft : s.left ≠ 0)
    (hstep : Step s s') : s'.left ≤ s.left := by
  have hidle : s.worker.state ≠ .idle := by
    rcases State.busy_of_left hleft with hs | hs <;> rw [hs] <;> nofun
  have hcomplete : s.worker.state ≠ .complete := by
    rcases State.busy_of_left hleft with hs | hs <;> rw [hs] <;> nofun
  have hthread : ∀ {s' : State}, s'.worker.state = s.worker.state →
      s'.thread.left ≤ s.thread.left → s'.left ≤ s.left := fun {s'} hstate hle => by
    rcases State.busy_of_left hleft with hs | hs
    · rwa [State.left_of_queued hs, State.left_of_queued (hstate.trans hs)]
    · rwa [State.left_of_running hs, State.left_of_running (hstate.trans hs)]
  cases hstep with
  | submit i t =>
      refine hthread ?_ (Nat.le_refl _)
      simp only [State.returned, Worker.submit, Worker.start_of_busy hidle]
  | beginChunks i t =>
      refine hthread ?_ (Nat.le_refl _)
      simp only [State.returned, Worker.beginChunks, Worker.start_of_busy hidle]
  | tryAppendChunk i =>
      refine hthread ?_ (Nat.le_refl _)
      simp only [State.returned, Worker.tryAppendChunk_of_busy hidle hcomplete]
  | finishChunks i =>
      refine hthread ?_ (Nat.le_refl _)
      simp only [State.returned, Worker.finishChunks_of_busy hidle]
  | readyForChunk =>
      refine hthread ?_ (Nat.le_refl _)
      simp only [Worker.readyForChunk, Worker.reapCompleted_of_ne hcomplete]
  | waitReturn _ hslot => exact absurd hslot (not_or.2 ⟨hidle, hcomplete⟩)
  | notify | notifyStop => exact hthread rfl (Thread.left_notified_le _)
  | stop | record | wait | destroy | waitSleep | waitWake | join => exact hthread rfl (Nat.le_refl _)
  | runWait hwaiting =>
      have hqueued := (State.busy_of_left hleft).resolve_right
        (h.not_running (by rw [hwaiting]; rfl))
      have hle := State.left_runWait hqueued (h.stop_of_busy hidle)
      rw [State.left_of_queued hqueued, hwaiting]
      show s.runWait.left ≤ 11
      omega
  | runWake hasleep => exact hthread rfl (by rw [hasleep]; exact Nat.le_succ 11)
  | allocatorReset r hcall | listReset r hcall | close r hcall =>
      refine hthread rfl ?_
      rw [hcall]
      dsimp only
      split <;> simp [Thread.left]
  | replay hcall =>
      refine hthread rfl ?_
      rw [hcall]
      dsimp only
      split <;> simp [Thread.left]
  | clearReplayState hcall | executeCommandLists hcall | signal r hcall | replayThrow _ _ hcall
  | store hcall => exact hthread rfl (by rw [hcall]; simp [Thread.left])
  | publish hcall =>
      dsimp only [State.runWait, State.report]
      split_ifs <;> simp_all [State.left]

end Progress

/-! ### The contract -/

/-- What a reachable state satisfies. -/
structure Inv (s : State) : Prop where
  scheduled : Scheduled s.worker s.thread s.owner
  refused : Refused s.returns
  counted : Counted s.worker
  scripted : Scripted s.worker s.thread s.accepted s.events

/-- The invariant holds initially and is kept by every step. -/
theorem inductive_inv : replayWorker.Inductive Inv where
  init s hs := by
    obtain ⟨⟨stream, hworker⟩, howner, hthread, haccepted, hreturns, hevents⟩ := hs
    refine ⟨?_, ?_, ?_, ?_⟩
    · rw [hworker, howner, hthread]
      exact ⟨⟨nofun, nofun⟩, nofun, nofun, nofun, nofun, nofun, nofun⟩
    · rw [hreturns]
      exact nofun
    · rw [hworker]
      exact ⟨rfl, rfl⟩
    · rw [hworker, hthread, haccepted, hevents]
      exact {
        active := fun h => absurd rfl h
        open' := nofun
        slot := fun h => absurd rfl (h.resolve_left nofun)
        streams := rfl
        count := rfl
        progress := .inl ⟨nofun, rfl, nofun, rfl, nofun⟩ }
  step s s' h hstep := {
    scheduled := h.scheduled.step hstep
    refused := h.refused.step hstep
    counted := h.counted.step h.scheduled.working.2 hstep
    scripted := h.scripted.step h.scheduled hstep }

/-- The contract is read off the invariant, clause by clause. -/
theorem Inv.contract {s : State} (h : Inv s) : Contract s where
  refused := h.refused
  order := h.scripted.order
  once := h.scripted.once
  awake hqueued hasleep := h.scheduled.awake hasleep hqueued
  advances := h.scheduled.advances
  steady hleft _ := h.scheduled.steady hleft
  execution before e after hes hcall := by
    obtain ⟨σ, hσ, hfinished, ⟨hbefore, he, hafter⟩ | ⟨-, he, -⟩⟩ :=
      h.scripted.submitted hes (.inl hcall)
    · exact ⟨σ, hσ, hfinished, he, hbefore, h.scripted.ok_before hes, hafter⟩
    · rw [he] at hcall
      cases hcall
  signal before e after hes hcall := by
    obtain ⟨σ, hσ, hfinished, ⟨-, he, -⟩ | ⟨hbefore, he, hafter⟩⟩ :=
      h.scripted.submitted hes (.inr hcall)
    · rw [he] at hcall
      cases hcall
    · exact ⟨σ, hσ, hfinished, he, hbefore, h.scripted.ok_before hes, hafter⟩
  unsignalled e he hfailed e' he' hsession hcall := by
    obtain ⟨before, after, hes⟩ := List.append_of_mem he'
    by_contra hok
    rw [hes, List.mem_append, List.mem_cons] at he
    rcases he with hbefore | rfl | hafter
    · rw [h.scripted.ok_before hes e hbefore] at hfailed
      cases hfailed
    · exact hok hfailed
    · obtain ⟨_, -, -, ⟨-, he, -⟩ | ⟨-, -, hlast⟩⟩ := h.scripted.submitted hes (.inr hcall)
      · rw [he] at hcall
        cases hcall
      · exact hlast e hafter hsession.symm
  latched _ _ _ hes hfailed := h.scripted.failed_last hes hfailed
  chunks := by
    have hchunks := h.counted.chunks
    split at hchunks
    · exact .inr hchunks
    · exact .inl hchunks

/-- **The contract of the replay worker.**  In every state that any order of the
owner's calls and the worker thread's steps leads to, with any outcome of them. -/
theorem replayWorker_contract {s : State} (h : replayWorker.Reachable s) : Contract s :=
  (h.invariant inductive_inv).contract

section Example

/-- The stream, the list and the target of a first submission. -/
private def firstStream : DeferredCommandList := ⟨fun _ => 0, 0, 0, false, true⟩

private def firstTarget : Target := ⟨1, 2, 3, 4⟩

private def fresh : State where
  worker := { stream := firstStream }
  owner := .outside
  thread := .waiting
  sources _ := firstStream
  accepted := []
  returns := []
  events := []

/-- The hypotheses are satisfiable: a submission is taken, and the worker thread brings it to its
signal. -/
theorem replayWorker_contract_signalled : ∃ s, replayWorker.Reachable s ∧ Contract s ∧
    ∃ e ∈ s.events, e.call = .signal 2 3 4 ∧ e.ok = true := by
  have hfresh : replayWorker.Reachable fresh :=
    .of_init ⟨⟨firstStream, rfl⟩, rfl, rfl, rfl, rfl, rfl⟩
  have hsubmit := hfresh.tail (Step.submit 0 firstTarget rfl)
  have hrun := hsubmit.tail (Step.runWait rfl)
  have hreset := (hrun.tail (Step.allocatorReset 0 rfl)).tail (Step.listReset 0 rfl)
  have hreplay := (hreset.tail (Step.clearReplayState rfl)).tail (Step.replay rfl)
  have hclose := (hreplay.tail (Step.close 0 rfl)).tail (Step.executeCommandLists rfl)
  have hsignal := hclose.tail (Step.signal 0 rfl)
  exact ⟨_, hsignal, replayWorker_contract hsignal, _, List.mem_append_right _
    (List.mem_singleton.2 rfl), rfl, rfl⟩

end Example

end Replay
end BoltsRebuilt
