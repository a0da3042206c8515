/-
# What the budget probe records

The recording calls of `gpu/native/native_gpu_budget_probe.cpp` (lines 112-206)
over a `Recording`: which submissions and groups there are, which of them have
ended, which are open, and the commands so far.  A call of the probe leaves it
alone or is one of the steps `Recording.Step` (`call_recording`).

Two facts carry the rest.  A step is a sequence of the steps of a
`Recorder` (`Tidy.recorder`), so no slot is written twice and a resolve reads
what is written.  And as long as no submission was left without its end, the
slots resolved are the first ones of each heap, in order
(`settled_of_not_abandoned`).
-/

import BoltsRebuilt.Perf.BudgetProbe
import BoltsRebuilt.Lib.Records

namespace BoltsRebuilt
namespace BudgetProbe

open QueryLog

/-- The recorded brackets: of a submission its first group and whether it ended,
of a group whether it ended. -/
structure Recording where
  submissions : List (ℕ × Bool)
  groups : List Bool
  currentSubmission : Option ℕ
  currentGroup : Option ℕ
  inScope : Bool
  log : List (QueryCommand Heap)

namespace Recording

/-- What is open is forgotten. -/
def drop (r : Recording) : Recording := { r with currentSubmission := none, currentGroup := none }

def begin (r : Recording) : Recording :=
  { r with
    currentSubmission := some r.submissions.length
    currentGroup := none
    submissions := r.submissions ++ [(r.groups.length, false)]
    log := r.log ++ [.endQuery .submission (2 * r.submissions.length)] }

def endGroup (r : Recording) : Recording :=
  match r.currentGroup with
  | none => r
  | some g =>
    { r with
      log := r.log ++ [.endQuery .group (2 * g + 1)]
      groups := r.groups.set g true
      currentGroup := none }

def leave (r : Recording) : Recording := { r.endGroup with inScope := false }

def enter (r : Recording) : Recording := { r with inScope := true }

def openGroup (r : Recording) : Recording :=
  { r with
    currentGroup := some r.groups.length
    groups := r.groups ++ [false]
    log := r.log ++ [.endQuery .group (2 * r.groups.length)] }

/-- Submission `i`, whose first group is `first`, ends. -/
def close (r : Recording) (i first : ℕ) : Recording :=
  { r with
    submissions := r.submissions.set i (first, true)
    log := r.log ++ [.endQuery .submission (2 * i + 1),
        .resolve .submission (2 * i) 2 (8 * (2 * i))] ++
      if r.groups.length - first ≠ 0 then
        [.resolve .group (2 * first) (2 * (r.groups.length - first)) (8 * (2 * first))]
      else []
    currentSubmission := none }

/-- What a call of the probe may do to the recording. -/
inductive Step : Recording → Recording → Prop
  | drop (r : Recording) : Step r r.drop
  | begin (r : Recording) : Step r r.begin
  | leave (r : Recording) : Step r r.leave
  | enter (r : Recording) (h : r.inScope = false) : Step r r.enter
  | enterGroup (r : Recording) (h : r.inScope = false) (hsub : r.currentSubmission ≠ none) :
      Step r r.enter.openGroup
  | close (r : Recording) (i first : ℕ) (h : r.currentSubmission = some i)
      (hi : r.submissions[i]? = some (first, false)) : Step r (r.leave.close i first)

variable {r r' : Recording}

/-! ### What is open -/

/-- The open submission is the last one and has not ended, and of its groups only
the open one has not; a group is open only inside a scope. -/
structure Tidy (r : Recording) : Prop where
  current : ∀ i, r.currentSubmission = some i → i + 1 = r.submissions.length ∧
    ∃ first, r.submissions[i]? = some (first, false) ∧ first ≤ r.groups.length ∧
      ∀ g, first ≤ g → g < r.groups.length → r.groups[g]? = some true ∨ r.currentGroup = some g
  group : ∀ g, r.currentGroup = some g → r.groups[g]? = some false ∧ r.inScope = true

/-- A recording dropped at a boundary has no submission and no group open. -/
theorem Tidy.drop : r.drop.Tidy := ⟨nofun, nofun⟩

/-- Beginning a submission leaves no group open and points at the submission just appended. -/
theorem Tidy.begin : r.begin.Tidy := by
  constructor
  · intro i hi
    obtain rfl : r.submissions.length = i := Option.some.inj hi
    refine ⟨by simp [Recording.begin], r.groups.length, by simp [Recording.begin], le_rfl, ?_⟩
    intro g hg hlt
    exact absurd hg (Nat.not_le.2 hlt)
  · nofun

/-- Ending a group leaves the submissions as they are. -/
@[simp] theorem endGroup_submissions : r.endGroup.submissions = r.submissions := by
  unfold endGroup; split <;> rfl

/-- Ending a group does not end the submission it belongs to. -/
@[simp] theorem endGroup_currentSubmission :
    r.endGroup.currentSubmission = r.currentSubmission := by
  unfold endGroup; split <;> rfl

/-- After ending a group none is open. -/
@[simp] theorem endGroup_currentGroup : r.endGroup.currentGroup = none := by
  unfold endGroup
  split
  · assumption
  · rfl

/-- Ending a group replaces its record and appends none. -/
@[simp] theorem length_endGroup_groups : r.endGroup.groups.length = r.groups.length := by
  unfold endGroup
  split
  · rfl
  · exact List.length_set

/-- Once the open group has ended, every group of the open submission has. -/
theorem Tidy.endGroup_ended (h : r.Tidy) {i first : ℕ} (hi : r.currentSubmission = some i)
    (hfirst : r.submissions[i]? = some (first, false)) {g : ℕ} (hg : first ≤ g)
    (hlt : g < r.groups.length) : r.endGroup.groups[g]? = some true := by
  obtain ⟨-, first', hfirst', -, hgroups⟩ := h.current i hi
  obtain rfl : first' = first := by
    rw [hfirst'] at hfirst
    exact congrArg Prod.fst (Option.some.inj hfirst)
  have hg' := hgroups g hg hlt
  unfold endGroup
  cases hopen : r.currentGroup with
  | none =>
      rw [hopen] at hg'
      exact hg'.resolve_right nofun
  | some g' =>
      rw [hopen] at hg'
      by_cases heq : g' = g
      · subst heq
        exact List.getElem?_set_self hlt
      · show (r.groups.set g' true)[g]? = some true
        rw [List.getElem?_set_ne heq]
        exact hg'.resolve_right fun h => heq (Option.some.inj h)

/-- Leaving a scope ends its group, if one was open, and keeps the recording tidy. -/
theorem Tidy.leave (h : r.Tidy) : r.leave.Tidy := by
  constructor
  · intro i hi
    have hi' : r.currentSubmission = some i := endGroup_currentSubmission.symm.trans hi
    obtain ⟨hlast, first, hfirst, hle, -⟩ := h.current i hi'
    refine ⟨?_, first, ?_, ?_, ?_⟩
    · simpa [Recording.leave] using hlast
    · simpa [Recording.leave] using hfirst
    · simpa [Recording.leave] using hle
    · intro g hg hlt
      exact .inl (h.endGroup_ended hi' hfirst hg (by simpa [Recording.leave] using hlt))
  · intro g hg
    exact absurd (endGroup_currentGroup.symm.trans hg) nofun

/-- Outside every scope no group is open. -/
theorem Tidy.currentGroup_eq_none (h : r.Tidy) (hscope : r.inScope = false) :
    r.currentGroup = none := by
  cases hg : r.currentGroup with
  | none => rfl
  | some g => exact absurd (hscope.symm.trans (h.group g hg).2) Bool.false_ne_true

/-- Entering a scope opens no group by itself. -/
theorem Tidy.enter (h : r.Tidy) : r.enter.Tidy :=
  ⟨h.current, fun g hg => ⟨(h.group g hg).1, rfl⟩⟩

/-- A scope entered from outside opens its group within the current submission. -/
theorem Tidy.enterGroup (h : r.Tidy) (hscope : r.inScope = false) : r.enter.openGroup.Tidy := by
  constructor
  · intro i hi
    obtain ⟨hlast, first, hfirst, hle, hgroups⟩ := h.current i hi
    refine ⟨hlast, first, hfirst, ?_, ?_⟩
    · simpa [openGroup, Recording.enter] using hle.trans (Nat.le_succ _)
    · intro g hg hlt
      rcases Nat.lt_succ_iff_lt_or_eq.1
        (show g < r.groups.length + 1 by simpa [openGroup, Recording.enter] using hlt) with hold | rfl
      · have hended := hgroups g hg hold
        rw [h.currentGroup_eq_none hscope] at hended
        left
        show (r.groups ++ [false])[g]? = some true
        rw [List.getElem?_append_left hold]
        exact hended.resolve_right nofun
      · exact .inr rfl
  · intro g hg
    obtain rfl : r.groups.length = g := Option.some.inj hg
    exact ⟨List.getElem?_concat_length .., rfl⟩

/-- Closing a submission leaves none open, and the group that was open is closed before it. -/
theorem Tidy.close (h : r.Tidy) (i first : ℕ) : (r.close i first).Tidy := ⟨nofun, h.group⟩

/-- Every step of the recording keeps it tidy. -/
theorem Tidy.step (h : r.Tidy) (hstep : Step r r') : r'.Tidy := by
  cases hstep with
  | drop => exact .drop
  | begin => exact .begin
  | leave => exact h.leave
  | enter => exact h.enter
  | enterGroup hscope => exact h.enterGroup hscope
  | close i first => exact h.leave.close i first

/-! ### The slots -/

/-- The recording as pairs of slots. -/
def recorder (r : Recording) : Recorder Heap where
  ended
    | .submission => r.submissions.map (·.2)
    | .group => r.groups
  log := r.log

/-- A recorder is determined by the intervals it has recorded and its log. -/
theorem recorder_eq {r : Recording} {q : Recorder Heap}
    (hsub : r.submissions.map (·.2) = q.ended .submission) (hgroup : r.groups = q.ended .group)
    (hlog : r.log = q.log) : r.recorder = q := by
  refine Recorder.ext (funext fun heap => ?_) hlog
  cases heap with
  | submission => exact hsub
  | group => exact hgroup

/-- Ending a group is at most one step of the abstract recorder: it ends the open interval, or there
is none. -/
theorem Tidy.recorder_endGroup (h : r.Tidy) :
    Relation.ReflTransGen Recorder.Step r.recorder r.endGroup.recorder := by
  cases hopen : r.currentGroup with
  | none =>
      rw [endGroup, hopen]
  | some g =>
      have heq : r.endGroup.recorder = r.recorder.finish .group g := by
        rw [endGroup, hopen]
        exact recorder_eq rfl rfl rfl
      rw [heq]
      exact .single (.finish _ _ _ (h.group g hopen).1)

/-- What closing a submission resolves has ended: the submission itself and every group begun in it. -/
theorem recorder_close {i first : ℕ} (hi : r.submissions[i]? = some (first, false))
    (hfirst : first ≤ r.groups.length)
    (hgroups : ∀ g, first ≤ g → g < r.groups.length → r.groups[g]? = some true) :
    Relation.ReflTransGen Recorder.Step r.recorder (r.close i first).recorder := by
  have hlt : i < r.submissions.length := (List.getElem?_eq_some_iff.1 hi).1
  have hfalse : (r.recorder.ended .submission)[i]? = some false := by
    simp [recorder, hi]
  have hend := Recorder.Step.finish r.recorder .submission i hfalse
  set ended := r.recorder.finish .submission i with hended
  have hsub : ∀ j, i ≤ j → j < i + 1 → (ended.ended .submission)[j]? = some true := by
    intro j hij hji
    obtain rfl : i = j := by omega
    simp [hended, Recorder.finish, recorder, hlt]
  have hresolve := Recorder.Step.resolve ended .submission i 1 hsub
  set resolved := ended.resolve .submission i 1 with hresolved
  have hrun : Relation.ReflTransGen Recorder.Step r.recorder resolved :=
    (Relation.ReflTransGen.single hend).tail hresolve
  have hmap : (r.submissions.set i (first, true)).map (·.2) = resolved.ended .submission := by
    simp [hresolved, hended, Recorder.resolve, Recorder.finish, recorder, List.map_set]
  by_cases hcount : r.groups.length - first = 0
  · rw [recorder_eq (r := r.close i first) (q := resolved) hmap rfl ?_]
    · exact hrun
    · simp [close, hcount, hresolved, hended, Recorder.resolve, Recorder.finish, recorder]
  · have hcopy := Recorder.Step.resolve resolved .group first (r.groups.length - first)
      fun g hg hlt => hgroups g hg (by omega)
    rw [recorder_eq (r := r.close i first)
      (q := resolved.resolve .group first (r.groups.length - first)) hmap rfl ?_]
    · exact hrun.tail hcopy
    · simp [close, hcount, hresolved, hended, Recorder.resolve, Recorder.finish, recorder]

/-- **A step of the probe is steps of a recorder.** -/
theorem Tidy.recorder (h : r.Tidy) (hstep : Step r r') :
    Relation.ReflTransGen Recorder.Step r.recorder r'.recorder := by
  cases hstep with
  | drop => exact .refl
  | begin =>
      refine .single ?_
      rw [recorder_eq (r := r.begin) (q := r.recorder.begin .submission)]
      · exact .begin ..
      · simp [Recording.begin, Recorder.begin, Recording.recorder]
      · rfl
      · simp [Recording.begin, Recorder.begin, Recording.recorder]
  | leave => exact h.recorder_endGroup
  | enter => exact .refl
  | enterGroup hscope =>
      refine .single ?_
      rw [recorder_eq (r := r.enter.openGroup) (q := r.recorder.begin .group)]
      · exact .begin ..
      · rfl
      · rfl
      · rfl
  | close i first hcur hi =>
      have hi' : r.leave.submissions[i]? = some (first, false) := by
        simpa [Recording.leave] using hi
      refine h.recorder_endGroup.trans (recorder_close (r := r.leave) hi' ?_ fun g hg hlt => ?_)
      · obtain ⟨-, first', hfirst', hle, -⟩ := h.current i hcur
        rw [hi] at hfirst'
        obtain rfl : first = first' := congrArg Prod.fst (Option.some.inj hfirst')
        simpa [Recording.leave] using hle
      · exact h.endGroup_ended hcur hi hg (by simpa [Recording.leave] using hlt)

/-! ### The slots resolved -/

/-- A submission was left without its end. -/
def Abandoned (r : Recording) : Prop :=
  ∃ i first, r.submissions[i]? = some (first, false) ∧ r.currentSubmission ≠ some i

/-- How many submissions, and how many groups, are over and resolved. -/
def settled (r : Recording) : ℕ × ℕ :=
  match r.currentSubmission with
  | none => (r.submissions.length, r.groups.length)
  | some i => (i, (r.submissions.getD i (0, false)).1)

/-- The slots of the settled pairs are resolved, each once and in order. -/
def Resolved (r : Recording) : Prop :=
  resolvedOf .submission r.log = List.range (2 * r.settled.1) ∧
    resolvedOf .group r.log = List.range (2 * r.settled.2)

/-- A submission that was left without its end never gets one. -/
theorem Abandoned.step (h : r.Abandoned) (hstep : Step r r') : r'.Abandoned := by
  obtain ⟨i, first, hi, hcur⟩ := h
  have hlt : i < r.submissions.length := (List.getElem?_eq_some_iff.1 hi).1
  cases hstep with
  | drop => exact ⟨i, first, hi, nofun⟩
  | begin =>
      refine ⟨i, first, ?_, ?_⟩
      · exact (List.getElem?_append_left hlt).trans hi
      · intro heq
        exact absurd (Option.some.inj heq) hlt.ne'
  | leave => exact ⟨i, first, by simpa [leave] using hi, by simpa [leave] using hcur⟩
  | enter => exact ⟨i, first, hi, hcur⟩
  | enterGroup => exact ⟨i, first, hi, hcur⟩
  | close j first' hj =>
      have hne : j ≠ i := by
        rintro rfl
        exact hcur hj
      refine ⟨i, first, ?_, nofun⟩
      simpa [close, leave, List.getElem?_set_ne hne] using hi

/-- A recording that was dropped without being abandoned had no submission open. -/
theorem Tidy.currentSubmission_eq_none (h : r.Tidy) (hnot : ¬ r.drop.Abandoned) :
    r.currentSubmission = none := by
  cases hcur : r.currentSubmission with
  | none => rfl
  | some i =>
      obtain ⟨-, first, hfirst, -⟩ := h.current i hcur
      exact absurd ⟨i, first, hfirst, nofun⟩ hnot

/-- Nor had one in which a submission was begun without abandoning the last. -/
theorem Tidy.currentSubmission_of_begin (h : r.Tidy) (hnot : ¬ r.begin.Abandoned) :
    r.currentSubmission = none := by
  refine h.currentSubmission_eq_none fun ha => hnot ?_
  obtain ⟨i, first, hi, -⟩ := ha
  have hlt := (List.getElem?_eq_some_iff.1 hi).1
  refine ⟨i, first, (List.getElem?_append_left hlt).trans hi, fun heq => ?_⟩
  exact absurd (Option.some.inj heq) hlt.ne'

/-- With no submission open, all that was recorded is settled. -/
theorem settled_of_none (h : r.currentSubmission = none) :
    r.settled = (r.submissions.length, r.groups.length) := by
  rw [settled, h]

/-- With a submission open, what is settled is what came before it. -/
theorem settled_of_some {i first : ℕ} (h : r.currentSubmission = some i)
    (hi : r.submissions[i]? = some (first, false)) : r.settled = (i, first) := by
  simp [settled, h, hi]

/-- Ending a group resolves no queries. -/
theorem resolvedOf_endGroup (r : Recording) (heap : Heap) :
    resolvedOf heap r.endGroup.log = resolvedOf heap r.log := by
  unfold endGroup
  split
  · rfl
  · simp

/-- Leaving a scope settles nothing: its submission is still open. -/
theorem settled_leave (r : Recording) : r.leave.settled = r.settled := by
  simp [settled, leave]

/-- What has been resolved is known from the log and the settled counts alone. -/
theorem Resolved.congr (h : r.Resolved)
    (hlog : ∀ heap, resolvedOf heap r'.log = resolvedOf heap r.log)
    (hsettled : r'.settled = r.settled) : r'.Resolved := by
  rw [Resolved, hlog, hlog, hsettled]
  exact h

/-- Closing a submission resolves, in both heaps, exactly the queries the submission and its groups
have used, from where the last resolve ended. -/
theorem Resolved.close {i first : ℕ} (h : r.Resolved) (hcur : r.currentSubmission = some i)
    (hi : r.submissions[i]? = some (first, false)) (hlast : i + 1 = r.submissions.length)
    (hfirst : first ≤ r.groups.length) : (r.close i first).Resolved := by
  obtain ⟨hsub, hgroup⟩ := h
  rw [settled_of_some hcur hi] at hsub hgroup
  have hsettled : (r.close i first).settled = (i + 1, r.groups.length) := by
    rw [settled_of_none rfl, hlast]
    simp [Recording.close]
  rw [Resolved, hsettled]
  constructor
  · have hlog : resolvedOf .submission (r.close i first).log =
        resolvedOf .submission r.log ++ List.range' (2 * i) 2 := by
      unfold Recording.close
      split <;> simp [resolvedOf_resolve_of_ne]
    rw [hlog, hsub, range_append_range', Nat.mul_add]
  · have hlog : resolvedOf .group (r.close i first).log =
        resolvedOf .group r.log ++ List.range' (2 * first) (2 * (r.groups.length - first)) := by
      by_cases hcount : r.groups.length - first = 0 <;>
        simp [Recording.close, hcount, resolvedOf_resolve_of_ne]
    rw [hlog, hgroup, range_append_range', ← Nat.mul_add, Nat.add_sub_cancel' hfirst]

/-- **The slots resolved are the first ones of each heap**, unless a submission
was left without its end. -/
theorem Resolved.step (h : r.Tidy) (hres : ¬ r.Abandoned → r.Resolved) (hstep : Step r r')
    (hnot : ¬ r'.Abandoned) : r'.Resolved := by
  have hr : r.Resolved := hres fun ha => hnot (ha.step hstep)
  cases hstep with
  | drop =>
      have hnone := h.currentSubmission_eq_none hnot
      refine hr.congr (fun _ => rfl) ?_
      rw [settled_of_none hnone, settled_of_none (r := r.drop) rfl]
      rfl
  | begin =>
      have hnone := h.currentSubmission_of_begin hnot
      refine hr.congr (fun heap => by simp [Recording.begin]) ?_
      rw [settled_of_none hnone]
      exact settled_of_some rfl List.getElem?_concat_length
  | leave => exact hr.congr (resolvedOf_endGroup r) (settled_leave r)
  | enter => exact hr
  | enterGroup _ hsub =>
      refine hr.congr (fun heap => by simp [openGroup, Recording.enter]) ?_
      cases hcur : r.currentSubmission with
      | none => exact absurd hcur hsub
      | some i =>
          obtain ⟨-, first, hfirst, -⟩ := h.current i hcur
          rw [settled_of_some hcur hfirst]
          exact settled_of_some hcur hfirst
  | close i first hcur hi =>
      obtain ⟨hlast, first', hfirst', hle, -⟩ := h.current i hcur
      rw [hi] at hfirst'
      obtain rfl : first = first' := congrArg Prod.fst (Option.some.inj hfirst')
      have hleave : r.leave.Resolved := hr.congr (resolvedOf_endGroup r) (settled_leave r)
      exact hleave.close (by simpa [leave] using hcur) (by simpa [leave] using hi)
        (by simpa [leave] using hlast) (by simpa [leave] using hle)

/-- What holds of the recording in every run. -/
structure Sound (r : Recording) : Prop where
  tidy : r.Tidy
  slots : r.recorder.Sound
  resolved : ¬ r.Abandoned → r.Resolved

/-- Every step of the recording keeps its invariant, the recorder's part of it by the steps of the
recorder. -/
theorem Sound.step (h : r.Sound) (hstep : Step r r') : r'.Sound where
  tidy := h.tidy.step hstep
  slots := h.slots.steps (h.tidy.recorder hstep)
  resolved := Resolved.step h.tidy h.resolved hstep

end Recording

/-! ### The calls -/

open Probe Recording Records

/-- The recording of a probe. -/
def Probe.recording (p : Probe) : Recording where
  submissions := p.submissions.map fun s => (s.firstGroup, s.ended)
  groups := p.groups.map (·.ended)
  currentSubmission := p.currentSubmission
  currentGroup := p.currentGroup
  inScope := decide (p.scope ≠ .other)
  log := p.list

/-- Observing a frame records nothing. -/
@[simp] theorem observeFrame_recording (p : Probe) (frame : UInt64) (now : ℤ) :
    (p.observeFrame frame now).recording = p.recording := by
  unfold observeFrame
  split <;> rfl

/-- `BeginSubmission` either drops the recording's current submission, when the frame is not
captured, or begins a new one. -/
theorem beginSubmission_recording (p : Probe) (frame resourceFrame submission : UInt64) (now : ℤ) :
    (p.beginSubmission frame resourceFrame submission now).recording = p.recording.drop ∨
      (p.beginSubmission frame resourceFrame submission now).recording = p.recording.begin := by
  rw [← observeFrame_recording p frame now]
  unfold beginSubmission
  generalize p.observeFrame frame now = q
  dsimp only
  split_ifs
  · exact .inl rfl
  · exact .inl rfl
  · right
    simp [Recording.begin, recording]

/-- `EndGroup` on the probe is that step of its recording. -/
theorem endGroup_recording (p : Probe) : p.endGroup.recording = p.recording.endGroup := by
  unfold Probe.endGroup Recording.endGroup
  cases hg : p.currentGroup with
  | none => simp [recording, hg]
  | some g =>
      have hmap : (p.groups.modify g fun grp => { grp with ended := true }).map (·.ended) =
          (p.groups.map (·.ended)).set g true := map_modify_of_const fun _ _ => rfl
      simp [recording, hg, hmap]

/-- Noting a scope error records nothing. -/
@[simp] theorem scopeErrorIf_recording (p : Probe) (wrong : Bool) :
    (p.scopeErrorIf wrong).recording = p.recording := rfl

/-- `LeaveScope` is that step of the recording, whatever category it names. -/
theorem leaveScope_recording (p : Probe) (category : UInt32) :
    (p.leaveScope category).recording = p.recording.leave := by
  have hend := endGroup_recording
    (p.scopeErrorIf (p.scope.code ≠ category ∨ p.currentSubmission = none))
  rw [scopeErrorIf_recording] at hend
  rw [leave, ← hend]
  simp [leaveScope, recording]

/-- `OpenGroup` opens a group or, with no query left or the group not sampled, none. -/
theorem openGroup_recording (p : Probe) (s : Submission) (category : Category) :
    (p.openGroup s category).recording = p.recording ∨
      (p.openGroup s category).recording = p.recording.openGroup := by
  unfold Probe.openGroup
  split_ifs
  · exact .inl rfl
  · right
    simp [recording, Recording.openGroup]
  · exact .inl rfl

/-- A leaf label names a category of its own, never the remainder. -/
theorem label_leaf_ne_other {name : String} {detail0 : UInt64} {category : Category}
    (h : label name detail0 = .leaf category) : category ≠ .other := by
  unfold label at h
  dsimp only at h
  split_ifs at h <;> cases h <;> decide

/-- Ending a group leaves the probe's submissions as they are. -/
@[simp] theorem endGroup_submissions (p : Probe) : p.endGroup.submissions = p.submissions := by
  unfold Probe.endGroup
  split <;> rfl

/-- Ending a recorded submission leaves its scope and closes it, with the timestamps it was given. -/
theorem endRecorded_recording (p : Probe) {i first : ℕ} (closesFrame : Bool)
    (delta : UInt64 × UInt64 × UInt64)
    (hfirst : p.recording.submissions[i]? = some (first, false)) :
    (p.endRecorded i closesFrame delta).recording = p.recording.leave.close i first := by
  set q := (p.scopeErrorIf (p.scope ≠ .other)).endGroup with hq
  have hend : q.recording = p.recording.endGroup := endGroup_recording _
  have hsub : q.submissions = p.submissions := endGroup_submissions _
  simp only [recording, List.getElem?_map, Option.map_eq_some_iff] at hfirst
  obtain ⟨s, hs, heq⟩ := hfirst
  obtain ⟨rfl, -⟩ := Prod.mk.inj heq
  have hgetD : (q.submissions.getD i default).firstGroup = s.firstGroup := by
    rw [hsub]
    simp [hs]
  rw [leave, ← hend]
  unfold endRecorded
  rw [← hq]
  dsimp only
  rw [hgetD]
  simp only [recording, close, List.length_map, Recording.mk.injEq, ne_eq, not_true_eq_false,
    decide_false, and_true]
  refine map_modify_of_const fun x hx => ?_
  rw [hsub, hs] at hx
  obtain rfl := Option.some.inj hx
  rfl

/-- Opening a scope of a category other than the remainder enters it. -/
theorem openScope_recording (p : Probe) (i : ℕ) {category : Category} (h : category ≠ .other) :
    (p.openScope i category).recording = p.recording.enter := by
  simp [openScope, recording, enter, h, map_modify_of_eq]

/-- What `EnterScope` can do: nothing, note an error of the scope, or enter the scope of its label
and perhaps open a group. -/
theorem enterScope_cases (p : Probe) (name : String) (detail0 : UInt64) :
    (p.enterScope name detail0).1 = p ∧
        (p.currentSubmission = none ∨ label name detail0 = .unknown) ∨
      (p.enterScope name detail0).1 = p.scopeErrorIf true ∨
      ∃ i category, p.currentSubmission = some i ∧ label name detail0 = .leaf category ∧
        p.scope = .other ∧ (p.enterScope name detail0).1 =
          (p.openScope i category).openGroup (p.submissions.getD i default) category := by
  unfold enterScope
  cases hcur : p.currentSubmission with
  | none => exact .inl ⟨rfl, .inl rfl⟩
  | some i =>
      dsimp only
      cases hlabel : label name detail0 with
      | unknown => exact .inl ⟨rfl, .inr rfl⟩
      | badSamples => exact .inr (.inl rfl)
      | leaf category =>
          dsimp only
          by_cases hscope : p.scope = .other
          · rw [if_neg (not_not_intro hscope)]
            exact .inr (.inr ⟨i, category, rfl, rfl, hscope, rfl⟩)
          · rw [if_pos hscope]
            exact .inr (.inl rfl)

/-- `EnterScope` leaves the recording alone or is one step of it, according to the label. -/
theorem enterScope_recording (p : Probe) (name : String) (detail0 : UInt64) :
    (p.enterScope name detail0).1.recording = p.recording ∨
      Step p.recording (p.enterScope name detail0).1.recording := by
  obtain ⟨heq, -⟩ | heq | ⟨i, category, hcur, hlabel, hscope, heq⟩ :=
    enterScope_cases p name detail0
  · rw [heq]
    exact .inl rfl
  · rw [heq]
    exact .inl rfl
  · right
    have hnot : p.recording.inScope = false := by simp [recording, hscope]
    have hsub : p.recording.currentSubmission ≠ none := by simp [recording, hcur]
    have hentered := openScope_recording p i (label_leaf_ne_other hlabel)
    rw [heq]
    rcases openGroup_recording (p.openScope i category) (p.submissions.getD i default) category
      with hgroup | hgroup
    · rw [hgroup, hentered]
      exact .enter _ hnot
    · rw [hgroup, hentered]
      exact .enterGroup _ hnot hsub

/-- Counting an operation records no interval. -/
theorem operation_recording (p : Probe) (op : UInt32) (copyBytes : UInt64) :
    (p.operation op copyBytes).recording = p.recording := by
  unfold operation
  cases hcur : p.currentSubmission with
  | none => rfl
  | some i =>
      cases hg : p.currentGroup with
      | none => simp [recording, map_modify_of_eq, hcur, hg]
      | some g => simp [recording, map_modify_of_eq, hcur, hg]

/-- `EndSubmission` leaves the recording alone or is one step of it. -/
theorem endSubmission_recording {p : Probe} (h : p.recording.Tidy) (closesFrame : Bool)
    (transfers tiles dumps : UInt64) :
    (p.endSubmission closesFrame transfers tiles dumps).recording = p.recording ∨
      Step p.recording (p.endSubmission closesFrame transfers tiles dumps).recording := by
  unfold endSubmission
  set x := if closesFrame then p.closeFrame transfers tiles dumps else (p, 0, 0, 0) with hx
  have hq : x.1.recording = p.recording := by
    rw [hx]
    split <;> rfl
  rw [← hq] at h ⊢
  dsimp only
  cases hcur : x.1.currentSubmission with
  | none => exact .inl rfl
  | some i =>
      right
      obtain ⟨-, first, hfirst, -⟩ := h.current i hcur
      have hclose := Step.close x.1.recording i first hcur hfirst
      rwa [← endRecorded_recording _ closesFrame x.2 hfirst] at hclose

/-- `Finish` reads the recording and changes nothing of it. -/
theorem finish_recording (p : Probe) (outcome : Outcome) (completion : Bool)
    (completed : UInt64) : (p.finish outcome completion completed).1.recording = p.recording := by
  unfold finish
  split <;> rfl

/-- Nor does `TryFinish` change the recording, whether or not it finishes. -/
theorem tryFinish_recording (p : Probe) (outcome : Outcome) (completed : UInt64) :
    (p.tryFinish outcome completed).1.recording = p.recording := by
  unfold tryFinish
  split_ifs
  · rfl
  · rfl
  · exact finish_recording p outcome _ completed

/-- **A call leaves the recording alone or is a step of it.** -/
theorem call_recording {p : Probe} (h : p.recording.Tidy) (c : Call) :
    (p.call c).recording = p.recording ∨ Step p.recording (p.call c).recording := by
  cases c with
  | observeFrame frame now => exact .inl (observeFrame_recording p frame now)
  | beginSubmission frame resourceFrame submission now =>
      right
      rcases beginSubmission_recording p frame resourceFrame submission now with heq | heq
      · rw [call, heq]
        exact .drop _
      · rw [call, heq]
        exact .begin _
  | endSubmission closesFrame transfers tiles dumps =>
      exact endSubmission_recording h closesFrame transfers tiles dumps
  | enterScope name detail0 => exact enterScope_recording p name detail0
  | leaveScope category =>
      right
      rw [call, leaveScope_recording]
      exact .leave _
  | operation op copyBytes => exact .inl (operation_recording p op copyBytes)
  | tryFinish outcome completed => exact .inl (tryFinish_recording p outcome completed)
  | finish outcome completion completed =>
      exact .inl (finish_recording p outcome completion completed)

/-- **Every call of the probe keeps the recording sound**: it does nothing to it or is one of its
steps. -/
theorem call_sound {p : Probe} (h : p.recording.Sound) (c : Call) :
    (p.call c).recording.Sound := by
  rcases call_recording h.tidy c with heq | hstep
  · rwa [heq]
  · exact h.step hstep

/-- A fresh probe has recorded nothing, and its recording is sound. -/
theorem fresh_sound (startSeconds frameCount groupPeriod : UInt32) :
    (fresh startSeconds frameCount groupPeriod).recording.Sound := by
  constructor
  · exact ⟨nofun, nofun⟩
  · rw [recorder_eq (q := Recorder.initial) rfl rfl rfl]
    exact Recorder.sound_initial
  · intro
    exact ⟨rfl, rfl⟩

end BudgetProbe
end BoltsRebuilt
