/-
# When the budget probe reports success

`gpu/native/native_gpu_budget_probe.cpp`: the error flags of the recording calls
(lines 89-206) and what `Finish` makes of them (lines 232-264, 346).

A `Watch` stands beside the probe and follows the calls by itself: the frame
numbers observed since the capture began, with how often each was closed, and
the scopes entered and not left.  The flags are right about it: as long as
`scope_error_` is not latched and no submission was left without its end, no
scope was nested or left open (`Agrees.call`); as long as `alignment_error_` is
not latched, each frame of the capture that is over had one close and was
followed by the next (`Frames.Good`).

`budgetProbe_discipline` is what the log and a success are good for.  It speaks
of the visits of a frame: frame numbers that step back into the capture after it
was left are not refused, and the end of the capture is computed in 64 bits
(`budgetProbe_misses`).
-/

import BoltsRebuilt.Perf.BudgetRecording
import BoltsRebuilt.Lib.History
import Mathlib.Data.List.Chain

namespace BoltsRebuilt
namespace BudgetProbe

open QueryLog Probe Recording

/-- A frame number from when it is observed to the next one, and the frame closes meanwhile. -/
structure Visit where
  frame : UInt64
  closes : ℕ := 0
  deriving DecidableEq

/-- What the calls said. -/
structure Watch where
  /-- The frames since the capture began, newest first. -/
  visits : List Visit := []
  /-- The scopes entered and not left, innermost first. -/
  scopes : List Category := []
  nested : Bool := false
  leftOpen : Bool := false

namespace Watch

/-- A scope is entered. -/
def enter (w : Watch) (category : Category) : Watch :=
  { w with nested := w.nested || !w.scopes.isEmpty, scopes := category :: w.scopes }

/-- The innermost scope is left. -/
def leave (w : Watch) : Watch := { w with scopes := w.scopes.tail }

/-- A submission begins or ends. -/
def boundary (w : Watch) : Watch :=
  { w with leftOpen := w.leftOpen || !w.scopes.isEmpty, scopes := [] }

/-- The frame observed is closed. -/
def close (w : Watch) : Watch :=
  { w with visits := w.visits.modifyHead fun v => { v with closes := v.closes + 1 } }

/-- A frame is observed that takes the probe from `p` to `q`. -/
def observe (w : Watch) (p : Probe) (frame : UInt64) (q : Probe) : Watch :=
  if frame = p.observedFrame ∨ q.firstFrame = 0 then w
  else { w with visits := ⟨frame, 0⟩ :: w.visits }

/-- A call that takes the probe from `p` to `q`. -/
def call (w : Watch) (p : Probe) (c : Call) (q : Probe) : Watch :=
  match c with
  | .observeFrame frame _ => w.observe p frame q
  | .beginSubmission frame _ _ _ => (w.observe p frame q).boundary
  | .endSubmission closesFrame _ _ _ =>
      let w := if closesFrame then w.close else w
      if p.currentSubmission = none then w else w.boundary
  | .enterScope name detail0 =>
      match p.currentSubmission, label name detail0 with
      | some _, .leaf category => w.enter category
      | _, _ => w
  | .leaveScope _ => w.leave
  | _ => w

end Watch

/-- A probe and its watch. -/
structure Session where
  probe : Probe
  watch : Watch

def Session.call (s : Session) (c : Call) : Session where
  probe := s.probe.call c
  watch := s.watch.call s.probe c (s.probe.call c)

/-- A probe after some calls. -/
def after (startSeconds frameCount groupPeriod : UInt32) (calls : List Call) : Session :=
  calls.foldl Session.call ⟨fresh startSeconds frameCount groupPeriod, {}⟩

/-- The runs are those of the probes `Create` gives, whatever device it was given. -/
theorem after_of_create {device queue : Bool} {path : String} {startSeconds frameCount groupPeriod : UInt32}
    {frequency : Option UInt64} {submissionQueries groupQueries : Bool} {p : Probe}
    (h : create device queue path startSeconds frameCount groupPeriod frequency submissionQueries
      groupQueries = some p) (calls : List Call) :
    calls.foldl Session.call ⟨p, {}⟩ = after startSeconds frameCount groupPeriod calls := by
  rw [create_eq_fresh h, after]

/-! ### Scopes -/

/-- The scope the probe has open is the one that is, and none was nested or left open. -/
structure Agrees (p : Probe) (w : Watch) : Prop where
  nested : w.nested = false
  leftOpen : w.leftOpen = false
  scopes : w.scopes = if p.scope = .other then [] else [p.scope]
  idle : p.currentSubmission = none → p.scope = .other

/-- What scopes depend on. -/
def Probe.scoping (p : Probe) : Category × Bool × Option ℕ :=
  (p.scope, p.scopeError, p.currentSubmission)

/-- Observing a frame leaves the scope, its errors and the current submission alone. -/
theorem observeFrame_scoping (p : Probe) (frame : UInt64) (now : ℤ) :
    (p.observeFrame frame now).scoping = p.scoping := by
  unfold observeFrame
  split <;> rfl

/-- Ending a group leaves the scope and its errors alone. -/
theorem endGroup_scoping (p : Probe) : p.endGroup.scoping = p.scoping := by
  unfold Probe.endGroup
  split <;> rfl

/-- Opening a group leaves the scope and its errors alone. -/
theorem openGroup_scoping (p : Probe) (s : Submission) (category : Category) :
    (p.openGroup s category).scoping = p.scoping := by
  unfold Probe.openGroup
  split_ifs <;> rfl

/-- Counting an operation leaves the scope and its errors alone. -/
theorem operation_scoping (p : Probe) (op : UInt32) (copyBytes : UInt64) :
    (p.operation op copyBytes).scoping = p.scoping := by
  cases hcur : p.currentSubmission with
  | none => simp [operation, hcur]
  | some i =>
      cases hg : p.currentGroup <;> simp [operation, hcur, hg, scoping]

/-- Finishing the capture, with whatever outcome, leaves the scope and its errors alone. -/
theorem finish_scoping (p : Probe) (outcome : Outcome) (completion : Bool) (completed : UInt64) :
    (p.finish outcome completion completed).1.scoping = p.scoping := by
  unfold finish
  split <;> rfl

/-- Trying to finish the capture leaves the scope and its errors alone. -/
theorem tryFinish_scoping (p : Probe) (outcome : Outcome) (completed : UInt64) :
    (p.tryFinish outcome completed).1.scoping = p.scoping := by
  unfold tryFinish
  split_ifs
  · rfl
  · rfl
  · exact finish_scoping p outcome _ completed

/-- Beginning a submission, captured or not, leaves the scope and its errors alone. -/
theorem beginSubmission_scope (p : Probe) (frame resourceFrame submission : UInt64) (now : ℤ) :
    (p.beginSubmission frame resourceFrame submission now).scope = p.scope ∧
      (p.beginSubmission frame resourceFrame submission now).scopeError = p.scopeError := by
  have hobserve := observeFrame_scoping p frame now
  simp only [scoping, Prod.mk.injEq] at hobserve
  obtain ⟨hscope, herror, -⟩ := hobserve
  rw [← hscope, ← herror]
  unfold beginSubmission
  dsimp only
  split_ifs <;> exact ⟨rfl, rfl⟩

/-- Ending a recorded submission closes the scope, and a scope that was still open is an error. -/
theorem endRecorded_scoping (p : Probe) (i : ℕ) (closesFrame : Bool)
    (delta : UInt64 × UInt64 × UInt64) : (p.endRecorded i closesFrame delta).scoping =
      (.other, p.scopeError || decide (p.scope ≠ .other), none) := by
  have hend := endGroup_scoping (p.scopeErrorIf (p.scope ≠ .other))
  simp only [scoping, Prod.mk.injEq] at hend
  simp only [scoping, endRecorded, hend.2.1]
  rfl

/-- Leaving a scope closes it; leaving another than the one that is open, or outside a submission,
is an error. -/
theorem leaveScope_scoping (p : Probe) (category : UInt32) : (p.leaveScope category).scoping =
    (.other, p.scopeError || decide (p.scope.code ≠ category ∨ p.currentSubmission = none),
      p.currentSubmission) := by
  have hend := endGroup_scoping
    (p.scopeErrorIf (p.scope.code ≠ category ∨ p.currentSubmission = none))
  simp only [scoping, Prod.mk.injEq] at hend
  simp only [scoping, leaveScope, hend.2.1, hend.2.2]
  rfl

variable {p q : Probe} {w : Watch}

/-- The account of the scopes is about the scope alone: a probe with the same one agrees with the
same account. -/
theorem Agrees.of_scoping (h : Agrees p w) (hq : q.scoping = p.scoping) : Agrees q w := by
  simp only [scoping, Prod.mk.injEq] at hq
  obtain ⟨hscope, -, hcur⟩ := hq
  constructor
  case nested => exact h.nested
  case leftOpen => exact h.leftOpen
  case scopes =>
    rw [hscope]
    exact h.scopes
  case idle =>
    rw [hscope, hcur]
    exact h.idle

/-- A visit of a frame adds nothing to the scopes. -/
theorem Agrees.observe (h : Agrees q w) (p q' : Probe) (frame : UInt64) :
    Agrees q (w.observe p frame q') := by
  unfold Watch.observe
  split_ifs
  · exact h
  · exact ⟨h.nested, h.leftOpen, h.scopes, h.idle⟩

/-- When the probe is in no scope, none is open in the account. -/
theorem Agrees.scopes_eq_nil (h : Agrees p w) (hscope : p.scope = .other) : w.scopes = [] := by
  rw [h.scopes, if_pos hscope]

/-- Between submissions and outside scopes nothing is open, in the probe and in the account. -/
theorem Agrees.boundary (h : Agrees p w) (hscope : p.scope = .other) (hq : q.scope = .other) :
    Agrees q w.boundary := by
  have hnil := h.scopes_eq_nil hscope
  constructor
  case nested => exact h.nested
  case leftOpen => simp [Watch.boundary, hnil, h.leftOpen]
  case scopes =>
    rw [if_pos hq]
    rfl
  case idle => exact fun _ => hq

/-- Entering a scope from outside, during a submission, opens that one scope in the account. -/
theorem Agrees.enter (h : Agrees p w) (hscope : p.scope = .other) {category : Category}
    (hq : q.scope = category) (hcategory : category ≠ .other) (hcur : q.currentSubmission ≠ none) :
    Agrees q (w.enter category) := by
  have hnil := h.scopes_eq_nil hscope
  constructor
  case nested => simp [Watch.enter, hnil, h.nested]
  case leftOpen => exact h.leftOpen
  case scopes =>
    rw [hq, if_neg hcategory]
    simp [Watch.enter, hnil]
  case idle => exact fun hnone => absurd hnone hcur

/-- Leaving the scope closes it in the account. -/
theorem Agrees.leave (h : Agrees p w) (hq : q.scope = .other) : Agrees q w.leave := by
  constructor
  case nested => exact h.nested
  case leftOpen => exact h.leftOpen
  case scopes =>
    rw [if_pos hq, Watch.leave, h.scopes]
    split <;> rfl
  case idle => exact fun _ => hq

/-- The probe agrees with its watch unless an error is latched or a submission
was left without its end. -/
def Tracks (p : Probe) (w : Watch) : Prop :=
  ¬ p.recording.Abandoned → p.scopeError = false → Agrees p w

/-- A probe with the same recording and the same scope is tracked by the same account. -/
theorem Tracks.of_scoping (h : Tracks p w) (hrecording : q.recording = p.recording)
    (hq : q.scoping = p.scoping) : Tracks q w := by
  intro hnot herror
  rw [hrecording] at hnot
  have herror' : p.scopeError = false := by
    simp only [scoping, Prod.mk.injEq] at hq
    rwa [← hq.2.1]
  exact (h hnot herror').of_scoping hq

/-- Beginning a submission is a boundary in the account of what the capture saw. -/
theorem Tracks.beginSubmission (htidy : p.recording.Tidy) (h : Tracks p w)
    (frame resourceFrame submission : UInt64) (now : ℤ) :
    Tracks (p.beginSubmission frame resourceFrame submission now) (w.observe p frame q).boundary := by
  intro hnot herror
  obtain ⟨hscope, herr⟩ := beginSubmission_scope p frame resourceFrame submission now
  have hbefore : ¬ p.recording.Abandoned ∧ p.currentSubmission = none := by
    rcases beginSubmission_recording p frame resourceFrame submission now with heq | heq
    · rw [heq] at hnot
      exact ⟨fun ha => hnot (ha.step (.drop _)), htidy.currentSubmission_eq_none hnot⟩
    · rw [heq] at hnot
      exact ⟨fun ha => hnot (ha.step (.begin _)), htidy.currentSubmission_of_begin hnot⟩
  have hag : Agrees p w := h hbefore.1 (herr.symm.trans herror)
  have hidle := hag.idle hbefore.2
  exact (hag.observe p q frame).boundary hidle (hscope.trans hidle)

/-- Leaving a scope, rightly or wrongly, is followed by the account. -/
theorem Tracks.leaveScope (h : Tracks p w) (category : UInt32) :
    Tracks (p.leaveScope category) w.leave := by
  intro hnot herror
  have hscoping := leaveScope_scoping p category
  simp only [scoping, Prod.mk.injEq] at hscoping
  obtain ⟨hscope, herr, -⟩ := hscoping
  rw [herr, Bool.or_eq_false_iff] at herror
  rw [leaveScope_recording] at hnot
  exact (h (fun ha => hnot (ha.step (.leave _))) herror.1).leave hscope

/-- Entering a scope by its label, whether it is a leaf, a root or unknown, is followed by the
account. -/
theorem Tracks.enterScope (h : Tracks p w) (name : String)
    (detail0 : UInt64) : Tracks (p.enterScope name detail0).1
      (w.call p (.enterScope name detail0) (p.enterScope name detail0).1) := by
  obtain ⟨heq, hnot⟩ | heq | ⟨i, category, hcur, hlabel, hscope, heq⟩ :=
    enterScope_cases p name detail0
  · have hw : w.call p (.enterScope name detail0) (p.enterScope name detail0).1 = w := by
      rcases hnot with hnone | hunknown
      · simp [Watch.call, hnone]
      · simp [Watch.call, hunknown]
    rw [hw, heq]
    exact h
  · intro _ herror
    rw [heq] at herror
    exact absurd herror (by simp [scopeErrorIf])
  · have hscoping := openGroup_scoping (p.openScope i category) (p.submissions.getD i default) category
    simp only [scoping, Prod.mk.injEq] at hscoping
    obtain ⟨hscope', herror', hcur'⟩ := hscoping
    intro hnot herror
    have hstep : ¬ p.recording.Abandoned := by
      intro ha
      rcases enterScope_recording p name detail0 with hsame | hstep
      · exact hnot (hsame ▸ ha)
      · exact hnot (ha.step hstep)
    rw [heq, herror'] at herror
    have hw : w.call p (.enterScope name detail0) (p.enterScope name detail0).1 =
        w.enter category := by simp [Watch.call, hcur, hlabel]
    rw [hw, heq]
    refine (h hstep herror).enter hscope hscope' (label_leaf_ne_other hlabel) ?_
    rw [hcur']
    exact fun hnone => absurd (hcur.symm.trans hnone) nofun

/-- The probe after `EndSubmission` has counted a close where the frame ended, and has ended the
submission that was recorded. -/
theorem endSubmission_eq (p : Probe) (closesFrame : Bool) (transfers tiles dumps : UInt64) :
    ∃ x : Probe × UInt64 × UInt64 × UInt64,
      x = (if closesFrame then p.closeFrame transfers tiles dumps else (p, 0, 0, 0)) ∧
      x.1.recording = p.recording ∧ x.1.scoping = p.scoping ∧
      p.endSubmission closesFrame transfers tiles dumps = match p.currentSubmission with
        | none => x.1
        | some i => x.1.endRecorded i closesFrame x.2 := by
  refine ⟨_, rfl, ?_, ?_, ?_⟩
  · split <;> rfl
  · split <;> rfl
  · cases closesFrame <;> rfl

/-- Closing a frame is followed by the account, which notes the close of the frame that is open. -/
theorem Tracks.close (h : Tracks p w) : Tracks p w.close := fun hnot herror =>
  let hag := h hnot herror
  ⟨hag.nested, hag.leftOpen, hag.scopes, hag.idle⟩

/-- Ending a submission is followed by the account, with or without the frame. -/
theorem Tracks.endSubmission (htidy : p.recording.Tidy) (h : Tracks p w) (closesFrame : Bool)
    (transfers tiles dumps : UInt64) :
    Tracks (p.endSubmission closesFrame transfers tiles dumps)
      (w.call p (.endSubmission closesFrame transfers tiles dumps) q) := by
  obtain ⟨x, -, hrecording, hscoping, heq⟩ :=
    endSubmission_eq p closesFrame transfers tiles dumps
  set w' := if closesFrame then w.close else w with hw'
  have htracks : Tracks x.1 w' := by
    refine Tracks.of_scoping ?_ hrecording hscoping
    rw [hw']
    split
    · exact h.close
    · exact h
  rw [heq]
  cases hcur : p.currentSubmission with
  | none =>
      have hcall : w.call p (.endSubmission closesFrame transfers tiles dumps) q = w' := by
        simp [Watch.call, hcur, hw']
      rw [hcall]
      exact htracks
  | some i =>
      have hcall : w.call p (.endSubmission closesFrame transfers tiles dumps) q = w'.boundary := by
        simp [Watch.call, hcur, hw']
      rw [hcall]
      obtain ⟨-, first, hfirst, -⟩ := htidy.current i hcur
      have hended := endRecorded_scoping x.1 i closesFrame x.2
      simp only [scoping, Prod.mk.injEq] at hended
      intro hnot herror
      have hnot' : ¬ x.1.recording.Abandoned := by
        rw [endRecorded_recording _ _ _ (hrecording ▸ hfirst)] at hnot
        have hcur' : x.1.recording.currentSubmission = some i := by rw [hrecording]; exact hcur
        exact fun ha => hnot (ha.step (.close _ i first hcur' (hrecording ▸ hfirst)))
      rw [hended.2.1, Bool.or_eq_false_iff, decide_eq_false_iff_not, not_not] at herror
      exact (htracks hnot' herror.1).boundary herror.2 hended.1

/-- **Scopes.**  Whatever is called, the probe agrees with its watch. -/
theorem Tracks.call (htidy : p.recording.Tidy) (h : Tracks p w) (c : Call) :
    Tracks (p.call c) (w.call p c (p.call c)) := by
  cases c with
  | observeFrame frame now =>
      have hobserved : Tracks (p.observeFrame frame now) w :=
        h.of_scoping (observeFrame_recording p frame now) (observeFrame_scoping p frame now)
      exact fun hnot herror => (hobserved hnot herror).observe p _ frame
  | beginSubmission frame resourceFrame submission now =>
      exact h.beginSubmission htidy frame resourceFrame submission now
  | endSubmission closesFrame transfers tiles dumps =>
      exact h.endSubmission htidy closesFrame transfers tiles dumps
  | enterScope name detail0 => exact h.enterScope name detail0
  | leaveScope category => exact h.leaveScope category
  | operation op copyBytes =>
      exact h.of_scoping (operation_recording p op copyBytes) (operation_scoping p op copyBytes)
  | tryFinish outcome completed =>
      exact h.of_scoping (tryFinish_recording p outcome completed)
        (tryFinish_scoping p outcome completed)
  | finish outcome completion completed =>
      exact h.of_scoping (finish_recording p outcome completion completed)
        (finish_scoping p outcome completion completed)

/-! ### Frames -/

/-- What the alignment of frames depends on. -/
structure Frames where
  observed : UInt64
  first : UInt64
  count : UInt32
  closes : UInt32
  selected : Bool
  misaligned : Bool
  finished : Bool

def Probe.frames (p : Probe) : Frames where
  observed := p.observedFrame
  first := p.firstFrame
  count := p.frameCount
  closes := p.frameCloses
  selected := p.frameSelected
  misaligned := p.alignmentError
  finished := p.finished

/-- Frame number `f` is one of the `count` from `first` on. -/
def InCapture (first : UInt64) (count : UInt32) (f : UInt64) : Prop :=
  first.toNat ≤ f.toNat ∧ f.toNat < first.toNat + count.toNat

instance (first : UInt64) (count : UInt32) (f : UInt64) : Decidable (InCapture first count f) :=
  inferInstanceAs (Decidable (_ ∧ _))

/-- The capture ends before the frame numbers do. -/
def Fits (first : UInt64) (count : UInt32) : Prop := first.toNat + count.toNat < 2 ^ 64

/-- A visit `v` of a capture frame had one close, and `next`, the visit after it,
is of the next frame. -/
def Follows (first : UInt64) (count : UInt32) (next v : Visit) : Prop :=
  InCapture first count v.frame → v.closes = 1 ∧ next.frame.toNat = v.frame.toNat + 1

/-- The visits since the capture began, newest first, are aligned so far. -/
structure Frames.Sound (f : Frames) (visits : List Visit) : Prop where
  newest : ∃ v vs, visits = v :: vs ∧ v.frame = f.observed ∧
    v.closes % 2 ^ 32 = f.closes.toNat ∧
    (InCapture f.first f.count v.frame → f.selected = true ∧ v.closes ≤ 1)
  chain : visits.IsChain (Follows f.first f.count)
  opened : visits.getLast?.map (·.frame) = some f.first

/-- No visits before the capture begins; then they are aligned, until an error
is latched. -/
def Frames.Good (f : Frames) (visits : List Visit) : Prop :=
  (f.first = 0 → visits = []) ∧
    (f.first ≠ 0 → f.finished = false → f.misaligned = false → Fits f.first f.count →
      f.Sound visits)

/-- The wrapping comparison of the source, on 64-bit words, says that the frame is inside the
capture. -/
theorem selected_iff (first : UInt64) (count : UInt32) (f : UInt64) :
    f ≥ first ∧ f - first < count.toUInt64 ↔ InCapture first count f := by
  rw [InCapture, ge_iff_le, UInt64.le_iff_toNat_le, UInt64.lt_iff_toNat_lt, UInt32.toNat_toUInt64]
  constructor
  · rintro ⟨hle, hlt⟩
    rw [UInt64.toNat_sub_of_le _ _ (UInt64.le_iff_toNat_le.2 hle)] at hlt
    omega
  · rintro ⟨hle, hlt⟩
    refine ⟨hle, ?_⟩
    rw [UInt64.toNat_sub_of_le _ _ (UInt64.le_iff_toNat_le.2 hle)]
    omega

/-- A window that fits the counter ends where its first frame and its length say. -/
theorem Fits.toNat_captureEnd {p : Probe} {first : UInt64} (h : Fits first p.frameCount) :
    (p.captureEnd first).toNat = first.toNat + p.frameCount.toNat := by
  rw [captureEnd, UInt64.toNat_add, UInt32.toNat_toUInt64]
  exact Nat.mod_eq_of_lt h

/-- What `ObserveFrame` does at a new frame number: it counts it, notes whether it follows the last,
and may begin or end the capture. -/
theorem observeFrame_new (p : Probe) {frame : UInt64} (hnew : frame ≠ p.observedFrame) (now : ℤ) :
    ∃ first misaligned, (first = p.firstFrame ∨ p.firstFrame = 0 ∧ first = frame) ∧
      (misaligned = false → first ≠ 0 → p.observedFrame ≠ noFrame →
        p.observedFrame < p.captureEnd first → frame = p.observedFrame + 1 ∧ p.frameCloses = 1) ∧
      (p.observeFrame frame now).frames =
        { observed := frame, first, count := p.frameCount, closes := 0,
          selected := !p.finished && decide (first ≠ 0 ∧ frame ≥ first ∧
            frame - first < p.frameCount.toUInt64),
          misaligned := p.alignmentError || misaligned, finished := p.finished } := by
  refine ⟨p.firstOf frame now, p.misaligned frame (p.firstOf frame now), ?_, ?_, ?_⟩
  · unfold firstOf
    split_ifs with h
    · exact .inr ⟨h.1, rfl⟩
    · exact .inl rfl
  · intro hfalse hfirst hobserved hlt
    rw [misaligned, Bool.and_eq_false_iff, decide_eq_false_iff_not, decide_eq_false_iff_not]
      at hfalse
    have haligned := hfalse.resolve_left (not_not_intro ⟨hfirst, hobserved, hlt⟩)
    rw [not_or, not_or, not_not, not_not] at haligned
    exact ⟨haligned.1, haligned.2.1⟩
  · rw [observeFrame, if_neg hnew]
    rfl

/-- Observing a frame keeps what the probe knows of the frames in step with the visits. -/
theorem Frames.Good.observe (h : p.frames.Good w.visits) (frame : UInt64) (now : ℤ) :
    (p.observeFrame frame now).frames.Good
      (w.observe p frame (p.observeFrame frame now)).visits := by
  by_cases hnew : frame = p.observedFrame
  · have hw : w.observe p frame (p.observeFrame frame now) = w := if_pos (.inl hnew)
    have hp : p.observeFrame frame now = p := if_pos hnew
    rw [hw, hp]
    exact h
  · obtain ⟨first, misaligned, hfirst, haligned, hframes⟩ := observeFrame_new p hnew now
    have hq : (p.observeFrame frame now).firstFrame = first := congrArg Frames.first hframes
    rw [Watch.observe, hq, hframes]
    constructor
    · intro hzero
      have hp : p.firstFrame = 0 := by
        rcases hfirst with hsame | ⟨hp, -⟩
        · exact hsame.symm.trans hzero
        · exact hp
      rw [if_pos (.inr hzero)]
      exact h.1 hp
    · intro hne hfinished herror hfits
      rw [if_neg (not_or.2 ⟨hnew, hne⟩)]
      obtain ⟨hbefore, hmis⟩ := Bool.or_eq_false_iff.1 herror
      have hfinished' : p.finished = false := hfinished
      have hselected : InCapture first p.frameCount frame →
          (!p.finished && decide (first ≠ 0 ∧ frame ≥ first ∧
            frame - first < p.frameCount.toUInt64)) = true := by
        intro hin
        rw [hfinished', Bool.not_false, Bool.true_and, decide_eq_true_iff]
        exact ⟨hne, (selected_iff ..).2 hin⟩
      have hnewest := fun hin => (⟨hselected hin, Nat.zero_le 1⟩ : _ ∧ (0 : ℕ) ≤ 1)
      by_cases harmed : p.firstFrame = 0
      · -- the capture begins with this frame
        have hopen : first = frame := by
          rcases hfirst with hsame | ⟨-, hopen⟩
          · exact absurd (hsame.trans harmed) hne
          · exact hopen
        have hnil : w.visits = [] := h.1 harmed
        rw [hnil]
        exact ⟨⟨_, _, rfl, rfl, rfl, hnewest⟩, .singleton _, by simp [hopen]⟩
      · have hsame : first = p.firstFrame := by
          rcases hfirst with hsame | ⟨hp, -⟩
          · exact hsame
          · exact absurd hp harmed
        subst hsame
        obtain ⟨⟨v, vs, hvisits, hframe, hcloses, hlast⟩, hchain, hopened⟩ :=
          h.2 harmed hfinished' hbefore hfits
        refine ⟨⟨_, _, rfl, rfl, rfl, hnewest⟩, ?_, ?_⟩
        · rw [hvisits] at hchain ⊢
          refine List.isChain_cons_cons.2 ⟨fun hin => ?_, hchain⟩
          have hlt : v.frame.toNat < p.firstFrame.toNat + p.frameCount.toNat := hin.2
          have hfits' : p.firstFrame.toNat + p.frameCount.toNat < 2 ^ 64 := hfits
          have hobserved : v.frame = p.observedFrame := hframe
          obtain ⟨hnext, hone⟩ := haligned hmis hne
            (by rw [← hobserved]; rintro hmax; rw [hmax] at hlt; exact absurd hlt (by
              have : noFrame.toNat = 2 ^ 64 - 1 := rfl
              omega))
            (by rw [← hobserved, UInt64.lt_iff_toNat_lt, Fits.toNat_captureEnd hfits]; exact hlt)
          constructor
          · have hle := (hlast hin).2
            have hmod : v.closes % 2 ^ 32 = p.frameCloses.toNat := hcloses
            rw [hone, show (1 : UInt32).toNat = 1 from rfl] at hmod
            omega
          · show frame.toNat = v.frame.toNat + 1
            rw [hnext, ← hobserved, UInt64.toNat_add, show (1 : UInt64).toNat = 1 from rfl]
            exact Nat.mod_eq_of_lt (by omega)
        · rw [hvisits] at hopened ⊢
          exact hopened

/-- Closing a frame keeps it in step with the visits and their closes. -/
theorem Frames.Good.close (h : p.frames.Good w.visits) (transfers tiles dumps : UInt64) :
    (p.closeFrame transfers tiles dumps).1.frames.Good w.close.visits := by
  constructor
  · intro hzero
    have hnil : w.visits = [] := h.1 hzero
    rw [Watch.close, hnil]
    rfl
  · intro hne hfinished herror hfits
    obtain ⟨herror, hone⟩ := Bool.or_eq_false_iff.1 herror
    obtain ⟨⟨v, vs, hvisits, hframe, hcloses, hlast⟩, hchain, hopened⟩ :=
      h.2 hne hfinished herror hfits
    have hvisits' : w.close.visits = { v with closes := v.closes + 1 } :: vs := by
      rw [Watch.close, hvisits]
      rfl
    rw [hvisits']
    rw [hvisits] at hchain hopened
    refine ⟨⟨_, _, rfl, hframe, ?_, fun hin => ?_⟩, ?_, ?_⟩
    · have hmod : v.closes % 2 ^ 32 = p.frameCloses.toNat := hcloses
      show (v.closes + 1) % 2 ^ 32 = (p.frameCloses + 1).toNat
      rw [UInt32.toNat_add, ← hmod, show (1 : UInt32).toNat = 1 from rfl]
      omega
    · obtain ⟨hselected, hle⟩ := hlast hin
      refine ⟨hselected, ?_⟩
      have hselected' : p.frameSelected = true := hselected
      have hfirst : p.frameCloses + 1 = 1 := by
        rw [hselected', Bool.true_and, decide_eq_false_iff_not, not_not] at hone
        exact hone
      have hsum := congrArg UInt32.toNat hfirst
      have hmod : v.closes % 2 ^ 32 = p.frameCloses.toNat := hcloses
      rw [UInt32.toNat_add, ← hmod, show (1 : UInt32).toNat = 1 from rfl] at hsum
      show v.closes + 1 ≤ 1
      omega
    · cases vs with
      | nil => exact .singleton _
      | cons v' vs =>
          obtain ⟨hfollows, htail⟩ := List.isChain_cons_cons.1 hchain
          exact List.isChain_cons_cons.2 ⟨hfollows, htail⟩
    · cases vs with
      | nil => exact hopened
      | cons v' vs => exact hopened

/-! What the other calls leave alone. -/

/-- Ending a group touches none of the counters of frames. -/
theorem endGroup_frames (p : Probe) : p.endGroup.frames = p.frames := by
  unfold Probe.endGroup
  split <;> rfl

/-- Opening a group touches none of the counters of frames. -/
theorem openGroup_frames (p : Probe) (s : Submission) (category : Category) :
    (p.openGroup s category).frames = p.frames := by
  unfold Probe.openGroup
  split_ifs <;> rfl

/-- Beginning a submission observes its frame and does nothing more to them. -/
theorem beginSubmission_frames (p : Probe) (frame resourceFrame submission : UInt64) (now : ℤ) :
    (p.beginSubmission frame resourceFrame submission now).frames =
      (p.observeFrame frame now).frames := by
  unfold beginSubmission
  dsimp only
  split_ifs <;> rfl

/-- Ending a recorded submission touches none of the counters of frames. -/
theorem endRecorded_frames (p : Probe) (i : ℕ) (closesFrame : Bool)
    (delta : UInt64 × UInt64 × UInt64) : (p.endRecorded i closesFrame delta).frames = p.frames :=
  endGroup_frames (p.scopeErrorIf (p.scope ≠ .other))

/-- Leaving a scope touches none of the counters of frames. -/
theorem leaveScope_frames (p : Probe) (category : UInt32) :
    (p.leaveScope category).frames = p.frames :=
  endGroup_frames (p.scopeErrorIf (p.scope.code ≠ category ∨ p.currentSubmission = none))

/-- Entering a scope touches none of the counters of frames. -/
theorem enterScope_frames (p : Probe) (name : String) (detail0 : UInt64) :
    (p.enterScope name detail0).1.frames = p.frames := by
  obtain ⟨heq, -⟩ | heq | ⟨i, category, -, -, -, heq⟩ := enterScope_cases p name detail0
  · rw [heq]
  · rw [heq]
    rfl
  · rw [heq, openGroup_frames]
    rfl

/-- Counting an operation touches none of the counters of frames. -/
theorem operation_frames (p : Probe) (op : UInt32) (copyBytes : UInt64) :
    (p.operation op copyBytes).frames = p.frames := by
  cases hcur : p.currentSubmission with
  | none => simp [operation, hcur]
  | some i =>
      cases hg : p.currentGroup <;> simp [operation, hcur, hg, frames]

/-- Once the probe has finished, or while no capture has begun, nothing is promised. -/
theorem Frames.Good.finish (h : p.frames.Good w.visits) (outcome : Outcome) (completion : Bool)
    (completed : UInt64) : (p.finish outcome completion completed).1.frames.Good w.visits := by
  unfold Probe.finish
  split
  · exact h
  · exact ⟨h.1, fun _ hfinished => absurd hfinished.symm Bool.false_ne_true⟩

/-- **Frames.**  Whatever is called, the frames stay aligned or an error is latched. -/
theorem Frames.Good.call (h : p.frames.Good w.visits) (c : Call) :
    (p.call c).frames.Good (w.call p c (p.call c)).visits := by
  cases c with
  | observeFrame frame now => exact h.observe frame now
  | beginSubmission frame resourceFrame submission now =>
      have hframes := beginSubmission_frames p frame resourceFrame submission now
      have hw : w.observe p frame (p.beginSubmission frame resourceFrame submission now) =
          w.observe p frame (p.observeFrame frame now) := by
        rw [Watch.observe, Watch.observe, show (p.beginSubmission ..).firstFrame = _ from
          congrArg Frames.first hframes]
        rfl
      show (p.beginSubmission ..).frames.Good (w.observe p frame (p.beginSubmission ..)).visits
      rw [hframes, hw]
      exact h.observe frame now
  | endSubmission closesFrame transfers tiles dumps =>
      obtain ⟨x, hx, -, -, heq⟩ := endSubmission_eq p closesFrame transfers tiles dumps
      have hgood : x.1.frames.Good (if closesFrame then w.close else w).visits := by
        rw [hx]
        cases closesFrame
        · exact h
        · exact h.close transfers tiles dumps
      have hframes : (p.endSubmission closesFrame transfers tiles dumps).frames = x.1.frames := by
        rw [heq]
        split
        · rfl
        · exact endRecorded_frames ..
      rw [Probe.call, hframes, Watch.call]
      split <;> exact hgood
  | enterScope name detail0 =>
      have hw : (w.call p (.enterScope name detail0) (p.enterScope name detail0).1).visits =
          w.visits := by
        unfold Watch.call
        dsimp only
        split <;> rfl
      rw [Probe.call, enterScope_frames, hw]
      exact h
  | leaveScope category =>
      rw [Probe.call, leaveScope_frames]
      exact h
  | operation op copyBytes =>
      rw [Probe.call, operation_frames]
      exact h
  | tryFinish outcome completed =>
      rw [Probe.call]
      unfold tryFinish
      split_ifs
      · exact h
      · exact h
      · exact h.finish outcome _ completed
  | finish outcome completion completed => exact h.finish outcome completion completed

/-- The visits in order: the frames of the capture come one after the other, and
whenever one is visited it is closed once and the next one follows. -/
def Consecutive (first : UInt64) (count : UInt32) (visits : List Visit) : Prop :=
  (∀ k ≤ count.toNat, ∃ v, visits[k]? = some v ∧ v.frame.toNat = first.toNat + k) ∧
    ∀ (i : ℕ) v, visits[i]? = some v → InCapture first count v.frame → v.closes = 1 ∧
      ∃ next, visits[i + 1]? = some next ∧ next.frame.toNat = v.frame.toNat + 1

/-- **Once the capture has ended, the frames it saw are consecutive and each was closed once.** -/
theorem Frames.Sound.consecutive {f : Frames} {visits : List Visit} (h : f.Sound visits)
    (hend : f.first.toNat + f.count.toNat ≤ f.observed.toNat) :
    Consecutive f.first f.count visits.reverse := by
  obtain ⟨⟨v, vs, hvisits, hframe, -, -⟩, hchain, hopened⟩ := h
  have hreverse : visits.reverse.IsChain fun v next => Follows f.first f.count next v :=
    List.isChain_reverse.2 hchain
  rw [List.isChain_iff_getElem] at hreverse
  have hfollows : ∀ (i : ℕ) x, visits.reverse[i]? = some x → InCapture f.first f.count x.frame →
      x.closes = 1 ∧ ∃ next, visits.reverse[i + 1]? = some next ∧
        next.frame.toNat = x.frame.toNat + 1 := by
    intro i x hx hin
    obtain ⟨hi, hxi⟩ := List.getElem?_eq_some_iff.1 hx
    by_cases hnext : i + 1 < visits.reverse.length
    · have hpair := hreverse i hnext (by rw [hxi]; exact hin)
      rw [hxi] at hpair
      exact ⟨hpair.1, _, List.getElem?_eq_getElem hnext, hpair.2⟩
    · -- the newest visit is past the capture
      have hlast : visits.reverse[i]? = some v := by
        rw [hvisits, List.reverse_cons] at hi hnext ⊢
        rw [List.length_append, List.length_reverse, List.length_singleton] at hi hnext
        rw [List.getElem?_append_right (by rw [List.length_reverse]; omega), List.length_reverse,
          show i - vs.length = 0 by omega]
        rfl
      obtain rfl : x = v := Option.some.inj (hx.symm.trans hlast)
      have := hin.2
      rw [hframe] at this
      omega
  refine ⟨fun k hk => ?_, hfollows⟩
  induction k with
  | zero =>
      have hhead : visits.reverse[0]? = visits.getLast? := by
        rw [← List.head?_eq_getElem?, List.head?_reverse]
      obtain ⟨x, hx, hxf⟩ := Option.map_eq_some_iff.1 hopened
      exact ⟨x, hhead.trans hx, by rw [hxf]; rfl⟩
  | succ k ih =>
      obtain ⟨x, hx, hxf⟩ := ih (by omega)
      obtain ⟨-, next, hnext, hframe⟩ := hfollows k x hx ⟨by omega, by omega⟩
      exact ⟨next, hnext, by omega⟩

/-! ### Runs -/

/-- What holds of a probe and its watch in every run. -/
structure Session.Sound (s : Session) : Prop where
  recording : s.probe.recording.Sound
  scopes : Tracks s.probe s.watch
  frames : s.probe.frames.Good s.watch.visits

/-- Every call of the probe keeps the session sound. -/
theorem Session.Sound.call {s : Session} (h : s.Sound) (c : Call) : (s.call c).Sound where
  recording := call_sound h.recording c
  scopes := h.scopes.call h.recording.tidy c
  frames := h.frames.call c

/-- A session is sound after any sequence of calls, by induction on them. -/
theorem after_sound (startSeconds frameCount groupPeriod : UInt32) (calls : List Call) :
    (after startSeconds frameCount groupPeriod calls).Sound := by
  have hfresh : Session.Sound ⟨fresh startSeconds frameCount groupPeriod, {}⟩ := by
    constructor
    · exact fresh_sound startSeconds frameCount groupPeriod
    · exact fun _ _ => ⟨rfl, rfl, rfl, fun _ => rfl⟩
    · exact ⟨fun _ => rfl, fun hne => absurd rfl hne⟩
  have hstep : ∀ s c, Session.Sound s → Session.Sound (s.call c) := fun _ c h => h.call c
  exact History.invariant hstep hfresh calls

/-- What a successful capture is good for. -/
structure Complete (s : Session) : Prop where
  submissionsEnded : ∀ x ∈ s.probe.submissions, x.ended = true
  groupsEnded : ∀ x ∈ s.probe.groups, x.ended = true
  submissionsResolved :
    resolvedOf .submission s.probe.list = List.range (2 * s.probe.submissions.length)
  groupsResolved : resolvedOf .group s.probe.list = List.range (2 * s.probe.groups.length)
  notNested : s.watch.nested = false
  notLeftOpen : s.watch.leftOpen = false ∧ s.watch.scopes = []
  frames : Fits s.probe.firstFrame s.probe.frameCount →
    Consecutive s.probe.firstFrame s.probe.frameCount s.watch.visits.reverse

/-- `Finish` answers true only when every submission has ended, the capture is over and neither kind
of error was noted. -/
theorem finish_success {outcome : Outcome} {completion : Bool} {completed : UInt64}
    (h : (p.finish outcome completion completed).2 = true) :
    p.finished = false ∧ p.allEnded = true ∧ p.captureEnded = true ∧ p.alignmentError = false ∧
      p.scopeError = false := by
  unfold Probe.finish at h
  split at h
  · cases h
  · rename_i hfinished
    simp only [Probe.valid, Bool.and_eq_true, Bool.not_eq_true'] at h
    obtain ⟨⟨⟨⟨⟨⟨⟨⟨⟨⟨-, hended⟩, hcapture⟩, -⟩, haligned⟩, -⟩, -⟩, -⟩, -⟩, -⟩, hscope⟩ := h
    exact ⟨Bool.eq_false_iff.2 hfinished, hended, hcapture, haligned, hscope⟩

/-- So a sound session whose `Finish` answers true is complete. -/
theorem Session.Sound.complete {s : Session} (h : s.Sound) {outcome : Outcome} {completion : Bool}
    {completed : UInt64} (hs : (s.probe.finish outcome completion completed).2 = true) :
    Complete s := by
  obtain ⟨hfinished, hended, hcapture, haligned, hscope⟩ := finish_success hs
  obtain ⟨hsubmissions, hgroups⟩ := allEnded_iff.1 hended
  -- all have ended, so none is open and none was abandoned
  have hunended : ∀ (i first : ℕ), s.probe.recording.submissions[i]? ≠ some (first, false) := by
    intro i first hi
    simp only [Probe.recording, List.getElem?_map, Option.map_eq_some_iff, Prod.mk.injEq] at hi
    obtain ⟨x, hx, -, hfalse⟩ := hi
    exact absurd (hfalse.symm.trans (hsubmissions x (List.mem_of_getElem? hx))) Bool.false_ne_true
  have hnot : ¬ s.probe.recording.Abandoned := by
    rintro ⟨i, first, hi, -⟩
    exact hunended i first hi
  have hidle : s.probe.currentSubmission = none := by
    cases hcur : s.probe.currentSubmission with
    | none => rfl
    | some i =>
        obtain ⟨-, first, hfirst, -⟩ := h.recording.tidy.current i hcur
        exact absurd hfirst (hunended i first)
  obtain ⟨hsub, hgroup⟩ := h.recording.resolved hnot
  rw [settled_of_none hidle] at hsub hgroup
  have hag := h.scopes hnot hscope
  constructor
  case submissionsEnded => exact hsubmissions
  case groupsEnded => exact hgroups
  case submissionsResolved => simpa [Probe.recording] using hsub
  case groupsResolved => simpa [Probe.recording] using hgroup
  case notNested => exact hag.nested
  case notLeftOpen => exact ⟨hag.leftOpen, hag.scopes_eq_nil (hag.idle hidle)⟩
  case frames =>
    intro hfits
    rw [captureEnded, Bool.and_eq_true, bne_iff_ne, decide_eq_true_iff, ge_iff_le,
      UInt64.le_iff_toNat_le, hfits.toNat_captureEnd] at hcapture
    exact (h.frames.2 hcapture.1 hfinished haligned hfits).consecutive hcapture.2

/-- **The budget probe's queries.**  Whatever is called in whatever order, no slot
is written twice and every resolve reads pairs whose two slots were written
before it.  If `Finish`, or `TryFinish`, then reports success, every submission
and group has ended and is resolved once, no scope was nested or left open, and
the frames of the capture, if it ends below 2^64, came one after the other, each
visit with one close. -/
theorem budgetProbe_discipline (startSeconds frameCount groupPeriod : UInt32) (calls : List Call) :
    let s := after startSeconds frameCount groupPeriod calls
    (written s.probe.list).Nodup ∧ ReadsWritten s.probe.list ∧
      (∀ outcome completion completed,
        (s.probe.finish outcome completion completed).2 = true → Complete s) ∧
      ∀ outcome completed,
        (s.probe.tryFinish outcome completed).2 = .written → Complete s := by
  intro s
  have hs : s.Sound := after_sound startSeconds frameCount groupPeriod calls
  refine ⟨hs.recording.slots.nodup, hs.recording.slots.reads, fun _ _ _ => hs.complete, ?_⟩
  intro outcome completed hwritten
  unfold tryFinish at hwritten
  split_ifs at hwritten
  cases hfinish : (s.probe.finish outcome (completed != noFrame) completed).2 with
  | false => simp [hfinish] at hwritten
  | true => exact hs.complete hfinish

/-- A device and files without fault. -/
def healthy : Outcome where
  deviceHealthy := true
  submissionTicks := some fun _ => 1
  groupTicks := some fun _ => 1
  fileWritten := true
  groupsWritten := true

/-- One frame with one submission, and the frame after it. -/
def oneFrame : List Call :=
  [.beginSubmission 1 1 1 0, .enterScope "resolve_copy" 0, .leaveScope 6,
    .endSubmission true 0 0 0, .observeFrame 2 0]

/-- The hypotheses are satisfiable: a session of one captured frame with one submission and one
scope, which finishes. -/
theorem budgetProbe_discipline_oneFrame : Complete (after 0 1 1 oneFrame) :=
  (budgetProbe_discipline 0 1 1 oneFrame).2.2.1 healthy true 1 (by decide +kernel)

/-- How often frame `f` was closed since the capture began. -/
def Watch.closesOf (w : Watch) (f : UInt64) : ℕ :=
  ((w.visits.filter (·.frame = f)).map (·.closes)).sum

/-- Frame 1, which is the capture, frame 2, and frame 1 once more. -/
def steppedBack : List Call :=
  [.beginSubmission 1 1 1 0, .endSubmission true 0 0 0, .observeFrame 2 0,
    .beginSubmission 1 1 2 0, .endSubmission true 0 0 0, .observeFrame 2 0]

/-- A capture of two frames that begins at the last but one frame number. -/
def lastFrames : List Call :=
  [.beginSubmission 0xFFFFFFFFFFFFFFFE 1 1 0, .endSubmission false 0 0 0]

/-- **Two ways around the check of frames.**  A capture left and entered again
succeeds with two closes of its frame, and one whose end is past the last frame
number succeeds in its first frame, without a close. -/
theorem budgetProbe_misses :
    (let s := after 0 1 0 steppedBack;
      (s.probe.finish healthy true 2).2 = true ∧ s.probe.firstFrame = 1 ∧
        InCapture s.probe.firstFrame s.probe.frameCount 1 ∧ s.watch.closesOf 1 = 2) ∧
    (let s := after 0 2 0 lastFrames;
      (s.probe.finish healthy true 1).2 = true ∧ s.probe.firstFrame = 0xFFFFFFFFFFFFFFFE ∧
        InCapture s.probe.firstFrame s.probe.frameCount 0xFFFFFFFFFFFFFFFE ∧
        s.watch.closesOf 0xFFFFFFFFFFFFFFFE = 0) := by
  decide +kernel

end BudgetProbe
end BoltsRebuilt
