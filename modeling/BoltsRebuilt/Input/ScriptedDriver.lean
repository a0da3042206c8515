/-
# The scripted controller

`input/nb_scripted_input.cpp`: `QueueKeystrokes` (lines 101-111),
`GetDeviceState` and `GetDeviceKeystroke` (lines 181-239).

The guest reads the pad in two ways: it polls the state, and the menus read
keystrokes, one event each call.  A poll at which the step changed queues an
event for every button that differs; the reads take them from the front.  Polls
and reads may come in any order and at any rate.

`Session.Sound`: the events taken and those queued, one after the other, lead
from no buttons to the buttons of the last poll.  A read moves an event from one
list to the other (`Session.Sound.call`); a poll appends what `queueKeystrokes`
adds, and these lead from the old buttons to the new (`queueKeystrokes_spec`).
-/

import BoltsRebuilt.Input.Script
import BoltsRebuilt.Lib.Bits
import BoltsRebuilt.Lib.Text
import Mathlib.Data.List.Induction

namespace BoltsRebuilt
namespace ScriptedInput

open Bits

/-- `X_INPUT_GAMEPAD`. -/
structure Gamepad where
  buttons : BitVec 16 := 0
  thumbLx : ℤ := 0
  thumbLy : ℤ := 0
  thumbRx : ℤ := 0
  thumbRy : ℤ := 0
  leftTrigger : ℤ := 0
  rightTrigger : ℤ := 0
  deriving DecidableEq

/-- `X_INPUT_STATE`. -/
structure InputState where
  packetNumber : UInt32
  gamepad : Gamepad
  deriving DecidableEq

/-- `X_INPUT_KEYSTROKE_KEYDOWN` and `X_INPUT_KEYSTROKE_KEYUP`. -/
inductive KeystrokeFlag
  | keyDown
  | keyUp
  deriving DecidableEq

/-- A queued event: key, flags. -/
abbrev Keystroke := VirtualKey × KeystrokeFlag

/-- The results of the device's calls. -/
inductive XResult
  | success
  | deviceNotConnected
  | empty
  deriving DecidableEq

/-- `kScriptedDevice`. -/
def scriptedDevice : UInt32 := 0x4E425343

variable {τ : Type}

/-- What the state of a step is copied into. -/
def ScriptedStep.gamepad (s : ScriptedStep τ) : Gamepad where
  buttons := s.buttons
  thumbLx := s.thumbLx
  thumbLy := s.thumbLy
  thumbRx := s.thumbRx
  thumbRy := s.thumbRy
  leftTrigger := s.leftTrigger
  rightTrigger := s.rightTrigger

/-- `ScriptedInputDriver`; no last step is `SIZE_MAX`. -/
structure ScriptedInputDriver (τ : Type) where
  steps : List (ScriptedStep τ)
  lastStep : Option ℕ := none
  lastButtons : BitVec 16 := 0
  packetNumber : UInt32 := 1
  keystrokes : List Keystroke := []

/-- `QueueKeystrokes` at one button. -/
def queueButton (before after : BitVec 16) (queue : List Keystroke) (bit : ℕ) : List Keystroke :=
  let mask := BitVec.twoPow 16 bit
  if virtualKey bit = .none ∨ (before ^^^ after) &&& mask = 0 then queue
  else
    let pressed := after &&& mask ≠ 0
    queue ++ [(virtualKey bit, if pressed then .keyDown else .keyUp)]

/-- `QueueKeystrokes` on the queue. -/
def queueKeystrokes (queue : List Keystroke) (before after : BitVec 16) : List Keystroke :=
  (List.range 16).foldl (queueButton before after) queue

/-- The loop of `GetDeviceState` from step `i` on, with `step`. -/
def stepLoop [LinearOrder τ] (now : τ) : List (ScriptedStep τ) → ℕ → Option ℕ → Option ℕ
  | [], _, step => step
  | s :: steps, i, step => if s.atSeconds ≤ now then stepLoop now steps (i + 1) (some i) else step

/-- The gamepad of a step, cleared without one. -/
def gamepadAt (steps : List (ScriptedStep τ)) (step : Option ℕ) : Gamepad :=
  ((step.bind fun i => steps[i]?).map ScriptedStep.gamepad).getD {}

/-- `GetDeviceState`: the result, the state written if there is one to write, and
the driver. -/
def ScriptedInputDriver.getDeviceState [LinearOrder τ] (d : ScriptedInputDriver τ) (id : UInt32)
    (outState : Bool) (now : τ) : (XResult × Option InputState) × ScriptedInputDriver τ :=
  if id ≠ scriptedDevice then ((.deviceNotConnected, none), d)
  else if outState = false then ((.success, none), d)
  else
    let step := stepLoop now d.steps 0 none
    let gamepad := gamepadAt d.steps step
    let d :=
      if step ≠ d.lastStep then
        { d with
          lastStep := step
          packetNumber := d.packetNumber + 1
          keystrokes := queueKeystrokes d.keystrokes d.lastButtons gamepad.buttons
          lastButtons := gamepad.buttons }
      else d
    ((.success, some ⟨d.packetNumber, gamepad⟩), d)

/-- `GetDeviceKeystroke`: the result, the event taken, and the driver.  An event is
taken with or without a record to write it to. -/
def ScriptedInputDriver.getDeviceKeystroke (d : ScriptedInputDriver τ) (id : UInt32) :
    (XResult × Option Keystroke) × ScriptedInputDriver τ :=
  if id ≠ scriptedDevice then ((.deviceNotConnected, none), d)
  else
    match d.keystrokes with
    | [] => ((.empty, none), d)
    | event :: keystrokes => ((.success, some event), { d with keystrokes := keystrokes })

/-! ### What the guest makes of the events -/

/-- The buttons after an event. -/
def press (buttons : BitVec 16) (event : Keystroke) : BitVec 16 :=
  let mask := BitVec.twoPow 16 (virtualKeys.idxOf event.1)
  match event.2 with
  | .keyDown => buttons ||| mask
  | .keyUp => buttons &&& ~~~mask

/-- Every event flips one button of those before it, and no other. -/
def EachFlipsOne : BitVec 16 → List Keystroke → Prop
  | _, [] => True
  | buttons, event :: events =>
      (∃ bit < 16, ∀ i < 16, (press buttons event).getLsbD i ≠ buttons.getLsbD i ↔ i = bit) ∧
        EachFlipsOne (press buttons event) events

/-- Two stretches of keystrokes flip one button each when both do, the second from where the first
ends. -/
theorem eachFlipsOne_append {buttons : BitVec 16} {events events' : List Keystroke} :
    EachFlipsOne buttons (events ++ events') ↔
      EachFlipsOne buttons events ∧ EachFlipsOne (events.foldl press buttons) events' := by
  induction events generalizing buttons with
  | nil => exact (and_iff_right trivial).symm
  | cons event events ih =>
      rw [List.cons_append, EachFlipsOne, EachFlipsOne, ih, List.foldl_cons, and_assoc]

/-- A button's key leads back to the button. -/
theorem virtualKey_idxOf : ∀ bit < 16, virtualKey bit ≠ .none → virtualKeys.idxOf (virtualKey bit) = bit := by
  decide

/-- The event of a button that differs makes it the same. -/
theorem getLsbD_press {buttons : BitVec 16} {bit : ℕ} (hbit : bit < 16) (hkey : virtualKey bit ≠ .none)
    (pressed : Bool) (i : ℕ) :
    (press buttons (virtualKey bit, if pressed then .keyDown else .keyUp)).getLsbD i =
      if i = bit then pressed else buttons.getLsbD i := by
  rw [press]
  dsimp only
  rw [virtualKey_idxOf bit hbit hkey]
  cases pressed with
  | true => exact getLsbD_or_twoPow hbit i
  | false => exact getLsbD_and_not_twoPow hbit i

/-- The loop up to a bit: the events it adds flip one button each and make the
buttons below the bit those of `after`. -/
theorem queueKeystrokes_bits {before after : BitVec 16} (hbefore : Keyed before) (hafter : Keyed after)
    (queue : List Keystroke) {n : ℕ} (hn : n ≤ 16) :
    ∃ events, (List.range n).foldl (queueButton before after) queue = queue ++ events ∧
      EachFlipsOne before events ∧
      ∀ i, (events.foldl press before).getLsbD i = if i < n then after.getLsbD i else before.getLsbD i := by
  induction n with
  | zero => exact ⟨[], (List.append_nil queue).symm, trivial, fun i => (if_neg (Nat.not_lt_zero i)).symm⟩
  | succ n ih =>
      obtain ⟨events, hloop, hflips, hbits⟩ := ih (by omega)
      have hlt : n < 16 := by omega
      rw [List.range_succ, List.foldl_append, hloop, List.foldl_cons, List.foldl_nil,
        queueButton]
      by_cases hskip : virtualKey n = .none ∨ (before ^^^ after) &&& BitVec.twoPow 16 n = 0
      · rw [if_pos hskip]
        -- a button without a key is in neither state
        have hsame : before.getLsbD n = after.getLsbD n := by
          rcases hskip with hnone | heq
          · rw [Bool.eq_false_iff.2 fun h => hbefore n h hnone, Bool.eq_false_iff.2 fun h => hafter n h hnone]
          · rw [and_twoPow_eq_zero hlt, BitVec.getLsbD_xor] at heq
            exact bne_eq_false_iff_eq.1 heq
        refine ⟨events, rfl, hflips, fun i => ?_⟩
        rw [hbits i]
        rcases Nat.lt_trichotomy i n with hi | rfl | hi
        · rw [if_pos hi, if_pos (by omega)]
        · rw [if_neg (lt_irrefl i), if_pos (Nat.lt_succ_self i), hsame]
        · rw [if_neg (by omega), if_neg (by omega)]
      · rw [if_neg hskip]
        dsimp only
        obtain ⟨hkey, hdiffer⟩ := not_or.1 hskip
        rw [and_twoPow_eq_zero hlt, BitVec.getLsbD_xor, Bool.not_eq_false] at hdiffer
        obtain ⟨pressed, hpressed⟩ : ∃ pressed, after.getLsbD n = pressed := ⟨_, rfl⟩
        have hflag : (if after &&& BitVec.twoPow 16 n ≠ 0 then KeystrokeFlag.keyDown else .keyUp) =
            if pressed then .keyDown else .keyUp := by
          refine if_congr ?_ rfl rfl
          rw [ne_eq, and_twoPow_eq_zero hlt, Bool.not_eq_false, hpressed]
        rw [hflag]
        have hpress : ∀ i, (press (events.foldl press before)
            (virtualKey n, if pressed then .keyDown else .keyUp)).getLsbD i =
              if i = n then pressed else (events.foldl press before).getLsbD i :=
          getLsbD_press hlt hkey pressed
        refine ⟨events ++ [(virtualKey n, if pressed then .keyDown else .keyUp)],
          List.append_assoc .., eachFlipsOne_append.2 ⟨hflips, ⟨n, hlt, fun i _ => ?_⟩, trivial⟩, fun i => ?_⟩
        · rw [hpress i]
          by_cases hi : i = n
          · subst hi
            rw [if_pos rfl, hbits i, if_neg (lt_irrefl i), ← hpressed]
            refine iff_of_true (fun h => ?_) rfl
            rw [h, Bool.xor_self] at hdiffer
            exact Bool.false_ne_true hdiffer
          · rw [if_neg hi]
            exact iff_of_false (fun h => h rfl) hi
        · rw [List.foldl_append, List.foldl_cons, List.foldl_nil, hpress i]
          by_cases hi : i = n
          · subst hi
            rw [if_pos rfl, if_pos (Nat.lt_succ_self i), hpressed]
          · rw [if_neg hi, hbits i]
            exact if_congr (by omega) rfl rfl

/-- The events added lead from the old buttons to the new. -/
theorem queueKeystrokes_spec {before after : BitVec 16} (hbefore : Keyed before) (hafter : Keyed after)
    (queue : List Keystroke) :
    ∃ events, queueKeystrokes queue before after = queue ++ events ∧ EachFlipsOne before events ∧
      events.foldl press before = after := by
  obtain ⟨events, hloop, hflips, hbits⟩ := queueKeystrokes_bits hbefore hafter queue le_rfl
  refine ⟨events, hloop, hflips, BitVec.eq_of_getLsbD_eq fun i hi => ?_⟩
  rw [hbits i, if_pos hi]

/-! ### The step that is polled -/

/-- The time of a step has been reached. -/
def reached [LinearOrder τ] (now : τ) (s : ScriptedStep τ × ℕ) : Bool := decide (s.1.atSeconds ≤ now)

/-- The last step, in stable time order, whose time has been reached, with its
place in that order. -/
def lastReached [LinearOrder τ] (steps : List (ScriptedStep τ)) (now : τ) :
    Option (ScriptedStep τ × ℕ) := (steps.zipIdx.filter (reached now)).getLast?

/-- On sorted steps the loop stops at the last one reached. -/
theorem stepLoop_eq [LinearOrder τ] {steps : List (ScriptedStep τ)}
    (h : steps.Pairwise fun a b => a.atSeconds ≤ b.atSeconds) (now : τ) (i : ℕ) (step : Option ℕ) :
    stepLoop now steps i step =
      (((steps.zipIdx i).filter (reached now)).getLast?.map Prod.snd).or step := by
  induction steps generalizing i step with
  | nil => rfl
  | cons s steps ih =>
      obtain ⟨hs, hsteps⟩ := List.pairwise_cons.1 h
      rw [stepLoop, List.zipIdx_cons]
      by_cases hnow : s.atSeconds ≤ now
      · have htrue : reached now (s, i) = true := decide_eq_true hnow
        rw [if_pos hnow, ih hsteps, List.filter_cons_of_pos htrue, List.getLast?_cons]
        cases ((steps.zipIdx (i + 1)).filter (reached now)).getLast? with
        | none => rfl
        | some last => rfl
      · -- no later step has been reached either
        have hfalse : ¬ reached now (s, i) = true := fun h => hnow (of_decide_eq_true h)
        have hnone : (steps.zipIdx (i + 1)).filter (reached now) = [] := by
          refine List.filter_eq_nil_iff.2 fun t ht hle => hnow ?_
          exact (hs t.1 (List.fst_mem_of_mem_zipIdx ht)).trans (of_decide_eq_true hle)
        rw [if_neg hnow, List.filter_cons_of_neg hfalse, hnone]
        rfl

/-- What is polled is the last step reached: the loop over the steps stops at the first that is
still to come. -/
theorem gamepadAt_stepLoop [LinearOrder τ] {steps : List (ScriptedStep τ)}
    (h : steps.Pairwise fun a b => a.atSeconds ≤ b.atSeconds) (now : τ) :
    stepLoop now steps 0 none = (lastReached steps now).map Prod.snd ∧
      gamepadAt steps (stepLoop now steps 0 none) =
        ((lastReached steps now).map fun s => s.1.gamepad).getD {} := by
  rw [stepLoop_eq h, Option.or_none, ← lastReached, gamepadAt]
  refine ⟨rfl, ?_⟩
  cases hlast : lastReached steps now with
  | none => rfl
  | some s =>
      have hmem := (List.mem_filter.1 (List.mem_of_getLast? hlast)).1
      have hget := List.mem_zipIdx_iff_getElem?.1 hmem
      rw [Option.map_some, Option.bind_some, hget, Option.map_some, Option.map_some]

/-! ### Any order of polls and reads -/

/-- A call of the device: a poll of the state at a time, with or without a state
to write, or a read of a keystroke. -/
inductive Call (τ : Type)
  | getDeviceState (id : UInt32) (outState : Bool) (now : τ)
  | getDeviceKeystroke (id : UInt32)

/-- The driver, the events taken from it so far, and the last state it wrote with
the time it was asked at. -/
structure Session (τ : Type) where
  driver : ScriptedInputDriver τ
  taken : List Keystroke := []
  polled : Option (τ × InputState) := none

/-- One call. -/
def Session.call [LinearOrder τ] (s : Session τ) : Call τ → Session τ
  | .getDeviceState id outState now =>
      let result := s.driver.getDeviceState id outState now
      { s with driver := result.2, polled := (result.1.2.map fun state => (now, state)).or s.polled }
  | .getDeviceKeystroke id =>
      let result := s.driver.getDeviceKeystroke id
      { s with driver := result.2, taken := s.taken ++ result.1.2.toList }

/-- The calls, in order, on a driver made of a script. -/
def session [LinearOrder τ] (steps : List (ScriptedStep τ)) (calls : List (Call τ)) : Session τ :=
  calls.foldl Session.call { driver := { steps := steps } }

/-- What holds after any calls. -/
structure Session.Sound [LinearOrder τ] (steps : List (ScriptedStep τ)) (s : Session τ) : Prop where
  script : s.driver.steps = steps
  lastStep : s.driver.lastStep = s.polled.bind fun polled => stepLoop polled.1 steps 0 none
  lastButtons : s.driver.lastButtons = (gamepadAt steps s.driver.lastStep).buttons
  polled : ∀ now state, s.polled = some (now, state) →
    state = ⟨s.driver.packetNumber, gamepadAt steps s.driver.lastStep⟩
  held : (s.taken ++ s.driver.keystrokes).foldl press 0 = s.driver.lastButtons
  flips : EachFlipsOne 0 (s.taken ++ s.driver.keystrokes)

/-- The pad's buttons at every step are ones that have keys. -/
theorem gamepadAt_keyed {steps : List (ScriptedStep τ)} (h : ∀ s ∈ steps, Keyed s.buttons)
    (step : Option ℕ) : Keyed (gamepadAt steps step).buttons := by
  rw [gamepadAt]
  cases hs : step.bind fun i => steps[i]? with
  | none => exact .zero
  | some s =>
      obtain ⟨i, -, hi⟩ := Option.bind_eq_some_iff.1 hs
      exact h s (List.mem_of_getElem? hi)

/-- A call keeps the session sound: a poll at another step adds the events that
lead to its buttons, and a read moves the first queued event behind the taken
ones. -/
theorem Session.Sound.call [LinearOrder τ] {steps : List (ScriptedStep τ)}
    (hkeyed : ∀ s ∈ steps, Keyed s.buttons) {s : Session τ} (h : s.Sound steps) (c : Call τ) :
    (s.call c).Sound steps := by
  cases c with
  | getDeviceKeystroke id =>
      rw [Session.call, ScriptedInputDriver.getDeviceKeystroke]
      split
      · rw [Option.toList_none, List.append_nil]
        exact h
      · split
        · rw [Option.toList_none, List.append_nil]
          exact h
        · rename_i event keystrokes hqueue
          have hmove : s.taken ++ s.driver.keystrokes = s.taken ++ [event] ++ keystrokes := by
            rw [hqueue, List.append_assoc, List.singleton_append]
          exact { h with held := hmove ▸ h.held, flips := hmove ▸ h.flips }
  | getDeviceState id outState now =>
      rw [Session.call, ScriptedInputDriver.getDeviceState]
      split
      · exact h
      · split
        · exact h
        · rw [h.script]
          dsimp only
          split
          · obtain ⟨events, hqueue, hflips, hfold⟩ := queueKeystrokes_spec
              (h.lastButtons ▸ gamepadAt_keyed hkeyed _ : Keyed s.driver.lastButtons)
              (gamepadAt_keyed hkeyed (stepLoop now steps 0 none)) s.driver.keystrokes
            constructor
            case script | lastStep | lastButtons => rfl
            case polled =>
              intro now' state hpolled
              obtain ⟨rfl, rfl⟩ := Prod.ext_iff.1 (Option.some_inj.1 hpolled)
              rfl
            case held =>
              dsimp only
              rw [hqueue, ← List.append_assoc, List.foldl_append, h.held, hfold]
            case flips =>
              dsimp only
              rw [hqueue, ← List.append_assoc, eachFlipsOne_append, h.held]
              exact ⟨h.flips, hflips⟩
          · rename_i hsame
            have hstep := not_not.1 hsame
            refine { h with lastStep := hstep.symm, polled := ?_ }
            intro now' state hpolled
            obtain ⟨rfl, rfl⟩ := Prod.ext_iff.1 (Option.some_inj.1 hpolled)
            dsimp only
            rw [hstep]

/-- Any sequence of calls leaves a sound session, by induction from the end. -/
theorem session_sound [LinearOrder τ] {steps : List (ScriptedStep τ)}
    (hkeyed : ∀ s ∈ steps, Keyed s.buttons) (calls : List (Call τ)) :
    (session steps calls).Sound steps := by
  induction calls using List.reverseRecOn with
  | nil =>
      exact
        { script := rfl
          lastStep := rfl
          lastButtons := rfl
          polled := fun now state h => absurd h.symm (Option.some_ne_none _)
          held := rfl
          flips := trivial }
  | append_singleton calls c ih =>
      rw [session, List.foldl_append, List.foldl_cons, List.foldl_nil]
      exact ih.call hkeyed c

/-- A poll that writes a state writes that of the last step reached, and a new packet number exactly
when the step is another one. -/
theorem Session.call_poll [LinearOrder τ] {steps : List (ScriptedStep τ)} {s : Session τ}
    (h : s.Sound steps) (now : τ) :
    (s.call (.getDeviceState scriptedDevice true now)).polled = some (now,
      ⟨if stepLoop now steps 0 none ≠ s.driver.lastStep then s.driver.packetNumber + 1
        else s.driver.packetNumber, gamepadAt steps (stepLoop now steps 0 none)⟩) := by
  rw [Session.call, ScriptedInputDriver.getDeviceState, if_neg (not_not.2 rfl),
    if_neg Bool.true_eq_false.mp, h.script]
  dsimp only
  split
  · rfl
  · rfl

/-- A packet number counted up is another one, also where it wraps. -/
theorem uint32_add_one_ne (n : UInt32) : n + 1 ≠ n := by
  intro h
  have hnat := congrArg UInt32.toNat h
  rw [UInt32.toNat_add] at hnat
  have hlt := n.toNat_lt
  have hone : (1 : UInt32).toNat = 1 := rfl
  omega

/-- **The guest gets every edge.** For any script and any polls and reads: the
events taken and those queued lead to the buttons of the last poll, each flips
one button; a poll without a state changes nothing; and where the script was read
to the end, a poll writes the last step reached, with another packet number than
the poll before it exactly when that is another step. -/
theorem scripted_input [LinearOrder τ] (pad : GamepadButtons) (atof : List Char → τ)
    (atoi : List Char → ℤ) (script : List Char) (calls : List (Call τ)) :
    let steps := (parse pad atof atoi script).2
    let s := session steps calls
    (s.taken ++ s.driver.keystrokes).foldl press 0 =
      (s.polled.map fun polled => polled.2.gamepad.buttons).getD 0 ∧
    EachFlipsOne 0 (s.taken ++ s.driver.keystrokes) ∧
    (∀ id now, s.call (.getDeviceState id false now) = s) ∧
    ((parse pad atof atoi script).1 = true →
      (∀ now state, s.polled = some (now, state) →
        state.gamepad = ((lastReached steps now).map fun s => s.1.gamepad).getD {}) ∧
      ∀ now state, s.polled = some (now, state) → ∀ now', ∃ state',
        (s.call (.getDeviceState scriptedDevice true now')).polled = some (now', state') ∧
          (state'.packetNumber ≠ state.packetNumber ↔
            (lastReached steps now').map Prod.snd ≠ (lastReached steps now).map Prod.snd)) := by
  dsimp only
  obtain ⟨steps, hsteps⟩ : ∃ steps, (parse pad atof atoi script).2 = steps := ⟨_, rfl⟩
  obtain ⟨s, hs⟩ : ∃ s, session steps calls = s := ⟨_, rfl⟩
  have h : s.Sound steps := hs ▸ session_sound (hsteps ▸ parse_keyed pad atof atoi script) calls
  rw [hsteps, hs]
  refine ⟨?_, h.flips, fun id now => ?_, fun hok => ?_⟩
  · rw [h.held]
    cases hp : s.polled with
    | none =>
        rw [h.lastButtons, h.lastStep, hp]
        rfl
    | some p =>
        rw [Option.map_some, Option.getD_some, h.polled p.1 p.2 hp, h.lastButtons]
  · rw [Session.call, ScriptedInputDriver.getDeviceState]
    split
    · rfl
    · rfl
  · have hsorted := hsteps ▸ parse_sorted hok
    have hstep : ∀ now state, s.polled = some (now, state) →
        s.driver.lastStep = stepLoop now steps 0 none := by
      intro now state hp
      rw [h.lastStep, hp]
      rfl
    refine ⟨fun now state hp => ?_, fun now state hp now' => ⟨_, Session.call_poll h now', ?_⟩⟩
    · rw [h.polled now state hp, hstep now state hp]
      exact (gamepadAt_stepLoop hsorted now).2
    · rw [h.polled now state hp, hstep now state hp, ← (gamepadAt_stepLoop hsorted now').1,
        ← (gamepadAt_stepLoop hsorted now).1]
      dsimp only
      by_cases hsame : stepLoop now' steps 0 none = stepLoop now steps 0 none
      · rw [if_neg (not_not.2 hsame)]
        exact iff_of_false (fun hne => hne rfl) (not_not.2 hsame)
      · rw [if_pos hsame]
        exact iff_of_true (uint32_add_one_ne _) hsame

/-- The bits of XInput. -/
def xInput : GamepadButtons where
  mask
    | .dpadUp => BitVec.twoPow 16 0
    | .dpadDown => BitVec.twoPow 16 1
    | .dpadLeft => BitVec.twoPow 16 2
    | .dpadRight => BitVec.twoPow 16 3
    | .start => BitVec.twoPow 16 4
    | .back => BitVec.twoPow 16 5
    | .leftThumb => BitVec.twoPow 16 6
    | .rightThumb => BitVec.twoPow 16 7
    | .leftShoulder => BitVec.twoPow 16 8
    | .rightShoulder => BitVec.twoPow 16 9
    | .a => BitVec.twoPow 16 12
    | .b => BitVec.twoPow 16 13
    | .x => BitVec.twoPow 16 14
    | .y => BitVec.twoPow 16 15
  keyed button bit hbit := by
    have hlt := lt_of_getLsbD hbit
    revert hbit
    revert bit
    cases button <;> decide

/-- `A` from second 1 on and `B` from second 5 on, written the other way round. -/
def pressAThenB : List Char := "5:B,1:A".toList

/-- The steps of the script, in stable time order. -/
def stepsAThenB : List (ScriptedStep ℕ) :=
  [{ atSeconds := 1, buttons := BitVec.twoPow 16 12, text := "A".toList },
    { atSeconds := 5, buttons := BitVec.twoPow 16 13, text := "B".toList }]

/-- The script of the example is parsed, with its steps in the order of their times. -/
theorem parse_pressAThenB :
    parse xInput Text.digitsValue (fun s => Text.digitsValue s) pressAThenB = (true, stepsAThenB) := by
  have hread : parseEntries xInput Text.digitsValue (fun s => Text.digitsValue s)
      (split ',' pressAThenB []) [] = (true, stepsAThenB.reverse) := by
    decide +kernel
  have hsorted : stepsAThenB.reverse.mergeSort notLater = stepsAThenB := by
    simp [stepsAThenB, List.mergeSort, List.MergeSort.Internal.splitInTwo, notLater]
  rw [parse, hread, if_pos rfl, hsorted]

/-- A poll before the script, one at each step, and two reads in between and after. -/
def pressedAThenB : List (Call ℕ) :=
  [.getDeviceState scriptedDevice true 0, .getDeviceState scriptedDevice true 1,
    .getDeviceKeystroke scriptedDevice, .getDeviceState scriptedDevice true 5,
    .getDeviceKeystroke scriptedDevice]

/-- The hypotheses are satisfiable: a script of two steps out of order is read to the end; the menus
get the press of `A` and its release, the press of `B` waits in the queue, and a poll two seconds
later is of the same step, while one at second 1 is not. -/
theorem scripted_input_pressAThenB :
    let steps := (parse xInput Text.digitsValue (fun s => Text.digitsValue s) pressAThenB).2
    let s := session steps pressedAThenB
    s.taken = [(.xInputPadA, .keyDown), (.xInputPadA, .keyUp)] ∧
      s.driver.keystrokes = [(.xInputPadB, .keyDown)] ∧
      s.polled = some (5, ⟨3, { buttons := BitVec.twoPow 16 13 }⟩) ∧
      (s.taken ++ s.driver.keystrokes).foldl press 0 =
        (s.polled.map fun polled => polled.2.gamepad.buttons).getD 0 ∧
      EachFlipsOne 0 (s.taken ++ s.driver.keystrokes) ∧
      (lastReached steps 7).map Prod.snd = (lastReached steps 5).map Prod.snd ∧
      (lastReached steps 1).map Prod.snd ≠ (lastReached steps 5).map Prod.snd ∧
      ∀ now, ∃ state, (s.call (.getDeviceState scriptedDevice true now)).polled = some (now, state) ∧
        (state.packetNumber ≠ 3 ↔
          (lastReached steps now).map Prod.snd ≠ (lastReached steps 5).map Prod.snd) := by
  obtain ⟨hheld, hflips, -, hread⟩ := scripted_input xInput Text.digitsValue
    (fun s => Text.digitsValue s) pressAThenB pressedAThenB
  rw [parse_pressAThenB] at hheld hflips hread ⊢
  have hpolled : (session stepsAThenB pressedAThenB).polled =
      some (5, ⟨3, { buttons := BitVec.twoPow 16 13 }⟩) := by
    decide +kernel
  have hevents : (session stepsAThenB pressedAThenB).taken = [(.xInputPadA, .keyDown), (.xInputPadA, .keyUp)] ∧
      (session stepsAThenB pressedAThenB).driver.keystrokes = [(.xInputPadB, .keyDown)] := by
    decide +kernel
  exact ⟨hevents.1, hevents.2, hpolled, hheld, hflips, rfl, by decide, (hread rfl).2 5 _ hpolled⟩

end ScriptedInput
end BoltsRebuilt
