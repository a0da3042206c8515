/-
# The schedule of the scripted controller

`input/nb_scripted_input.cpp`: `Upper`, `Split`, `ApplyKey` and `kVirtualKeys`
(lines 19-98) and `ScriptedInputDriver::Parse` (lines 113-137);
`input/nb_scripted_input.h`: `ScriptedStep` (lines 61-71).

A run can drive itself past the menus from a text such as `34:A,34.2:,37:A`:
at each time the pad holds the keys named after it.  `Parse` reads the entries
in order and sorts them by time, entries of one time staying in order; at an
entry it cannot read it stops, with the steps before it unsorted.

Times are of any linear order, and `atof` and `atoi` are parameters.  The
button masks are constants of the SDK: `GamepadButtons` keeps what the driver
relies on, that the bits it names all have a virtual key.
-/

import Mathlib.Algebra.GroupWithZero.Nat
import Mathlib.Algebra.Ring.Int.Defs
import Mathlib.Data.Int.Notation
import Mathlib.Order.Lattice
import Mathlib.Tactic.Common

namespace BoltsRebuilt
namespace ScriptedInput

/-- The virtual keys the driver reports, and `kNone`. -/
inductive VirtualKey
  | none
  | xInputPadDpadUp
  | xInputPadDpadDown
  | xInputPadDpadLeft
  | xInputPadDpadRight
  | xInputPadStart
  | xInputPadBack
  | xInputPadLThumbPress
  | xInputPadRThumbPress
  | xInputPadLShoulder
  | xInputPadRShoulder
  | xInputPadA
  | xInputPadB
  | xInputPadX
  | xInputPadY
  deriving DecidableEq

/-- `kVirtualKeys`: the key of each button bit; the guide button has none. -/
def virtualKeys : List VirtualKey :=
  [.xInputPadDpadUp, .xInputPadDpadDown, .xInputPadDpadLeft, .xInputPadDpadRight, .xInputPadStart,
    .xInputPadBack, .xInputPadLThumbPress, .xInputPadRThumbPress, .xInputPadLShoulder,
    .xInputPadRShoulder, .none, .none, .xInputPadA, .xInputPadB, .xInputPadX, .xInputPadY]

/-- `kVirtualKeys[bit]`. -/
def virtualKey (bit : ℕ) : VirtualKey := virtualKeys.getD bit .none

/-- The buttons a script can name. -/
inductive Button
  | a | b | x | y | start | back | leftShoulder | rightShoulder | leftThumb | rightThumb
  | dpadUp | dpadDown | dpadLeft | dpadRight
  deriving DecidableEq

/-- Buttons all of whose bits have a virtual key. -/
def Keyed (buttons : BitVec 16) : Prop :=
  ∀ bit, buttons.getLsbD bit = true → virtualKey bit ≠ .none

/-- `X_INPUT_GAMEPAD_*`. -/
structure GamepadButtons where
  mask : Button → BitVec 16
  keyed : ∀ button, Keyed (mask button)

/-- `ScriptedStep`. -/
structure ScriptedStep (τ : Type) where
  atSeconds : τ
  buttons : BitVec 16 := 0
  thumbLx : ℤ := 0
  thumbLy : ℤ := 0
  thumbRx : ℤ := 0
  thumbRy : ℤ := 0
  leftTrigger : ℤ := 0
  rightTrigger : ℤ := 0
  text : List Char
  deriving DecidableEq

/-- `Upper`. -/
def upper (text : List Char) : List Char := text.map Char.toUpper

/-- `Split`: spaces are dropped. -/
def split (separator : Char) : List Char → List Char → List (List Char)
  | [], current => [current]
  | c :: text, current =>
      if c = separator then current :: split separator text []
      else if c ≠ ' ' then split separator text (current ++ [c])
      else split separator text current

/-- `kButtons`. -/
def buttonNames : List (List Char × Button) :=
  [("A".toList, .a), ("B".toList, .b), ("X".toList, .x), ("Y".toList, .y), ("START".toList, .start),
    ("BACK".toList, .back), ("LB".toList, .leftShoulder), ("RB".toList, .rightShoulder),
    ("LS".toList, .leftThumb), ("RS".toList, .rightThumb), ("UP".toList, .dpadUp),
    ("DOWN".toList, .dpadDown), ("LEFT".toList, .dpadLeft), ("RIGHT".toList, .dpadRight)]

/-- `std::clamp`. -/
def clamp (value low high : ℤ) : ℤ := if value < low then low else if high < value then high else value

variable {τ : Type}

/-- `ApplyKey`; no result where it returns false. -/
def applyKey (pad : GamepadButtons) (atoi : List Char → ℤ) (key : List Char) (step : ScriptedStep τ) :
    Option (ScriptedStep τ) :=
  if '=' ∈ key then
    let axis := upper (key.takeWhile (· ≠ '='))
    let value := atoi (key.dropWhile (· ≠ '=')).tail
    let clamped := clamp value (-32768) 32767
    if axis = "LX".toList then some { step with thumbLx := clamped }
    else if axis = "LY".toList then some { step with thumbLy := clamped }
    else if axis = "RX".toList then some { step with thumbRx := clamped }
    else if axis = "RY".toList then some { step with thumbRy := clamped }
    else if axis = "LT".toList then some { step with leftTrigger := clamp value 0 255 }
    else if axis = "RT".toList then some { step with rightTrigger := clamp value 0 255 }
    else none
  else
    (buttonNames.find? fun button => upper key = button.1).map fun button =>
      { step with buttons := step.buttons ||| pad.mask button.2 }

/-- The keys of an entry, in order. -/
def applyKeys (pad : GamepadButtons) (atoi : List Char → ℤ) :
    List (List Char) → ScriptedStep τ → Option (ScriptedStep τ)
  | [], step => some step
  | key :: keys, step =>
      if key = [] then applyKeys pad atoi keys step
      else (applyKey pad atoi key step).bind (applyKeys pad atoi keys)

/-- The loop of `Parse` over the entries, with `out`. -/
def parseEntries (pad : GamepadButtons) (atof : List Char → τ) (atoi : List Char → ℤ) :
    List (List Char) → List (ScriptedStep τ) → Bool × List (ScriptedStep τ)
  | [], out => (true, out)
  | entry :: entries, out =>
      if entry = [] then parseEntries pad atof atoi entries out
      else if ':' ∉ entry then (false, out)
      else
        let text := (entry.dropWhile (· ≠ ':')).tail
        let step := { atSeconds := atof (entry.takeWhile (· ≠ ':')), text := text }
        match applyKeys pad atoi (split '+' text []) step with
        | none => (false, out)
        | some step => parseEntries pad atof atoi entries (out ++ [step])

/-- The order of `stable_sort`. -/
def notLater [LinearOrder τ] (a b : ScriptedStep τ) : Bool := decide (a.atSeconds ≤ b.atSeconds)

/-- `Parse`: whether every entry was read, and the steps. -/
def parse [LinearOrder τ] (pad : GamepadButtons) (atof : List Char → τ) (atoi : List Char → ℤ)
    (script : List Char) : Bool × List (ScriptedStep τ) :=
  let read := parseEntries pad atof atoi (split ',' script []) []
  if read.1 then (true, read.2.mergeSort notLater) else (false, read.2)

/-! ### What a script can hold -/

/-- No buttons are pressed to begin with. -/
theorem Keyed.zero : Keyed 0 := fun bit h => absurd (h.symm.trans BitVec.getLsbD_zero) (by decide)

/-- Buttons added to others keep to those that have keys. -/
theorem Keyed.or {a b : BitVec 16} (ha : Keyed a) (hb : Keyed b) : Keyed (a ||| b) := by
  intro bit h
  rw [BitVec.getLsbD_or, Bool.or_eq_true] at h
  exact h.elim (ha bit) (hb bit)

/-- A key of an entry adds only such a button. -/
theorem applyKey_keyed {pad : GamepadButtons} {atoi : List Char → ℤ} {key : List Char}
    {step step' : ScriptedStep τ} (h : applyKey pad atoi key step = some step')
    (hstep : Keyed step.buttons) : Keyed step'.buttons := by
  rw [applyKey] at h
  split at h
  · dsimp only at h
    -- an axis leaves the buttons alone
    have haxis : step'.buttons = step.buttons := by
      split at h
      · rw [← Option.some_inj.1 h]
      · split at h
        · rw [← Option.some_inj.1 h]
        · split at h
          · rw [← Option.some_inj.1 h]
          · split at h
            · rw [← Option.some_inj.1 h]
            · split at h
              · rw [← Option.some_inj.1 h]
              · split at h
                · rw [← Option.some_inj.1 h]
                · exact absurd h.symm (Option.some_ne_none step')
    rwa [haxis]
  · obtain ⟨button, -, rfl⟩ := Option.map_eq_some_iff.1 h
    exact hstep.or (pad.keyed button.2)

/-- And so do all keys of an entry, by induction on them. -/
theorem applyKeys_keyed {pad : GamepadButtons} {atoi : List Char → ℤ} {keys : List (List Char)}
    {step step' : ScriptedStep τ} (h : applyKeys pad atoi keys step = some step')
    (hstep : Keyed step.buttons) : Keyed step'.buttons := by
  induction keys generalizing step with
  | nil => exact Option.some_inj.1 h ▸ hstep
  | cons key keys ih =>
      rw [applyKeys] at h
      split at h
      · exact ih h hstep
      · obtain ⟨mid, hkey, hkeys⟩ := Option.bind_eq_some_iff.1 h
        exact ih hkeys (applyKey_keyed hkey hstep)

/-- And so all steps of a script have such buttons only. -/
theorem parseEntries_keyed (pad : GamepadButtons) (atof : List Char → τ) (atoi : List Char → ℤ)
    (entries : List (List Char)) (out : List (ScriptedStep τ)) (hout : ∀ s ∈ out, Keyed s.buttons) :
    ∀ s ∈ (parseEntries pad atof atoi entries out).2, Keyed s.buttons := by
  induction entries generalizing out with
  | nil => exact hout
  | cons entry entries ih =>
      rw [parseEntries]
      split
      · exact ih out hout
      · split
        · exact hout
        · dsimp only
          split
          · exact hout
          · rename_i step hkeys
            refine ih _ fun s hs => ?_
            rcases List.mem_append.1 hs with hs | hs
            · exact hout s hs
            · rw [List.mem_singleton.1 hs]
              exact applyKeys_keyed hkeys .zero

/-- **A script holds named buttons only.** Every step of a parsed script, read to
the end or not, has buttons with virtual keys. -/
theorem parse_keyed [LinearOrder τ] (pad : GamepadButtons) (atof : List Char → τ)
    (atoi : List Char → ℤ) (script : List Char) :
    ∀ s ∈ (parse pad atof atoi script).2, Keyed s.buttons := by
  have hentries := parseEntries_keyed pad atof atoi (split ',' script []) []
    fun s hs => absurd hs List.not_mem_nil
  rw [parse]
  split
  · exact fun s hs => hentries s (List.mem_mergeSort.1 hs)
  · exact hentries

/-- A script that was read to the end is sorted. -/
theorem parse_sorted [LinearOrder τ] {pad : GamepadButtons} {atof : List Char → τ}
    {atoi : List Char → ℤ} {script : List Char} (h : (parse pad atof atoi script).1 = true) :
    (parse pad atof atoi script).2.Pairwise fun a b => a.atSeconds ≤ b.atSeconds := by
  rw [parse] at h ⊢
  split
  · refine (List.pairwise_mergeSort ?_ ?_ _).imp fun hab => of_decide_eq_true hab
    · intro a b c hab hbc
      exact decide_eq_true (le_trans (of_decide_eq_true hab) (of_decide_eq_true hbc))
    · intro a b
      exact Bool.or_eq_true_iff.2 ((le_total a.atSeconds b.atSeconds).imp decide_eq_true decide_eq_true)
  · rename_i hfail
    rw [if_neg hfail] at h
    exact absurd h Bool.false_ne_true

end ScriptedInput
end BoltsRebuilt
