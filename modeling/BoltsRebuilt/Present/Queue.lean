/-
# The presenter queue

`src/ultrawide/nb_ultrawide_math.h`: `PackPresent` and `UnpackPresent` (lines
109-118), and `src/ultrawide/nb_ultrawide.cpp`: `PushPresent`, `OnGuestSwapEnter`,
`OnGuestRepresent` (lines 147-175), the word `Latch` stores (line 113) and
`NbUltrawideTakePresentAspect2` (lines 286-320).

Each swap packet the guest emits has an entry in a ring of 16: the address of the
frontbuffer and a word with the presenter's state.  A re-present repeats the word
pushed last.  When a packet reaches the command processor, the entries before the
first one with its address are dropped and that one is taken.
-/

import BoltsRebuilt.Lib.Ring
import Mathlib.Data.BitVec

namespace BoltsRebuilt
namespace Present

/-- The presenter's state: the active flag, the width and the height. -/
structure PresentState where
  active : Bool
  width : BitVec 32
  height : BitVec 32
  deriving DecidableEq, Repr

/-- `PackPresent`. -/
def packPresent (s : PresentState) : BitVec 64 :=
  ((BitVec.ofBool s.active).setWidth 64 <<< 63) |||
    ((s.height &&& 0x7FFFFFFF).setWidth 64 <<< 32) ||| s.width.setWidth 64

/-- `UnpackPresent`. -/
def unpackPresent (word : BitVec 64) : PresentState where
  active := word >>> 63 != 0
  width := word.setWidth 32
  height := (word >>> 32).setWidth 32 &&& 0x7FFFFFFF

/-- `PresentEntry`. -/
structure PresentEntry where
  frontbuffer : BitVec 32
  word : BitVec 64
  deriving DecidableEq, Repr

/-- `kPresent16x9`. -/
def kPresent16x9 : BitVec 64 := (9 <<< 32) ||| 16

/-- The state of the presenter queue. -/
structure Presenter where
  present : BitVec 64
  presentQueue : Ring PresentEntry 16
  presentLastPushed : BitVec 64
  presentLast : BitVec 64
  presentTaken : Bool
  presentResyncs : BitVec 64

namespace Presenter

/-- Before the first swap. -/
def start : Presenter where
  present := kPresent16x9
  presentQueue :=
    { data := fun _ => ⟨0, kPresent16x9⟩
      head := 0
      count := 0
      head_lt := by decide
      count_le := by decide }
  presentLastPushed := kPresent16x9
  presentLast := kPresent16x9
  presentTaken := false
  presentResyncs := 0

/-- The word `Latch` stores. -/
def latch (p : Presenter) (s : PresentState) : Presenter := { p with present := packPresent s }

/-- `PushPresent`: a full queue loses its oldest entry. -/
def pushPresent (p : Presenter) (frontbuffer : BitVec 32) (word : BitVec 64) : Presenter :=
  let entry := ⟨frontbuffer, word⟩
  let queue :=
    if h : p.presentQueue.count < 16 then p.presentQueue.append entry h
    else (p.presentQueue.drop 1).append entry (by
      have := p.presentQueue.count_le
      show p.presentQueue.count - 1 < 16
      omega)
  { p with presentQueue := queue, presentLastPushed := word }

/-- `OnGuestSwapEnter`. -/
def onGuestSwapEnter (p : Presenter) (emitsPacket : Bool) (frontbuffer : BitVec 32) : Presenter :=
  if emitsPacket then p.pushPresent frontbuffer p.present else p

/-- `OnGuestRepresent`. -/
def onGuestRepresent (p : Presenter) (emitsPacket : Bool) (frontbuffer : BitVec 32) : Presenter :=
  if emitsPacket then p.pushPresent frontbuffer p.presentLastPushed else p

/-- `dropped`: how many entries are before the first one with the address. -/
def dropped (p : Presenter) (frontbuffer : BitVec 32) : ℕ :=
  ((List.range p.presentQueue.count).find? fun i =>
    (p.presentQueue.get i).frontbuffer = frontbuffer).getD 0

/-- `NbUltrawideTakePresentAspect2`, asked for both numbers. -/
def takePresentAspect2 (p : Presenter) (frontbuffer : BitVec 32) : PresentState × Presenter :=
  if p.presentQueue.count ≠ 0 then
    let dropped := p.dropped frontbuffer
    let queue := p.presentQueue.drop dropped
    let word := (queue.get 0).word
    (unpackPresent word,
      { p with
        presentQueue := queue.drop 1
        presentLast := word
        presentTaken := true
        presentResyncs := p.presentResyncs + BitVec.ofNat 64 dropped })
  else (unpackPresent (if p.presentTaken then p.presentLast else p.present), p)

end Presenter

/-! ### The word -/

section Word

variable {active : Bool} {width height : BitVec 32}
  (hheight : ∀ i, 31 ≤ i → height.getLsbD i = false)
include hheight

/-- The packed word gives back whether the state is active. -/
theorem word_active :
    ((((BitVec.ofBool active).setWidth 64 <<< 63) ||| (height.setWidth 64 <<< 32) |||
      width.setWidth 64) >>> 63 != 0) = active := by
  have hbit : (((BitVec.ofBool active).setWidth 64 <<< 63) ||| (height.setWidth 64 <<< 32) |||
      width.setWidth 64) >>> 63 = (BitVec.ofBool active).setWidth 64 := by
    refine BitVec.eq_of_getLsbD_eq fun i hi => ?_
    have hlast : height.getLsbD (63 + i - 32) = false := hheight _ (by omega)
    rcases Nat.eq_zero_or_pos i with rfl | hpos
    · simp
      intro h
      rw [show height[31] = false from hlast] at h
      cases h
    · simp [show ¬ (63 + i < 64) by omega]
      omega
  rw [hbit]
  cases active <;> rfl

/-- And its height, below `2 ^ 31`. -/
theorem word_height :
    ((((BitVec.ofBool active).setWidth 64 <<< 63) ||| (height.setWidth 64 <<< 32) |||
      width.setWidth 64) >>> 32).setWidth 32 &&& 0x7FFFFFFF = height := by
  refine BitVec.eq_of_getLsbD_eq fun i hi => ?_
  have hmask : (0x7FFFFFFF : BitVec 32).getLsbD i = decide (i < 31) := by
    show (BitVec.ofNat 32 (2 ^ 31 - 1)).getLsbD i = _
    rw [BitVec.getLsbD_ofNat, Nat.testBit_two_pow_sub_one, decide_eq_true hi, Bool.true_and]
  rw [BitVec.getLsbD_and, hmask]
  by_cases h31 : i < 31
  · simp [h31, show 32 + i < 63 by omega, hi, show 32 + i < 64 by omega]
  · rw [hheight i (by omega)]
    simp [h31]

end Word

/-- What is packed is unpacked again; a height has 31 bits. -/
theorem unpackPresent_packPresent {s : PresentState} (h : s.height.toNat < 2 ^ 31) :
    unpackPresent (packPresent s) = s := by
  obtain ⟨active, width, height⟩ := s
  have hmask : height &&& 0x7FFFFFFF = height := by
    refine BitVec.eq_of_toNat_eq ?_
    rw [BitVec.toNat_and]
    exact (Nat.and_two_pow_sub_one_eq_mod height.toNat 31).trans (Nat.mod_eq_of_lt h)
  have hheight : ∀ i, 31 ≤ i → height.getLsbD i = false := by
    intro i hi
    rw [← BitVec.testBit_toNat]
    exact Nat.testBit_lt_two_pow (h.trans_le (Nat.pow_le_pow_right (by decide) hi))
  have hwidth : (((BitVec.ofBool active).setWidth 64 <<< 63) ||| (height.setWidth 64 <<< 32) |||
      width.setWidth 64).setWidth 32 = width := by
    ext i hi
    simp
  rw [packPresent, unpackPresent, hmask, word_active hheight, word_height hheight, hwidth]

/-! ### What the calls do to the queue -/

namespace Presenter

variable {p : Presenter}

/-- With a free place an entry enters at the back. -/
theorem contents_pushPresent (h : p.presentQueue.count < 16) (frontbuffer : BitVec 32)
    (word : BitVec 64) :
    (p.pushPresent frontbuffer word).presentQueue.contents =
      p.presentQueue.contents ++ [⟨frontbuffer, word⟩] := by
  rw [pushPresent]
  dsimp only
  rw [dif_pos h, Ring.contents_append]

/-- The entries before the first one with the address. -/
theorem dropped_eq {frontbuffer : BitVec 32} {stale rest : List PresentEntry} {entry : PresentEntry}
    (hqueue : p.presentQueue.contents = stale ++ entry :: rest)
    (hstale : ∀ e ∈ stale, e.frontbuffer ≠ frontbuffer) (hentry : entry.frontbuffer = frontbuffer) :
    p.dropped frontbuffer = stale.length := by
  have hcount : p.presentQueue.count = stale.length + (rest.length + 1) := by
    rw [← Ring.length_contents, hqueue, List.length_append, List.length_cons]
  have hget : ∀ i < p.presentQueue.count,
      some (p.presentQueue.get i) = (stale ++ entry :: rest)[i]? := by
    intro i hi
    rw [← hqueue, Ring.getElem?_contents _ hi]
  have hfind : ((List.range p.presentQueue.count).find? fun i =>
      (p.presentQueue.get i).frontbuffer = frontbuffer) = some stale.length := by
    rw [List.find?_range_eq_some]
    refine ⟨?_, List.mem_range.2 (by omega), fun i hi => ?_⟩
    · have hat := hget stale.length (by omega)
      rw [List.getElem?_append_right le_rfl, Nat.sub_self, List.getElem?_cons_zero] at hat
      rw [Option.some.inj hat]
      simpa using hentry
    · have hat := hget i (by omega)
      rw [List.getElem?_append_left hi, List.getElem?_eq_getElem hi] at hat
      rw [Option.some.inj hat]
      simpa using hstale _ (List.getElem_mem hi)
  rw [dropped, hfind]
  rfl

/-- **A take with a matching entry.**  The entries before it are dropped and counted, and
its word is returned. -/
theorem takePresentAspect2_eq {frontbuffer : BitVec 32} {stale rest : List PresentEntry}
    {entry : PresentEntry} (hqueue : p.presentQueue.contents = stale ++ entry :: rest)
    (hstale : ∀ e ∈ stale, e.frontbuffer ≠ frontbuffer) (hentry : entry.frontbuffer = frontbuffer) :
    (p.takePresentAspect2 frontbuffer).1 = unpackPresent entry.word ∧
      (p.takePresentAspect2 frontbuffer).2.presentQueue.contents = rest ∧
      (p.takePresentAspect2 frontbuffer).2.presentResyncs =
        p.presentResyncs + BitVec.ofNat 64 stale.length ∧
      (p.takePresentAspect2 frontbuffer).2.present = p.present ∧
      (p.takePresentAspect2 frontbuffer).2.presentLastPushed = p.presentLastPushed := by
  have hcount : p.presentQueue.count = stale.length + (rest.length + 1) := by
    rw [← Ring.length_contents, hqueue, List.length_append, List.length_cons]
  have hdrop : (p.presentQueue.drop stale.length).contents = entry :: rest := by
    rw [Ring.contents_drop, hqueue, List.drop_left]
  have hhead : (p.presentQueue.drop stale.length).get 0 = entry := by
    have hat := Ring.getElem?_contents (p.presentQueue.drop stale.length) (i := 0) (by
      show 0 < p.presentQueue.count - stale.length
      omega)
    rw [hdrop, List.getElem?_cons_zero] at hat
    exact (Option.some.inj hat).symm
  rw [takePresentAspect2, if_pos (by omega)]
  dsimp only
  rw [dropped_eq hqueue hstale hentry, hhead]
  refine ⟨rfl, ?_, rfl, rfl, rfl⟩
  rw [Ring.contents_drop, hdrop]
  rfl

end Presenter
end Present
end BoltsRebuilt
