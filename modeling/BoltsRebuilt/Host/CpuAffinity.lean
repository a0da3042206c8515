/-
# Where the guest's threads may run

`gpu/native/native_cpu_affinity_policy.h`: `SelectNativePerformanceAffinity`
(lines 31-81) and `SelectNativeCpuPlacement` (lines 91-122).

On a processor with fast and slow cores the threads that matter may be kept on
the fast ones.  The operating system lists its logical processors in no
particular order and may list one more than once; the selection refuses a list
that contradicts itself or has one class only, takes the processors of the
highest efficiency class that the masks allow, and among them those of the best
scheduling class.  A placement mode then picks a mask from the selection, and
one processor in it.

`Coherent`: the lists the first pass accepts, without their order
(`scan_spec`).  Each pass keeps a running maximum (`Peak.IsPeak`) and masks that
say which processors have an entry of a kind, and neither knows the order.
-/

import BoltsRebuilt.Lib.Bits
import BoltsRebuilt.Lib.Peak
import Mathlib.Data.List.Induction
import Mathlib.Logic.Function.Basic

namespace BoltsRebuilt
namespace CpuAffinity

open Bits Peak

/-- `NativeCpuTopologyEntry`. -/
structure NativeCpuTopologyEntry where
  group : UInt16
  logical : UInt16
  efficiencyClass : UInt8
  reservedForOther : Bool
  schedulingClass : UInt8 := 0
  deriving DecidableEq

/-- `NativeCpuAffinitySelectionResult`. -/
inductive NativeCpuAffinitySelectionResult
  | ready
  | unsupportedGroup
  | invalidTopology
  | homogeneousTopology
  | emptyAllowedMask
  | noAllowedPerformanceCore
  deriving DecidableEq

/-- `NativeCpuAffinitySelection`. -/
structure NativeCpuAffinitySelection where
  result : NativeCpuAffinitySelectionResult := .invalidTopology
  allowedMask : BitVec 64 := 0
  performanceMask : BitVec 64 := 0
  efficiencyClass : UInt8 := 0
  schedulingMask : BitVec 64 := 0
  schedulingClass : UInt8 := 0
  deriving DecidableEq

/-- The processor an entry is about. -/
def NativeCpuTopologyEntry.cpu (e : NativeCpuTopologyEntry) : ℕ := e.logical.toNat

/-- `uint64_t(1) << cpu`. -/
def bit (cpu : ℕ) : BitVec 64 := BitVec.twoPow 64 cpu

/-- What the first pass keeps: the classes of each processor, `-1` before its
first entry, and the highest and lowest efficiency class. -/
structure Scan where
  classes : ℕ → ℤ := fun _ => -1
  schedulingClasses : ℕ → UInt8 := fun _ => 0
  highest : ℤ := -1
  lowest : ℤ := 256

/-- The first pass at one entry; no result where it returns. -/
def Scan.step (group : UInt16) (systemMask : BitVec 64) (s : Scan) (e : NativeCpuTopologyEntry) :
    Option Scan :=
  if e.group ≠ group then some s
  else if 64 ≤ e.cpu then none
  else if systemMask &&& bit e.cpu = 0 then some s
  else if 0 ≤ s.classes e.cpu ∧ (s.classes e.cpu ≠ e.efficiencyClass.toNat ∨
      s.schedulingClasses e.cpu ≠ e.schedulingClass) then none
  else some
    { classes := Function.update s.classes e.cpu e.efficiencyClass.toNat
      schedulingClasses := Function.update s.schedulingClasses e.cpu e.schedulingClass
      highest := if s.highest < e.efficiencyClass.toNat then e.efficiencyClass.toNat else s.highest
      lowest := if e.efficiencyClass.toNat < s.lowest then e.efficiencyClass.toNat else s.lowest }

/-- The first pass. -/
def scan (entries : List NativeCpuTopologyEntry) (group : UInt16) (systemMask : BitVec 64) :
    Option Scan := entries.foldlM (Scan.step group systemMask) {}

/-- The second pass: the unreserved entries of the highest class. -/
def performancePass (entries : List NativeCpuTopologyEntry) (group : UInt16) (highest : ℤ) :
    BitVec 64 :=
  entries.foldl (fun mask e =>
    if e.group = group ∧ e.cpu < 64 ∧ e.reservedForOther = false ∧
      (e.efficiencyClass.toNat : ℤ) = highest then mask ||| bit e.cpu else mask) 0

/-- The third pass at one entry: `scheduling_class` and `scheduling_mask`. -/
def schedulingStep (group : UInt16) (performanceMask : BitVec 64) (out : UInt8 × BitVec 64)
    (e : NativeCpuTopologyEntry) : UInt8 × BitVec 64 :=
  if e.group ≠ group ∨ 64 ≤ e.cpu ∨ e.reservedForOther = true ∨ performanceMask &&& bit e.cpu = 0 then
    out
  else
    let out := if out.1 < e.schedulingClass then (e.schedulingClass, 0) else out
    if e.schedulingClass = out.1 then (out.1, out.2 ||| bit e.cpu) else out

/-- The third pass: the best scheduling class and its processors. -/
def schedulingPass (entries : List NativeCpuTopologyEntry) (group : UInt16)
    (performanceMask : BitVec 64) : UInt8 × BitVec 64 :=
  entries.foldl (schedulingStep group performanceMask) (0, 0)

/-- `SelectNativePerformanceAffinity`. -/
def selectNativePerformanceAffinity (entries : List NativeCpuTopologyEntry) (group : UInt16)
    (originalMask processMask systemMask : BitVec 64) : NativeCpuAffinitySelection :=
  if group ≠ 0 then { result := .unsupportedGroup }
  else
    let allowed := originalMask &&& processMask &&& systemMask
    if allowed = 0 then { result := .emptyAllowedMask, allowedMask := allowed }
    else
      match scan entries group systemMask with
      | none => { allowedMask := allowed }
      | some s =>
          if s.highest < 0 then { allowedMask := allowed }
          else if s.highest = s.lowest then { result := .homogeneousTopology, allowedMask := allowed }
          else
            let performance := performancePass entries group s.highest &&& allowed
            let scheduling := schedulingPass entries group performance
            { result := if performance ≠ 0 then .ready else .noAllowedPerformanceCore
              allowedMask := allowed
              performanceMask := performance
              efficiencyClass := UInt8.ofNat s.highest.toNat
              schedulingMask := scheduling.2
              schedulingClass := scheduling.1 }

/-- `NativeCpuPlacement`. -/
structure NativeCpuPlacement where
  valid : Bool := false
  setIdeal : Bool := false
  mask : BitVec 64 := 0
  idealCpu : ℕ := 0
  deriving DecidableEq

/-- `SelectNativeCpuPlacement`.  The two loops stop at the first processor of the
mask, from below in mode 3 and from above in modes 1 and 2. -/
def selectNativeCpuPlacement (selection : NativeCpuAffinitySelection) (mode : BitVec 32) :
    NativeCpuPlacement :=
  if 7 < mode ∨ selection.result ≠ .ready ∨ selection.performanceMask = 0 ∨
      selection.performanceMask &&& ~~~selection.allowedMask ≠ 0 then {}
  else
    let selected := if mode &&& 4 ≠ 0 then selection.schedulingMask else selection.performanceMask
    if selected = 0 ∨ selected &&& ~~~selection.performanceMask ≠ 0 then {}
    else
      let mode := mode &&& 3
      if mode = 0 then { valid := true, mask := selected }
      else
        let order := if mode = 3 then List.range 64 else (List.range 64).reverse
        let ideal := (order.find? fun cpu => selected &&& bit cpu ≠ 0).getD 0
        { valid := true
          setIdeal := true
          mask := if 2 ≤ mode then bit ideal else selected
          idealCpu := ideal }

/-! ### Lists without contradictions -/

/-- The mask of a processor has its one bit. -/
theorem getLsbD_bit {cpu i : ℕ} (h : cpu < 64) : (bit cpu).getLsbD i = decide (cpu = i) := by
  rw [bit, getLsbD_twoPow_of_lt h]
  exact decide_eq_decide.2 eq_comm

/-- `mask & bit` is nonzero for the processors of the mask. -/
theorem and_bit_eq_zero {mask : BitVec 64} {cpu : ℕ} (h : cpu < 64) :
    mask &&& bit cpu = 0 ↔ mask.getLsbD cpu = false := and_twoPow_eq_zero h

/-- An entry of the group about a processor of the mask. -/
def Within (group : UInt16) (mask : BitVec 64) (e : NativeCpuTopologyEntry) : Prop :=
  e.group = group ∧ mask.getLsbD e.cpu = true

/-- The lists the first pass accepts: processor numbers of the group fit the
mask, and entries about one processor of the system agree on its classes. -/
structure Coherent (group : UInt16) (systemMask : BitVec 64) (entries : List NativeCpuTopologyEntry) :
    Prop where
  cpu_lt : ∀ e ∈ entries, e.group = group → e.cpu < 64
  agree : ∀ e ∈ entries, ∀ e' ∈ entries, Within group systemMask e → Within group systemMask e' →
    e.cpu = e'.cpu → e.efficiencyClass = e'.efficiencyClass ∧ e.schedulingClass = e'.schedulingClass

/-- Fewer entries of the topology are coherent when more of them are. -/
theorem Coherent.mono {group : UInt16} {systemMask : BitVec 64}
    {entries entries' : List NativeCpuTopologyEntry} (h : Coherent group systemMask entries')
    (hsub : ∀ e ∈ entries, e ∈ entries') : Coherent group systemMask entries :=
  ⟨fun e he => h.cpu_lt e (hsub e he), fun e he e' he' => h.agree e (hsub e he) e' (hsub e' he')⟩

/-- What the first pass has after some entries. -/
structure Scanned (group : UInt16) (systemMask : BitVec 64) (entries : List NativeCpuTopologyEntry)
    (s : Scan) : Prop where
  coherent : Coherent group systemMask entries
  classes : ∀ e ∈ entries, Within group systemMask e →
    s.classes e.cpu = e.efficiencyClass.toNat ∧ s.schedulingClasses e.cpu = e.schedulingClass
  classified : ∀ cpu, 0 ≤ s.classes cpu → ∃ e ∈ entries, Within group systemMask e ∧ e.cpu = cpu
  highest : IsPeak (-1) (fun e : NativeCpuTopologyEntry => (e.efficiencyClass.toNat : ℤ))
    (Within group systemMask) entries s.highest
  lowest : IsPeak (-256) (fun e : NativeCpuTopologyEntry => -(e.efficiencyClass.toNat : ℤ))
    (Within group systemMask) entries (-s.lowest)

/-- Before the scan nothing has been found. -/
theorem Scanned.nil (group : UInt16) (systemMask : BitVec 64) : Scanned group systemMask [] {} where
  coherent := ⟨fun e he => absurd he List.not_mem_nil, fun e he => absurd he List.not_mem_nil⟩
  classes e he := absurd he List.not_mem_nil
  classified cpu h := absurd (show (0 : ℤ) ≤ -1 from h) (by decide)
  highest := .nil
  lowest := .nil

variable {group : UInt16} {systemMask : BitVec 64} {entries : List NativeCpuTopologyEntry}
  {s : Scan} {e : NativeCpuTopologyEntry}

/-- An entry outside the group or the system mask changes nothing. -/
theorem Scanned.skip (h : Scanned group systemMask entries s) (hcpu : e.group = group → e.cpu < 64)
    (hout : ¬ Within group systemMask e) : Scanned group systemMask (entries ++ [e]) s where
  coherent := by
    refine ⟨fun e' he' => ?_, fun e₁ h₁ e₂ h₂ hw₁ hw₂ => ?_⟩
    · rcases List.mem_append.1 he' with he' | he'
      · exact h.coherent.cpu_lt e' he'
      · obtain rfl := List.mem_singleton.1 he'
        exact hcpu
    · rcases List.mem_append.1 h₁ with h₁ | h₁
      · rcases List.mem_append.1 h₂ with h₂ | h₂
        · exact h.coherent.agree e₁ h₁ e₂ h₂ hw₁ hw₂
        · exact absurd (List.mem_singleton.1 h₂ ▸ hw₂) hout
      · exact absurd (List.mem_singleton.1 h₁ ▸ hw₁) hout
  classes e' he' hw := by
    rcases List.mem_append.1 he' with he' | he'
    · exact h.classes e' he' hw
    · exact absurd (List.mem_singleton.1 he' ▸ hw) hout
  classified cpu hcpu := by
    obtain ⟨e', he', hrest⟩ := h.classified cpu hcpu
    exact ⟨e', List.mem_append_left _ he', hrest⟩
  highest := h.highest.skip hout
  lowest := h.lowest.skip hout

/-- An entry that agrees with what is known of its processor is recorded. -/
theorem Scanned.take (h : Scanned group systemMask entries s) (hin : Within group systemMask e)
    (hagree : 0 ≤ s.classes e.cpu → s.classes e.cpu = e.efficiencyClass.toNat ∧
      s.schedulingClasses e.cpu = e.schedulingClass) :
    Scanned group systemMask (entries ++ [e])
      { classes := Function.update s.classes e.cpu e.efficiencyClass.toNat
        schedulingClasses := Function.update s.schedulingClasses e.cpu e.schedulingClass
        highest := if s.highest < e.efficiencyClass.toNat then e.efficiencyClass.toNat else s.highest
        lowest := if e.efficiencyClass.toNat < s.lowest then e.efficiencyClass.toNat else s.lowest } := by
  -- an earlier entry about the same processor has the classes of the new one
  have hsame : ∀ e' ∈ entries, Within group systemMask e' → e'.cpu = e.cpu →
      e'.efficiencyClass = e.efficiencyClass ∧ e'.schedulingClass = e.schedulingClass := by
    intro e' he' hw hcpu
    obtain ⟨hclass, hsched⟩ := h.classes e' he' hw
    rw [hcpu] at hclass hsched
    obtain ⟨hc, hs⟩ := hagree (by omega)
    rw [hc] at hclass
    exact ⟨UInt8.toNat_inj.1 (by omega), hsched ▸ hs⟩
  refine ⟨⟨fun e' he' => ?_, fun e₁ h₁ e₂ h₂ hw₁ hw₂ hcpu => ?_⟩, fun e' he' hw => ?_, fun cpu hcpu => ?_,
    h.highest.take hin, ?_⟩
  · rcases List.mem_append.1 he' with he' | he'
    · exact h.coherent.cpu_lt e' he'
    · obtain rfl := List.mem_singleton.1 he'
      exact fun _ => lt_of_getLsbD hin.2
  · rcases List.mem_append.1 h₁ with hold₁ | hnew₁ <;> rcases List.mem_append.1 h₂ with hold₂ | hnew₂
    · exact h.coherent.agree e₁ hold₁ e₂ hold₂ hw₁ hw₂ hcpu
    · obtain rfl := List.mem_singleton.1 hnew₂
      exact hsame e₁ hold₁ hw₁ hcpu
    · obtain rfl := List.mem_singleton.1 hnew₁
      exact (hsame e₂ hold₂ hw₂ hcpu.symm).imp Eq.symm Eq.symm
    · rw [List.mem_singleton.1 hnew₁, List.mem_singleton.1 hnew₂]
      exact ⟨rfl, rfl⟩
  · dsimp only
    by_cases hcpu : e'.cpu = e.cpu
    · rw [hcpu, Function.update_self, Function.update_self]
      rcases List.mem_append.1 he' with he' | he'
      · obtain ⟨hc, hs⟩ := hsame e' he' hw hcpu
        exact ⟨by rw [hc], hs.symm⟩
      · rw [List.mem_singleton.1 he']
        exact ⟨rfl, rfl⟩
    · rw [Function.update_of_ne hcpu, Function.update_of_ne hcpu]
      rcases List.mem_append.1 he' with he' | he'
      · exact h.classes e' he' hw
      · exact absurd (congrArg _ (List.mem_singleton.1 he')) hcpu
  · by_cases heq : cpu = e.cpu
    · exact ⟨e, List.mem_append_right _ (List.mem_singleton_self e), hin, heq.symm⟩
    · dsimp only at hcpu
      rw [Function.update_of_ne heq] at hcpu
      obtain ⟨e', he', hrest⟩ := h.classified cpu hcpu
      exact ⟨e', List.mem_append_left _ he', hrest⟩
  · have hlow := h.lowest.take hin
    rwa [show -(if (e.efficiencyClass.toNat : ℤ) < s.lowest then (e.efficiencyClass.toNat : ℤ)
        else s.lowest) = if -s.lowest < -(e.efficiencyClass.toNat : ℤ) then
          -(e.efficiencyClass.toNat : ℤ) else -s.lowest by split <;> split <;> omega]

/-- One entry of the topology: it is recorded, passed over, or contradicts what was recorded before. -/
theorem Scanned.step (h : Scanned group systemMask entries s) (e : NativeCpuTopologyEntry) :
    match s.step group systemMask e with
    | none => ¬ Coherent group systemMask (entries ++ [e])
    | some s' => Scanned group systemMask (entries ++ [e]) s' := by
  have hmem : e ∈ entries ++ [e] := List.mem_append_right _ (List.mem_singleton_self e)
  rw [Scan.step]
  by_cases hgroup : e.group = group
  · rw [if_neg (not_not.2 hgroup)]
    by_cases hcpu : 64 ≤ e.cpu
    · rw [if_pos hcpu]
      exact fun hc => absurd (hc.cpu_lt e hmem hgroup) (not_lt.2 hcpu)
    · rw [if_neg hcpu]
      have hlt := not_le.1 hcpu
      by_cases hbit : systemMask &&& bit e.cpu = 0
      · rw [if_pos hbit]
        refine h.skip (fun _ => hlt) fun hw => ?_
        exact Bool.false_ne_true (((and_bit_eq_zero hlt).1 hbit).symm.trans hw.2)
      · rw [if_neg hbit]
        have hin : Within group systemMask e :=
          ⟨hgroup, by rwa [and_bit_eq_zero hlt, Bool.not_eq_false] at hbit⟩
        split
        · rename_i hnone
          split at hnone
          · rename_i hconflict
            -- the contradiction is with the entry that classified the processor
            obtain ⟨e', he', hw, hsame⟩ := h.classified e.cpu hconflict.1
            intro hc
            obtain ⟨hclass, hsched⟩ := hc.agree e' (List.mem_append_left _ he') e hmem hw hin hsame
            obtain ⟨hclass', hsched'⟩ := h.classes e' he' hw
            rw [hsame] at hclass' hsched'
            rw [hclass', hsched', hclass, hsched] at hconflict
            exact hconflict.2.elim (fun h => h rfl) fun h => h rfl
          · exact absurd hnone (Option.some_ne_none _)
        · rename_i s' hsome
          split at hsome
          · exact absurd hsome.symm (Option.some_ne_none s')
          · rename_i hok
            obtain rfl := Option.some_inj.1 hsome
            exact h.take hin fun hle => by
              by_contra hne
              exact hok ⟨hle, not_and_or.1 hne⟩
  · rw [if_pos hgroup]
    exact h.skip (fun hg => absurd hg hgroup) fun hw => hgroup hw.1

/-- The first pass, by induction on the entries from the end: it accepts the
coherent lists. -/
theorem scan_spec (entries : List NativeCpuTopologyEntry) (group : UInt16) (systemMask : BitVec 64) :
    match scan entries group systemMask with
    | none => ¬ Coherent group systemMask entries
    | some s => Scanned group systemMask entries s := by
  induction entries using List.reverseRecOn with
  | nil => exact .nil group systemMask
  | append_singleton entries e ih =>
      have hstep : scan (entries ++ [e]) group systemMask =
          (scan entries group systemMask).bind fun s => s.step group systemMask e := by
        rw [scan, List.foldlM_append]
        exact bind_congr fun s => bind_pure _
      rw [hstep]
      cases hs : scan entries group systemMask with
      | none =>
          rw [hs] at ih
          exact fun hc => ih (hc.mono fun e' he' => List.mem_append_left _ he')
      | some s =>
          rw [hs] at ih
          exact Scanned.step ih e

/-! ### The masks of the other passes -/

/-- An unreserved entry of the group. -/
def Free (group : UInt16) (e : NativeCpuTopologyEntry) : Prop :=
  e.group = group ∧ e.cpu < 64 ∧ e.reservedForOther = false

/-- The second pass holds the processors with an unreserved entry of the class. -/
theorem performancePass_spec (entries : List NativeCpuTopologyEntry) (group : UInt16) (highest : ℤ)
    (i : ℕ) :
    (performancePass entries group highest).getLsbD i = true ↔
      ∃ e ∈ entries, (Free group e ∧ (e.efficiencyClass.toNat : ℤ) = highest) ∧ e.cpu = i := by
  induction entries using List.reverseRecOn with
  | nil => simp [performancePass]
  | append_singleton entries e ih =>
      rw [performancePass, List.foldl_append, List.foldl_cons, List.foldl_nil, ← performancePass]
      have hsplit : (∃ e' ∈ entries ++ [e], (Free group e' ∧ (e'.efficiencyClass.toNat : ℤ) = highest) ∧
          e'.cpu = i) ↔ (performancePass entries group highest).getLsbD i = true ∨
            (Free group e ∧ (e.efficiencyClass.toNat : ℤ) = highest) ∧ e.cpu = i := by
        rw [ih]
        constructor
        · rintro ⟨e', he', hrest⟩
          rcases List.mem_append.1 he' with he' | he'
          · exact .inl ⟨e', he', hrest⟩
          · exact .inr (List.mem_singleton.1 he' ▸ hrest)
        · rintro (⟨e', he', hrest⟩ | hrest)
          · exact ⟨e', List.mem_append_left _ he', hrest⟩
          · exact ⟨e, List.mem_append_right _ (List.mem_singleton_self e), hrest⟩
      rw [hsplit]
      by_cases hcond : e.group = group ∧ e.cpu < 64 ∧ e.reservedForOther = false ∧
          (e.efficiencyClass.toNat : ℤ) = highest
      · rw [if_pos hcond, BitVec.getLsbD_or, getLsbD_bit hcond.2.1, Bool.or_eq_true, decide_eq_true_eq]
        refine or_congr_right (and_iff_right ?_).symm
        exact ⟨⟨hcond.1, hcond.2.1, hcond.2.2.1⟩, hcond.2.2.2⟩
      · rw [if_neg hcond]
        refine (or_iff_left fun h => hcond ?_).symm
        exact ⟨h.1.1.1, h.1.1.2.1, h.1.1.2.2, h.1.2⟩

/-- An entry the third pass looks at. -/
def Chosen (group : UInt16) (performanceMask : BitVec 64) (e : NativeCpuTopologyEntry) : Prop :=
  Free group e ∧ performanceMask.getLsbD e.cpu = true

/-- The third pass ends with the best class of the chosen entries, and the
processors with a chosen entry of that class. -/
structure Scheduled (group : UInt16) (performanceMask : BitVec 64)
    (entries : List NativeCpuTopologyEntry) (out : UInt8 × BitVec 64) : Prop where
  best : IsPeak 0 (fun e : NativeCpuTopologyEntry => e.schedulingClass.toNat)
    (Chosen group performanceMask) entries out.1.toNat
  mask : ∀ i, out.2.getLsbD i = true ↔
    ∃ e ∈ entries, Chosen group performanceMask e ∧ e.schedulingClass = out.1 ∧ e.cpu = i

/-- One entry of the third pass: passed over, better than all before, as good or
worse. -/
theorem Scheduled.step {performanceMask : BitVec 64} {out : UInt8 × BitVec 64}
    (h : Scheduled group performanceMask entries out) (e : NativeCpuTopologyEntry) :
    Scheduled group performanceMask (entries ++ [e]) (schedulingStep group performanceMask out e) := by
  have hself : e ∈ entries ++ [e] := List.mem_append_right _ (List.mem_singleton_self e)
  rw [schedulingStep]
  by_cases hskip : e.group ≠ group ∨ 64 ≤ e.cpu ∨ e.reservedForOther = true ∨
      performanceMask &&& bit e.cpu = 0
  · rw [if_pos hskip]
    have hout : ¬ Chosen group performanceMask e := by
      rintro ⟨⟨hgroup, hcpu, hfree⟩, hbit⟩
      rcases hskip with hne | hge | hres | hzero
      · exact hne hgroup
      · exact absurd hcpu (not_lt.2 hge)
      · exact Bool.false_ne_true (hfree.symm.trans hres)
      · exact Bool.false_ne_true (((and_bit_eq_zero hcpu).1 hzero).symm.trans hbit)
    refine ⟨h.best.skip hout, fun i => (h.mask i).trans ⟨?_, ?_⟩⟩
    · rintro ⟨e', he', hrest⟩
      exact ⟨e', List.mem_append_left _ he', hrest⟩
    · rintro ⟨e', he', hc, hrest⟩
      rcases List.mem_append.1 he' with he' | he'
      · exact ⟨e', he', hc, hrest⟩
      · exact absurd (List.mem_singleton.1 he' ▸ hc) hout
  · rw [if_neg hskip]
    simp only [not_or, not_not, not_le, Bool.not_eq_true] at hskip
    obtain ⟨hgroup, hcpu, hfree, hbit⟩ := hskip
    have hin : Chosen group performanceMask e :=
      ⟨⟨hgroup, hcpu, hfree⟩, by rwa [and_bit_eq_zero hcpu, Bool.not_eq_false] at hbit⟩
    have htake := h.best.take hin
    by_cases hlt : out.1 < e.schedulingClass
    · dsimp only
      rw [if_pos hlt, if_pos rfl]
      rw [if_pos (UInt8.lt_iff_toNat_lt.1 hlt)] at htake
      refine ⟨htake, fun i => ?_⟩
      change (0#64 ||| bit e.cpu).getLsbD i = true ↔ _
      rw [BitVec.zero_or, getLsbD_bit hcpu, decide_eq_true_eq]
      constructor
      · exact fun hi => ⟨e, hself, hin, rfl, hi⟩
      · rintro ⟨e', he', hc, hclass, hi⟩
        rcases List.mem_append.1 he' with he' | he'
        · have hle := h.best.key_le e' he' hc
          rw [hclass] at hle
          exact absurd (UInt8.lt_iff_toNat_lt.1 hlt) (not_lt.2 hle)
        · exact List.mem_singleton.1 he' ▸ hi
    · rw [if_neg (fun h => hlt (UInt8.lt_iff_toNat_lt.2 h))] at htake
      dsimp only
      rw [if_neg hlt]
      have hrest : ∀ i, (∃ e' ∈ entries ++ [e], Chosen group performanceMask e' ∧
          e'.schedulingClass = out.1 ∧ e'.cpu = i) ↔
            out.2.getLsbD i = true ∨ e.schedulingClass = out.1 ∧ e.cpu = i := by
        intro i
        rw [h.mask i]
        constructor
        · rintro ⟨e', he', hc, hmore⟩
          rcases List.mem_append.1 he' with he' | he'
          · exact .inl ⟨e', he', hc, hmore⟩
          · exact .inr (List.mem_singleton.1 he' ▸ hmore)
        · rintro (⟨e', he', hmore⟩ | hmore)
          · exact ⟨e', List.mem_append_left _ he', hmore⟩
          · exact ⟨e, hself, hin, hmore⟩
      by_cases heq : e.schedulingClass = out.1
      · rw [if_pos heq]
        refine ⟨htake, fun i => (hrest i).trans ?_ |>.symm⟩
        rw [BitVec.getLsbD_or, getLsbD_bit hcpu, Bool.or_eq_true, decide_eq_true_eq, and_iff_right heq]
      · rw [if_neg heq]
        refine ⟨htake, fun i => (hrest i).trans ?_ |>.symm⟩
        exact or_iff_left fun hc => heq hc.1

/-- The scheduling pass finds the lowest class and the processors that have it, inside the
performance mask. -/
theorem schedulingPass_spec (entries : List NativeCpuTopologyEntry) (group : UInt16)
    (performanceMask : BitVec 64) :
    Scheduled group performanceMask entries (schedulingPass entries group performanceMask) := by
  induction entries using List.reverseRecOn with
  | nil => exact ⟨.nil, fun i => by simp [schedulingPass]⟩
  | append_singleton entries e ih =>
      rw [schedulingPass, List.foldl_append, List.foldl_cons, List.foldl_nil, ← schedulingPass]
      exact ih.step e

/-! ### The order of the entries -/

section Order

variable {entries' : List NativeCpuTopologyEntry}

/-- The first pass hands on the same classes for the same entries. -/
theorem scan_congr (h : ∀ e, e ∈ entries ↔ e ∈ entries') (group : UInt16) (systemMask : BitVec 64) :
    (scan entries group systemMask).map (fun s => (s.highest, s.lowest)) =
      (scan entries' group systemMask).map fun s => (s.highest, s.lowest) := by
  have hspec := scan_spec entries group systemMask
  have hspec' := scan_spec entries' group systemMask
  cases hs : scan entries group systemMask with
  | none =>
      rw [hs] at hspec
      cases hs' : scan entries' group systemMask with
      | none => rfl
      | some s' =>
          rw [hs'] at hspec'
          exact absurd (hspec'.coherent.mono fun e => (h e).1) hspec
  | some s =>
      rw [hs] at hspec
      cases hs' : scan entries' group systemMask with
      | none =>
          rw [hs'] at hspec'
          exact absurd (hspec.coherent.mono fun e => (h e).2) hspec'
      | some s' =>
          rw [hs'] at hspec'
          have hhigh := hspec.highest.unique hspec'.highest h
          have hlow := hspec.lowest.unique hspec'.lowest h
          rw [Option.map_some, Option.map_some, hhigh, Int.neg_inj.1 hlow]

/-- The performance pass does not depend on the order of the entries. -/
theorem performancePass_congr (h : ∀ e, e ∈ entries ↔ e ∈ entries') (group : UInt16) (highest : ℤ) :
    performancePass entries group highest = performancePass entries' group highest := by
  refine BitVec.eq_of_getLsbD_eq fun i _ => Bool.eq_iff_iff.2 ?_
  rw [performancePass_spec, performancePass_spec]
  exact exists_congr fun e => and_congr_left' (h e)

/-- Nor does the scheduling pass depend on the order of the entries. -/
theorem schedulingPass_congr (h : ∀ e, e ∈ entries ↔ e ∈ entries') (group : UInt16)
    (performanceMask : BitVec 64) :
    schedulingPass entries group performanceMask = schedulingPass entries' group performanceMask := by
  have hspec := schedulingPass_spec entries group performanceMask
  have hspec' := schedulingPass_spec entries' group performanceMask
  have hclass := UInt8.toNat_inj.1 (hspec.best.unique hspec'.best h)
  refine Prod.ext hclass (BitVec.eq_of_getLsbD_eq fun i _ => Bool.eq_iff_iff.2 ?_)
  rw [hspec.mask, hspec'.mask, hclass]
  exact exists_congr fun e => and_congr_left' (h e)

/-- The selection depends on which entries are listed and on nothing else. -/
theorem selectNativePerformanceAffinity_congr (h : ∀ e, e ∈ entries ↔ e ∈ entries') (group : UInt16)
    (originalMask processMask systemMask : BitVec 64) :
    selectNativePerformanceAffinity entries group originalMask processMask systemMask =
      selectNativePerformanceAffinity entries' group originalMask processMask systemMask := by
  have hscan := scan_congr h group systemMask
  rw [selectNativePerformanceAffinity, selectNativePerformanceAffinity]
  cases hs : scan entries group systemMask with
  | none =>
      rw [hs] at hscan
      rw [Option.map_eq_none_iff.1 hscan.symm]
  | some s =>
      rw [hs] at hscan
      obtain ⟨s', hs', heq⟩ := Option.map_eq_some_iff.1 hscan.symm
      obtain ⟨hhigh, hlow⟩ := Prod.ext_iff.1 heq
      dsimp only at hhigh hlow
      rw [hs']
      dsimp only
      rw [hhigh, hlow, performancePass_congr h, schedulingPass_congr h]

end Order

/-! ### What a selection and a placement promise -/

/-- A selection that is ready, of some entries and masks. -/
structure Ready (entries : List NativeCpuTopologyEntry) (allowed systemMask : BitVec 64)
    (out : NativeCpuAffinitySelection) : Prop where
  nonempty : out.performanceMask ≠ 0
  subset : ∀ cpu, out.performanceMask.getLsbD cpu = true → allowed.getLsbD cpu = true
  highest : (∃ e ∈ entries, Within 0 systemMask e ∧ e.efficiencyClass = out.efficiencyClass) ∧
    ∀ e ∈ entries, Within 0 systemMask e → e.efficiencyClass ≤ out.efficiencyClass
  performance : ∀ cpu, out.performanceMask.getLsbD cpu = true ↔ allowed.getLsbD cpu = true ∧
    ∃ e ∈ entries, e.group = 0 ∧ e.cpu = cpu ∧ e.reservedForOther = false ∧
      e.efficiencyClass = out.efficiencyClass
  best : (∃ e ∈ entries, Within 0 out.performanceMask e ∧ e.schedulingClass = out.schedulingClass) ∧
    ∀ e ∈ entries, Within 0 out.performanceMask e → e.schedulingClass ≤ out.schedulingClass
  scheduling : ∀ cpu, out.schedulingMask.getLsbD cpu = true ↔
    out.performanceMask.getLsbD cpu = true ∧
      ∃ e ∈ entries, e.group = 0 ∧ e.cpu = cpu ∧ e.schedulingClass = out.schedulingClass

/-- What is selected when the list is coherent and has a processor to select. -/
theorem Scanned.ready {allowed : BitVec 64} {out : NativeCpuAffinitySelection}
    (h : Scanned 0 systemMask entries s)
    (hsub : ∀ cpu, allowed.getLsbD cpu = true → systemMask.getLsbD cpu = true)
    (hhigh : 0 ≤ s.highest) (hclass : out.efficiencyClass = UInt8.ofNat s.highest.toNat)
    (hperformance : out.performanceMask = performancePass entries 0 s.highest &&& allowed)
    (hscheduling : (out.schedulingClass, out.schedulingMask) =
      schedulingPass entries 0 out.performanceMask)
    (hne : out.performanceMask ≠ 0) : Ready entries allowed systemMask out := by
  have hattained : ∃ e ∈ entries, Within 0 systemMask e ∧ (e.efficiencyClass.toNat : ℤ) = s.highest := by
    rcases h.highest.attained with hfloor | hex
    · omega
    · exact hex
  have hto : ∀ e : NativeCpuTopologyEntry, (e.efficiencyClass.toNat : ℤ) = s.highest ↔
      e.efficiencyClass = out.efficiencyClass := by
    intro e
    obtain ⟨e₀, -, -, he₀⟩ := hattained
    rw [hclass, ← he₀, Int.toNat_natCast, UInt8.ofNat_toNat]
    exact Int.natCast_inj.trans UInt8.toNat_inj
  have hperf : ∀ cpu, out.performanceMask.getLsbD cpu = true ↔ allowed.getLsbD cpu = true ∧
      ∃ e ∈ entries, e.group = 0 ∧ e.cpu = cpu ∧ e.reservedForOther = false ∧
        e.efficiencyClass = out.efficiencyClass := by
    intro cpu
    rw [hperformance, BitVec.getLsbD_and, Bool.and_eq_true, performancePass_spec, and_comm]
    refine and_congr_right fun hcpu => exists_congr fun e => and_congr_right fun _ => ?_
    rw [hto]
    constructor
    · rintro ⟨⟨⟨hgroup, -, hfree⟩, hc⟩, hcpu⟩
      exact ⟨hgroup, hcpu, hfree, hc⟩
    · rintro ⟨hgroup, rfl, hfree, hc⟩
      exact ⟨⟨⟨hgroup, lt_of_getLsbD hcpu, hfree⟩, hc⟩, rfl⟩
  -- entries about one selected processor agree on its scheduling class
  have hsame : ∀ e ∈ entries, ∀ e' ∈ entries, Within 0 out.performanceMask e → e'.group = 0 →
      e'.cpu = e.cpu → e'.schedulingClass = e.schedulingClass := by
    intro e he e' he' hw hgroup hcpu
    have hsys := hsub _ ((hperf e.cpu).1 hw.2).1
    exact (h.coherent.agree e' he' e he ⟨hgroup, hcpu ▸ hsys⟩ ⟨hw.1, hsys⟩ hcpu).2
  have hsched := schedulingPass_spec entries 0 out.performanceMask
  rw [← hscheduling] at hsched
  -- a selected processor has a chosen entry
  have hchosen : ∀ cpu, out.performanceMask.getLsbD cpu = true →
      ∃ e ∈ entries, Chosen 0 out.performanceMask e ∧ e.cpu = cpu := by
    intro cpu hcpu
    obtain ⟨e, he, hgroup, rfl, hfree, -⟩ := ((hperf cpu).1 hcpu).2
    exact ⟨e, he, ⟨⟨hgroup, lt_of_getLsbD hcpu, hfree⟩, hcpu⟩, rfl⟩
  constructor
  case nonempty => exact hne
  case subset => exact fun cpu hcpu => ((hperf cpu).1 hcpu).1
  case highest =>
    obtain ⟨e₀, he₀, hw₀, hc₀⟩ := hattained
    refine ⟨⟨e₀, he₀, hw₀, (hto e₀).1 hc₀⟩, fun e he hw => ?_⟩
    have hle : (e.efficiencyClass.toNat : ℤ) ≤ s.highest := h.highest.key_le e he hw
    rw [← (hto e₀).1 hc₀, UInt8.le_iff_toNat_le]
    omega
  case performance => exact hperf
  case best =>
    obtain ⟨cpu, hcpu⟩ := exists_getLsbD hne
    obtain ⟨e₀, he₀, hc₀, -⟩ := hchosen cpu hcpu
    obtain ⟨e, he, hc, hbest⟩ := hsched.best.exists_eq he₀ hc₀ (Nat.zero_le _)
    refine ⟨⟨e, he, ⟨hc.1.1, hc.2⟩, UInt8.toNat_inj.1 hbest⟩, fun e he hw => ?_⟩
    obtain ⟨e', he', hc', hcpu⟩ := hchosen e.cpu hw.2
    rw [← hsame e he e' he' hw hc'.1.1 hcpu, UInt8.le_iff_toNat_le]
    exact hsched.best.key_le e' he' hc'
  case scheduling =>
    intro cpu
    rw [hsched.mask]
    constructor
    · rintro ⟨e, he, hc, hclass, rfl⟩
      exact ⟨hc.2, e, he, hc.1.1, rfl, hclass⟩
    · rintro ⟨hcpu, e, he, hgroup, rfl, hclass⟩
      obtain ⟨e', he', hc', hcpu'⟩ := hchosen e.cpu hcpu
      exact ⟨e', he', hc', (hsame e he e' he' ⟨hgroup, hcpu⟩ hc'.1.1 hcpu').trans hclass, hcpu'⟩

/-- Nothing, or a mask of some of the selected processors with the ideal one
among them. -/
def Placed (selection : NativeCpuAffinitySelection) (out : NativeCpuPlacement) : Prop :=
  out = {} ∨ out.valid = true ∧ out.mask ≠ 0 ∧
    (∀ cpu, out.mask.getLsbD cpu = true → selection.performanceMask.getLsbD cpu = true) ∧
    (out.setIdeal = true → out.mask.getLsbD out.idealCpu = true)

/-- The loops find a processor of the mask, whichever end they start from. -/
theorem ideal_spec {mask : BitVec 64} (hne : mask ≠ 0) {order : List ℕ}
    (horder : ∀ cpu, cpu ∈ order ↔ cpu < 64) :
    ∃ cpu < 64, (order.find? fun cpu => mask &&& bit cpu ≠ 0).getD 0 = cpu ∧ mask.getLsbD cpu = true := by
  obtain ⟨cpu, hcpu⟩ := exists_getLsbD hne
  have hlt := lt_of_getLsbD hcpu
  cases hfind : order.find? fun cpu => mask &&& bit cpu ≠ 0 with
  | none =>
      have hzero := List.find?_eq_none.1 hfind cpu ((horder cpu).2 hlt)
      rw [decide_eq_true_eq, not_not, and_bit_eq_zero hlt, hcpu] at hzero
      exact absurd hzero.symm Bool.false_ne_true
  | some ideal =>
      have hmem := (horder ideal).1 (List.mem_of_find?_eq_some hfind)
      have hbit := List.find?_some hfind
      rw [decide_eq_true_eq, ne_eq, and_bit_eq_zero hmem, Bool.not_eq_false] at hbit
      exact ⟨ideal, hmem, rfl, hbit⟩

/-- Every mode places the threads as its description says. -/
theorem selectNativeCpuPlacement_placed (selection : NativeCpuAffinitySelection) (mode : BitVec 32) :
    Placed selection (selectNativeCpuPlacement selection mode) := by
  rw [selectNativeCpuPlacement]
  split
  · exact .inl rfl
  · dsimp only
    obtain ⟨selected, hselected⟩ : ∃ selected, (if mode &&& 4 ≠ 0 then selection.schedulingMask
      else selection.performanceMask) = selected := ⟨_, rfl⟩
    rw [hselected]
    split
    · exact .inl rfl
    · rename_i hok
      obtain ⟨hne, hsub⟩ := not_or.1 hok
      have hwithin : ∀ cpu, selected.getLsbD cpu = true → selection.performanceMask.getLsbD cpu = true :=
        fun cpu => getLsbD_of_and_not (not_not.1 hsub)
      refine .inr ?_
      split
      · exact ⟨rfl, hne, hwithin, fun h => absurd h Bool.false_ne_true⟩
      · have horder : ∀ cpu, cpu ∈ (if mode &&& 3 = 3 then List.range 64 else (List.range 64).reverse) ↔
            cpu < 64 := by
          intro cpu
          split <;> simp
        obtain ⟨ideal, hlt, hideal, hbit⟩ := ideal_spec hne horder
        rw [hideal]
        have hself : (bit ideal).getLsbD ideal = true := by
          rw [getLsbD_bit hlt, decide_eq_true rfl]
        refine ⟨rfl, ?_⟩
        dsimp only
        split
        · refine ⟨fun hzero => ?_, fun cpu hcpu => ?_, fun _ => hself⟩
          · rw [hzero] at hself
            exact Bool.false_ne_true (BitVec.getLsbD_zero.symm.trans hself)
          · rw [getLsbD_bit hlt, decide_eq_true_eq] at hcpu
            exact hcpu ▸ hwithin ideal hbit
        · exact ⟨hne, hwithin, fun _ => hbit⟩

/-- **Selection and placement.** The selection does not depend on the order of
the entries, whatever it results in; when it is ready its masks are the allowed
processors of the highest efficiency class and those among them of the best
scheduling class; and a placement, in any mode, is nothing or stays inside the
performance mask with its ideal processor in it. -/
theorem cpu_placement (entries : List NativeCpuTopologyEntry) (group : UInt16)
    (originalMask processMask systemMask : BitVec 64) :
    (∀ entries' : List NativeCpuTopologyEntry, entries.Perm entries' →
      selectNativePerformanceAffinity entries' group originalMask processMask systemMask =
        selectNativePerformanceAffinity entries group originalMask processMask systemMask) ∧
    ((selectNativePerformanceAffinity entries group originalMask processMask systemMask).result = .ready →
      group = 0 ∧ Ready entries (originalMask &&& processMask &&& systemMask) systemMask
        (selectNativePerformanceAffinity entries group originalMask processMask systemMask)) ∧
    ∀ (selection : NativeCpuAffinitySelection) (mode : BitVec 32),
      Placed selection (selectNativeCpuPlacement selection mode) := by
  refine ⟨fun entries' hperm => ?_, fun hready => ?_, selectNativeCpuPlacement_placed⟩
  · exact selectNativePerformanceAffinity_congr (fun e => hperm.symm.mem_iff) ..
  · have hspec := scan_spec entries group systemMask
    rw [selectNativePerformanceAffinity] at hready ⊢
    by_cases hgroup : group = 0
    · subst hgroup
      rw [if_neg (not_not.2 rfl)] at hready ⊢
      refine ⟨rfl, ?_⟩
      dsimp only at hready ⊢
      split at hready
      · cases hready
      · rename_i hallowed
        rw [if_neg hallowed]
        cases hs : scan entries 0 systemMask with
        | none =>
            rw [hs] at hready
            cases hready
        | some s =>
            rw [hs] at hready hspec
            dsimp only at hready ⊢
            split at hready
            · cases hready
            · rename_i hhigh
              rw [if_neg hhigh]
              split at hready
              · cases hready
              · rename_i hdiffer
                rw [if_neg hdiffer]
                split at hready
                · rename_i hne
                  refine hspec.ready (fun cpu hcpu => ?_) (not_lt.1 hhigh) rfl rfl rfl hne
                  rw [BitVec.getLsbD_and, Bool.and_eq_true] at hcpu
                  exact hcpu.2
                · cases hready
    · rw [if_pos hgroup] at hready
      cases hready

/-- Two slow and two fast processors, one of the fast ones listed twice. -/
def fourCores : List NativeCpuTopologyEntry :=
  [⟨0, 0, 0, false, 0⟩, ⟨0, 1, 0, false, 0⟩, ⟨0, 2, 1, false, 3⟩, ⟨0, 3, 1, false, 5⟩, ⟨0, 2, 1, true, 3⟩]

/-- The hypotheses are satisfiable: of four cores the fast ones are 2 and 3, and 3 has the better
scheduling class. -/
theorem cpu_placement_fourCores :
    selectNativePerformanceAffinity fourCores.reverse 0 15 15 15 =
        selectNativePerformanceAffinity fourCores 0 15 15 15 ∧
      (selectNativePerformanceAffinity fourCores 0 15 15 15).performanceMask = 12 ∧
      (selectNativePerformanceAffinity fourCores 0 15 15 15).schedulingMask = 8 ∧
      Ready fourCores 15 15 (selectNativePerformanceAffinity fourCores 0 15 15 15) :=
  ⟨(cpu_placement fourCores 0 15 15 15).1 _ fourCores.reverse_perm.symm, by decide +kernel,
    by decide +kernel, ((cpu_placement fourCores 0 15 15 15).2.1 (by decide +kernel)).2⟩

end CpuAffinity
end BoltsRebuilt
