/-
# What a pair reads

tools/ucode2hlsl.py: `emit_alu_pair` (lines 566-599).

"Both halves read the pre-write state", says the comment over the temporaries.  The
registers and `ps` are indeed written last.  The address register is not: `maxa` sets `a0`
before its own result and before the scalar half, `maxas` and `maxasf` before theirs.  So
an operand relative to `a0` reads too late when it is the second operand of a `maxa`, an
operand of a scalar issued with a `maxa`, or an operand of a `maxas` or `maxasf`.
`pair_reads_before_iff`: nothing else goes wrong, and each of these does, save a `maxa`
whose late components the scalar half stores over.

The halves as they should be are the same halves with their operands read in the state
before the pair (`VectorSrcs.at`, `ScalarSrcs.at`).
-/

import BoltsRebuilt.Ucode.AluPair

namespace BoltsRebuilt
namespace Ucode

variable {F : Type} (A : Alu F)

/-! ### The intended results -/

/-- The operands of a vector instruction with the values they have in one state. -/
def VectorSrcs.at (x : VectorSrcs F) (s : AluState F) : VectorSrcs F :=
  ⟨⟨x.a.text, fun _ => x.a.read s⟩, ⟨x.b.text, fun _ => x.b.read s⟩, ⟨x.c.text, fun _ => x.c.read s⟩⟩

/-- The operands of a scalar instruction with the values they have in one state. -/
def ScalarSrcs.at (x : ScalarSrcs F) (s : AluState F) : ScalarSrcs F :=
  ⟨⟨x.a.text, fun _ => x.a.read s⟩, ⟨x.b.text, fun _ => x.b.read s⟩, fun _ => x.ps s⟩

/-- The value of a vector half: its expression after its statements. -/
def vectorValue (stage : Stage) (form : VectorForm) (x : VectorSrcs F) (s : AluState F) : Fin 4 → F :=
  (vectorHalf A stage form x s).2 (vectorHalf A stage form x s).1

/-- The value of a scalar half. -/
def scalarValue (stage : Stage) (form : ScalarForm) (x : ScalarSrcs F) (s : AluState F) : F :=
  (scalarHalf A stage form x s).2 (scalarHalf A stage form x s).1

/-- The result of a vector instruction on the state before the pair. -/
def vectorResult (stage : Stage) (vec : VectorIns) (s : AluState F) : Fin 4 → F :=
  vectorValue A stage vec.form ((vec.srcs A).at s) s

/-- The result of a scalar instruction on the state before the pair. -/
def scalarResult (stage : Stage) (sca : ScalarIns) (s : AluState F) : F :=
  scalarValue A stage sca.form ((sca.srcs A).at s) s

/-- Whether a mask stores something into a component. -/
def stores (mask : Option (List Char)) (i : Fin 4) : Bool :=
  match (maskLetters mask)[i.val]? with
  | none => false
  | some ch => ch ≠ '_'

/-- Whether a mask stores the value into a component, not a `0` or a `1`. -/
def storesValue (mask : Option (List Char)) (i : Fin 4) : Bool :=
  match (maskLetters mask)[i.val]? with
  | none => false
  | some ch => ch ∉ ['_', '0', '1']

/-- **A pair that reads before it writes.**  The registers hold the vector result under its mask and the
scalar result under its own over it, what neither mask stores into is unchanged, and `ps` is the
scalar result. -/
structure ReadsBefore (stage : Stage) (vec : VectorIns) (sca : ScalarIns) (s : AluState F) : Prop where
  stored : (emitAluPair A stage vec sca s).regs =
    A.write sca.dest sca.mask (fun _ => A.saturated sca.sat (scalarResult A stage sca s))
      (A.write vec.dest vec.mask (fun i => A.saturated vec.sat (vectorResult A stage vec s i)) s.regs)
  unchanged : ∀ r i, ¬(r = vec.dest ∧ stores vec.mask i) → ¬(r = sca.dest ∧ stores sca.mask i) →
    (emitAluPair A stage vec sca s).regs r i = s.regs r i
  ps : (emitAluPair A stage vec sca s).ps = scalarResult A stage sca s

/-- Whether the expression of a scalar instruction names an operand relative to `a0`. -/
def ScalarIns.usesRelative (sca : ScalarIns) : Bool :=
  (0 < sca.form.arity && sca.a.operand.isRelative) || (1 < sca.form.arity && sca.b.operand.isRelative)

/-- Whether the scalar half sets `a0`. -/
def ScalarForm.setsAddress : ScalarForm → Bool
  | .maxAddr _ => true
  | _ => false

/-- No operand relative to `a0` is read after the pair has set it, except for components that the scalar
half stores over. -/
structure NoLateRead (vec : VectorIns) (sca : ScalarIns) : Prop where
  vector : vec.form = .maxa → vec.b.isRelative = true → ∀ i, storesValue vec.mask i = true →
    sca.dest = vec.dest ∧ stores sca.mask i = true
  scalar : vec.form = .maxa ∨ sca.form.setsAddress = true → sca.usesRelative = false

/-! ### What a half keeps -/

/-- The vector half computes its value before any register is written. -/
theorem vectorHalf_regs (stage : Stage) (form : VectorForm) (x : VectorSrcs F) (s : AluState F) :
    (vectorHalf A stage form x s).1.regs = s.regs := by
  cases form <;> rfl

/-- The vector half leaves the previous scalar result alone. -/
theorem vectorHalf_ps (stage : Stage) (form : VectorForm) (x : VectorSrcs F) (s : AluState F) :
    (vectorHalf A stage form x s).1.ps = s.ps := by
  cases form <;> rfl

/-- Only `maxa` sets the address register in the vector half. -/
theorem vectorHalf_a0 (stage : Stage) {form : VectorForm} (h : form ≠ .maxa) (x : VectorSrcs F)
    (s : AluState F) : (vectorHalf A stage form x s).1.a0 = s.a0 := by
  cases form <;> first | rfl | exact absurd rfl h

/-- The scalar half, too, computes its value before any register is written. -/
theorem scalarHalf_regs (stage : Stage) (form : ScalarForm) (x : ScalarSrcs F) (s : AluState F) :
    (scalarHalf A stage form x s).1.regs = s.regs := by
  cases form with
  | rcp variant => cases variant <;> rfl
  | rsq variant => cases variant <;> rfl
  | _ => rfl

/-- An operand depends on the registers, and on `a0` where it is relative. -/
theorem Operand.read_congr {m : Operand} {s t : AluState F} (hregs : t.regs = s.regs)
    (ha : m.isRelative = true → t.a0 = s.a0) (c : Fin 4) : m.read A t c = m.read A s c := by
  rcases m with ⟨neg, reg, swizzle⟩
  cases reg with
  | cRel n =>
      have h : t.a0 = s.a0 := ha rfl
      simp only [Operand.read, h]
  | _ => simp only [Operand.read, hregs]

/-! ### When a half reads -/

/-- Only the second operand of a `maxa` is read after a statement that changes what it names. -/
theorem vectorValue_eq (stage : Stage) (vec : VectorIns) (s : AluState F)
    (h : vec.form = .maxa → vec.b.isRelative = false) :
    vectorValue A stage vec.form (vec.srcs A) s = vectorResult A stage vec s := by
  rcases vec with ⟨form, a, b, c, dest, mask, sat⟩
  cases form with
  | maxa =>
      have hb : ∀ i, b.read A { s with a0 := A.address true ((a.vector A).read s 3) } i = b.read A s i :=
        Operand.read_congr A rfl fun hrel => by rw [h rfl] at hrel; cases hrel
      funext i
      simp only [vectorResult, vectorValue, vectorHalf, VectorSrcs.at, VectorIns.srcs, Operand.vector]
      exact congrArg _ (hb _)
  | _ => rfl

/-- The state after the vector half. -/
def afterVector (stage : Stage) (vec : VectorIns) (s : AluState F) : AluState F :=
  (vectorHalf A stage vec.form (vec.srcs A) s).1

/-- The state the expression of the scalar half reads its operands in, its predicate and its kills aside. -/
def scalarReadState (stage : Stage) (vec : VectorIns) (sca : ScalarIns) (s : AluState F) : AluState F :=
  let s := afterVector A stage vec s
  match sca.form with
  | .maxAddr rounded => { s with a0 := A.address rounded ((sca.a.scalar A).read s) }
  | _ => s

/-- The state the scalar operands are read from has the registers of the state before the pair. -/
theorem scalarReadState_regs (stage : Stage) (vec : VectorIns) (sca : ScalarIns) (s : AluState F) :
    (scalarReadState A stage vec sca s).regs = s.regs := by
  unfold scalarReadState
  dsimp only
  split <;> exact vectorHalf_regs A stage vec.form (vec.srcs A) s

/-- The state the scalar operands are read from has the previous scalar result of before the pair. -/
theorem scalarReadState_ps (stage : Stage) (vec : VectorIns) (sca : ScalarIns) (s : AluState F) :
    (scalarReadState A stage vec sca s).ps = s.ps := by
  unfold scalarReadState
  dsimp only
  split <;> exact vectorHalf_ps A stage vec.form (vec.srcs A) s

/-- Its address register is that of before, unless one of the halves has set it. -/
theorem scalarReadState_a0 (stage : Stage) {vec : VectorIns} {sca : ScalarIns}
    (hv : vec.form ≠ .maxa) (hs : sca.form.setsAddress = false) (s : AluState F) :
    (scalarReadState A stage vec sca s).a0 = s.a0 := by
  unfold scalarReadState
  dsimp only
  split
  · next rounded hform =>
      rw [hform] at hs
      exact absurd hs (by simp [ScalarForm.setsAddress])
  · exact vectorHalf_a0 A stage hv (vec.srcs A) s

/-- The scalar half is its operation on the operands read in `scalarReadState`. -/
theorem scalarValue_eq_at (stage : Stage) (vec : VectorIns) (sca : ScalarIns) (s : AluState F) :
    scalarValue A stage sca.form (sca.srcs A) (afterVector A stage vec s) =
      scalarValue A stage sca.form ((sca.srcs A).at (scalarReadState A stage vec sca s)) s := by
  rcases sca with ⟨form, a, b, dest, mask, sat⟩
  cases form with
  | rcp variant => cases variant <;> rfl
  | rsq variant => cases variant <;> rfl
  | _ => rfl

/-- A scalar operation depends on as many operands as its arity says, and on `ps`. -/
theorem scalarValue_at_congr (stage : Stage) (form : ScalarForm) (x : ScalarSrcs F) {u v : AluState F}
    (s : AluState F) (ha : 0 < form.arity → x.a.read u = x.a.read v)
    (hb : 1 < form.arity → x.b.read u = x.b.read v) (hps : x.ps u = x.ps v) :
    scalarValue A stage form (x.at u) s = scalarValue A stage form (x.at v) s := by
  have hat : ∀ w, scalarValue A stage form (x.at w) s = scalarValue A stage form
      ⟨⟨x.a.text, fun _ => x.a.read w⟩, ⟨x.b.text, fun _ => x.b.read w⟩, fun _ => x.ps w⟩ s :=
    fun _ => rfl
  rw [hat, hat, hps]
  cases form with
  | map2 | legacy | mulsPrev2 | maxAddr => rw [ha Nat.two_pos, hb Nat.one_lt_two]
  | setpClr | retainPrev => rfl
  | rcp variant => cases variant <;> (rw [ha Nat.one_pos]; rfl)
  | rsq variant => cases variant <;> (rw [ha Nat.one_pos]; rfl)
  | _ => rw [ha Nat.one_pos]; rfl

/-! ### What a pair stores -/

/-- After the pair, the previous scalar result is what its scalar half has computed. -/
theorem emitAluPair_ps (stage : Stage) (vec : VectorIns) (sca : ScalarIns) (s : AluState F) :
    (emitAluPair A stage vec sca s).ps =
      scalarValue A stage sca.form (sca.srcs A) (afterVector A stage vec s) :=
  rfl

/-- **What the pair writes**: the vector half's value first, then the scalar half's over it, each
through its mask and its clamp. -/
theorem emitAluPair_regs (stage : Stage) (vec : VectorIns) (sca : ScalarIns) (s : AluState F) :
    (emitAluPair A stage vec sca s).regs =
      A.write sca.dest sca.mask (fun _ => A.saturated sca.sat (emitAluPair A stage vec sca s).ps)
        (A.write vec.dest vec.mask
          (fun i => A.saturated vec.sat (vectorValue A stage vec.form (vec.srcs A) s i)) s.regs) := by
  have hregs : (scalarHalf A stage sca.form (sca.srcs A) (afterVector A stage vec s)).1.regs = s.regs :=
    (scalarHalf_regs A stage _ _ _).trans (vectorHalf_regs A stage _ _ _)
  rw [← hregs]
  rfl

/-- A component the mask leaves out keeps its old value. -/
theorem writeMasked_of_not_stores {mask : Option (List Char)} {i : Fin 4} (h : stores mask i = false)
    (old new : Fin 4 → F) : A.writeMasked mask old new i = old i := by
  unfold stores at h
  unfold Alu.writeMasked Alu.writeComponent
  cases hl : (maskLetters mask)[i.val]? with
  | none => rfl
  | some ch =>
      rw [hl] at h
      dsimp only
      rw [if_pos (by simpa using h)]

/-- A component that a mask stores into does not depend on what it held. -/
theorem writeMasked_of_stores {mask : Option (List Char)} {i : Fin 4} (h : stores mask i = true)
    (old old' new : Fin 4 → F) : A.writeMasked mask old new i = A.writeMasked mask old' new i := by
  unfold stores at h
  unfold Alu.writeMasked Alu.writeComponent
  cases hl : (maskLetters mask)[i.val]? with
  | none => rw [hl] at h; cases h
  | some ch =>
      rw [hl] at h
      have hch : ch ≠ '_' := by simpa using h
      dsimp only
      rw [if_neg hch, if_neg hch]

/-- A component that a mask does not store the value into does not depend on it. -/
theorem writeMasked_of_not_storesValue {mask : Option (List Char)} {i : Fin 4}
    (h : storesValue mask i = false) (old new new' : Fin 4 → F) :
    A.writeMasked mask old new i = A.writeMasked mask old new' i := by
  unfold storesValue at h
  unfold Alu.writeMasked Alu.writeComponent
  cases hl : (maskLetters mask)[i.val]? with
  | none => rfl
  | some ch =>
      rw [hl] at h
      have hch : ch = '_' ∨ ch = '0' ∨ ch = '1' := by simpa [or_iff_not_imp_left] using h
      rcases hch with rfl | rfl | rfl <;> rfl

/-- A component the mask names takes the new value. -/
theorem writeMasked_of_storesValue {mask : Option (List Char)} {i : Fin 4}
    (h : storesValue mask i = true) (old new : Fin 4 → F) : A.writeMasked mask old new i = new i := by
  unfold storesValue at h
  unfold Alu.writeMasked Alu.writeComponent
  cases hl : (maskLetters mask)[i.val]? with
  | none => rw [hl] at h; cases h
  | some ch =>
      rw [hl] at h
      have hch : ch ≠ '_' ∧ ch ≠ '0' ∧ ch ≠ '1' := by simpa using h
      dsimp only
      rw [if_neg hch.1, if_neg hch.2.1, if_neg hch.2.2]

/-- The destination takes the masked value. -/
theorem write_self (dest : Reg) (mask : Option (List Char)) (value : Fin 4 → F)
    (regs : Reg → Fin 4 → F) :
    A.write dest mask value regs dest = A.writeMasked mask (regs dest) value :=
  Function.update_self ..

/-- Every other register keeps its value. -/
theorem write_of_ne {dest r : Reg} (h : r ≠ dest) (mask : Option (List Char)) (value : Fin 4 → F)
    (regs : Reg → Fin 4 → F) : A.write dest mask value regs r = regs r :=
  Function.update_of_ne h ..

/-- What a mask does not store into is unchanged. -/
theorem write_unchanged {dest r : Reg} {mask : Option (List Char)} {i : Fin 4}
    (h : ¬(r = dest ∧ stores mask i = true)) (value : Fin 4 → F) (regs : Reg → Fin 4 → F) :
    A.write dest mask value regs r i = regs r i := by
  by_cases hr : r = dest
  · subst hr
    have hi : stores mask i = false := Bool.eq_false_iff.2 fun hi => h ⟨rfl, hi⟩
    rw [write_self, writeMasked_of_not_stores A hi]
  · rw [write_of_ne A hr]

/-- A component that neither half stores is unchanged by the pair. -/
theorem emitAluPair_unchanged (stage : Stage) (vec : VectorIns) (sca : ScalarIns) (s : AluState F)
    (r : Reg) (i : Fin 4) (hv : ¬(r = vec.dest ∧ stores vec.mask i = true))
    (hs : ¬(r = sca.dest ∧ stores sca.mask i = true)) :
    (emitAluPair A stage vec sca s).regs r i = s.regs r i := by
  rw [emitAluPair_regs, write_unchanged A hs, write_unchanged A hv]

/-- **Two stores, the second over the first.**  The first value counts only in the components where its
mask stores it and the second mask stores nothing. -/
theorem write_write_congr {dest₁ dest₂ : Reg} {mask₁ mask₂ : Option (List Char)} {v w : Fin 4 → F}
    (h : ∀ i, v i = w i ∨ storesValue mask₁ i = false ∨ (dest₂ = dest₁ ∧ stores mask₂ i = true))
    (u : Fin 4 → F) (regs : Reg → Fin 4 → F) :
    A.write dest₂ mask₂ u (A.write dest₁ mask₁ v regs) =
      A.write dest₂ mask₂ u (A.write dest₁ mask₁ w regs) := by
  funext r i
  have hfirst : v i = w i ∨ storesValue mask₁ i = false →
      A.write dest₁ mask₁ v regs r i = A.write dest₁ mask₁ w regs r i := by
    intro hi
    by_cases hr : r = dest₁
    · subst hr
      rw [write_self, write_self]
      rcases hi with hi | hi
      · simp only [Alu.writeMasked, hi]
      · exact writeMasked_of_not_storesValue A hi _ _ _
    · rw [write_of_ne A hr, write_of_ne A hr]
  by_cases hr : r = dest₂ ∧ stores mask₂ i = true
  · obtain ⟨rfl, hi⟩ := hr
    rw [write_self, write_self]
    exact writeMasked_of_stores A hi _ _ _
  · rw [write_unchanged A hr, write_unchanged A hr]
    rcases h i with hi | hi | ⟨rfl, hi⟩
    · exact hfirst (.inl hi)
    · exact hfirst (.inr hi)
    · by_cases hrd : r = dest₂
      · exact absurd ⟨hrd, hi⟩ hr
      · rw [write_of_ne A hrd, write_of_ne A hrd]

/-! ### Pairs that read before they write -/

/-- The value of the scalar half is its result on the state before the pair. -/
theorem scalarValue_eq {vec : VectorIns} {sca : ScalarIns} (h : NoLateRead vec sca) (stage : Stage)
    (s : AluState F) :
    scalarValue A stage sca.form (sca.srcs A) (afterVector A stage vec s) = scalarResult A stage sca s := by
  have hread : ∀ o : ScalarOperand, (o.operand.isRelative = true → sca.usesRelative = true) →
      (o.scalar A).read (scalarReadState A stage vec sca s) = (o.scalar A).read s := by
    intro o ho
    refine Operand.read_congr A (scalarReadState_regs A stage vec sca s) (fun hrel => ?_) _
    have hset : ¬(vec.form = .maxa ∨ sca.form.setsAddress = true) := fun hset => by
      have := h.scalar hset
      rw [ho hrel] at this
      cases this
    rw [not_or, Bool.not_eq_true] at hset
    exact scalarReadState_a0 A stage hset.1 hset.2 s
  rw [scalarValue_eq_at]
  refine scalarValue_at_congr A stage sca.form (sca.srcs A) s (fun ha => ?_) (fun hb => ?_)
    (scalarReadState_ps A stage vec sca s)
  · exact hread sca.a fun hrel => by simp [ScalarIns.usesRelative, ha, hrel]
  · exact hread sca.b fun hrel => by simp [ScalarIns.usesRelative, hb, hrel]

/-- A pair with no operand indexed by an address register the pair itself sets reads all of its
operands from the state before it. -/
theorem readsBefore_of_noLateRead {vec : VectorIns} {sca : ScalarIns} (h : NoLateRead vec sca)
    (stage : Stage) (s : AluState F) : ReadsBefore A stage vec sca s := by
  have hps := (emitAluPair_ps A stage vec sca s).trans (scalarValue_eq A h stage s)
  refine ⟨?_, emitAluPair_unchanged A stage vec sca s, hps⟩
  rw [emitAluPair_regs, hps]
  refine write_write_congr A (fun i => ?_) _ _
  by_cases hlate : vec.form = .maxa ∧ vec.b.isRelative = true
  · cases hi : storesValue vec.mask i with
    | false => exact .inr (.inl rfl)
    | true => exact .inr (.inr (h.vector hlate.1 hlate.2 i hi))
  · left
    rw [vectorValue_eq A stage vec s fun hform => Bool.eq_false_iff.2 fun hrel => hlate ⟨hform, hrel⟩]

/-! ### Pairs that do not

Whole numbers in which a value shows how it was made: registers and constants are even, a constant and the
next one differ modulo four, and every address is one. -/

/-- The machine the late reads are shown on, with the test its comparisons make of their first operand. -/
def probe (sel : ℤ → Bool) : Alu ℤ where
  consts n _ := 2 * n
  lit text := if text = "1.0" then 4 else if text = "0.0" then 0 else 1
  un name v := if name = "-" then -v else v
  bin _ x y := x + 2 * y
  cmp _ x _ := sel x
  test _ _ := false
  dot _ := 0
  cube v := v
  address _ _ := 1

def probeState : AluState ℤ := ⟨fun _ _ => 2, 0, 2, false, false⟩

/-- How far an operand moves when `a0` moves by one. -/
def probeStep (m : Operand) : ℤ := if m.isRelative then (if m.neg then -2 else 2) else 0

/-- The probe moves a constant's number only when the operand is relative. -/
theorem probeStep_eq_zero_iff (m : Operand) : probeStep m = 0 ↔ m.isRelative = false := by
  unfold probeStep
  cases m.isRelative <;> cases m.neg <;> simp

/-- And then by two, in the direction of its index. -/
theorem probeStep_cases (m : Operand) : probeStep m = 0 ∨ probeStep m = 2 ∨ probeStep m = -2 := by
  unfold probeStep
  cases m.isRelative <;> cases m.neg <;> simp

/-- Every value is even, and moves with `a0` by its step. -/
theorem probe_read (sel : ℤ → Bool) (m : Operand) (c : Fin 4) : ∃ k : ℤ,
    ∀ s : AluState ℤ, s.regs = probeState.regs → m.read (probe sel) s c = 2 * k + probeStep m * s.a0 := by
  rcases m with ⟨neg, reg, swizzle⟩
  have hpos : ∃ k : ℤ, ∀ s : AluState ℤ, s.regs = probeState.regs →
      (⟨false, reg, swizzle⟩ : Operand).read (probe sel) s c =
        2 * k + probeStep ⟨false, reg, swizzle⟩ * s.a0 := by
    cases reg with
    | cRel n =>
        refine ⟨n, fun s _ => ?_⟩
        simp only [Operand.read, probe, probeStep, Operand.isRelative]
        simp
        ring
    | c n | cAbs n =>
        refine ⟨n, fun s _ => ?_⟩
        simp [Operand.read, probe, probeStep, Operand.isRelative]
    | _ =>
        refine ⟨1, fun s hs => ?_⟩
        simp [Operand.read, probe, probeState, probeStep, Operand.isRelative, hs]
  cases neg with
  | false => exact hpos
  | true =>
      obtain ⟨k, hk⟩ := hpos
      refine ⟨-k, fun s hs => ?_⟩
      have hneg : (⟨true, reg, swizzle⟩ : Operand).read (probe sel) s c =
          -(⟨false, reg, swizzle⟩ : Operand).read (probe sel) s c := rfl
      have hstep : probeStep ⟨true, reg, swizzle⟩ = -probeStep ⟨false, reg, swizzle⟩ := by
        unfold probeStep
        cases reg <;> rfl
      rw [hneg, hstep, hk s hs]
      ring

/-- **A late operand shows in the value.**  The operands of a scalar operation read even numbers; where a
used one has moved by two, the value of the operation is another. -/
theorem probe_scalarValue_ne (stage : Stage) (form : ScalarForm) (x : ScalarSrcs ℤ)
    {u v s : AluState ℤ} {ka ea kb eb : ℤ}
    (hau : x.a.read u = 2 * ka + ea) (hav : x.a.read v = 2 * ka)
    (hbu : x.b.read u = 2 * kb + eb) (hbv : x.b.read v = 2 * kb)
    (hpu : x.ps u = 2) (hpv : x.ps v = 2)
    (hea : ea = 0 ∨ ea = 2 ∨ ea = -2) (heb : eb = 0 ∨ eb = 2 ∨ eb = -2)
    (hused : (0 < form.arity ∧ ea ≠ 0) ∨ (1 < form.arity ∧ eb ≠ 0)) :
    ∃ sel, scalarValue (probe sel) stage form (x.at u) s ≠ scalarValue (probe sel) stage form (x.at v) s := by
  have hone : form.arity = 1 → ea = 2 ∨ ea = -2 := fun h => by omega
  have hsum : ea ≠ 0 ∨ eb ≠ 0 := by omega
  cases form with
  | setpClr | retainPrev => simp [ScalarForm.arity] at hused
  | mulsPrev2 =>
      have hone' : "-" ++ fltMax ≠ "1.0" := by decide
      have hzero' : "-" ++ fltMax ≠ "0.0" := by decide
      by_cases hb0 : eb = 0
      -- the guard component is not late: a guard that never holds shows the product
      · have ha0 : ea ≠ 0 := hsum.resolve_right (not_not.2 hb0)
        refine ⟨fun _ => false, ?_⟩
        simp [scalarValue, scalarHalf, ScalarSrcs.at, probe, hau, hav, hpu, hpv]
        exact ha0
      -- the guard component is late: one of the two values is the odd sentinel
      · refine ⟨fun n => n % 4 = 0, ?_⟩
        simp [scalarValue, scalarHalf, ScalarSrcs.at, probe, hau, hav, hbu, hbv, hpu, hpv, hone', hzero']
        split <;> split <;> omega
  | maxAddr | map2 | legacy =>
      refine ⟨fun n => n % 4 = 0, ?_⟩
      simp only [scalarValue, scalarHalf, ScalarSrcs.at, probe, hau, hav, hbu, hbv]
      omega
  | rcp variant | rsq variant =>
      have ha := hone rfl
      refine ⟨fun n => n % 4 = 0, ?_⟩
      cases variant <;>
        simp [scalarValue, scalarHalf, ScalarSrcs.at, Alu.clampInfinite, probe, hau, hav] <;> omega
  | map1 name =>
      have ha := hone rfl
      refine ⟨fun n => n % 4 = 0, ?_⟩
      simp only [scalarValue, scalarHalf, ScalarSrcs.at, probe, hau, hav]
      split <;> omega
  | prev name =>
      have ha := hone rfl
      refine ⟨fun n => n % 4 = 0, ?_⟩
      simp only [scalarValue, scalarHalf, ScalarSrcs.at, probe, hau, hav, hpu, hpv]
      omega
  -- a comparison of the operand: it holds for just one of the two values
  | _ =>
      have ha := hone rfl
      refine ⟨fun n => n % 4 = 0, ?_⟩
      simp [scalarValue, scalarHalf, ScalarSrcs.at, Alu.bit, probe, hau, hav]
      split <;> split <;> omega

/-- The probe after the address has been set. -/
def probeLate : AluState ℤ := { probeState with a0 := 1 }

/-- In the probe state a pair that sets the address register sets it to one. -/
theorem probe_scalarReadState_a0 {stage : Stage} {vec : VectorIns} {sca : ScalarIns}
    (hset : vec.form = .maxa ∨ sca.form.setsAddress = true) (sel : ℤ → Bool) :
    (scalarReadState (probe sel) stage vec sca probeState).a0 = 1 := by
  unfold scalarReadState
  dsimp only
  split
  · rfl
  · next hform =>
      have hv : vec.form = .maxa := hset.resolve_right fun hs => by
        unfold ScalarForm.setsAddress at hs
        split at hs
        · next rounded hr => exact hform rounded hr
        · cases hs
      rw [afterVector, hv]
      rfl

/-- Every operand has the same value in all states with the registers and the address of `probeLate`. -/
theorem probe_scalarValue_eq {stage : Stage} {vec : VectorIns} {sca : ScalarIns}
    (hset : vec.form = .maxa ∨ sca.form.setsAddress = true) (sel : ℤ → Bool) :
    scalarValue (probe sel) stage sca.form (sca.srcs (probe sel))
        (afterVector (probe sel) stage vec probeState) =
      scalarValue (probe sel) stage sca.form ((sca.srcs (probe sel)).at probeLate) probeState := by
  let late := scalarReadState (probe sel) stage vec sca probeState
  have hregs : late.regs = probeLate.regs := scalarReadState_regs (probe sel) stage vec sca probeState
  have ha0 : late.a0 = probeLate.a0 := probe_scalarReadState_a0 hset sel
  have hread : ∀ o : ScalarOperand,
      (o.scalar (probe sel)).read late = (o.scalar (probe sel)).read probeLate := fun o =>
    Operand.read_congr (probe sel) hregs (fun _ => ha0) o.component
  rw [scalarValue_eq_at]
  exact scalarValue_at_congr (probe sel) stage sca.form (sca.srcs (probe sel)) probeState
    (fun _ => hread sca.a) (fun _ => hread sca.b)
    (scalarReadState_ps (probe sel) stage vec sca probeState)

/-- The value of an operand before and after the address is set. -/
theorem probe_read_late (sel : ℤ → Bool) (m : Operand) (c : Fin 4) : ∃ k : ℤ,
    m.read (probe sel) probeLate c = 2 * k + probeStep m ∧ m.read (probe sel) probeState c = 2 * k := by
  obtain ⟨k, hk⟩ := probe_read sel m c
  refine ⟨k, ?_, ?_⟩
  · rw [hk probeLate rfl, probeLate, mul_one]
  · rw [hk probeState rfl, probeState, mul_zero, add_zero]

/-- A late scalar operand makes `ps` wrong on some machine. -/
theorem usesRelative_of_readsBefore {stage : Stage} {vec : VectorIns} {sca : ScalarIns}
    (h : ∀ sel, ReadsBefore (probe sel) stage vec sca probeState)
    (hset : vec.form = .maxa ∨ sca.form.setsAddress = true) : sca.usesRelative = false := by
  by_contra hrel
  rw [Bool.not_eq_false] at hrel
  obtain ⟨ka, hau, hav⟩ := probe_read_late (fun _ => false) sca.a.operand sca.a.component
  obtain ⟨kb, hbu, hbv⟩ := probe_read_late (fun _ => false) sca.b.operand sca.b.component
  have hused : (0 < sca.form.arity ∧ probeStep sca.a.operand ≠ 0) ∨
      (1 < sca.form.arity ∧ probeStep sca.b.operand ≠ 0) := by
    simpa [ScalarIns.usesRelative, probeStep_eq_zero_iff] using hrel
  obtain ⟨sel, hne⟩ := @probe_scalarValue_ne stage sca.form (sca.srcs (probe fun _ => false))
    probeLate probeState probeState ka (probeStep sca.a.operand) kb (probeStep sca.b.operand)
    hau hav hbu hbv rfl rfl (probeStep_cases _) (probeStep_cases _) hused
  exact hne ((probe_scalarValue_eq hset sel).symm.trans (h sel).ps)

/-- A late second operand of a `maxa` makes a stored component wrong on some machine. -/
theorem stores_of_readsBefore {stage : Stage} {vec : VectorIns} {sca : ScalarIns}
    (h : ReadsBefore (probe fun _ => false) stage vec sca probeState) (hform : vec.form = .maxa)
    (hrel : vec.b.isRelative = true) {i : Fin 4} (hi : storesValue vec.mask i = true) :
    sca.dest = vec.dest ∧ stores sca.mask i = true := by
  by_contra hover
  let A := probe fun _ => false
  have hkept : ¬(vec.dest = sca.dest ∧ stores sca.mask i = true) := fun hc => hover ⟨hc.1.symm, hc.2⟩
  -- the component of the destination, as stored and as it should be
  have hstored := congrFun (congrFun h.stored vec.dest) i
  rw [emitAluPair_regs, write_unchanged A hkept, write_unchanged A hkept, write_self, write_self,
    writeMasked_of_storesValue A hi, writeMasked_of_storesValue A hi] at hstored
  have hsat : ∀ v : ℤ, A.saturated vec.sat v = v := fun v => by
    unfold Alu.saturated
    cases vec.sat <;> rfl
  rw [hsat, hsat] at hstored
  obtain ⟨k, hu, hv⟩ := probe_read_late (fun _ => false) vec.b (swizzleAt (vec.b.letters "xyzw".toList) i)
  have hstep : probeStep vec.b ≠ 0 := fun h0 => by
    rw [(probeStep_eq_zero_iff vec.b).1 h0] at hrel
    cases hrel
  rcases vec with ⟨form, a, b, c, dest, mask, sat⟩
  cases hform
  have hlate : ((a.vector A).read probeState i + 2 * (b.vector A).read probeLate i : ℤ) =
      (a.vector A).read probeState i + 2 * (b.vector A).read probeState i := hstored
  have hsame : (b.vector A).read probeLate i = (b.vector A).read probeState i := by omega
  exact hstep (by simpa using (hu.symm.trans hsame).trans hv)

/-- **When a pair reads before it writes.**  On every machine and in every state, exactly if no operand
relative to `a0` is read after the pair has set it, except for components the scalar half stores over. -/
theorem pair_reads_before_iff (stage : Stage) (vec : VectorIns) (sca : ScalarIns) :
    (∀ (F : Type) (A : Alu F) (s : AluState F), ReadsBefore A stage vec sca s) ↔ NoLateRead vec sca := by
  constructor
  · intro h
    constructor
    · intro hform hrel i hi
      exact stores_of_readsBefore (h ℤ (probe fun _ => false) probeState) hform hrel hi
    · exact usesRelative_of_readsBefore fun sel => h ℤ (probe sel) probeState
  · intro h F A s
    exact readsBefore_of_noLateRead A h stage s

/-- Whole numbers with the operations of the pair below. -/
def wholeNumbers : Alu ℤ where
  consts n _ := 10 * n
  lit _ := 0
  un name v := if name = "-" then -v else v
  bin name x y := if name = "+" then x + y else max x y
  cmp _ x y := x = y
  test _ _ := false
  dot terms := (terms.map fun p => p.1 * p.2).sum
  cube v := v
  address _ v := max (-256) (min 255 v)

def maxaIns : Instr := ⟨"maxa", false, some "r0", ["r1", "r2"], [], none, false⟩

def addsIns : Instr := ⟨"adds", false, some "r3.x___", ["c[5+a0].x", "r2.y"], [], none, true⟩

/-- **`maxa r0, r1, r2` with `adds r3.x___, c[5+a0].x, r2.y`.**  With two in every register and `a0` zero the
sum is that of `c5.x` and `r2.y`; the pair adds `c7.x`. -/
theorem pair_reads_late : ∃ vec sca, maxaIns.vectorIns = .ok vec ∧ addsIns.scalarIns = .ok sca ∧
    (emitAluPair wholeNumbers .vs vec sca probeState).ps = 72 ∧
      scalarResult wholeNumbers .vs sca probeState = 52 ∧
        ¬ReadsBefore wholeNumbers .vs vec sca probeState := by
  let vec : VectorIns :=
    ⟨.maxa, ⟨false, .r 1, none⟩, ⟨false, .r 2, none⟩, noOperand, .r 0, none, false⟩
  let sca : ScalarIns :=
    ⟨.map2 "+", ⟨⟨false, .cRel 5, some ['x']⟩, 0⟩, ⟨⟨false, .r 2, some ['y']⟩, 1⟩, .r 3,
      some ['x', '_', '_', '_'], false⟩
  have hps : (emitAluPair wholeNumbers .vs vec sca probeState).ps = 72 := by decide +kernel
  have hresult : scalarResult wholeNumbers .vs sca probeState = 52 := by decide +kernel
  refine ⟨vec, sca, by rfl, by rfl, hps, hresult, fun h => ?_⟩
  have hsame := h.ps
  rw [hps, hresult] at hsame
  exact absurd hsame (by decide)

end Ucode
end BoltsRebuilt
