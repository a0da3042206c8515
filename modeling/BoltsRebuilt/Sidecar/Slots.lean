/-
# What the translator records about a shader

`tools/ucode2hlsl.py`: the fields of `Translator` behind the sidecar (lines
208-230), `const`, `tex_slot` and `stream_slot` (lines 234-269), and the `meta`
of `translate_vs` and `translate_ps` (lines 984-1102).

A translator goes over a shader twice.  The first pass collects the constant
registers, which decide the runs; the second prints the body.  On the way it
calls a few helpers, in whatever order the shader's instructions ask for them:
those calls are the `Use`s here, and any list of them is a shader.  A texture
fetch is answered with the slot the body names, a vertex fetch with the index of
its stream.

`translator_names`: after the whole pass, the slot answered to a fetch is still
the place of that fetch constant and that dimension, because the lists only grow.
-/

import BoltsRebuilt.Constants.Packet
import BoltsRebuilt.Lib.Fallible
import BoltsRebuilt.Ucode.Interpolators

namespace BoltsRebuilt
namespace Sidecar

open Constants Fallible Spans
open Ucode (Stage Block interpolatorInputBound)

/-- The exceptions of these helpers. -/
inductive Error
  /-- `NotSupported`, with its text -/
  | notSupported (message : String)
  /-- a register `const_map` does not hold -/
  | keyError (index : ℕ)
  deriving DecidableEq, Repr

/-- The operations `emit_tfetch` takes. -/
inductive TexOp
  | tfetch2D
  | tfetch3D
  | tfetchCube
  deriving DecidableEq, Repr

/-- The dimension a texture fetch asks `tex_slot` for. -/
def TexOp.dimension : TexOp → ℕ
  | .tfetch2D => 2
  | .tfetch3D => 3
  | .tfetchCube => 4

/-- An entry of `streams`. -/
structure Stream where
  vf : ℤ
  stride : ℤ
  deriving DecidableEq, Repr

/-- The text of a stage in a message. -/
def stageText : Stage → String
  | .vs => "vs"
  | .ps => "ps"

/-- `slot_base`. -/
def slotBase : Stage → ℕ
  | .vs => 16
  | .ps => 0

/-- `slot_limit`. -/
def slotLimit : Stage → ℕ
  | .vs => 4
  | .ps => 16

/-- The fields of `Translator` that end up in the sidecar, and those the helpers
read. -/
structure Translator where
  stage : Stage
  constMap : Option (ℕ → Option ℕ)
  texSlots : List ℤ := []
  texDimensions : List ℕ := []
  exports : Finset ℕ := ∅
  streams : List Stream := []
  maxConst : ℤ := -1
  constUsed : Finset ℕ := ∅
  constAll : Bool := false
  kills : Bool := false
  writesDepth : Bool := false
  colorOutputs : Finset ℕ := ∅
  writesKill : Bool := false

/-- `const` of a number. -/
def Translator.const (t : Translator) (index : ℕ) : Except Error Translator :=
  let t' := { t with maxConst := max t.maxConst index, constUsed := insert index t.constUsed }
  match t.constMap with
  | none => .ok t'
  | some mapping => if (mapping index).isSome then .ok t' else .error (.keyError index)

/-- `const` of a number relative to `a0`. -/
def Translator.constRelative (t : Translator) : Translator :=
  { t with maxConst := 255, constAll := true }

/-- `tex_slot`. -/
def Translator.texSlot (t : Translator) (fc : ℤ) (dimension : ℕ) : Except Error (ℕ × Translator) :=
  match (t.texSlots.zip t.texDimensions).zipIdx.find? (fun key => key.1 = (fc, dimension)) with
  | some (_, index) => .ok (slotBase t.stage + index, t)
  | none =>
      if slotLimit t.stage ≤ t.texSlots.length then
        .error (.notSupported ("more than " ++ toString (slotLimit t.stage) ++
          " texture fetch constants in one " ++ stageText t.stage))
      else
        .ok (slotBase t.stage + t.texSlots.length,
          { t with
            texSlots := t.texSlots ++ [fc]
            texDimensions := t.texDimensions ++ [dimension] })

/-- `stream_slot`. -/
def Translator.streamSlot (t : Translator) (vf stride : ℤ) : Except Error (ℕ × Translator) :=
  if ¬(0 ≤ vf ∧ vf < 96) ∨ ¬(0 ≤ stride ∧ stride ≤ 255) then
    .error (.notSupported "vertex stream fetch constant or stride outside SDK bounds")
  else
    match t.streams.zipIdx.find? (fun s => s.1.vf = vf) with
    | some (s, i) =>
        if s.stride ≠ stride then
          .error (.notSupported ("stream vf" ++ toString vf ++ " fetched with two strides"))
        else .ok (i, t)
    | none =>
        if 16 ≤ t.streams.length then .error (.notSupported "more than 16 vertex streams")
        else .ok (t.streams.length, { t with streams := t.streams ++ [⟨vf, stride⟩] })

/-- What an instruction of the shader has the translator record. -/
inductive Use
  /-- a constant register -/
  | const (index : ℕ)
  /-- a constant register relative to `a0` -/
  | constRelative
  /-- a texture fetch -/
  | tfetch (op : TexOp) (fc : ℤ)
  /-- a `vfetch_full` -/
  | vfetch (vf stride : ℤ)
  /-- an export to an interpolator -/
  | exports (index : ℕ)
  /-- an export of `oPts.z` -/
  | writesKill
  /-- a kill instruction -/
  | kills
  /-- an export to a colour target -/
  | color (index : ℕ)
  /-- an export to `oDepth` -/
  | writesDepth
  deriving DecidableEq, Repr

/-- One use: the slot it is answered with, when it asks for one. -/
def Translator.step (t : Translator) : Use → Except Error (Option ℕ × Translator)
  | .const index => do
      let t ← t.const index
      return (none, t)
  | .constRelative => .ok (none, t.constRelative)
  | .tfetch op fc => do
      let (slot, t) ← t.texSlot fc op.dimension
      return (some slot, t)
  | .vfetch vf stride => do
      let (slot, t) ← t.streamSlot vf stride
      return (some slot, t)
  | .exports index => .ok (none, { t with exports := insert index t.exports })
  | .writesKill => .ok (none, { t with writesKill := true })
  | .kills => .ok (none, { t with kills := true })
  | .color index => .ok (none, { t with colorOutputs := insert index t.colorOutputs })
  | .writesDepth => .ok (none, { t with writesDepth := true })

/-- The uses of a shader in order, with their answers. -/
def Translator.run (t : Translator) : List Use → Except Error (List (Option ℕ) × Translator)
  | [] => .ok ([], t)
  | use :: uses => do
      let (slot, t) ← t.step use
      let (slots, t) ← t.run uses
      return (slot :: slots, t)

/-- What the sidecar has of one stage only. -/
inductive StageMeta
  | vs (streams : List Stream) (kill : ℕ)
  | ps (writesDepth kills colors : ℕ)
  deriving DecidableEq, Repr

/-- The `meta` dictionary. -/
structure Meta where
  interp : ℕ
  tex : List ℤ
  texdim : List ℕ
  consts : ℤ
  cruns : List Span
  stageMeta : StageMeta
  deriving DecidableEq, Repr

/-- Both passes: the answers of the second, what it recorded, and the runs. -/
def translateTwice (stage : Stage) (noPack : Bool) (uses : List Use) :
    Except Error (List (Option ℕ) × Translator × List Span) := do
  let (_, collect) ← Translator.run { stage, constMap := none } uses
  let (constMap, constRuns) := packedConstantMap noPack collect.constUsed collect.constAll
  let (slots, t) ← Translator.run { stage, constMap } uses
  return (slots, t, constRuns)

/-- `translate_vs`: the slots of the body and the meta. -/
def translateVs (noPack : Bool) (uses : List Use) : Except Error (List (Option ℕ) × Meta) := do
  let (slots, t, constRuns) ← translateTwice .vs noPack uses
  -- `max(exports) + 1`, zero without exports
  let written := t.exports.sup (· + 1)
  return (slots,
    { interp := min 16 (written + 1)
      tex := t.texSlots
      texdim := t.texDimensions
      consts := t.maxConst + 1
      cruns := constRuns
      stageMeta := .vs t.streams (if t.writesKill then 1 else 0) })

/-- `translate_ps`: the slots of the body and the meta. -/
def translatePs (noPack : Bool) (blocks : List Block) (uses : List Use) :
    Except Error (List (Option ℕ) × Meta) := do
  let (slots, t, constRuns) ← translateTwice .ps noPack uses
  return (slots,
    { interp := interpolatorInputBound blocks
      tex := t.texSlots
      texdim := t.texDimensions
      consts := t.maxConst + 1
      cruns := constRuns
      -- `colors` is target 0 alone when no target is written
      stageMeta := .ps (if t.writesDepth then 1 else 0) (if t.kills then 1 else 0)
        (max 1 (t.colorOutputs.sup (· + 1))) })

/-- The translation of one stage. -/
def translate (stage : Stage) (noPack : Bool) (blocks : List Block) (uses : List Use) :
    Except Error (List (Option ℕ) × Meta) :=
  match stage with
  | .vs => translateVs noPack uses
  | .ps => translatePs noPack blocks uses

/-! ### What a step does -/

/-- `tex_slot` finds the pair where it is or appends it. -/
theorem Translator.texSlot_cases {t t' : Translator} {fc : ℤ} {dimension slot : ℕ}
    (h : t.texSlot fc dimension = .ok (slot, t')) :
    (t' = t ∧ ∃ i, slot = slotBase t.stage + i ∧ t.texSlots[i]? = some fc ∧
      t.texDimensions[i]? = some dimension) ∨
    (t.texSlots.length < slotLimit t.stage ∧ slot = slotBase t.stage + t.texSlots.length ∧
      t' = { t with
        texSlots := t.texSlots ++ [fc]
        texDimensions := t.texDimensions ++ [dimension] }) := by
  rw [Translator.texSlot] at h
  split at h
  · rename_i key index hfind
    obtain ⟨rfl, rfl⟩ : _ = slot ∧ t = t' := by simpa using h
    have hkey : key = (fc, dimension) := by simpa using List.find?_some hfind
    have hat := List.mem_zipIdx_iff_getElem?.1 (List.mem_of_find?_eq_some hfind)
    subst hkey
    obtain ⟨hfc, hdim⟩ := List.getElem?_zip_eq_some.1 hat
    exact .inl ⟨rfl, index, rfl, hfc, hdim⟩
  · split at h
    · simp at h
    · rename_i hroom
      obtain ⟨rfl, rfl⟩ : _ = slot ∧ _ = t' := by simpa using h
      exact .inr ⟨by omega, rfl, rfl⟩

/-- `stream_slot` finds the stream where it is or appends it, in bounds. -/
theorem Translator.streamSlot_cases {t t' : Translator} {vf stride : ℤ} {slot : ℕ}
    (h : t.streamSlot vf stride = .ok (slot, t')) :
    (0 ≤ vf ∧ vf < 96) ∧ (0 ≤ stride ∧ stride ≤ 255) ∧
      ((t' = t ∧ t.streams[slot]? = some ⟨vf, stride⟩) ∨
        (t.streams.length < 16 ∧ slot = t.streams.length ∧
          t' = { t with streams := t.streams ++ [⟨vf, stride⟩] })) := by
  rw [Translator.streamSlot] at h
  split at h
  · simp at h
  · rename_i hbounds
    rw [not_or, not_not, not_not] at hbounds
    refine ⟨hbounds.1, hbounds.2, ?_⟩
    split at h
    · rename_i s i hfind
      split at h
      · simp at h
      · rename_i hstride
        obtain ⟨rfl, rfl⟩ : i = slot ∧ t = t' := by simpa using h
        have hvf : s.vf = vf := by simpa using List.find?_some hfind
        have hat := List.mem_zipIdx_iff_getElem?.1 (List.mem_of_find?_eq_some hfind)
        obtain rfl := not_not.1 hstride
        subst hvf
        exact .inl ⟨rfl, hat⟩
    · split at h
      · simp at h
      · rename_i hroom
        obtain ⟨rfl, rfl⟩ : _ = slot ∧ _ = t' := by simpa using h
        exact .inr ⟨by omega, rfl, rfl⟩

/-- `const` of a number records it: the largest so far, the set of those used. -/
theorem Translator.const_eq {t t' : Translator} {index : ℕ} (h : t.const index = .ok t') :
    t' = { t with maxConst := max t.maxConst index, constUsed := insert index t.constUsed } := by
  rw [Translator.const] at h
  split at h
  · exact (Except.ok.inj h).symm
  · split at h
    · exact (Except.ok.inj h).symm
    · simp at h

/-- What holds of the lists after any uses. -/
structure Translator.Inv (t : Translator) : Prop where
  sameLength : t.texSlots.length = t.texDimensions.length
  textureLimit : t.texSlots.length ≤ slotLimit t.stage
  dimensions : ∀ d ∈ t.texDimensions, d = 2 ∨ d = 3 ∨ d = 4
  streamLimit : t.streams.length ≤ 16
  streamBounds : ∀ s ∈ t.streams, (0 ≤ s.vf ∧ s.vf < 96) ∧ 0 ≤ s.stride ∧ s.stride ≤ 255
  noConst : t.constUsed = ∅ → t.constAll = false → t.maxConst = -1
  constLower : -1 ≤ t.maxConst
  constUpper : t.constAll = false → ∀ c ∈ t.constUsed, (c : ℤ) ≤ t.maxConst

/-- Before the first use there are no slots and no dimensions. -/
theorem Translator.Inv.start (stage : Stage) (constMap : Option (ℕ → Option ℕ)) :
    Translator.Inv { stage, constMap } where
  sameLength := rfl
  textureLimit := Nat.zero_le _
  dimensions := by simp
  streamLimit := by simp
  streamBounds := by simp
  noConst := fun _ _ => rfl
  constLower := le_rfl
  constUpper := by simp

/-- An operation's dimension is one of the three that are written. -/
theorem TexOp.dimension_mem (op : TexOp) :
    op.dimension = 2 ∨ op.dimension = 3 ∨ op.dimension = 4 := by
  cases op <;> simp [TexOp.dimension]

/-- The slot answered to a use is where the lists have it. -/
def Translator.Names (t : Translator) : Use → Option ℕ → Prop
  | .tfetch op fc, slot => ∃ i, slot = some (slotBase t.stage + i) ∧ t.texSlots[i]? = some fc ∧
      t.texDimensions[i]? = some op.dimension
  | .vfetch vf stride, slot => ∃ i, slot = some i ∧ t.streams[i]? = some ⟨vf, stride⟩
  | _, slot => slot = none

/-- The lists of `t'` go on those of `t`. -/
structure Translator.Grows (t t' : Translator) : Prop where
  stage : t'.stage = t.stage
  texSlots : t.texSlots <+: t'.texSlots
  texDimensions : t.texDimensions <+: t'.texDimensions
  streams : t.streams <+: t'.streams

/-- A translator that is left alone has grown by nothing. -/
theorem Translator.Grows.refl (t : Translator) : t.Grows t :=
  ⟨rfl, List.prefix_rfl, List.prefix_rfl, List.prefix_rfl⟩

/-- Growing twice is growing. -/
theorem Translator.Grows.trans {t₁ t₂ t₃ : Translator} (h : t₁.Grows t₂) (h' : t₂.Grows t₃) :
    t₁.Grows t₃ :=
  ⟨h'.stage.trans h.stage, h.texSlots.trans h'.texSlots, h.texDimensions.trans h'.texDimensions,
    h.streams.trans h'.streams⟩

/-- What stands in a list stands there in every longer one. -/
theorem getElem?_of_prefix {α : Type*} {l l' : List α} (h : l <+: l') {i : ℕ} {a : α}
    (ha : l[i]? = some a) : l'[i]? = some a := by
  obtain ⟨tail, rfl⟩ := h
  obtain ⟨hi, -⟩ := List.getElem?_eq_some_iff.1 ha
  rw [List.getElem?_append_left hi, ha]

/-- An answer stays right while the lists grow, since a slot once given is not given to another. -/
theorem Translator.Names.grows {t t' : Translator} {use : Use} {slot : Option ℕ}
    (h : t.Names use slot) (hg : t.Grows t') : t'.Names use slot := by
  cases use with
  | tfetch op fc =>
      obtain ⟨i, hslot, hfc, hdim⟩ := h
      refine ⟨i, ?_, getElem?_of_prefix hg.texSlots hfc, getElem?_of_prefix hg.texDimensions hdim⟩
      rw [hslot, hg.stage]
  | vfetch vf stride =>
      obtain ⟨i, hslot, hs⟩ := h
      exact ⟨i, hslot, getElem?_of_prefix hg.streams hs⟩
  | _ => exact h

/-- What a step does: the lists grow, the answer is right and the invariant stays. -/
theorem Translator.step_spec {t t' : Translator} {use : Use} {slot : Option ℕ} (hi : t.Inv)
    (h : t.step use = .ok (slot, t')) : t.Grows t' ∧ t'.Names use slot ∧ t'.Inv := by
  cases use with
  | const index =>
      obtain ⟨t₁, hc, h⟩ := bind_eq_ok.1 h
      obtain ⟨rfl, rfl⟩ : none = slot ∧ t₁ = t' := by simpa using Except.ok.inj h
      obtain rfl := Translator.const_eq hc
      refine ⟨⟨rfl, List.prefix_rfl, List.prefix_rfl, List.prefix_rfl⟩, rfl, { hi with
        noConst := fun he _ => absurd he (Finset.insert_ne_empty index t.constUsed)
        constLower := ?_
        constUpper := fun hall c hc => ?_ }⟩
      · have := hi.constLower
        show -1 ≤ max t.maxConst index
        omega
      · show (c : ℤ) ≤ max t.maxConst index
        rcases Finset.mem_insert.1 hc with rfl | hc
        · omega
        · have := hi.constUpper hall c hc
          omega
  | constRelative =>
      obtain ⟨rfl, rfl⟩ : none = slot ∧ t.constRelative = t' := by simpa [Translator.step] using h
      refine ⟨⟨rfl, List.prefix_rfl, List.prefix_rfl, List.prefix_rfl⟩, rfl, { hi with
        noConst := fun _ hall => ?_
        constLower := ?_
        constUpper := fun hall => ?_ }⟩
      · simp [Translator.constRelative] at hall
      · show (-1 : ℤ) ≤ 255
        omega
      · simp [Translator.constRelative] at hall
  | tfetch op fc =>
      obtain ⟨⟨k, t₁⟩, hc, h⟩ := bind_eq_ok.1 h
      obtain ⟨rfl, rfl⟩ : some k = slot ∧ t₁ = t' := by simpa using Except.ok.inj h
      rcases Translator.texSlot_cases hc with ⟨rfl, i, rfl, hfc, hdim⟩ | ⟨hroom, rfl, rfl⟩
      · exact ⟨.refl _, ⟨i, rfl, hfc, hdim⟩, hi⟩
      · refine ⟨⟨rfl, List.prefix_append .., List.prefix_append .., List.prefix_rfl⟩,
          ⟨t.texSlots.length, rfl, ?_, ?_⟩, { hi with
            sameLength := ?_
            textureLimit := ?_
            dimensions := ?_ }⟩
        · simp
        · simp [hi.sameLength]
        · simp [hi.sameLength]
        · rw [List.length_append, List.length_singleton]
          exact hroom
        · intro d hd
          rcases List.mem_append.1 hd with hd | hd
          · exact hi.dimensions d hd
          · exact List.mem_singleton.1 hd ▸ op.dimension_mem
  | vfetch vf stride =>
      obtain ⟨⟨k, t₁⟩, hc, h⟩ := bind_eq_ok.1 h
      obtain ⟨rfl, rfl⟩ : some k = slot ∧ t₁ = t' := by simpa using Except.ok.inj h
      obtain ⟨hvf, hstride, ⟨rfl, hat⟩ | ⟨hroom, rfl, rfl⟩⟩ := Translator.streamSlot_cases hc
      · exact ⟨.refl _, ⟨k, rfl, hat⟩, hi⟩
      · refine ⟨⟨rfl, List.prefix_rfl, List.prefix_rfl, List.prefix_append ..⟩,
          ⟨t.streams.length, rfl, by simp⟩, { hi with streamLimit := ?_, streamBounds := ?_ }⟩
        · rw [List.length_append, List.length_singleton]
          exact hroom
        · intro s hs
          rcases List.mem_append.1 hs with hs | hs
          · exact hi.streamBounds s hs
          · obtain rfl := List.mem_singleton.1 hs
            exact ⟨hvf, hstride⟩
  | _ =>
      obtain ⟨rfl, rfl⟩ : none = slot ∧ _ = t' := by simpa [Translator.step] using h
      exact ⟨⟨rfl, List.prefix_rfl, List.prefix_rfl, List.prefix_rfl⟩, rfl, { hi with }⟩

/-- **The slots of a whole pass.**  Every answer is right for the lists the pass
ends with. -/
theorem translator_names {t t' : Translator} {uses : List Use} {slots : List (Option ℕ)}
    (hi : t.Inv) (h : t.run uses = .ok (slots, t')) :
    t.Grows t' ∧ List.Forall₂ t'.Names uses slots ∧ t'.Inv := by
  induction uses generalizing t slots with
  | nil =>
      obtain ⟨rfl, rfl⟩ : [] = slots ∧ t = t' := by simpa [Translator.run] using h
      exact ⟨.refl _, .nil, hi⟩
  | cons use uses ih =>
      obtain ⟨⟨slot, t₁⟩, hstep, h⟩ := bind_eq_ok.1 h
      obtain ⟨⟨rest, t₂⟩, hrun, h⟩ := bind_eq_ok.1 h
      obtain ⟨rfl, rfl⟩ : slot :: rest = slots ∧ t₂ = t' := by simpa using Except.ok.inj h
      obtain ⟨hg, hn, hi₁⟩ := Translator.step_spec hi hstep
      obtain ⟨hg', hns, hi₂⟩ := ih hi₁ hrun
      exact ⟨hg.trans hg', .cons (hn.grows hg') hns, hi₂⟩

/-- Texture slots do not depend on the constant map. -/
theorem Translator.texSlot_constMap (t : Translator) (constMap : Option (ℕ → Option ℕ)) (fc : ℤ)
    (dimension : ℕ) : Translator.texSlot { t with constMap } fc dimension =
      (t.texSlot fc dimension).map fun p => (p.1, { p.2 with constMap }) := by
  simp only [Translator.texSlot]
  split
  · rfl
  · split <;> rfl

/-- Nor do stream slots. -/
theorem Translator.streamSlot_constMap (t : Translator) (constMap : Option (ℕ → Option ℕ))
    (vf stride : ℤ) : Translator.streamSlot { t with constMap } vf stride =
      (t.streamSlot vf stride).map fun p => (p.1, { p.2 with constMap }) := by
  simp only [Translator.streamSlot]
  split
  · rfl
  · split
    · split <;> rfl
    · split <;> rfl

/-- The constant map decides only whether a pass fails, not what it records. -/
theorem Translator.step_constMap {t t₁ t₂ : Translator} {use : Use} {slot₁ slot₂ : Option ℕ}
    {constMap : Option (ℕ → Option ℕ)} (h₁ : t.step use = .ok (slot₁, t₁))
    (h₂ : Translator.step { t with constMap } use = .ok (slot₂, t₂)) :
    t₂ = { t₁ with constMap } := by
  cases use with
  | const index =>
      obtain ⟨u₁, hc₁, h₁⟩ := bind_eq_ok.1 h₁
      obtain ⟨u₂, hc₂, h₂⟩ := bind_eq_ok.1 h₂
      rw [← (Prod.mk.inj (Except.ok.inj h₁)).2, ← (Prod.mk.inj (Except.ok.inj h₂)).2,
        Translator.const_eq hc₁, Translator.const_eq hc₂]
  | tfetch op fc =>
      obtain ⟨p₁, hc₁, h₁⟩ := bind_eq_ok.1 h₁
      obtain ⟨p₂, hc₂, h₂⟩ := bind_eq_ok.1 h₂
      rw [Translator.texSlot_constMap, hc₁] at hc₂
      rw [← (Prod.mk.inj (Except.ok.inj h₁)).2, ← (Prod.mk.inj (Except.ok.inj h₂)).2,
        ← Except.ok.inj hc₂]
  | vfetch vf stride =>
      obtain ⟨p₁, hc₁, h₁⟩ := bind_eq_ok.1 h₁
      obtain ⟨p₂, hc₂, h₂⟩ := bind_eq_ok.1 h₂
      rw [Translator.streamSlot_constMap, hc₁] at hc₂
      rw [← (Prod.mk.inj (Except.ok.inj h₁)).2, ← (Prod.mk.inj (Except.ok.inj h₂)).2,
        ← Except.ok.inj hc₂]
  | constRelative =>
      rw [← (Prod.mk.inj (Except.ok.inj h₁)).2, ← (Prod.mk.inj (Except.ok.inj h₂)).2]
      rfl
  | _ => rw [← (Prod.mk.inj (Except.ok.inj h₁)).2, ← (Prod.mk.inj (Except.ok.inj h₂)).2]

/-- So two passes over the same uses, with and without it, find the same slots. -/
theorem Translator.run_constMap {t t₁ t₂ : Translator} {uses : List Use}
    {slots₁ slots₂ : List (Option ℕ)} {constMap : Option (ℕ → Option ℕ)}
    (h₁ : t.run uses = .ok (slots₁, t₁))
    (h₂ : Translator.run { t with constMap } uses = .ok (slots₂, t₂)) :
    t₂ = { t₁ with constMap } := by
  induction uses generalizing t slots₁ slots₂ with
  | nil => rw [← (Prod.mk.inj (Except.ok.inj h₁)).2, ← (Prod.mk.inj (Except.ok.inj h₂)).2]
  | cons use uses ih =>
      obtain ⟨⟨a₁, u₁⟩, hs₁, h₁⟩ := bind_eq_ok.1 h₁
      obtain ⟨⟨a₂, u₂⟩, hs₂, h₂⟩ := bind_eq_ok.1 h₂
      obtain rfl := Translator.step_constMap hs₁ hs₂
      obtain ⟨⟨b₁, v₁⟩, hr₁, h₁⟩ := bind_eq_ok.1 h₁
      obtain ⟨⟨b₂, v₂⟩, hr₂, h₂⟩ := bind_eq_ok.1 h₂
      obtain ⟨-, rfl⟩ := Prod.mk.inj (Except.ok.inj h₁)
      obtain ⟨-, rfl⟩ := Prod.mk.inj (Except.ok.inj h₂)
      exact ih hr₁ hr₂

/-- Both passes record the same; the runs are those of the registers recorded. -/
theorem translateTwice_spec {stage : Stage} {noPack : Bool} {uses : List Use}
    {slots : List (Option ℕ)} {t : Translator} {constRuns : List Span}
    (h : translateTwice stage noPack uses = .ok (slots, t, constRuns)) :
    t.stage = stage ∧ t.Inv ∧ List.Forall₂ t.Names uses slots ∧
      constRuns = (packedConstantMap noPack t.constUsed t.constAll).2 := by
  obtain ⟨⟨slots₁, collect⟩, h₁, h⟩ := bind_eq_ok.1 h
  obtain ⟨⟨slots₂, t₂⟩, h₂, h⟩ : ∃ p : List (Option ℕ) × Translator,
      Translator.run { stage, constMap :=
        (packedConstantMap noPack collect.constUsed collect.constAll).1 } uses = .ok p ∧
      Except.ok (p.1, p.2, (packedConstantMap noPack collect.constUsed collect.constAll).2) =
        Except.ok (slots, t, constRuns) := bind_eq_ok.1 h
  obtain ⟨rfl, rfl, rfl⟩ : slots₂ = slots ∧ t₂ = t ∧
      (packedConstantMap noPack collect.constUsed collect.constAll).2 = constRuns := by
    simpa using Except.ok.inj h
  obtain ⟨hg, hn, hi⟩ := translator_names (.start ..) h₂
  have hcollect : t₂ = { collect with constMap := _ } := Translator.run_constMap h₁ h₂
  refine ⟨hg.stage, hi, hn, ?_⟩
  rw [hcollect]

end Sidecar
end BoltsRebuilt
