/-
# The packet of pixel constants

`src/gpu/native/native_constant_reuse.h`: `NativePixelConstantPacket::Build`
(lines 26-62); `native_constant_layout.h`: `NativeConstantRegisters` (line 78);
`native_geometry_pass.cpp`: the `empty_ps` of a draw (lines 987-989).

The packet is a header of 192 bytes and then the float constants.  `build`
copies them run by run and refuses runs whose total is not the packed count the
shader was loaded with, so the packet has no byte that was not written.

`packedConstants_exact` puts the three parts together: the shader translator
numbers the registers, the sidecar carries the runs as text, the runtime copies
them, and each register stands where the shader reads it.
-/

import BoltsRebuilt.Constants.Layout
import Mathlib.Data.Vector.Basic

namespace BoltsRebuilt
namespace Constants

open Spans

def kBoolBytes : ℕ := 32
def kSlotBytes : ℕ := 80
def kHeaderBytes : ℕ := kBoolBytes + 2 * kSlotBytes

/-- The bytes of the 256 float constants, four floats each. -/
abbrev FloatSource := List.Vector UInt8 (16 * 256)

/-- The arguments of `Build`; a pointer that may be null is an `Option`. -/
structure PacketArgs where
  bools : Option (List.Vector UInt8 kBoolBytes)
  swizzles : Option (List.Vector UInt8 kSlotBytes)
  samplers : Option (List.Vector UInt8 kSlotBytes)
  source : Option FloatSource
  runs : List Run
  packed : ℕ
  explicitEmpty : Bool

/-- `NativeConstantRegisters`: no packed count means all 256, unless the layout
says that there are none. -/
def nativeConstantRegisters (packed : ℕ) (explicitEmpty : Bool) : ℕ :=
  if packed ≠ 0 then packed else if explicitEmpty then 0 else 256

/-- The check of the runs against `registers`, with the total so far. -/
def checkRuns (registers : ℕ) : ℕ → List Run → Option ℕ
  | total, [] => some total
  | total, r :: rs =>
      if 256 < r.first ∨ 256 - r.first < r.count ∨ registers < total ∨ registers - total < r.count
      then none
      else checkRuns registers (total + r.count) rs

/-- The float bytes: nothing for an empty layout, zeros without a source, the
first registers without runs, otherwise the runs back to back. -/
def floatBytes (source : Option FloatSource) (runs : List Run) (registers : ℕ) : List UInt8 :=
  if registers = 0 then []
  else
    match source with
    | none => List.replicate (16 * registers) 0
    | some s =>
        if runs = [] then s.toList.take (16 * registers)
        else runs.flatMap fun r => (s.toList.drop (16 * r.first)).take (16 * r.count)

/-- The header: the booleans, zeros without them, and the two slot tables. -/
def headerBytes (bools : Option (List.Vector UInt8 kBoolBytes))
    (swizzles samplers : List.Vector UInt8 kSlotBytes) : List UInt8 :=
  (match bools with
    | some bools => bools.toList
    | none => List.replicate kBoolBytes 0) ++ swizzles.toList ++ samplers.toList

/-- `Build`: the bytes of the packet, or nothing when it refuses. -/
def build (a : PacketArgs) : Option (List UInt8) :=
  if a.explicitEmpty ∧ (a.packed ≠ 0 ∨ a.runs ≠ []) then none
  else
    let registers := nativeConstantRegisters a.packed a.explicitEmpty
    match a.swizzles, a.samplers with
    | some swizzles, some samplers =>
        if 256 < registers then none
        else if a.source.isSome ∧ a.runs ≠ [] ∧ checkRuns registers 0 a.runs ≠ some registers then
          none
        else
          some (headerBytes a.bools swizzles samplers ++ floatBytes a.source a.runs registers)
    | _, _ => none

/-- `empty_ps`: the layout says that the shader reads no constant and both the
setting and the shader's buffer allow to upload none. -/
def explicitEmpty (allowed : Bool) (l : Layout) : Bool :=
  allowed && l.hasPackedLayout && l.packedRegisters == 0

/-- The register of the shader's buffer that the translated body names for the
guest's register `c`. -/
def slotOf (constMap : Option (ℕ → Option ℕ)) (c : ℕ) : Option ℕ :=
  match constMap with
  | none => some c
  | some mapping => mapping c

/-- The float bytes of a packet. -/
def packetFloats (packet : List UInt8) : List UInt8 := packet.drop kHeaderBytes

/-! ### Copying runs -/

/-- Runs inside the registers pass the check of the packet. -/
theorem checkRuns_ofSpan {runs : List Span} (hle : ∀ s ∈ runs, s.1 ≤ s.2)
    (hlt : ∀ s ∈ runs, s.2 < 256) {registers total : ℕ}
    (htotal : total + (runs.map Span.size).sum ≤ registers) :
    checkRuns registers total (runs.map .ofSpan) = some (total + (runs.map Span.size).sum) := by
  induction runs generalizing total with
  | nil => rfl
  | cons s rest ih =>
      rw [List.forall_mem_cons] at hle hlt
      rw [List.map_cons, List.sum_cons] at htotal
      have hfit : ¬ (256 < s.1 ∨ 256 - s.1 < Span.size s ∨ registers < total ∨
          registers - total < Span.size s) := by
        have hsize : Span.size s ≤ 256 - s.1 := by rw [Span.size]; omega
        omega
      rw [List.map_cons, checkRuns, Run.ofSpan, if_neg hfit, ih hle.2 hlt.2 (by simp only; omega)]
      simp [Nat.add_assoc]

/-- The runs back to back are their registers back to back. -/
theorem floatBytes_ofSpan (source : FloatSource) {runs : List Span} (hne : runs ≠ [])
    {registers : ℕ} (hreg : registers ≠ 0) :
    floatBytes (some source) (runs.map .ofSpan) registers =
      (cells runs).flatMap (block 16 source.toList) := by
  rw [floatBytes, if_neg hreg]
  simp only [List.map_eq_nil_iff, if_neg hne]
  rw [List.flatMap_map, cells, List.flatMap_assoc]
  simp only [Run.ofSpan, take_drop_eq_flatMap_block]
  rfl

/-- The floats of a packet are what follows its header. -/
theorem packetFloats_append (bools : Option (List.Vector UInt8 kBoolBytes))
    (swizzles samplers : List.Vector UInt8 kSlotBytes) (floats : List UInt8) :
    packetFloats (headerBytes bools swizzles samplers ++ floats) = floats := by
  refine List.drop_left' ?_
  cases bools <;>
    simp only [headerBytes, List.length_append, List.Vector.toList_length, List.length_replicate,
      kHeaderBytes] <;> omega

/-- Runs that are there have at least one register between them. -/
theorem length_cells_ne_zero {runs : List Span} (hsep : Separated runs) (hne : runs ≠ []) :
    (cells runs).length ≠ 0 := by
  obtain ⟨s, rest, rfl⟩ := List.exists_cons_of_ne_nil hne
  have := hsep.nonempty s (List.mem_cons_self ..)
  rw [cells_cons, List.length_append, Span.length_cells, Span.size]
  omega

/-- A draw with the runs and the packed count of separated spans below 256
builds its packet. -/
theorem build_ofSpan (bools : Option (List.Vector UInt8 kBoolBytes))
    (swizzles samplers : List.Vector UInt8 kSlotBytes) (source : FloatSource) {runs : List Span}
    (hsep : Separated runs) (hlt : ∀ s ∈ runs, s.2 < 256) {empty : Bool}
    (hempty : empty = true → runs = []) :
    build ⟨bools, some swizzles, some samplers, some source, runs.map .ofSpan,
        (cells runs).length, empty⟩ =
      some (headerBytes bools swizzles samplers ++ floatBytes (some source) (runs.map .ofSpan)
        (nativeConstantRegisters (cells runs).length empty)) := by
  have htotal : (cells runs).length ≤ 256 := hsep.length_cells_le hlt
  rcases eq_or_ne runs [] with rfl | hne
  · rw [build, if_neg (by simp)]
    have hregisters : ¬ 256 < nativeConstantRegisters (cells []).length empty := by
      cases empty <;> simp [nativeConstantRegisters]
    simp only [if_neg hregisters, List.map_nil, ne_eq, not_true, false_and, and_false, if_false]
  · have hregisters : nativeConstantRegisters (cells runs).length empty = (cells runs).length := by
      rw [nativeConstantRegisters, if_pos (length_cells_ne_zero hsep hne)]
    have hcheck : checkRuns (cells runs).length 0 (runs.map .ofSpan) = some (cells runs).length := by
      rw [length_cells] at htotal ⊢
      rw [checkRuns_ofSpan hsep.nonempty hlt (by omega), Nat.zero_add]
    rw [build, if_neg fun h => hne (hempty h.1)]
    simp only [hregisters]
    rw [if_neg (by omega), if_neg fun h => h.2.2 hcheck]

/-! ### End to end -/

/-- The runs of a shader: at most eight, separated, below 256. -/
theorem packedConstantMap_runs (noPack constAll : Bool) {constUsed : Finset ℕ}
    (hused : ∀ c ∈ constUsed, c < 256) :
    Separated (packedConstantMap noPack constUsed constAll).2 ∧
      (∀ s ∈ (packedConstantMap noPack constUsed constAll).2, s.2 < 256) ∧
      (packedConstantMap noPack constUsed constAll).2.length ≤ 8 := by
  rw [packedConstantMap]
  split
  · exact ⟨⟨by simp, by simp⟩, by simp, by simp⟩
  · rename_i hpack
    obtain rfl : constAll = false := by
      cases constAll with
      | false => rfl
      | true => simp at hpack
    obtain ⟨hruns, hlen⟩ := constantRuns_spec constUsed (show 1 ≤ 8 by omega) 8
    exact ⟨hruns.separated, fun s hs => hused _ (hruns.ends s hs).2, hlen⟩

/-- The shader names a register by its place among those of the runs. -/
theorem slotOf_packedConstantMap (noPack constAll : Bool) {constUsed : Finset ℕ} {c : ℕ}
    (hc : c ∈ constUsed ∨ (packedConstantMap noPack constUsed constAll).1 = none) (hlt : c < 256) :
    ∃ slot, slotOf (packedConstantMap noPack constUsed constAll).1 c = some slot ∧
      (cells (packedConstantMap noPack constUsed constAll).2)[slot]? = some c := by
  rw [packedConstantMap] at hc ⊢
  split
  · refine ⟨c, rfl, ?_⟩
    simp [cells, Span.cells, Span.size, hlt]
  · rename_i hpack
    obtain rfl : constAll = false := by
      cases constAll with
      | false => rfl
      | true => simp at hpack
    obtain ⟨hruns, -⟩ := constantRuns_spec constUsed (show 1 ≤ 8 by omega) 8
    rw [if_neg hpack] at hc
    have hmem : c ∈ cells (constantRuns constUsed false 8 8) :=
      mem_cells.2 (hruns.covers c (hc.resolve_right (Option.some_ne_none _)))
    obtain ⟨slot, hslot⟩ := List.mem_iff_getElem?.1 hmem
    exact ⟨slot, mapping_eq hruns.separated hslot, hslot⟩

/-- **Constant packing is exact.**  Take the registers a shader reads and the
runs the translator prints for them.  The runtime accepts the line, the runs are
at most eight with at most 256 registers, the packet of a draw is built, and for
every register the shader reads, outright or relative to `a0`, the 16 bytes
where the shader's body looks for it are the guest's. -/
theorem packedConstants_exact (noPack constAll allowed : Bool) (constUsed : Finset ℕ)
    (hused : ∀ c ∈ constUsed, c < 256) (l : Layout) (hl : l.hasPackedLayout = false)
    (bools : Option (List.Vector UInt8 kBoolBytes))
    (swizzles samplers : List.Vector UInt8 kSlotBytes) (source : FloatSource) :
    let constMap := (packedConstantMap noPack constUsed constAll).1
    let line := crunsText (packedConstantMap noPack constUsed constAll).2
    let layout := (l.setRuns line).2
    (l.setRuns line).1 = true ∧
      layout.runs.length ≤ 8 ∧
      (layout.runs.map Run.count).sum = layout.packedRegisters ∧
      layout.packedRegisters ≤ 256 ∧
      ∃ packet, build ⟨bools, some swizzles, some samplers, some source, layout.runs,
          layout.packedRegisters, explicitEmpty allowed layout⟩ = some packet ∧
        ∀ c < 256, c ∈ constUsed ∨ constMap = none → ∃ slot, slotOf constMap c = some slot ∧
          block 16 (packetFloats packet) slot = block 16 source.toList c := by
  intro constMap line layout
  obtain ⟨hsep, hlt, hlen⟩ := packedConstantMap_runs noPack constAll hused
  have hset := setRuns_crunsText hl hsep hlt
  have htotal := hsep.length_cells_le hlt
  have hlayout : layout = _ := congrArg Prod.snd hset
  have hempty : explicitEmpty allowed layout = true →
      (packedConstantMap noPack constUsed constAll).2 = [] := by
    intro h
    by_contra hne
    rw [hlayout] at h
    simp [explicitEmpty, length_cells_ne_zero hsep hne] at h
  refine ⟨congrArg Prod.fst hset, ?_, ?_, ?_, ?_⟩
  · rw [hlayout, List.length_map]
    exact hlen
  · rw [hlayout, length_cells, List.map_map]
    rfl
  · rw [hlayout]
    exact htotal
  · have hbuild := build_ofSpan bools swizzles samplers source hsep hlt hempty
    refine ⟨_, by rw [← hbuild, hlayout], fun c hc hnamed => ?_⟩
    obtain ⟨slot, hslot, hat⟩ := slotOf_packedConstantMap noPack constAll hnamed hc
    have hne : (packedConstantMap noPack constUsed constAll).2 ≠ [] := fun he => by
      simp [he] at hat
    have hregisters := length_cells_ne_zero hsep hne
    refine ⟨slot, hslot, ?_⟩
    rw [packetFloats_append, nativeConstantRegisters, if_pos hregisters,
      floatBytes_ofSpan source hne hregisters]
    refine blocks_at (fun c' hc' => length_block ?_) hat
    obtain ⟨s, hs, -, hle⟩ := mem_cells.1 hc'
    have := hlt s hs
    rw [List.Vector.toList_length]
    omega

/-- The hypotheses are satisfiable: a shader that reads `c3` and `c40` finds
`c40` in its packet. -/
theorem packedConstants_exact_c40 :
    let source : FloatSource := .ofFn fun i => UInt8.ofNat (i / 16)
    let map := packedConstantMap false {3, 40} false
    let layout := (({} : Layout).setRuns (crunsText map.2)).2
    ∃ packet slot, build ⟨none, some (.replicate _ 0), some (.replicate _ 0), some source,
        layout.runs, layout.packedRegisters, explicitEmpty true layout⟩ = some packet ∧
      slotOf map.1 40 = some slot ∧
      block 16 (packetFloats packet) slot = block 16 source.toList 40 := by
  obtain ⟨-, -, -, -, packet, hbuild, hslots⟩ :=
    packedConstants_exact false false true {3, 40} (by decide) {} rfl none (.replicate _ 0)
      (.replicate _ 0) (.ofFn fun i => UInt8.ofNat (i / 16))
  obtain ⟨slot, hslot, hblock⟩ := hslots 40 (by decide) (.inl (by decide))
  exact ⟨packet, slot, hbuild, hslot, hblock⟩

end Constants
end BoltsRebuilt
