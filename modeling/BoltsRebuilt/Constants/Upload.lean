/-
# Writing the constants of a draw

src/src/gpu/native/native_geometry_pass.cpp, `upload_stage` (lines 1094-1226): which layouts
may go through memory of the pass (`complete_vertex_layout`) and the copies that fill a
packet; lines 1355-1368: the asset bindings and the copy of a staged packet.

A packet is written in place, piece by piece: into the slice of the upload pool, or into
memory of the pass that is copied to a slice as a whole.  What the pieces leave out keeps
what was there before, so the second way is right only for layouts whose pieces cover the
packet.  `fillVertex_load` and `fillPixel_load`: for the layouts that the checks let
through, the packet is a function of the draw, whatever the memory held, and for the pixel
stage it is the packet that `Build` makes.

A copy past the end of a slice, which an incomplete run list can ask for, stays in the
slice's own memory here.
-/

import BoltsRebuilt.Constants.Packet
import BoltsRebuilt.Lib.Bytes

namespace BoltsRebuilt
namespace Constants

def kExtraStreamBytes : ℕ := 14 * 16
def kAssetBindingBytes : ℕ := 17 * 16
def kVertexConstantHeaderBytes : ℕ := kHeaderBytes + kExtraStreamBytes + kAssetBindingBytes

/-- What both stages read, as a draw has it. -/
structure SharedConstants where
  bools : Option (List.Vector UInt8 kBoolBytes)
  swizzles : List.Vector UInt8 kSlotBytes
  samplers : List.Vector UInt8 kSlotBytes

/-- The float constants of a stage: the arguments of `upload_stage`. -/
structure StageConstants where
  source : Option FloatSource
  runs : List Run
  packed : ℕ
  explicitEmpty : Bool

def StageConstants.registers (a : StageConstants) : ℕ :=
  nativeConstantRegisters a.packed a.explicitEmpty

/-- The arguments of `Build` for the pixel stage of a draw. -/
def StageConstants.packetArgs (a : StageConstants) (h : SharedConstants) : PacketArgs :=
  ⟨h.bools, some h.swizzles, some h.samplers, a.source, a.runs, a.packed, a.explicitEmpty⟩

/-! ### Filling a packet -/

/-- The copies of the runs, each behind the one before. -/
def copyRuns (source : FloatSource) : Bytes → ℕ → List Run → Bytes
  | m, _, [] => m
  | m, place, r :: rs =>
      copyRuns source (m.store place ((source.toList.drop (16 * r.first)).take (16 * r.count)))
        (place + 16 * r.count) rs

/-- The float constants behind a header. -/
def fillFloats (m : Bytes) (place : ℕ) (a : StageConstants) : Bytes :=
  if a.registers = 0 then m
  else
    match a.source with
    | none => m.store place (List.replicate (16 * a.registers) 0)
    | some s =>
        if a.runs = [] then m.store place (s.toList.take (16 * a.registers))
        else copyRuns s m place a.runs

/-- The booleans, zeros without them. -/
def boolBytes : Option (List.Vector UInt8 kBoolBytes) → List UInt8
  | some bools => bools.toList
  | none => List.replicate kBoolBytes 0

/-- The header both stages have. -/
def fillHeader (m : Bytes) (h : SharedConstants) : Bytes :=
  ((m.store 0 (boolBytes h.bools)).store kBoolBytes h.swizzles.toList).store (kBoolBytes + kSlotBytes)
    h.samplers.toList

/-- The pixel packet. -/
def fillPixel (m : Bytes) (h : SharedConstants) (a : StageConstants) : Bytes :=
  fillFloats (fillHeader m h) kHeaderBytes a

/-- The vertex packet, with no asset bindings yet. -/
def fillVertex (m : Bytes) (h : SharedConstants) (extra : List.Vector UInt8 kExtraStreamBytes)
    (a : StageConstants) : Bytes :=
  let m := (fillHeader m h).store kHeaderBytes extra.toList
  let m := m.store (kHeaderBytes + kExtraStreamBytes) (List.replicate kAssetBindingBytes 0)
  fillFloats m kVertexConstantHeaderBytes a

/-- `memcpy(asset_bindings_upload, bindings, sizeof(bindings))`. -/
def patchBindings (m : Bytes) (bindings : Option (List.Vector UInt8 kAssetBindingBytes)) : Bytes :=
  match bindings with
  | none => m
  | some b => m.store (kHeaderBytes + kExtraStreamBytes) b.toList

def StageConstants.pixelBytes (a : StageConstants) : ℕ := kHeaderBytes + 16 * a.registers

def StageConstants.vertexBytes (a : StageConstants) : ℕ := kVertexConstantHeaderBytes + 16 * a.registers

/-! ### Layouts that fill the packet -/

/-- The check of the runs in `complete_vertex_layout`, with the total so far. -/
def completeRuns (registers : ℕ) : ℕ → List Run → Option ℕ
  | total, [] => some total
  | total, r :: rs =>
      if 256 < r.first ∨ 256 - r.first < r.count ∨ registers - total < r.count then none
      else completeRuns registers (total + r.count) rs

/-- `complete_vertex_layout`. -/
def completeVertexLayout (a : StageConstants) : Bool :=
  a.registers ≤ 256 &&
    (a.source.isNone || a.runs = [] || completeRuns a.registers 0 a.runs = some a.registers)

/-- Layouts whose copies cover the registers. -/
structure Covers (a : StageConstants) : Prop where
  registers_le : a.registers ≤ 256
  inside : a.source.isSome → ∀ r ∈ a.runs, r.first + r.count ≤ 256
  total : a.source.isSome → a.runs ≠ [] → (a.runs.map Run.count).sum = a.registers

/-- Runs that are accepted as complete lie inside the registers and add up to their count. -/
theorem completeRuns_spec {registers total n : ℕ} {runs : List Run}
    (h : completeRuns registers total runs = some n) :
    (∀ r ∈ runs, r.first + r.count ≤ 256) ∧ total + (runs.map Run.count).sum = n := by
  induction runs generalizing total with
  | nil =>
      cases h
      exact ⟨by simp, by simp⟩
  | cons r rs ih =>
      rw [completeRuns] at h
      split at h
      · cases h
      · obtain ⟨hinside, hsum⟩ := ih h
        refine ⟨List.forall_mem_cons.2 ⟨by omega, hinside⟩, ?_⟩
        rw [List.map_cons, List.sum_cons]
        omega

/-- The check of `Build` refuses at least what the vertex check refuses. -/
theorem completeRuns_of_checkRuns {registers total n : ℕ} {runs : List Run}
    (h : checkRuns registers total runs = some n) : completeRuns registers total runs = some n := by
  induction runs generalizing total with
  | nil => exact h
  | cons r rs ih =>
      rw [checkRuns] at h
      split at h
      · cases h
      · rw [completeRuns, if_neg (by omega), ih h]

/-- A complete layout covers the shader's constants: every run lies inside the file, and the runs
add up to the packed count. -/
theorem Covers.of_complete {a : StageConstants} (h : completeVertexLayout a = true) : Covers a := by
  simp only [completeVertexLayout, Bool.and_eq_true, Bool.or_eq_true, decide_eq_true_eq] at h
  obtain ⟨hle, hruns⟩ := h
  have hspec : a.source.isSome → a.runs ≠ [] → completeRuns a.registers 0 a.runs = some a.registers := by
    intro hsome hne
    rcases hruns with (hnone | hnil) | hcomplete
    · rw [Option.isNone_iff_eq_none.1 hnone] at hsome
      cases hsome
    · exact absurd hnil hne
    · exact hcomplete
  constructor
  · exact hle
  · intro hsome r hr
    exact (completeRuns_spec (hspec hsome (List.ne_nil_of_mem hr))).1 r hr
  · intro hsome hne
    rw [← (completeRuns_spec (hspec hsome hne)).2, Nat.zero_add]

/-- What `Build` has checked and made when it accepts. -/
theorem build_eq_some {a : StageConstants} {h : SharedConstants} {packet : List UInt8}
    (hbuild : build (a.packetArgs h) = some packet) :
    a.registers ≤ 256 ∧
      (a.source.isSome = true → a.runs ≠ [] → checkRuns a.registers 0 a.runs = some a.registers) ∧
        packet = headerBytes h.bools h.swizzles h.samplers ++ floatBytes a.source a.runs a.registers := by
  have hcases : build (a.packetArgs h) =
      if a.explicitEmpty = true ∧ (a.packed ≠ 0 ∨ a.runs ≠ []) then none
      else if 256 < a.registers then none
      else if a.source.isSome = true ∧ a.runs ≠ [] ∧ checkRuns a.registers 0 a.runs ≠ some a.registers
        then none
      else some (headerBytes h.bools h.swizzles h.samplers ++ floatBytes a.source a.runs a.registers) := rfl
  rw [hcases, Option.ite_none_left_eq_some, Option.ite_none_left_eq_some,
    Option.ite_none_left_eq_some] at hbuild
  obtain ⟨-, hle, hruns, hpacket⟩ := hbuild
  exact ⟨Nat.le_of_not_lt hle, fun hsome hne => not_not.1 fun hc => hruns ⟨hsome, hne, hc⟩,
    (Option.some.inj hpacket).symm⟩

/-- And so does one that a packet was built from. -/
theorem Covers.of_build {a : StageConstants} {h : SharedConstants} {packet : List UInt8}
    (hbuild : build (a.packetArgs h) = some packet) : Covers a := by
  obtain ⟨hle, hruns, -⟩ := build_eq_some hbuild
  have hspec := fun hsome hne => completeRuns_spec (completeRuns_of_checkRuns (hruns hsome hne))
  constructor
  · exact hle
  · intro hsome r hr
    exact (hspec hsome (List.ne_nil_of_mem hr)).1 r hr
  · intro hsome hne
    rw [← (hspec hsome hne).2, Nat.zero_add]

/-! ### What a filled packet holds -/

variable {m : Bytes}

/-- Copying runs writes nothing below where it begins, by induction on the runs. -/
theorem copyRuns_below (source : FloatSource) {place i : ℕ} (runs : List Run) (hi : i < place) :
    copyRuns source m place runs i = m i := by
  induction runs generalizing m place with
  | nil => rfl
  | cons r rs ih =>
      rw [copyRuns, ih (by omega), Bytes.store, if_neg (by omega)]

/-- What is loaded from there are the runs' registers, one run after the other. -/
theorem copyRuns_load (source : FloatSource) {place : ℕ} {runs : List Run}
    (hinside : ∀ r ∈ runs, r.first + r.count ≤ 256) :
    (copyRuns source m place runs).load place (16 * (runs.map Run.count).sum) =
      runs.flatMap fun r => (source.toList.drop (16 * r.first)).take (16 * r.count) := by
  induction runs generalizing m place with
  | nil => rfl
  | cons r rs ih =>
      rw [List.forall_mem_cons] at hinside
      have hlength : ((source.toList.drop (16 * r.first)).take (16 * r.count)).length = 16 * r.count := by
        rw [List.length_take, List.length_drop, List.Vector.toList_length]
        omega
      have hkept : (copyRuns source m place (r :: rs)).load place (16 * r.count) =
          (source.toList.drop (16 * r.first)).take (16 * r.count) := by
        rw [copyRuns]
        refine Eq.trans (Bytes.load_congr fun i _ hi => copyRuns_below source rs hi) ?_
        exact Bytes.load_store_self hlength
      rw [List.map_cons, List.sum_cons, Nat.mul_add, Bytes.load_add, hkept, List.flatMap_cons, copyRuns,
        ih hinside.2]

/-- Filling the floats writes nothing below where it begins. -/
theorem fillFloats_below {place i : ℕ} (a : StageConstants) (hi : i < place) :
    fillFloats m place a i = m i := by
  unfold fillFloats
  split
  · rfl
  · cases a.source with
    | none => exact if_neg (by omega)
    | some s =>
        dsimp only
        split
        · exact if_neg (by omega)
        · exact copyRuns_below s a.runs hi

/-- So a load that ends there is not changed. -/
theorem fillFloats_load_below {place n : ℕ} (a : StageConstants) (hn : n ≤ place) :
    (fillFloats m place a).load 0 n = m.load 0 n :=
  Bytes.load_congr fun i _ hi => fillFloats_below a (by omega)

/-- The float constants of a layout that covers its registers. -/
theorem fillFloats_load {place : ℕ} {a : StageConstants} (h : Covers a) :
    (fillFloats m place a).load place (16 * a.registers) = floatBytes a.source a.runs a.registers := by
  unfold fillFloats floatBytes
  by_cases hzero : a.registers = 0
  · rw [if_pos hzero, if_pos hzero, hzero]
    rfl
  rw [if_neg hzero, if_neg hzero]
  cases hs : a.source with
  | none => exact Bytes.load_store_self (List.length_replicate ..)
  | some s =>
      dsimp only
      by_cases hne : a.runs = []
      · rw [if_pos hne, if_pos hne]
        refine Bytes.load_store_self ?_
        have := h.registers_le
        rw [List.length_take, List.Vector.toList_length]
        omega
      · have hsome : a.source.isSome = true := by rw [hs]; rfl
        rw [if_neg hne, if_neg hne, ← h.total hsome hne]
        exact copyRuns_load s (h.inside hsome)

/-- The bool constants have their length, with none given as zeros. -/
theorem length_boolBytes (bools : Option (List.Vector UInt8 kBoolBytes)) :
    (boolBytes bools).length = kBoolBytes := by
  cases bools with
  | none => exact List.length_replicate ..
  | some bools => exact bools.toList_length

/-- The header is loaded as it was filled. -/
theorem fillHeader_load (h : SharedConstants) :
    (fillHeader m h).load 0 kHeaderBytes = headerBytes h.bools h.swizzles h.samplers := by
  have hbools := length_boolBytes h.bools
  have hswizzles := h.swizzles.toList_length
  have hsamplers := h.samplers.toList_length
  have hsplit : kHeaderBytes = kBoolBytes + kSlotBytes + kSlotBytes := rfl
  have hheader : headerBytes h.bools h.swizzles h.samplers =
      boolBytes h.bools ++ h.swizzles.toList ++ h.samplers.toList := rfl
  rw [hsplit, Bytes.load_add, Bytes.load_add, hheader, fillHeader, Nat.zero_add, Nat.zero_add,
    Bytes.load_store_self hsamplers, Bytes.load_store_of_disjoint (by omega),
    Bytes.load_store_of_disjoint (by omega), Bytes.load_store_self hbools,
    Bytes.load_store_of_disjoint (by omega), Bytes.load_store_self hswizzles]

/-- **The pixel packet.**  What the direct path writes into a slice is what `Build` makes. -/
theorem fillPixel_load {a : StageConstants} {h : SharedConstants} {packet : List UInt8}
    (hbuild : build (a.packetArgs h) = some packet) :
    (fillPixel m h a).load 0 a.pixelBytes = packet ∧ packet.length = a.pixelBytes := by
  have hload : (fillPixel m h a).load 0 a.pixelBytes =
      headerBytes h.bools h.swizzles h.samplers ++ floatBytes a.source a.runs a.registers := by
    rw [StageConstants.pixelBytes, Bytes.load_add, Nat.zero_add, fillPixel,
      fillFloats_load_below a le_rfl, fillHeader_load, fillFloats_load (.of_build hbuild)]
  rw [hload, (build_eq_some hbuild).2.2]
  exact ⟨rfl, by rw [← hload, Bytes.length_load]⟩

/-- The vertex packet of a layout that covers its registers. -/
def vertexPacket (h : SharedConstants) (extra : List.Vector UInt8 kExtraStreamBytes)
    (a : StageConstants) : List UInt8 :=
  headerBytes h.bools h.swizzles h.samplers ++ extra.toList ++ List.replicate kAssetBindingBytes 0 ++
    floatBytes a.source a.runs a.registers

/-- **The vertex packet.**  It does not depend on the memory it is written into. -/
theorem fillVertex_load {a : StageConstants} (h : SharedConstants)
    (extra : List.Vector UInt8 kExtraStreamBytes) (hcovers : Covers a) :
    (fillVertex m h extra a).load 0 a.vertexBytes = vertexPacket h extra a := by
  have hextra := extra.toList_length
  have hzeros : (List.replicate kAssetBindingBytes (0 : UInt8)).length = kAssetBindingBytes :=
    List.length_replicate ..
  have hsplit : kVertexConstantHeaderBytes = kHeaderBytes + kExtraStreamBytes + kAssetBindingBytes := rfl
  rw [StageConstants.vertexBytes, Bytes.load_add, Nat.zero_add, fillVertex, fillFloats_load hcovers,
    fillFloats_load_below a le_rfl, hsplit, Bytes.load_add, Bytes.load_add,
    Nat.zero_add, Nat.zero_add, Bytes.load_store_self hzeros, Bytes.load_store_of_disjoint (by omega),
    Bytes.load_store_of_disjoint (by omega), Bytes.load_store_of_disjoint (by omega),
    Bytes.load_store_self hextra, fillHeader_load]
  rfl

end Constants
end BoltsRebuilt
