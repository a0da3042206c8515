/-
# From host vertex to guest vertex

src/src/gpu/native/shaders/prelude.hlsl: `SwapWith4`, `GuestIndex`, `VertexIndex` and
`PointCoord`, and the part of `NbCommandProcessor::PrepareGeometry`
(src/src/gpu/nb_command_processor.cpp) that gives them their constants and decides how
many host vertices a draw has.

A guest strip, quad list or point list is drawn as a triangle list: the host count is
computed in C++ and `VertexIndex` finds for each host vertex the position in the
guest's own list (`position`).  `primitiveExpansion_exact` says that the two agree: the
positions of all host vertices are the guest's primitives, one after another.

The streams, samplers and viewport constants that `PrepareGeometry` fills in as well
are left out.
-/

import BoltsRebuilt.Assets.Redirect
import BoltsRebuilt.Lib.Fallible
import Mathlib.Data.List.GetD
import Mathlib.Tactic.IntervalCases

namespace BoltsRebuilt
namespace Prelude

open Assets (Streams Words)

/-- `xenos::PrimitiveType`, as far as it is told apart here. -/
inductive PrimitiveType where
  | triangleList
  | triangleStrip
  | quadList
  | pointList
  | other (code : ℕ)
  deriving DecidableEq, Repr

/-- `xenos::IndexFormat`. -/
inductive IndexFormat where
  | int16
  | int32
  deriving DecidableEq, Repr

/-- `xenos::Endian`. -/
inductive Endian where
  | none
  | swap8in16
  | swap8in32
  | swap16in32
  deriving DecidableEq, Repr

def Endian.code : Endian → BitVec 32
  | none => 0
  | swap8in16 => 1
  | swap8in32 => 2
  | swap16in32 => 3

/-- What `NativeDrawContext` says about the indices. -/
structure DrawContext where
  guestPrimitiveType : PrimitiveType
  indexCount : BitVec 32
  indexed : Bool
  indexGuestBase : BitVec 32
  indexFormat : IndexFormat
  indexEndian : Endian
  hardwareIndexEligible : Bool
  useHardwareIndices : Bool

/-- `VGT_INDX_OFFSET`, `VGT_MIN_VTX_INDX` and `VGT_MAX_VTX_INDX`. -/
structure IndexRegisters where
  indexOffset : BitVec 32
  minIndx : BitVec 32
  maxIndx : BitVec 32

/-- The root constants `VertexIndex` reads. -/
structure RootConstants where
  primitiveMode : BitVec 32
  indexOffset : BitVec 32
  vertexIndexMin : BitVec 32
  vertexIndexMax : BitVec 32
  indexBaseBytes : BitVec 32
  indexFormat : BitVec 32
  indexEndian : BitVec 32
  deriving DecidableEq

/-- `DrawArgs`, as far as the indices go. -/
structure DrawArgs where
  hardwareIndexEligible : Bool
  useHardwareIndices : Bool
  hostVertexCount : BitVec 32
  indexSizeBytes : BitVec 32
  deriving DecidableEq

/-- `index_base_bytes` of a draw without indices. -/
def notIndexed : BitVec 32 := 0xFFFFFFFF

/-- The mode and the host vertex count, or why the draw is refused. -/
def expandPrimitives (context : DrawContext) : Except String (BitVec 32 × BitVec 32) :=
  match context.guestPrimitiveType with
  | .triangleList =>
    .ok (if context.hardwareIndexEligible && context.useHardwareIndices then 4 else 0,
      context.indexCount)
  | .triangleStrip =>
    if context.indexed then .error "indexed triangle strip"
    else .ok (3, if context.indexCount ≥ 3 then (context.indexCount - 2) * 3 else 0)
  | .quadList =>
    if context.indexed then .error "indexed quad list" else .ok (1, context.indexCount / 4 * 6)
  | .pointList => .ok (2, context.indexCount * 6)
  | .other _ => .error "unsupported primitive type"

/-- The base, format, endian and size of the guest's index buffer. -/
def indexBuffer (context : DrawContext) : Except String (BitVec 32 × BitVec 32 × BitVec 32 × BitVec 32) :=
  if context.indexed then
    if context.indexGuestBase = 0 then .error "indexed draw without a guest index buffer"
    else
      let format : BitVec 32 := if context.indexFormat = .int32 then 1 else 0
      let indexBytes := context.indexCount.toNat * if format ≠ 0 then 4 else 2
      if indexBytes > 0xFFFFFFFF then .error "guest index extent exceeds native bounds"
      else .ok (context.indexGuestBase, format, context.indexEndian.code, BitVec.ofNat 32 indexBytes)
  else .ok (notIndexed, 0, 0, 0)

/-- `PrepareGeometry`, the part about the indices. -/
def prepareGeometry (context : DrawContext) (regs : IndexRegisters) :
    Except String (RootConstants × DrawArgs) := do
  let (base, format, endian, size) ← indexBuffer context
  let (mode, count) ← expandPrimitives context
  let list := context.guestPrimitiveType = .triangleList
  pure (⟨mode, regs.indexOffset, regs.minIndx, regs.maxIndx, base, format, endian⟩,
    ⟨list && context.hardwareIndexEligible,
      list && context.hardwareIndexEligible && context.useHardwareIndices, count, size⟩)

/-! ### The shader -/

/-- `SwapWith4` on one of its lanes. -/
def swapLane (v endian : BitVec 32) : BitVec 32 :=
  let m := endian ^^^ (endian >>> 1)
  let s16 := ((v &&& 0x00FF00FF) <<< 8) ||| ((v >>> 8) &&& 0x00FF00FF)
  let v := if m &&& 1 ≠ 0 then s16 else v
  if m &&& 2 ≠ 0 then (v >>> 16) ||| (v <<< 16) else v

def swapWith4 (v : Words) (endian : BitVec 32) : Words :=
  ⟨swapLane v.x endian, swapLane v.y endian, swapLane v.z endian, swapLane v.w endian⟩

def swapWith (v endian : BitVec 32) : BitVec 32 := (swapWith4 ⟨v, v, v, v⟩ endian).x

/-- The slot of the index stream. -/
def indexSlot : BitVec 32 := BitVec.ofNat 32 Assets.maxVertexStreams

/-- `GuestIndex`. -/
def guestIndex (s : Streams) (root : RootConstants) (i : BitVec 32) : BitVec 32 :=
  if root.indexFormat = 1 then
    swapWith (s.rawStreamLoad (root.indexBaseBytes + i * 4) indexSlot) root.indexEndian
  else
    let byteAddress := root.indexBaseBytes + i * 2
    let word := swapWith (s.rawStreamLoad (byteAddress &&& ~~~3) indexSlot) root.indexEndian
    if byteAddress &&& 2 ≠ 0 then word >>> 16 else word &&& 0xFFFF

/-- The position in the guest's list that host vertex `id` stands for. -/
def position (mode id : BitVec 32) : BitVec 32 :=
  if mode = 1 then
    let quad := id / 6
    let t := id - quad * 6
    let corner : BitVec 32 := if t = 0 ∨ t = 3 then 0 else if t = 1 then 1 else if t = 2 ∨ t = 4 then 2 else 3
    quad * 4 + corner
  else if mode = 2 then id / 6
  else if mode = 3 then
    let triangleIndex := id / 3
    let corner := id - triangleIndex * 3
    -- an odd triangle keeps its leading vertex and reverses the other two
    let corner := if triangleIndex &&& 1 ≠ 0 ∧ corner ≠ 0 then 3 - corner else corner
    triangleIndex + corner
  else id

/-- Offset, 24-bit wrap, then `min(max(i, ..), ..)`. -/
def remap (root : RootConstants) (i : BitVec 32) : BitVec 32 :=
  let i := (i + root.indexOffset) &&& 0xFFFFFF
  let i := if i < root.vertexIndexMin then root.vertexIndexMin else i
  if root.vertexIndexMax < i then root.vertexIndexMax else i

/-- `VertexIndex`. -/
def vertexIndex (s : Streams) (root : RootConstants) (id : BitVec 32) : BitVec 32 :=
  let i := position root.primitiveMode id
  let i :=
    if root.primitiveMode = 4 then swapWith id root.indexEndian
    else if root.indexBaseBytes ≠ notIndexed then guestIndex s root i
    else i
  remap root i

/-- `PointCoord`. -/
def pointCoord (mode id : BitVec 32) : ℕ × ℕ :=
  if mode ≠ 2 then (0, 0)
  else
    let t := id - id / 6 * 6
    let corner : BitVec 32 := if t = 0 then 0 else if t = 1 ∨ t = 4 then 1 else if t = 2 ∨ t = 3 then 2 else 3
    ((corner &&& 1).toNat, (corner >>> 1).toNat)

/-! ### The guest's primitives -/

/-- Triangle `t` of a strip: three vertices in a row, the winding alternating. -/
def stripTriangle (t : ℕ) : List ℕ := if t % 2 = 0 then [t, t + 1, t + 2] else [t, t + 2, t + 1]

/-- The two triangles of quad `q`. -/
def quadTriangles (q : ℕ) : List ℕ :=
  [4 * q, 4 * q + 1, 4 * q + 2, 4 * q, 4 * q + 2, 4 * q + 3]

/-- The six corners that are drawn of point `p`. -/
def pointCorners (p : ℕ) : List ℕ := [p, p, p, p, p, p]

/-- What the guest draws of `n` vertices, primitive by primitive. -/
def guestPrimitives : PrimitiveType → ℕ → List ℕ
  | .triangleList, n => List.range n
  | .triangleStrip, n => (List.range (n - 2)).flatMap stripTriangle
  | .quadList, n => (List.range (n / 4)).flatMap quadTriangles
  | .pointList, n => (List.range n).flatMap pointCorners
  | .other _, _ => []

/-- The numbers below `k * m`, in runs of `m`. -/
theorem map_range_mul {α : Type} (f : ℕ → α) (k m : ℕ) :
    (List.range (k * m)).map f =
      (List.range k).flatMap fun q => (List.range m).map fun t => f (q * m + t) := by
  induction k with
  | zero => simp
  | succ k ih =>
      rw [Nat.succ_mul, List.range_add, List.map_append, ih, List.range_succ, List.flatMap_append,
        List.flatMap_singleton, List.map_map]
      rfl

/-- A host vertex in a run of `m`: which run, and its place there. -/
theorem run_place {id m : BitVec 32} {q t : ℕ} (hid : id.toNat = q * m.toNat + t) (ht : t < m.toNat) :
    (id / m).toNat = q ∧ (id - id / m * m).toNat = t := by
  have hq : (id / m).toNat = q := by
    rw [BitVec.toNat_udiv, hid, Nat.mul_comm, Nat.mul_add_div (by omega), Nat.div_eq_of_lt ht,
      Nat.add_zero]
  have hlt := id.isLt
  have hmul : (id / m * m).toNat = q * m.toNat := by
    rw [BitVec.toNat_mul, hq, Nat.mod_eq_of_lt (by omega)]
  refine ⟨hq, ?_⟩
  rw [BitVec.toNat_sub_of_le (BitVec.le_def.2 (by omega)), hmul]
  omega

/-- The corner of a quad's triangle, from the quad and the corner's number. -/
theorem position_quads {id : BitVec 32} {q t : ℕ} (hid : id.toNat = q * 6 + t) (ht : t < 6) :
    (position 1 id).toNat = (quadTriangles q).getD t 0 := by
  obtain ⟨hq, hplace⟩ := run_place (m := 6) hid ht
  have hplace' : id - id / 6 * 6 = BitVec.ofNat 32 t := by
    rw [← hplace, BitVec.ofNat_toNat, BitVec.setWidth_eq]
  have hlt := id.isLt
  have hsum : ∀ c : BitVec 32, c.toNat < 4 → (id / 6 * 4 + c).toNat = 4 * q + c.toNat := by
    intro c hc
    rw [BitVec.toNat_add, BitVec.toNat_mul, hq]
    show (q * 4 % 2 ^ 32 + c.toNat) % 2 ^ 32 = _
    omega
  rw [position, if_pos rfl]
  simp only [hplace']
  interval_cases t
  · exact hsum 0 (by decide)
  · exact hsum 1 (by decide)
  · exact hsum 2 (by decide)
  · exact hsum 0 (by decide)
  · exact hsum 2 (by decide)
  · exact hsum 3 (by decide)

/-- All six corners of a point's quad are at the point. -/
theorem position_points {id : BitVec 32} {q t : ℕ} (hid : id.toNat = q * 6 + t) (ht : t < 6) :
    (position 2 id).toNat = q := by
  obtain ⟨hq, -⟩ := run_place (m := 6) hid ht
  rw [position, if_neg (by decide), if_pos rfl, hq]

/-- And their coordinates are the corners of the unit square. -/
theorem pointCoord_points {id : BitVec 32} {q t : ℕ} (hid : id.toNat = q * 6 + t) (ht : t < 6) :
    pointCoord 2 id = [(0, 0), (1, 0), (0, 1), (0, 1), (1, 0), (1, 1)].getD t (0, 0) := by
  obtain ⟨-, hplace⟩ := run_place (m := 6) hid ht
  have hplace' : id - id / 6 * 6 = BitVec.ofNat 32 t := by
    rw [← hplace, BitVec.ofNat_toNat, BitVec.setWidth_eq]
  rw [pointCoord, if_neg (by decide)]
  simp only [hplace']
  interval_cases t <;> rfl

/-- The test of the lowest bit, on naturals. -/
theorem and_one_ne_zero (x : BitVec 32) : x &&& 1 ≠ 0 ↔ x.toNat % 2 = 1 := by
  rw [Ne, ← BitVec.toNat_inj, BitVec.toNat_and]
  show ¬x.toNat &&& 1 = 0 ↔ _
  rw [Nat.and_one_is_mod]
  omega

/-- The corner of a strip's triangle, from the triangle and the corner's number. -/
theorem position_strip {id : BitVec 32} {q t : ℕ} (hid : id.toNat = q * 3 + t) (ht : t < 3) :
    (position 3 id).toNat = (stripTriangle q).getD t 0 := by
  obtain ⟨hq, hplace⟩ := run_place (m := 3) hid ht
  have hplace' : id - id / 3 * 3 = BitVec.ofNat 32 t := by
    rw [← hplace, BitVec.ofNat_toNat, BitVec.setWidth_eq]
  have hlt := id.isLt
  have hsum : ∀ c : BitVec 32, c.toNat < 3 → (id / 3 + c).toNat = q + c.toNat := by
    intro c hc
    rw [BitVec.toNat_add, hq]
    omega
  have hparity := and_one_ne_zero (id / 3)
  rw [hq] at hparity
  rw [position, if_neg (by decide), if_neg (by decide), if_pos rfl, stripTriangle]
  simp only [hplace', hparity]
  by_cases hodd : q % 2 = 1
  · rw [if_neg (show ¬q % 2 = 0 by omega)]
    interval_cases t
    · rw [if_neg fun hcorner => hcorner.2 rfl]
      exact hsum 0 (by decide)
    · rw [if_pos ⟨hodd, by decide⟩]
      exact hsum 2 (by decide)
    · rw [if_pos ⟨hodd, by decide⟩]
      exact hsum 1 (by decide)
  · rw [if_pos (show q % 2 = 0 by omega), if_neg fun hcorner => hodd hcorner.1]
    interval_cases t
    · exact hsum 0 (by decide)
    · exact hsum 1 (by decide)
    · exact hsum 2 (by decide)

/-! ### The expansion of a draw -/

/-- The primitives that are expanded. -/
def Expanded (type : PrimitiveType) : Prop :=
  type = .triangleStrip ∨ type = .quadList ∨ type = .pointList

/-- The host vertices of `n` guest vertices. -/
def hostVertices : PrimitiveType → ℕ → ℕ
  | .triangleStrip, n => (n - 2) * 3
  | .quadList, n => n / 4 * 6
  | .pointList, n => n * 6
  | _, n => n

/-- Geometry that was prepared has the primitive mode and the vertex count of its expansion. -/
theorem prepareGeometry_ok {context : DrawContext} {regs : IndexRegisters} {root : RootConstants}
    {args : DrawArgs} (h : prepareGeometry context regs = .ok (root, args)) :
    expandPrimitives context = .ok (root.primitiveMode, args.hostVertexCount) := by
  rw [prepareGeometry] at h
  obtain ⟨⟨base, format, endian, size⟩, -, h⟩ := Fallible.bind_eq_ok.1 h
  obtain ⟨⟨mode, count⟩, hexpand, h⟩ := Fallible.bind_eq_ok.1 h
  obtain ⟨rfl, rfl⟩ := Prod.mk.inj (Except.ok.inj h)
  exact hexpand

/-- The count of host vertices does not wrap, the guest's being below `65536`. -/
theorem hostVertexCount_eq {context : DrawContext} {mode count : BitVec 32}
    (h : expandPrimitives context = .ok (mode, count)) (hexpanded : Expanded context.guestPrimitiveType)
    (hn : context.indexCount.toNat ≤ 65535) :
    count.toNat = hostVertices context.guestPrimitiveType context.indexCount.toNat ∧
      mode = (match context.guestPrimitiveType with
        | .triangleStrip => 3 | .quadList => 1 | _ => 2) := by
  rw [expandPrimitives] at h
  rcases hexpanded with htype | htype | htype
  · rw [htype] at h ⊢
    simp only at h
    split at h
    · cases h
    · obtain ⟨rfl, rfl⟩ := Prod.mk.inj (Except.ok.inj h)
      refine ⟨?_, rfl⟩
      rw [hostVertices]
      split
      · rename_i hthree
        have hthree : 3 ≤ context.indexCount.toNat := BitVec.le_def.1 hthree
        rw [BitVec.toNat_mul, BitVec.toNat_sub_of_le (BitVec.le_def.2 (by show 2 ≤ _; omega))]
        show (context.indexCount.toNat - 2) * 3 % 2 ^ 32 = _
        omega
      · rename_i hthree
        have hthree : ¬3 ≤ context.indexCount.toNat := fun hle => hthree (BitVec.le_def.2 hle)
        show 0 = _
        omega
  · rw [htype] at h ⊢
    simp only at h
    split at h
    · cases h
    · obtain ⟨rfl, rfl⟩ := Prod.mk.inj (Except.ok.inj h)
      refine ⟨?_, rfl⟩
      rw [hostVertices, BitVec.toNat_mul, BitVec.toNat_udiv]
      show context.indexCount.toNat / 4 * 6 % 2 ^ 32 = _
      omega
  · rw [htype] at h ⊢
    obtain ⟨rfl, rfl⟩ := Prod.mk.inj (Except.ok.inj h)
    refine ⟨?_, rfl⟩
    rw [hostVertices, BitVec.toNat_mul]
    show context.indexCount.toNat * 6 % 2 ^ 32 = _
    omega

/-- Positions found run by run are the primitives one after another. -/
theorem positions_eq {mode : BitVec 32} {m k : ℕ} {primitive : ℕ → List ℕ} (hk : k * m < 2 ^ 32)
    (hlength : ∀ q, (primitive q).length = m)
    (hplace : ∀ (id : BitVec 32) (q t : ℕ), id.toNat = q * m + t → t < m →
      (position mode id).toNat = (primitive q).getD t 0) :
    ((List.range (k * m)).map fun id => (position mode (BitVec.ofNat 32 id)).toNat) =
      (List.range k).flatMap primitive := by
  rw [map_range_mul]
  refine List.flatMap_congr fun q hq => ?_
  have hq := List.mem_range.1 hq
  refine List.ext_getElem (by simp [hlength]) fun t ht _ => ?_
  have ht : t < m := by simpa using ht
  have hbound : q * m + t < k * m := by
    have := Nat.mul_le_mul_right m (Nat.succ_le_of_lt hq)
    rw [Nat.succ_mul] at this
    omega
  have hid : (BitVec.ofNat 32 (q * m + t)).toNat = q * m + t := by
    rw [BitVec.toNat_ofNat, Nat.mod_eq_of_lt (by omega)]
  rw [List.getElem_map, List.getElem_range, hplace _ q t hid ht]
  exact List.getD_eq_getElem _ _ (by rw [hlength]; exact ht)

/-- Every position is one of the guest's vertices. -/
theorem lt_of_mem_guestPrimitives {type : PrimitiveType} {n i : ℕ} (h : i ∈ guestPrimitives type n) :
    i < n := by
  cases type with
  | triangleList => exact List.mem_range.1 h
  | triangleStrip =>
      obtain ⟨t, ht, hi⟩ := List.mem_flatMap.1 h
      have ht := List.mem_range.1 ht
      rw [stripTriangle] at hi
      split at hi <;> simp only [List.mem_cons, List.not_mem_nil, or_false] at hi <;> omega
  | quadList =>
      obtain ⟨q, hq, hi⟩ := List.mem_flatMap.1 h
      have hq := List.mem_range.1 hq
      simp only [quadTriangles, List.mem_cons, List.not_mem_nil, or_false] at hi
      omega
  | pointList =>
      obtain ⟨p, hp, hi⟩ := List.mem_flatMap.1 h
      have hp := List.mem_range.1 hp
      simp only [pointCorners, List.mem_cons, List.not_mem_nil, or_false] at hi
      omega
  | other code => cases h

/-- **Primitive expansion.**  The host vertices of an expanded draw are as many as the guest's
primitives need, computed without wrapping; the positions `VertexIndex` finds for them are the
guest's primitives in order, strips with alternating winding, quads as two triangles over their
four corners and points six times; each is one of the guest's vertices, and the six vertices of a
point have the corners of two triangles that make up the sprite. -/
theorem primitiveExpansion_exact (context : DrawContext) (regs : IndexRegisters)
    (hexpanded : Expanded context.guestPrimitiveType) (hn : context.indexCount.toNat ≤ 65535)
    (root : RootConstants) (args : DrawArgs) (h : prepareGeometry context regs = .ok (root, args)) :
    args.hostVertexCount.toNat = hostVertices context.guestPrimitiveType context.indexCount.toNat ∧
    ((List.range args.hostVertexCount.toNat).map fun id =>
        (position root.primitiveMode (BitVec.ofNat 32 id)).toNat) =
      guestPrimitives context.guestPrimitiveType context.indexCount.toNat ∧
    (∀ id < args.hostVertexCount.toNat,
      (position root.primitiveMode (BitVec.ofNat 32 id)).toNat < context.indexCount.toNat) ∧
    (∀ s id, vertexIndex s root id = remap root
      (if root.indexBaseBytes ≠ notIndexed then guestIndex s root (position root.primitiveMode id)
        else position root.primitiveMode id)) ∧
    (context.guestPrimitiveType = .pointList → ∀ p < context.indexCount.toNat, ∀ t < 6,
      pointCoord root.primitiveMode (BitVec.ofNat 32 (p * 6 + t)) =
        [(0, 0), (1, 0), (0, 1), (0, 1), (1, 0), (1, 1)].getD t (0, 0)) := by
  obtain ⟨hcount, hmode⟩ := hostVertexCount_eq (prepareGeometry_ok h) hexpanded hn
  have hpositions : ((List.range args.hostVertexCount.toNat).map fun id =>
        (position root.primitiveMode (BitVec.ofNat 32 id)).toNat) =
      guestPrimitives context.guestPrimitiveType context.indexCount.toNat := by
    rw [hcount]
    rcases hexpanded with htype | htype | htype
    · rw [htype] at hmode ⊢
      rw [hmode]
      exact positions_eq (by omega) (fun q => by rw [stripTriangle]; split <;> rfl)
        fun id q t hid ht => position_strip hid ht
    · rw [htype] at hmode ⊢
      rw [hmode]
      exact positions_eq (by omega) (fun _ => rfl) fun id q t hid ht => position_quads hid ht
    · rw [htype] at hmode ⊢
      rw [hmode]
      refine positions_eq (by omega) (fun _ => rfl) fun id q t hid ht => ?_
      rw [position_points hid ht]
      interval_cases t <;> rfl
  refine ⟨hcount, hpositions, fun id hid => ?_, fun s id => ?_, fun htype p hp t ht => ?_⟩
  · apply lt_of_mem_guestPrimitives
    rw [← hpositions]
    exact List.mem_map.2 ⟨id, List.mem_range.2 hid, rfl⟩
  · have hne : root.primitiveMode ≠ 4 := by
      rcases hexpanded with htype | htype | htype <;>
        · rw [htype] at hmode
          rw [hmode]
          decide
    rw [vertexIndex]
    simp only [if_neg hne]
  · rw [htype] at hmode
    rw [hmode]
    refine pointCoord_points (q := p) ?_ ht
    rw [BitVec.toNat_ofNat, Nat.mod_eq_of_lt (by omega)]

/-- The hypotheses are satisfiable: a strip of five vertices is three triangles, the second with its
winding turned. -/
theorem primitiveExpansion_exact_strip :
    ((List.range 9).map fun id => (position 3 (BitVec.ofNat 32 id)).toNat) =
      [0, 1, 2, 1, 3, 2, 2, 3, 4] :=
  (primitiveExpansion_exact ⟨.triangleStrip, 5, false, 0, .int16, .none, false, false⟩ ⟨0, 0, 0xFFFFFF⟩
    (.inl rfl) (by decide) ⟨3, 0, 0, 0xFFFFFF, notIndexed, 0, 0⟩ ⟨false, false, 9, 0⟩ (by decide)).2.1

end Prelude
end BoltsRebuilt
