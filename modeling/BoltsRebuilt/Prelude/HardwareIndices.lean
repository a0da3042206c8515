/-
# The guest's index buffer bound as it is

`D3D12CommandProcessor::IssueDraw` decides which draws may hand the guest's index
buffer to the input assembler
(src/src/gpu/vendored/src/graphics/d3d12/command_processor.cpp, lines 2960–3007), and
`NativeGeometryPass::Draw` binds it (src/src/gpu/native/native_geometry_pass.cpp, lines
1418–1437).  `VertexIndex` then receives the raw index and swaps it (mode 4); the other
draws fetch the index in the shader, swapping the word that holds it (mode 0).

The two ways give the same vertex index for every vertex of an eligible draw
(`hardwareIndices_eq`).  A 16-bit index is half a word there and a whole one here, so
what is needed is that the swaps allowed for it work on the halves apart
(`swapLane_high`, `swapLane_low`).

The primitive processor's result is an input; of `IndexBufferInfo` and of the result the
fields read here are kept.  The input assembler follows D3D12: little-endian indices,
and zero for those past the size of the view.
-/

import BoltsRebuilt.Prelude.VertexIndex
import Mathlib.Data.Nat.Bitwise

namespace BoltsRebuilt
namespace Prelude

open Assets (Streams Pack word)

/-- `IndexBufferInfo`. -/
structure IndexBufferInfo where
  format : IndexFormat
  endianness : Endian
  count : BitVec 32
  guestBase : BitVec 32
  length : BitVec 32

/-- `PrimitiveProcessor::ProcessedIndexBufferType`, as far as it is told apart here. -/
inductive ProcessedIndexBufferType where
  | none
  | guestDMA
  | other (code : ℕ)
  deriving DecidableEq

/-- `PrimitiveProcessor::ProcessingResult`. -/
structure ProcessingResult where
  guestPrimitiveType : PrimitiveType
  hostPrimitiveType : PrimitiveType
  hostVertexShaderIsVertex : Bool
  isTessellated : Bool
  hostPrimitiveResetEnabled : Bool
  indexBufferType : ProcessedIndexBufferType
  guestDrawVertexCount : BitVec 32
  hostDrawVertexCount : BitVec 32
  guestIndexBase : BitVec 32
  hostIndexFormat : IndexFormat
  hostShaderIndexEndian : Endian

/-- What `IssueDraw` is called with, its registers and its primitive processing. -/
structure IssuedDraw where
  primitiveType : PrimitiveType
  indexCount : BitVec 32
  indexBufferInfo : Option IndexBufferInfo
  sourceSelectDMA : Bool
  processed : ProcessingResult

/-- `SharedMemory::kBufferSize`. -/
def bufferSize : ℕ := 0x20000000

def IndexFormat.width : IndexFormat → ℕ
  | int16 => 2
  | int32 => 4

/-- `native_index_format_supported`. -/
def IndexFormat.Supported (format : IndexFormat) (endian : Endian) : Prop :=
  (format = int16 ∧ (endian = .none ∨ endian = .swap8in16)) ∨
    (format = int32 ∧ endian.code ≤ Endian.swap16in32.code)

instance (format : IndexFormat) (endian : Endian) : Decidable (format.Supported endian) :=
  inferInstanceAs (Decidable (_ ∨ _))

namespace IssuedDraw

def indexed (d : IssuedDraw) : Bool := d.processed.indexBufferType ≠ .none

def indexGuestBase (d : IssuedDraw) : BitVec 32 := d.indexBufferInfo.elim 0 (·.guestBase)

def indexFormat (d : IssuedDraw) : IndexFormat := d.indexBufferInfo.elim .int16 (·.format)

def indexEndian (d : IssuedDraw) : Endian := d.indexBufferInfo.elim .none (·.endianness)

/-- `native_index_bytes`. -/
def indexBytes (d : IssuedDraw) : ℕ := d.indexCount.toNat * d.indexFormat.width

/-- `hardware_index_eligible`, for the index buffer of the draw. -/
def EligibleWith (d : IssuedDraw) (info : IndexBufferInfo) : Prop :=
  d.indexed = true ∧ d.indexFormat.Supported d.indexEndian ∧ d.sourceSelectDMA = true ∧
  d.primitiveType = .triangleList ∧ d.processed.guestPrimitiveType = d.primitiveType ∧
  d.processed.hostPrimitiveType = .triangleList ∧ d.processed.hostVertexShaderIsVertex = true ∧
  d.processed.isTessellated = false ∧ d.processed.hostPrimitiveResetEnabled = false ∧
  d.processed.indexBufferType = .guestDMA ∧ d.processed.guestDrawVertexCount = d.indexCount ∧
  d.processed.hostDrawVertexCount = d.indexCount ∧ info.count = d.indexCount ∧
  d.processed.guestIndexBase = d.indexGuestBase ∧ d.processed.hostIndexFormat = d.indexFormat ∧
  d.processed.hostShaderIndexEndian = d.indexEndian ∧ d.indexGuestBase ≠ 0 ∧
  d.indexGuestBase &&& BitVec.ofNat 32 (d.indexFormat.width - 1) = 0 ∧
  d.indexGuestBase.toNat < bufferSize ∧ d.indexBytes ≤ bufferSize - d.indexGuestBase.toNat ∧
  d.indexBytes ≤ info.length.toNat

instance (d : IssuedDraw) (info : IndexBufferInfo) : Decidable (d.EligibleWith info) := by
  unfold EligibleWith
  infer_instance

/-- `hardware_index_eligible`. -/
def eligible (d : IssuedDraw) : Bool :=
  match d.indexBufferInfo with
  | none => false
  | some info => d.EligibleWith info

/-- The `NativeDrawContext`; `hardwareIndices` is `nb_native_hardware_indices`. -/
def nativeContext (d : IssuedDraw) (hardwareIndices : Bool) : DrawContext where
  guestPrimitiveType := d.primitiveType
  indexCount := d.indexCount
  indexed := d.indexed
  indexGuestBase := d.indexGuestBase
  indexFormat := d.indexFormat
  indexEndian := d.indexEndian
  hardwareIndexEligible := d.eligible
  useHardwareIndices := d.eligible && hardwareIndices

end IssuedDraw

/-! ### The input assembler -/

/-- `D3D12_INDEX_BUFFER_VIEW`, its location from the start of the shared memory. -/
structure IndexBufferView where
  bufferLocation : ℕ
  sizeInBytes : ℕ
  width : ℕ

/-- Index `k` of a view of a buffer. -/
def IndexBufferView.fetch (m : Bytes) (view : IndexBufferView) (k : ℕ) : BitVec 32 :=
  if (k + 1) * view.width ≤ view.sizeInBytes then
    BitVec.ofNat 32 (ofLe (m.load (view.bufferLocation + k * view.width) view.width))
  else 0

/-- The view `Draw` binds. -/
def indexView (root : RootConstants) (args : DrawArgs) : IndexBufferView where
  bufferLocation := root.indexBaseBytes.toNat
  sizeInBytes := args.indexSizeBytes.toNat
  width := if root.indexFormat ≠ 0 then 4 else 2

/-- `SV_VertexID` of vertex `k` of the draw: the raw index, the base vertex being zero, or
the number of the vertex. -/
def vertexId (m : Bytes) (root : RootConstants) (args : DrawArgs) (k : ℕ) : BitVec 32 :=
  if args.useHardwareIndices then (indexView root args).fetch m k else BitVec.ofNat 32 k

/-! ### Half a word -/

/-- The swaps allowed for 16-bit indices work on the halves of a word apart. -/
theorem swapLane_halves {endian : BitVec 32} (hendian : endian = 0 ∨ endian = 1) (v : BitVec 32) :
    swapLane (v >>> 16) endian = swapLane v endian >>> 16 ∧
      swapLane (v &&& 0xFFFF) endian = swapLane v endian &&& 0xFFFF := by
  rcases hendian with rfl | rfl
  · exact ⟨rfl, rfl⟩
  · constructor
    · ext i hi
      interval_cases i <;> simp [swapLane]
    · ext i hi
      interval_cases i <;> simp [swapLane]

/-- A word is its two halves. -/
theorem ofLe_load_four (m : Bytes) (a : ℕ) :
    ofLe (m.load a 4) = ofLe (m.load a 2) + 65536 * ofLe (m.load (a + 2) 2) := by
  show (m a).toNat + 256 * ((m (a + 1)).toNat + 256 * ((m (a + 2)).toNat + 256 * ((m (a + 3)).toNat + 256 * 0))) =
    (m a).toNat + 256 * ((m (a + 1)).toNat + 256 * 0) +
      65536 * ((m (a + 2)).toNat + 256 * ((m (a + 3)).toNat + 256 * 0))
  omega

/-- A half is below `65536`. -/
theorem ofLe_load_two_lt (m : Bytes) (a : ℕ) : ofLe (m.load a 2) < 65536 := by
  show (m a).toNat + 256 * ((m (a + 1)).toNat + 256 * 0) < 65536
  have h0 := (m a).toNat_lt
  have h1 := (m (a + 1)).toNat_lt
  omega

/-- The halves of a word are the two 16-bit indices in it. -/
theorem word_halves (m : Bytes) {address : BitVec 32} {a : ℕ} (ha : address.toNat / 4 * 4 = a) :
    word m address >>> 16 = BitVec.ofNat 32 (ofLe (m.load (a + 2) 2)) ∧
      word m address &&& 0xFFFF = BitVec.ofNat 32 (ofLe (m.load a 2)) := by
  have hlow := ofLe_load_two_lt m a
  have hhigh := ofLe_load_two_lt m (a + 2)
  rw [word, ha, ofLe_load_four]
  constructor
  · refine BitVec.eq_of_toNat_eq ?_
    rw [BitVec.toNat_ushiftRight, BitVec.toNat_ofNat, BitVec.toNat_ofNat, Nat.shiftRight_eq_div_pow]
    omega
  · refine BitVec.eq_of_toNat_eq ?_
    rw [BitVec.toNat_and, BitVec.toNat_ofNat, BitVec.toNat_ofNat]
    show _ &&& (2 ^ 16 - 1) = _
    rw [Nat.and_two_pow_sub_one_eq_mod]
    omega

/-- The test of the second bit, on naturals. -/
theorem and_two_ne_zero (x : BitVec 32) : x &&& 2 ≠ 0 ↔ x.toNat / 2 % 2 = 1 := by
  rw [Ne, ← BitVec.toNat_inj, BitVec.toNat_and]
  show ¬x.toNat &&& 2 ^ 1 = 0 ↔ _
  rw [Nat.and_two_pow, Nat.toNat_testBit]
  omega

/-- A raw buffer ignores the low bits that the shader masks off. -/
theorem toNat_and_not_three (x : BitVec 32) : (x &&& ~~~3).toNat / 4 * 4 = x.toNat / 4 * 4 := by
  have hshift : (x &&& ~~~3) >>> 2 = x >>> 2 := by
    ext i hi
    interval_cases i <;> simp
  have hquotient := congrArg BitVec.toNat hshift
  rw [BitVec.toNat_ushiftRight, BitVec.toNat_ushiftRight, Nat.shiftRight_eq_div_pow,
    Nat.shiftRight_eq_div_pow] at hquotient
  omega

/-! ### The two ways to the index -/

/-- The buffers of a draw: guest memory alone, or with an asset arena that agrees with it. -/
def Faithful (s : Streams) : Prop := s.direct = true ∨ ∃ p : Pack, p.WellFormed ∧ s.Sound p

/-- A load through a faithful stream is the guest's word. -/
theorem rawStreamLoad_eq {s : Streams} (hs : Faithful s) (address slot : BitVec 32) :
    s.rawStreamLoad address slot = word s.guest address := by
  rcases hs with hdirect | ⟨p, hp, hsound⟩
  · rw [Streams.rawStreamLoad, Streams.redirect]
    rw [if_neg fun h => absurd (hdirect.symm.trans h.1) (by decide)]
  · exact Streams.redirect_eq hp hsound fun b e he hc => he.word_zero hp hc (by decide)

/-- A 32-bit index is a word of its own; a 16-bit one is half of the word that is loaded, which
half the address says. -/
theorem guestIndex_eq {s : Streams} (hs : Faithful s) {root : RootConstants} {format : IndexFormat}
    {endian : Endian} (hformat : root.indexFormat = if format = .int32 then 1 else 0)
    (hendian : root.indexEndian = endian.code) (hsupported : format.Supported endian) {k base : ℕ}
    (hbase : root.indexBaseBytes.toNat = base) (haligned : format.width ∣ base)
    (hk : base + k * format.width + format.width ≤ bufferSize) :
    guestIndex s root (BitVec.ofNat 32 k) =
      swapWith (BitVec.ofNat 32 (ofLe (s.guest.load (base + k * format.width) format.width)))
        root.indexEndian := by
  rw [bufferSize] at hk
  rw [guestIndex]
  cases format with
  | int32 =>
      have hk : base + k * 4 + 4 ≤ 0x20000000 := hk
      have haligned : 4 ∣ base := haligned
      have haddress : (root.indexBaseBytes + BitVec.ofNat 32 k * 4).toNat = base + k * 4 := by
        rw [BitVec.toNat_add, BitVec.toNat_mul, BitVec.toNat_ofNat, hbase]
        show (base + k % 2 ^ 32 * 4 % 2 ^ 32) % 2 ^ 32 = _
        omega
      rw [if_pos (hformat.trans (if_pos rfl)), rawStreamLoad_eq hs, word, haddress]
      rw [show (base + k * 4) / 4 * 4 = base + k * 4 by omega]
      rfl
  | int16 =>
      have hk : base + k * 2 + 2 ≤ 0x20000000 := hk
      have haligned : 2 ∣ base := haligned
      have hendian : root.indexEndian = 0 ∨ root.indexEndian = 1 := by
        rw [hendian]
        rcases hsupported with ⟨-, rfl | rfl⟩ | ⟨hformat, -⟩
        · exact .inl rfl
        · exact .inr rfl
        · cases hformat
      have haddress : (root.indexBaseBytes + BitVec.ofNat 32 k * 2).toNat = base + k * 2 := by
        rw [BitVec.toNat_add, BitVec.toNat_mul, BitVec.toNat_ofNat, hbase]
        show (base + k % 2 ^ 32 * 2 % 2 ^ 32) % 2 ^ 32 = _
        omega
      have hformat : root.indexFormat ≠ 1 := by
        rw [hformat]
        decide
      rw [if_neg hformat]
      simp only [rawStreamLoad_eq hs]
      generalize haddr : root.indexBaseBytes + BitVec.ofNat 32 k * 2 = address at *
      obtain ⟨hhigh, hlow⟩ := word_halves s.guest (toNat_and_not_three address)
      obtain ⟨hswapHigh, hswapLow⟩ := swapLane_halves hendian (word s.guest (address &&& ~~~3))
      rw [haddress] at hhigh hlow
      by_cases hhalf : address &&& 2 ≠ 0
      · rw [if_pos hhalf]
        have hplace := (and_two_ne_zero address).1 hhalf
        rw [haddress] at hplace
        rw [show (base + k * 2) / 4 * 4 + 2 = base + k * 2 by omega] at hhigh
        exact hswapHigh.symm.trans (congrArg (swapWith · root.indexEndian) hhigh)
      · rw [if_neg hhalf]
        have hplace := mt (and_two_ne_zero address).2 hhalf
        rw [haddress] at hplace
        rw [show (base + k * 2) / 4 * 4 = base + k * 2 by omega] at hlow
        exact hswapLow.symm.trans (congrArg (swapWith · root.indexEndian) hlow)

namespace IssuedDraw

variable {d : IssuedDraw}

/-- A draw is eligible exactly when its index buffer and its context meet the conditions of the
source. -/
theorem eligible_iff : d.eligible = true ↔
    ∃ info, d.indexBufferInfo = some info ∧ d.EligibleWith info := by
  rw [eligible]
  cases h : d.indexBufferInfo with
  | none => simp
  | some info => simp

/-- What an eligible draw says about its indices. -/
structure Indices (d : IssuedDraw) : Prop where
  indexed : d.indexed = true
  supported : d.indexFormat.Supported d.indexEndian
  list : d.primitiveType = .triangleList
  base_ne : d.indexGuestBase ≠ 0
  aligned : d.indexFormat.width ∣ d.indexGuestBase.toNat
  inside : d.indexGuestBase.toNat + d.indexBytes ≤ bufferSize
  base_lt : d.indexGuestBase.toNat < bufferSize

/-- An eligible draw has indices to read: its buffer is in memory, aligned, and as long as the count
asks for. -/
theorem indices (h : d.eligible = true) : d.Indices := by
  obtain ⟨info, -, hindexed, hsupported, -, hlist, -, -, -, -, -, -, -, -, -, -, -, -, hbase, haligned, hlt,
    hbytes, -⟩ := eligible_iff.1 h
  refine ⟨hindexed, hsupported, hlist, hbase, ?_, by omega, hlt⟩
  have hmask := congrArg BitVec.toNat haligned
  rw [BitVec.toNat_and] at hmask
  cases hformat : d.indexFormat with
  | int16 =>
      rw [hformat] at hmask
      have hmask : d.indexGuestBase.toNat &&& (2 ^ 1 - 1) = 0 := hmask
      rw [Nat.and_two_pow_sub_one_eq_mod] at hmask
      exact Nat.dvd_of_mod_eq_zero hmask
  | int32 =>
      rw [hformat] at hmask
      have hmask : d.indexGuestBase.toNat &&& (2 ^ 2 - 1) = 0 := hmask
      rw [Nat.and_two_pow_sub_one_eq_mod] at hmask
      exact Nat.dvd_of_mod_eq_zero hmask

/-- The constants of an eligible draw. -/
def root (d : IssuedDraw) (regs : IndexRegisters) (hardwareIndices : Bool) : RootConstants :=
  ⟨if hardwareIndices then 4 else 0, regs.indexOffset, regs.minIndx, regs.maxIndx, d.indexGuestBase,
    if d.indexFormat = .int32 then 1 else 0, d.indexEndian.code⟩

def args (d : IssuedDraw) (hardwareIndices : Bool) : DrawArgs :=
  ⟨true, hardwareIndices, d.indexCount, BitVec.ofNat 32 d.indexBytes⟩

/-- It is not refused, with either kind of indices. -/
theorem prepareGeometry_eligible (h : d.eligible = true) (regs : IndexRegisters) (hardwareIndices : Bool) :
    prepareGeometry (d.nativeContext hardwareIndices) regs =
      .ok (d.root regs hardwareIndices, d.args hardwareIndices) := by
  obtain ⟨hindexed, -, hlist, hbase, -, hinside, -⟩ := indices h
  have hbuffer : indexBuffer (d.nativeContext hardwareIndices) =
      .ok (d.indexGuestBase, if d.indexFormat = .int32 then 1 else 0, d.indexEndian.code,
        BitVec.ofNat 32 d.indexBytes) := by
    have hbytes : (d.nativeContext hardwareIndices).indexCount.toNat *
        (if (if (d.nativeContext hardwareIndices).indexFormat = .int32 then (1 : BitVec 32) else 0) ≠ 0
          then 4 else 2) = d.indexBytes := by
      rw [indexBytes]
      show d.indexCount.toNat * (if (if d.indexFormat = .int32 then (1 : BitVec 32) else 0) ≠ 0
        then 4 else 2) = _
      cases d.indexFormat <;> rfl
    rw [bufferSize] at hinside
    rw [indexBuffer, if_pos (show (d.nativeContext hardwareIndices).indexed = true from hindexed),
      if_neg (show (d.nativeContext hardwareIndices).indexGuestBase ≠ 0 from hbase)]
    dsimp only
    rw [hbytes, if_neg (by omega)]
    rfl
  have hexpand : expandPrimitives (d.nativeContext hardwareIndices) =
      .ok (if hardwareIndices then 4 else 0, d.indexCount) := by
    rw [expandPrimitives]
    simp only [nativeContext, hlist, h, Bool.true_and]
  rw [prepareGeometry, hbuffer, hexpand]
  simp only [nativeContext, hlist, h, Bool.true_and]
  rfl

end IssuedDraw

/-- The view holds every index of an eligible draw. -/
theorem fetch_eligible {d : IssuedDraw} (h : d.eligible = true) (m : Bytes) (regs : IndexRegisters) {k : ℕ}
    (hk : k < d.indexCount.toNat) :
    vertexId m (d.root regs true) (d.args true) k =
      BitVec.ofNat 32 (ofLe (m.load (d.indexGuestBase.toNat + k * d.indexFormat.width)
        d.indexFormat.width)) := by
  have hinside := (IssuedDraw.indices h).inside
  have hwidth : (indexView (d.root regs true) (d.args true)).width = d.indexFormat.width := by
    rw [indexView, IssuedDraw.root]
    cases d.indexFormat <;> rfl
  have hsize : (indexView (d.root regs true) (d.args true)).sizeInBytes = d.indexBytes := by
    rw [bufferSize] at hinside
    show (BitVec.ofNat 32 d.indexBytes).toNat = _
    rw [BitVec.toNat_ofNat, Nat.mod_eq_of_lt (by omega)]
  have hfits : (k + 1) * d.indexFormat.width ≤ d.indexBytes := Nat.mul_le_mul_right _ hk
  have huse : (d.args true).useHardwareIndices = true := rfl
  rw [vertexId, if_pos huse, IndexBufferView.fetch, hwidth, hsize, if_pos hfits]
  rfl

/-- **Hardware indices.**  An eligible draw is prepared with or without them, over as many
vertices, and for any memory, offset and clamp both ways give vertex `k` the same vertex index. -/
theorem hardwareIndices_eq (d : IssuedDraw) (regs : IndexRegisters) (s : Streams) (h : d.eligible = true)
    (hs : Faithful s) :
    ∃ hardware manual : RootConstants × DrawArgs,
      prepareGeometry (d.nativeContext true) regs = .ok hardware ∧
      prepareGeometry (d.nativeContext false) regs = .ok manual ∧
      hardware.2.useHardwareIndices = true ∧ manual.2.useHardwareIndices = false ∧
      hardware.2.hostVertexCount = d.indexCount ∧ manual.2.hostVertexCount = d.indexCount ∧
      ∀ k < d.indexCount.toNat,
        vertexIndex s hardware.1 (vertexId s.guest hardware.1 hardware.2 k) =
          vertexIndex s manual.1 (vertexId s.guest manual.1 manual.2 k) := by
  refine ⟨_, _, IssuedDraw.prepareGeometry_eligible h regs true,
    IssuedDraw.prepareGeometry_eligible h regs false, rfl, rfl, rfl, rfl, fun k hk => ?_⟩
  have hi := IssuedDraw.indices h
  have hinside := hi.inside
  have hlast : k * d.indexFormat.width + d.indexFormat.width ≤ d.indexBytes := by
    rw [← Nat.succ_mul]
    exact Nat.mul_le_mul_right _ hk
  have hbase : (d.root regs false).indexBaseBytes ≠ notIndexed := by
    intro heq
    have hlt := hi.base_lt
    have heq : d.indexGuestBase = notIndexed := heq
    rw [heq] at hlt
    exact absurd hlt (by decide)
  have hmode : ¬(d.root regs false).primitiveMode = 4 := show ¬(0 : BitVec 32) = 4 by decide
  have hlimit : (d.root regs false).indexBaseBytes.toNat + k * d.indexFormat.width +
      d.indexFormat.width ≤ bufferSize := by
    show d.indexGuestBase.toNat + _ + _ ≤ _
    omega
  have hmanual : guestIndex s (d.root regs false) (BitVec.ofNat 32 k) = _ :=
    guestIndex_eq hs rfl rfl hi.supported rfl hi.aligned hlimit
  dsimp only
  rw [fetch_eligible h s.guest regs hk]
  show remap (d.root regs true) (swapWith _ d.indexEndian.code) = _
  rw [vertexIndex, if_neg hmode, if_pos hbase]
  show _ = remap (d.root regs false) (guestIndex s (d.root regs false) (BitVec.ofNat 32 k))
  rw [hmanual]
  rfl

/-- A draw of three big-endian 16-bit indices, the first of them in the upper half of a word. -/
def threeIndices : IssuedDraw where
  primitiveType := .triangleList
  indexCount := 3
  indexBufferInfo := some ⟨.int16, .swap8in16, 3, 0x1002, 6⟩
  sourceSelectDMA := true
  processed := ⟨.triangleList, .triangleList, true, false, false, .guestDMA, 3, 3, 0x1002, .int16, .swap8in16⟩

/-- Guest memory read directly. -/
def directStreams (m : Bytes) : Streams := ⟨true, m, m, fun _ => .empty⟩

/-- The hypotheses are satisfiable: a draw of three indices, with the hardware's index buffer and
without it. -/
theorem hardwareIndices_eq_three :
    ∃ hardware manual : RootConstants × DrawArgs,
      prepareGeometry (threeIndices.nativeContext true) ⟨0, 0, 0xFFFFFF⟩ = .ok hardware ∧
      prepareGeometry (threeIndices.nativeContext false) ⟨0, 0, 0xFFFFFF⟩ = .ok manual ∧
      hardware.2.useHardwareIndices = true ∧ manual.2.useHardwareIndices = false ∧
      hardware.2.hostVertexCount = 3 ∧ manual.2.hostVertexCount = 3 ∧
      ∀ k < 3, vertexIndex (directStreams fun a => UInt8.ofNat a) hardware.1
          (vertexId (fun a => UInt8.ofNat a) hardware.1 hardware.2 k) =
        vertexIndex (directStreams fun a => UInt8.ofNat a) manual.1
          (vertexId (fun a => UInt8.ofNat a) manual.1 manual.2 k) :=
  hardwareIndices_eq threeIndices ⟨0, 0, 0xFFFFFF⟩ (directStreams fun a => UInt8.ofNat a) (by decide)
    (.inl rfl)

end Prelude
end BoltsRebuilt
