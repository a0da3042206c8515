/-
# Reading vertices from the asset arena

`NativeAssetCache::Resolve` in `src/gpu/native/native_asset_cache.cpp` (lines
246–307) compares a guest range with the entries of the pack, and `AssetContains`,
`RawStreamLoad`, `RawStreamLoad2` and `RawStreamLoadN` in
`src/gpu/native/shaders/prelude.hlsl` (lines 95–138) send the loads inside a matched
range to the arena.  Addresses in the shader are 32-bit and wrap.

`Pack.resolve` is the part of `Resolve` that decides an answer from the snapshot of
the range; which snapshot that is, and how long the answer is kept, is the subject of
the module on the cache itself.

A raw buffer holds words: it ignores the low two bits of a load's address, and reads
zero past its end.  The loads of one draw are those of the vertex formats
(`FORMAT_FETCH` in `tools/ucode2hlsl.py`) and of the index stream.
-/

import BoltsRebuilt.Assets.Pack
import Mathlib.Data.BitVec

namespace BoltsRebuilt
namespace Assets

/-- `NativeAssetCache::Binding`, and the `uint4` the shader sees. -/
structure Binding where
  guestBase : BitVec 32
  byteLength : BitVec 32
  assetOffset : BitVec 32
  enabled : BitVec 32
deriving DecidableEq, Repr

/-- The binding `{}`. -/
def Binding.empty : Binding := ⟨0, 0, 0, 0⟩

/-- `NB_MAX_VERTEX_STREAMS`. -/
def maxVertexStreams : ℕ := 16

/-! ### The binding of a range -/

namespace Pack

/-- `lengths.contains`. -/
def knowsLength (p : Pack) (length : ℕ) : Bool := p.entries.any fun e => e.length = length

/-- `candidates`: the entries of a length and a fingerprint, in the order of the table. -/
def candidates (p : Pack) (length print : ℕ) : List Entry :=
  p.entries.filter fun e => e.length = length ∧ e.fingerprint = print

/-- The first candidate whose bytes are those of the snapshot. -/
def find (p : Pack) (snapshot : List UInt8) : Option Entry :=
  (p.candidates snapshot.length (fingerprint snapshot)).find? fun e =>
    snapshot = slice p.bytes e.offset snapshot.length

/-- The ranges `Resolve` does not refuse outright. -/
def Resolvable (p : Pack) (base length : BitVec 32) : Prop :=
  length ≠ 0 ∧ base &&& 3 = 0 ∧ base.toNat < physicalBytes ∧
    length.toNat ≤ physicalBytes - base.toNat ∧ p.knowsLength length.toNat = true

instance (p : Pack) (base length : BitVec 32) : Decidable (p.Resolvable base length) :=
  inferInstanceAs (Decidable (_ ∧ _ ∧ _ ∧ _ ∧ _))

/-- The answer for a snapshot of the range. -/
def answer (p : Pack) (base length : BitVec 32) (snapshot : List UInt8) : Binding :=
  match p.find snapshot with
  | some e => ⟨base, length, BitVec.ofNat 32 e.offset, 1⟩
  | none => .empty

/-- `Resolve`, for a snapshot of the range. -/
def resolve (p : Pack) (base length : BitVec 32) (snapshot : List UInt8) : Binding :=
  if p.Resolvable base length then p.answer base length snapshot else .empty

/-- The arena: the data rounded up to words. -/
def arenaBytes (p : Pack) : List UInt8 :=
  p.bytes ++ List.replicate ((p.bytes.length + 3) / 4 * 4 - p.bytes.length) 0

/-- What the shader reads at each byte of the arena. -/
def arena (p : Pack) : Bytes := fun i => p.arenaBytes.getD i 0

end Pack

/-! ### The shader -/

/-- `AssetContains`. -/
def assetContains (binding : Binding) (address length : BitVec 32) : Bool :=
  binding.enabled ≠ 0 && address ≥ binding.guestBase && length ≤ binding.byteLength &&
    address - binding.guestBase ≤ binding.byteLength - length

/-- `Load` of a raw buffer. -/
def word (m : Bytes) (address : BitVec 32) : BitVec 32 :=
  BitVec.ofNat 32 (ofLe (m.load (address.toNat / 4 * 4) 4))

/-- A `uint4`. -/
structure Words where
  x : BitVec 32
  y : BitVec 32
  z : BitVec 32
  w : BitVec 32
deriving DecidableEq, Repr

/-- `Load2` of a raw buffer. -/
def word2 (m : Bytes) (address : BitVec 32) : Words := ⟨word m address, word m (address + 4), 0, 0⟩

/-- The loads of either branch of `RawStreamLoadN`. -/
def wordN (m : Bytes) (address count : BitVec 32) : Words where
  x := word m address
  y := if count > 1 then word m (address + 4) else 0
  z := if count > 2 then word m (address + 8) else 0
  w := if count > 3 then word m (address + 12) else 0

/-- What a draw binds: the two buffers and `asset_bindings`, the last of them for the
indices.  `direct` is `NB_DIRECT_GUEST_READS`. -/
structure Streams where
  direct : Bool
  guest : Bytes
  asset : Bytes
  bindings : Fin (maxVertexStreams + 1) → Binding

namespace Streams

/-- `AssetBinding`. -/
def assetBinding (s : Streams) (slot : BitVec 32) : Binding :=
  if h : slot.toNat ≤ maxVertexStreams then s.bindings ⟨slot.toNat, Nat.lt_succ_of_le h⟩ else .empty

/-- Which of the two buffers a load goes to, and the address there. -/
def redirect {α : Type} (s : Streams) (load : Bytes → BitVec 32 → α)
    (address width slot : BitVec 32) : α :=
  let binding := s.assetBinding slot
  if s.direct = false ∧ assetContains binding address width = true then
    load s.asset (binding.assetOffset + (address - binding.guestBase))
  else
    load s.guest address

/-- `RawStreamLoad`. -/
def rawStreamLoad (s : Streams) (address slot : BitVec 32) : BitVec 32 :=
  s.redirect word address 4 slot

/-- `RawStreamLoad2`. -/
def rawStreamLoad2 (s : Streams) (address slot : BitVec 32) : Words :=
  s.redirect word2 address 8 slot

/-- `RawStreamLoadN`. -/
def rawStreamLoadN (s : Streams) (address count slot : BitVec 32) : Words :=
  s.redirect (fun m a => wordN m a count) address (count * 4) slot

end Streams

/-- How a decoder of the prelude reads its stream. -/
inductive StreamRead where
  | load
  | load2
  | loadN (count : BitVec 32)
deriving DecidableEq, Repr

/-- `FORMAT_FETCH`, with the reads of the decoder it names. -/
def formatFetch : List (String × StreamRead) :=
  [("FMT_32_FLOAT", .loadN 1), ("FMT_32_32_FLOAT", .loadN 2), ("FMT_32_32_32_FLOAT", .loadN 3),
    ("FMT_32_32_32_32_FLOAT", .loadN 4), ("FMT_16_16_FLOAT", .load),
    ("FMT_16_16_16_16_FLOAT", .load2), ("FMT_2_10_10_10", .load), ("FMT_8_8_8_8", .load),
    ("FMT_16_16", .load), ("FMT_16_16_16_16", .load2), ("FMT_11_11_10", .load),
    ("FMT_10_11_11", .load), ("FMT_32", .loadN 1), ("FMT_32_32", .loadN 2),
    ("FMT_32_32_32_32", .loadN 4)]

/-- `GuestIndex` reads one word. -/
def indexRead : StreamRead := .load

/-- The reads a shader performs. -/
def shaderReads : List StreamRead := indexRead :: formatFetch.map Prod.snd

namespace StreamRead

/-- The words of a read of one buffer. -/
def words (m : Bytes) (address : BitVec 32) : StreamRead → Words
  | load => ⟨word m address, 0, 0, 0⟩
  | load2 => word2 m address
  | loadN count => wordN m address count

/-- The words of a read of a stream. -/
def streamWords (s : Streams) (address slot : BitVec 32) : StreamRead → Words
  | load => ⟨s.rawStreamLoad address slot, 0, 0, 0⟩
  | load2 => s.rawStreamLoad2 address slot
  | loadN count => s.rawStreamLoadN address count slot

end StreamRead

/-! ### A matched range -/

/-- What makes a binding right: its guest range holds the bytes of one entry. -/
structure Matched (p : Pack) (memory : Bytes) (b : Binding) (e : Entry) : Prop where
  entry : e ∈ p.entries
  aligned : 4 ∣ b.guestBase.toNat
  bounded : b.guestBase.toNat + b.byteLength.toNat ≤ physicalBytes
  length : e.length = b.byteLength.toNat
  offset : b.assetOffset.toNat = e.offset
  same : memory.load b.guestBase.toNat b.byteLength.toNat = p.raw e

variable {p : Pack} {memory : Bytes} {b : Binding} {e : Entry} {address width : BitVec 32}

/-- `AssetContains` accepts exactly the loads inside the guest range: nothing in it
wraps. -/
theorem assetContains_iff {b : Binding} {address width : BitVec 32} :
    assetContains b address width = true ↔ b.enabled ≠ 0 ∧ b.guestBase.toNat ≤ address.toNat ∧
      address.toNat + width.toNat ≤ b.guestBase.toNat + b.byteLength.toNat := by
  simp only [assetContains, Bool.and_eq_true, decide_eq_true_eq, ge_iff_le, and_assoc]
  refine and_congr_right fun _ => ?_
  constructor
  · rintro ⟨hbase, hlength, hinside⟩
    rw [BitVec.le_def, BitVec.toNat_sub_of_le hbase, BitVec.toNat_sub_of_le hlength] at hinside
    rw [BitVec.le_def] at hbase hlength
    omega
  · rintro ⟨hbase, hstop⟩
    have hb : b.guestBase ≤ address := BitVec.le_def.2 hbase
    have hl : width ≤ b.byteLength := BitVec.le_def.2 (by omega)
    refine ⟨hb, hl, ?_⟩
    rw [BitVec.le_def, BitVec.toNat_sub_of_le hb, BitVec.toNat_sub_of_le hl]
    omega

/-- An entry that was found has the length of the snapshot and its bytes. -/
theorem find_spec {snapshot : List UInt8} (h : p.find snapshot = some e) :
    e ∈ p.entries ∧ e.length = snapshot.length ∧ snapshot = p.raw e := by
  have hmem := List.mem_of_find?_eq_some h
  have hbytes := List.find?_some h
  simp only [Pack.candidates, List.mem_filter, decide_eq_true_eq] at hmem hbytes
  exact ⟨hmem.1, hmem.2.1, by rw [Pack.raw, hmem.2.1]; exact hbytes⟩

/-- An address with its two low bits clear is a multiple of four. -/
theorem and_three_eq_zero {x : BitVec 32} (h : x &&& 3 = 0) : 4 ∣ x.toNat := by
  have hx := congrArg BitVec.toNat h
  rw [BitVec.toNat_and] at hx
  have hmask : x.toNat &&& (2 ^ 2 - 1) = x.toNat % 2 ^ 2 := Nat.and_two_pow_sub_one_eq_mod _ 2
  exact Nat.dvd_of_mod_eq_zero (hmask.symm.trans hx)

/-- An enabled answer is a match with the snapshot. -/
theorem matched_of_resolve (hp : p.WellFormed) {base length : BitVec 32}
    (h : (p.resolve base length (memory.load base.toNat length.toNat)).enabled ≠ 0) :
    ∃ e, p.resolve base length (memory.load base.toNat length.toNat) =
        ⟨base, length, BitVec.ofNat 32 e.offset, 1⟩ ∧
      Matched p memory ⟨base, length, BitVec.ofNat 32 e.offset, 1⟩ e := by
  rw [Pack.resolve] at h ⊢
  split at h
  next hr =>
    rw [if_pos hr]
    rw [Pack.answer] at h ⊢
    split at h
    next e he =>
      obtain ⟨hmem, hlength, hsame⟩ := find_spec he
      rw [Bytes.length_load] at hlength
      obtain ⟨-, halign, hbase, hbound, -⟩ := hr
      have hin := hp.inside e hmem
      have hsize := hp.bounded
      refine ⟨e, rfl, ?_⟩
      exact
        { entry := hmem
          aligned := and_three_eq_zero halign
          bounded := by dsimp only; omega
          length := hlength
          offset := by
            dsimp only
            rw [BitVec.toNat_ofNat, Nat.mod_eq_of_lt]
            simp only [Entry.stop, physicalBytes] at hin hsize
            omega
          same := hsame }
    next => exact absurd rfl h
  next => exact absurd rfl h

/-- An arena byte of an entry is the byte of the pack. -/
theorem arena_eq {i : ℕ} (hi : i < p.bytes.length) : p.arena i = p.bytes[i] := by
  rw [Pack.arena, Pack.arenaBytes, List.getD_eq_getElem?_getD, List.getElem?_append_left hi,
    List.getElem?_eq_getElem hi, Option.getD_some]

namespace Matched

variable (hp : p.WellFormed) (h : Matched p memory b e)

include hp h

/-- The bytes of the guest range are those of the entry, one by one. -/
theorem byte {i : ℕ} (hi : i < b.byteLength.toNat) :
    p.arena (e.offset + i) = memory (b.guestBase.toNat + i) := by
  have hin := hp.inside e h.entry
  have hlen := h.length
  have hlt : e.offset + i < p.bytes.length := by
    rw [Entry.stop] at hin
    omega
  have hsame := congrArg (fun l => l[i]?) h.same
  simp only [Pack.raw, slice, Bytes.load] at hsame
  rw [List.getElem?_take_of_lt (by omega), List.getElem?_drop, List.getElem?_eq_getElem hlt,
    List.getElem?_map, List.getElem?_range hi] at hsame
  rw [arena_eq hlt]
  exact (Option.some.inj hsame).symm

/-- Where a redirected load goes: inside the entry, as far from its start as the load is
from the start of the guest range. -/
theorem source (hc : assetContains b address width = true) :
    (b.assetOffset + (address - b.guestBase)).toNat =
        e.offset + (address.toNat - b.guestBase.toNat) ∧
      e.offset + (address.toNat - b.guestBase.toNat) + width.toNat ≤ e.stop := by
  obtain ⟨-, hbase, hstop⟩ := assetContains_iff.1 hc
  have hin := hp.inside e h.entry
  have hsize := hp.bounded
  have hlen := h.length
  have hoff := h.offset
  simp only [Entry.stop, physicalBytes] at hin hsize ⊢
  refine ⟨?_, by omega⟩
  rw [BitVec.toNat_add, BitVec.toNat_sub_of_le (BitVec.le_def.2 hbase), hoff]
  exact Nat.mod_eq_of_lt (by omega)

/-- A redirected load reads the bytes it would have read from guest memory. -/
theorem load (hc : assetContains b address width = true) :
    p.arena.load (b.assetOffset + (address - b.guestBase)).toNat width.toNat =
      memory.load address.toNat width.toNat := by
  obtain ⟨hsource, -⟩ := h.source hp hc
  obtain ⟨-, hbase, hstop⟩ := assetContains_iff.1 hc
  rw [hsource]
  refine List.map_congr_left fun i hi => ?_
  rw [List.mem_range] at hi
  have hbyte := h.byte hp (i := address.toNat - b.guestBase.toNat + i) (by omega)
  rw [← Nat.add_assoc, ← Nat.add_assoc, Nat.add_sub_cancel' hbase] at hbyte
  exact hbyte

/-- So does each of its words, `k` bytes on. -/
theorem word (hc : assetContains b address width = true) {k : BitVec 32}
    (hk : k.toNat + 4 ≤ width.toNat) :
    word p.arena (b.assetOffset + (address - b.guestBase) + k) = word memory (address + k) := by
  obtain ⟨hsource, hinside⟩ := h.source hp hc
  obtain ⟨-, hbase, hstop⟩ := assetContains_iff.1 hc
  have hin := hp.inside e h.entry
  have hsize := hp.bounded
  have hbound := h.bounded
  obtain ⟨u, hu⟩ := hp.aligned e h.entry
  obtain ⟨v, hv⟩ := h.aligned
  simp only [Entry.stop, physicalBytes] at hin hsize hbound hinside
  have hfrom : (b.assetOffset + (address - b.guestBase) + k).toNat =
      e.offset + (address.toNat - b.guestBase.toNat) + k.toNat := by
    rw [BitVec.toNat_add, hsource]
    exact Nat.mod_eq_of_lt (by omega)
  have hto : (address + k).toNat = address.toNat + k.toNat := by
    rw [BitVec.toNat_add]
    exact Nat.mod_eq_of_lt (by omega)
  rw [Assets.word, Assets.word, hfrom, hto]
  -- both starts are multiples of four, so both words start at the same distance
  have hdown : (e.offset + (address.toNat - b.guestBase.toNat) + k.toNat) / 4 * 4 =
      e.offset + ((address.toNat + k.toNat) / 4 * 4 - b.guestBase.toNat) := by
    omega
  congr 2
  refine List.map_congr_left fun i hi => ?_
  rw [List.mem_range] at hi
  have hbyte := h.byte hp (i := (address.toNat + k.toNat) / 4 * 4 - b.guestBase.toNat + i) (by omega)
  rw [hdown, Nat.add_assoc, hbyte]
  congr 1
  omega

/-- All the words of a read of the stream. -/
theorem word_zero (hc : assetContains b address width = true) (hk : 4 ≤ width.toNat) :
    Assets.word p.arena (b.assetOffset + (address - b.guestBase)) = Assets.word memory address := by
  have h0 := h.word hp hc (k := 0#32) (by simpa using hk)
  rwa [BitVec.add_zero, BitVec.add_zero] at h0

/-- Two words of the arena are those of memory, inside the binding. -/
theorem word2 (hc : assetContains b address 8 = true) :
    word2 p.arena (b.assetOffset + (address - b.guestBase)) = word2 memory address := by
  rw [Assets.word2, Assets.word2, h.word_zero hp hc (by decide), h.word hp hc (by decide)]

/-- And so are up to four words, each read where the binding maps its address. -/
theorem wordN {count : BitVec 32} (hpos : 0 < count) (hle : count ≤ 4)
    (hc : assetContains b address (count * 4) = true) :
    wordN p.arena (b.assetOffset + (address - b.guestBase)) count =
      wordN memory address count := by
  have hlo : 0 < count.toNat := BitVec.lt_def.1 hpos
  have hhi : count.toNat ≤ 4 := BitVec.le_def.1 hle
  have hwidth : (count * 4).toNat = count.toNat * 4 := by
    rw [BitVec.toNat_mul]
    exact Nat.mod_eq_of_lt (by show count.toNat * 4 < 2 ^ 32; omega)
  -- a lane is loaded only when the width covers it
  have lane : ∀ n k : BitVec 32, k.toNat = n.toNat * 4 →
      (if count > n then Assets.word p.arena (b.assetOffset + (address - b.guestBase) + k) else 0) =
        if count > n then Assets.word memory (address + k) else 0 := fun n k hk => by
    by_cases hn : count > n
    · have hlt : n.toNat < count.toNat := BitVec.lt_def.1 hn
      rw [if_pos hn, if_pos hn, h.word hp hc (by omega)]
    · rw [if_neg hn, if_neg hn]
  rw [Assets.wordN, Assets.wordN, h.word_zero hp hc (by omega), lane 1 4 rfl, lane 2 8 rfl,
    lane 3 12 rfl]

end Matched

/-! ### The draw -/

/-- The binding of a slot: empty, or what `Resolve` answered for a range whose snapshot
is what the range holds. -/
def Current (p : Pack) (memory : Bytes) (b : Binding) : Prop :=
  b = .empty ∨ ∃ base length : BitVec 32,
    b = p.resolve base length (memory.load base.toNat length.toNat)

/-- The empty binding contains no address. -/
theorem assetContains_empty : assetContains .empty address width = false := rfl

/-- A current binding that accepts a load is a match. -/
theorem Current.matched (hp : p.WellFormed) (h : Current p memory b)
    (hc : assetContains b address width = true) : ∃ e, Matched p memory b e := by
  rcases h with rfl | ⟨base, length, rfl⟩
  · rw [assetContains_empty] at hc
    exact absurd hc Bool.false_ne_true
  · obtain ⟨e, heq, he⟩ := matched_of_resolve hp (assetContains_iff.1 hc).1
    rw [heq]
    exact ⟨e, he⟩

namespace Streams

/-- A draw over an accepted pack: its arena is the pack's, its bindings are current. -/
structure Sound (s : Streams) (p : Pack) : Prop where
  asset : s.asset = p.arena
  current : ∀ i, Current p s.guest (s.bindings i)

variable {s : Streams} {slot : BitVec 32}

/-- The binding of a slot is current as long as the state is sound. -/
theorem Sound.assetBinding (h : s.Sound p) : Current p s.guest (s.assetBinding slot) := by
  rw [Streams.assetBinding]
  split
  · exact h.current _
  · exact .inl rfl

/-- A load that both buffers answer alike is not changed by the redirect. -/
theorem redirect_eq {α : Type} {load : Bytes → BitVec 32 → α} (hp : p.WellFormed) (h : s.Sound p)
    (hload : ∀ b e, Matched p s.guest b e → assetContains b address width = true →
      load p.arena (b.assetOffset + (address - b.guestBase)) = load s.guest address) :
    s.redirect load address width slot = load s.guest address := by
  rw [redirect]
  split
  next hc =>
    obtain ⟨e, he⟩ := h.assetBinding.matched hp hc.2
    rw [h.asset]
    exact hload _ e he hc.2
  next => rfl

end Streams

/-- Every read of a shader, from any slot and address, gets the words of guest memory. -/
theorem streamWords_eq {s : Streams} {slot : BitVec 32} {read : StreamRead} (hp : p.WellFormed)
    (h : s.Sound p) (hread : read ∈ shaderReads) :
    read.streamWords s address slot = read.words s.guest address := by
  cases read with
  | load =>
      have hload : s.rawStreamLoad address slot = word s.guest address :=
        Streams.redirect_eq hp h fun b e he hc => he.word_zero hp hc (by decide)
      rw [StreamRead.streamWords, hload]
      rfl
  | load2 => exact Streams.redirect_eq hp h fun b e he hc => he.word2 hp hc
  | loadN count =>
      have hcount : ∀ n, StreamRead.loadN n ∈ shaderReads → 0 < n ∧ n ≤ 4 := by
        simp [shaderReads, indexRead, formatFetch]
      obtain ⟨hpos, hle⟩ := hcount count hread
      rw [StreamRead.streamWords, Streams.rawStreamLoadN]
      exact Streams.redirect_eq hp h fun b e he hc => he.wordN hp hpos hle hc

/-- **Redirected loads are in bounds and exact.**  For a pack file the loader accepts, the
entries are aligned, in order, disjoint and cover the data up to zero padding.  A
binding resolved from it sends to the arena exactly the loads that lie inside the guest
range, so not one that straddles its end; such a load stays inside the bytes of one
entry and reads there what it would have read from guest memory.  In a draw with such
bindings every read of a shader gets the words guest memory has. -/
theorem assetRedirect_exact {sha256 : List UInt8 → Except String (List UInt8)} {file : List UInt8}
    {p : Pack} (h : loadPack sha256 file = .ok p) :
    p.WellFormed ∧
    (p.entries.Pairwise fun e e' => ∀ i, ¬(e.Covers i ∧ e'.Covers i)) ∧
    (∀ (memory : Bytes) (base length address width : BitVec 32),
      let b := p.resolve base length (memory.load base.toNat length.toNat)
      (assetContains b address width = true ↔ b.enabled ≠ 0 ∧ base.toNat ≤ address.toNat ∧
        address.toNat + width.toNat ≤ base.toNat + length.toNat) ∧
      (assetContains b address width = true →
        let source := (b.assetOffset + (address - b.guestBase)).toNat
        (∃ e ∈ p.entries, e.offset ≤ source ∧ source + width.toNat ≤ e.stop) ∧
        p.arena.load source width.toNat = memory.load address.toNat width.toNat)) ∧
    ∀ (s : Streams), s.Sound p → ∀ read ∈ shaderReads, ∀ address slot,
      read.streamWords s address slot = read.words s.guest address := by
  have hp := loadPack_wellFormed h
  refine ⟨hp, hp.disjoint, fun memory base length address width => ?_,
    fun s hs read hread address slot => streamWords_eq hp hs hread⟩
  have hmatch := @matched_of_resolve p memory hp base length
  dsimp only
  generalize p.resolve base length (memory.load base.toNat length.toNat) = b at hmatch ⊢
  rw [assetContains_iff]
  by_cases hb : b.enabled = 0
  · exact ⟨⟨fun hc => absurd hb hc.1, fun hc => absurd hb hc.1⟩, fun hc => absurd hb hc.1⟩
  · obtain ⟨e, rfl, he⟩ := hmatch hb
    refine ⟨.rfl, fun hc => ?_⟩
    have hcontains := assetContains_iff.2 hc
    obtain ⟨hsource, hinside⟩ := he.source hp hcontains
    refine ⟨⟨e, he.entry, ?_, ?_⟩, he.load hp hcontains⟩
    · rw [hsource]
      exact Nat.le_add_right _ _
    · rw [hsource]
      exact hinside

/-- The record of the four bytes 1, 2, 3, 4. -/
def sampleRow : List UInt8 :=
  le 8 0 ++ le 4 4 ++ le 4 1 ++ le 8 15847103502270979349 ++
    [159, 100, 167, 71, 225, 185, 127, 19, 31, 171, 182, 180, 71, 41, 108, 155, 111, 2, 1, 231,
      159, 179, 197, 53, 110, 108, 119, 232, 155, 106, 128, 106] ++ le 8 0

/-- The hashes of the sample's table and bytes. -/
def sampleHash (bytes : List UInt8) : Except String (List UInt8) :=
  if bytes = [1, 2, 3, 4] then .ok (slice sampleRow 24 32)
  else if bytes = sampleRow then
    .ok [192, 110, 65, 160, 253, 151, 98, 174, 133, 132, 255, 134, 32, 165, 62, 209, 101, 254, 182,
      73, 194, 39, 126, 24, 21, 147, 61, 83, 138, 229, 73, 87]
  else .error "SHA256 calculation failed"

/-- A pack of one asset. -/
def sampleFile : List UInt8 :=
  magic ++ le 4 1 ++ le 4 80 ++ le 4 1 ++ le 4 64 ++ le 8 80 ++ le 8 256 ++ le 8 4 ++
    (sampleHash sampleRow).toOption.getD [] ++ sampleRow ++ List.replicate 112 0 ++ [1, 2, 3, 4]

/-- What is loaded of it. -/
def samplePack : Pack := ⟨[1, 2, 3, 4], [⟨0, 4, 15847103502270979349⟩]⟩

/-- The sample file is accepted, with its one entry. -/
theorem loadPack_sampleFile : loadPack sampleHash sampleFile = .ok samplePack := by decide +kernel

/-- The record of an asset of kind 1. -/
def row (offset : ℕ) (bytes sha256 : List UInt8) : List UInt8 :=
  le 8 offset ++ le 4 bytes.length ++ le 4 1 ++ le 8 (fingerprint bytes) ++ sha256 ++ le 8 0

/-- The records of an asset of five bytes and, after three bytes of padding, one of eight. -/
def paddedRows : List UInt8 :=
  row 0 [1, 2, 3, 4, 5] [116, 248, 31, 225, 103, 217, 155, 76, 180, 29, 109, 12, 205, 168, 34, 120,
    202, 238, 159, 62, 47, 37, 213, 229, 163, 147, 111, 243, 220, 236, 96, 208] ++
  row 8 [6, 7, 8, 9, 10, 11, 12, 13] [132, 187, 79, 73, 55, 254, 203, 3, 113, 1, 66, 239, 213, 96, 209,
    117, 198, 112, 58, 80, 251, 104, 88, 41, 211, 64, 173, 50, 66, 176, 137, 108]

/-- The hashes of the table and of the bytes of the two assets. -/
def paddedHash (bytes : List UInt8) : Except String (List UInt8) :=
  if bytes = [1, 2, 3, 4, 5] then .ok (slice paddedRows 24 32)
  else if bytes = [6, 7, 8, 9, 10, 11, 12, 13] then .ok (slice paddedRows 88 32)
  else if bytes = paddedRows then
    .ok [186, 207, 89, 155, 110, 104, 168, 234, 183, 119, 216, 60, 172, 198, 162, 179, 254, 253, 244, 139,
      211, 49, 248, 246, 208, 249, 211, 166, 233, 182, 92, 248]
  else .error "SHA256 calculation failed"

/-- A pack of the two assets. -/
def paddedFile : List UInt8 :=
  magic ++ le 4 1 ++ le 4 80 ++ le 4 2 ++ le 4 64 ++ le 8 80 ++ le 8 256 ++ le 8 16 ++
    (paddedHash paddedRows).toOption.getD [] ++ paddedRows ++ List.replicate 48 0 ++
    [1, 2, 3, 4, 5, 0, 0, 0, 6, 7, 8, 9, 10, 11, 12, 13]

/-- What is loaded of it. -/
def paddedPack : Pack where
  bytes := [1, 2, 3, 4, 5, 0, 0, 0, 6, 7, 8, 9, 10, 11, 12, 13]
  entries := [⟨0, 5, 15144605812136826979⟩, ⟨8, 8, 15290375929457684501⟩]

/-- The padded file is accepted, with both of its entries. -/
theorem loadPack_paddedFile : loadPack paddedHash paddedFile = .ok paddedPack := by decide +kernel

/-- A guest memory with the second asset at address 4096. -/
def paddedMemory : Bytes := fun i => if 4096 ≤ i ∧ i < 4104 then UInt8.ofNat (i - 4090) else 255

/-- A draw that reads its streams through the binding of the asset. -/
def paddedStreams : Streams where
  direct := false
  guest := paddedMemory
  asset := paddedPack.arena
  bindings _ := paddedPack.resolve 4096 8 (paddedMemory.load 4096 8)

/-- The hypotheses are satisfiable: the binding of the second asset sends a load inside it to the
arena, keeps a load past its end in guest memory, and the words of both are those of guest memory. -/
theorem assetRedirect_exact_paddedFile :
    let b := paddedPack.resolve 4096 8 (paddedMemory.load 4096 8)
    paddedPack.WellFormed ∧ b = ⟨4096, 8, 8, 1⟩ ∧ assetContains b 4100 4 = true ∧
      assetContains b 4102 4 = false ∧ paddedPack.arena.load 12 4 = paddedMemory.load 4100 4 ∧
      StreamRead.load2.streamWords paddedStreams 4096 0 = StreamRead.load2.words paddedMemory 4096 := by
  intro b
  have hb : b = ⟨4096, 8, 8, 1⟩ := by decide +kernel
  obtain ⟨hwell, -, hloads, hstreams⟩ := assetRedirect_exact loadPack_paddedFile
  have hsound : paddedStreams.Sound paddedPack := ⟨rfl, fun _ => .inr ⟨4096, 8, rfl⟩⟩
  have hin : assetContains b 4100 4 = true := by rw [hb]; decide
  have hpast : assetContains b 4102 4 = false := by rw [hb]; decide
  have hload := ((hloads paddedMemory 4096 8 4100 4).2 hin).2
  have hsource : (b.assetOffset + (4100 - b.guestBase)).toNat = 12 := by rw [hb]; decide
  refine ⟨hwell, hb, hin, hpast, ?_, hstreams paddedStreams hsound .load2 (by decide) 4096 0⟩
  rw [← hsource]
  exact hload

end Assets
end BoltsRebuilt
