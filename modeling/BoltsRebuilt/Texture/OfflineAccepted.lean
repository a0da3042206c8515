/-
# What an accepted texture pack is

`Cache::Load` in `src/gpu/native/offline_texture_cache.cpp` (lines 84–125), on
every byte string.

`Layout` is what `ValidKey` checks, in numbers: its products are made in 64 bits
after each factor was bounded, so none wraps.  `Accepted` is what the loader has
then: the file after its header is the records one after the other, and records
with the same key and guest bytes have the same blocks.

The rounds of the loop keep the entries and the bytes before the offset together
(`Loaded`); the offset never passes the end, which is what keeps `bytes.size() -
offset` from wrapping and the reads of the next record inside.
-/

import BoltsRebuilt.Texture.OfflinePack
import Mathlib.Data.List.Pairwise

namespace BoltsRebuilt
namespace OfflineTexture

open Checked

/-! ### The layout of a record -/

namespace Key

/-- Bytes of a block of four by four texels. -/
def blockSize (k : Key) : ℕ := if k.format = 18 then 8 else 16

/-- Bytes of a row of blocks. -/
def rowBytes (k : Key) : ℕ := k.width.toNat / 4 * k.blockSize

/-- Rows of blocks. -/
def rows (k : Key) : ℕ := k.height.toNat / 4

/-- Bytes from a row to the next in the upload. -/
def rowPitch (k : Key) : ℕ := (k.rowBytes + 255) / 256 * 256

/-- The words of a key in the file. -/
def encode (k : Key) : List UInt8 :=
  le 4 k.width.toNat ++ le 4 k.height.toNat ++ le 4 k.format.toNat ++ le 4 k.endian.toNat ++
    le 4 k.tiled.toNat ++ le 4 k.pitch.toNat ++ le 4 k.guestBytes.toNat

/-- No block is larger than sixteen bytes. -/
theorem blockSize_le (k : Key) : k.blockSize ≤ 16 := by
  unfold blockSize
  split_ifs <;> decide

/-- A row fits its pitch, which is its size rounded up. -/
theorem rowBytes_le_rowPitch (k : Key) : k.rowBytes ≤ k.rowPitch := by
  unfold rowPitch
  omega

/-- The pitch is a multiple of 256 bytes. -/
theorem dvd_rowPitch (k : Key) : 256 ∣ k.rowPitch := Nat.dvd_mul_left ..

end Key

/-- What `ValidKey` checks. -/
structure Layout (k : Key) (payload : ℕ) : Prop where
  width : 0 < k.width.toNat ∧ k.width.toNat ≤ 8192 ∧ k.width.toNat % 4 = 0
  height : 0 < k.height.toNat ∧ k.height.toNat ≤ 8192 ∧ k.height.toNat % 4 = 0
  format : k.format = 18 ∨ k.format = 19 ∨ k.format = 20
  endian : k.endian.toNat ≤ 3
  tiled : k.tiled.toNat ≤ 1
  pitch : 0 < k.pitch.toNat ∧ k.pitch.toNat ≤ 16352 ∧ k.pitch.toNat % 32 = 0
  guestBytes : 0 < k.guestBytes.toNat ∧ k.guestBytes.toNat ≤ maxUploadBytes.toNat
  payload_eq : k.rows * k.rowBytes = payload
  fits : k.rows * k.rowPitch ≤ maxUploadBytes.toNat

/-- A row of an accepted layout is at most `2 ^ 15` bytes. -/
theorem Layout.rowBytes_le {k : Key} {payload : ℕ} (h : Layout k payload) : k.rowBytes ≤ 2 ^ 15 :=
  calc k.rowBytes ≤ 2048 * 16 := Nat.mul_le_mul (by have := h.width.2.1; omega) k.blockSize_le
    _ = 2 ^ 15 := by decide

/-- The products of `ValidKey` do not wrap, its factors having been checked before. -/
theorem toNat_products {c r s : UInt64} (hc : c.toNat ≤ 2048) (hr : r.toNat ≤ 2048) (hs : s.toNat ≤ 16) :
    (c * r * s).toNat = c.toNat * r.toNat * s.toNat ∧
      (((c * s + 255) &&& ~~~255) * r).toNat = (c.toNat * s.toNat + 255) / 256 * 256 * r.toNat := by
  have hcr : c.toNat * r.toNat ≤ 2048 * 2048 := Nat.mul_le_mul hc hr
  have hcs : c.toNat * s.toNat ≤ 2048 * 16 := Nat.mul_le_mul hc hs
  have hcrs : c.toNat * r.toNat * s.toNat ≤ 2048 * 2048 * 16 := Nat.mul_le_mul hcr hs
  have htight : (c * r).toNat = c.toNat * r.toNat := Bits.toNat_mul_of_lt (by omega)
  have hrow : (c * s).toNat = c.toNat * s.toNat := Bits.toNat_mul_of_lt (by omega)
  have hsum : (c * s + 255).toNat = c.toNat * s.toNat + 255 := by
    rw [Bits.toNat_add_of_lt (by rw [hrow]; simp; omega), hrow]
    rfl
  have hmask : ((c * s + 255) &&& ~~~255).toNat = (c.toNat * s.toNat + 255) / 256 * 256 := by
    rw [← hsum]
    exact Bits.toNat_and_not_low 8 (c * s + 255).toBitVec
  have hpitch : (c.toNat * s.toNat + 255) / 256 * 256 ≤ 2 ^ 16 := by omega
  have hproduct : (c.toNat * s.toNat + 255) / 256 * 256 * r.toNat ≤ 2 ^ 16 * 2048 :=
    Nat.mul_le_mul hpitch hr
  constructor
  · rw [Bits.toNat_mul_of_lt (by rw [htight]; omega), htight]
  · rw [Bits.toNat_mul_of_lt (by rw [hmask]; omega), hmask]

/-- **What `ValidKey` accepts** has a layout: sizes within their limits, and a payload of the size
they give. -/
theorem layout_of_validKey {k : Key} {blockBytes : UInt32} (h : validKey k blockBytes = true) :
    Layout k blockBytes.toNat := by
  have hsize : (if k.format = 18 then 8 else 16 : UInt64).toNat = k.blockSize := by
    unfold Key.blockSize
    split_ifs <;> rfl
  unfold validKey at h
  generalize (if k.format = 18 then 8 else 16 : UInt64) = size at h hsize
  split_ifs at h with hbad
  have hk := of_decide_eq_true h
  simp only [not_or, not_and_or, not_not, UInt32.not_lt, UInt64.not_lt, UInt32.le_iff_toNat_le,
    UInt64.le_iff_toNat_le, ← UInt32.toNat_inj, ← UInt64.toNat_inj, UInt32.toNat_mod,
    UInt32.toNat_toUInt64] at hbad hk
  obtain ⟨hwidth, hheight, hwidthMax, hheightMax, hwidthMod, hheightMod, hformat, hendian, htiled,
    hpitch, hpitchMod, hpitchMax, hguest, hguestMax⟩ := hbad
  obtain ⟨htight, hfits⟩ := hk
  have hcolumns : (k.width / 4).toUInt64.toNat = k.width.toNat / 4 := UInt32.toNat_div ..
  have hrows : (k.height / 4).toUInt64.toNat = k.rows := UInt32.toNat_div ..
  have hcolumnsMax : (k.width / 4).toUInt64.toNat ≤ 2048 := hcolumns ▸ Nat.div_le_div_right hwidthMax
  have hrowsMax : (k.height / 4).toUInt64.toNat ≤ 2048 := hrows ▸ Nat.div_le_div_right hheightMax
  obtain ⟨htightNat, hfitsNat⟩ := toNat_products hcolumnsMax hrowsMax (hsize ▸ k.blockSize_le)
  rw [htight, hcolumns, hrows, hsize] at htightNat
  rw [hfitsNat, hcolumns, hrows, hsize] at hfits
  exact {
    width := ⟨Nat.pos_of_ne_zero hwidth, hwidthMax, hwidthMod⟩
    height := ⟨Nat.pos_of_ne_zero hheight, hheightMax, hheightMod⟩
    format := hformat.imp UInt32.toNat_inj.1 (Or.imp UInt32.toNat_inj.1 UInt32.toNat_inj.1)
    endian := hendian
    tiled := htiled
    pitch := ⟨Nat.pos_of_ne_zero hpitch, hpitchMax, hpitchMod⟩
    guestBytes := ⟨Nat.pos_of_ne_zero hguest, hguestMax⟩
    payload_eq := by
      rw [htightNat, Key.rowBytes]
      ac_rfl
    fits := by
      rw [Nat.mul_comm]
      exact hfits }

/-! ### A record -/

/-- The bytes of a record. -/
def encodeRecord (record : Key × Entry) : List UInt8 :=
  record.1.encode ++ le 4 record.2.blocks.length ++ record.2.guest ++ record.2.blocks

/-- A record as its key says. -/
structure ValidRecord (xxh3 : List UInt8 → UInt64) (record : Key × Entry) : Prop where
  layout : Layout record.1 record.2.blocks.length
  guest : record.2.guest.length = record.1.guestBytes.toNat
  guestHash : record.2.guestHash = xxh3 record.2.guest

/-- One key and the same guest bytes, so the same upload. -/
def Agree (r s : Key × Entry) : Prop := r.1 = s.1 → r.2.guest = s.2.guest → r.2.blocks = s.2.blocks

instance : Std.Symm Agree := ⟨fun _ _ h hkey hguest => (h hkey.symm hguest.symm).symm⟩

variable {xxh3 : List UInt8 → UInt64} {bytes : List UInt8} {offset : UInt64} {entries : Entries}

/-- Refusing reads nothing. -/
theorem inside_refuseIf (bad : Prop) [Decidable bad] :
    Inside (· = Stop.outside) (fun _ => ¬bad) (refuseIf bad) := by
  unfold refuseIf
  split_ifs with h
  · exact Stop.noConfusion
  · exact h

/-- Nor does throwing. -/
theorem inside_throwUnless (done : Bool) :
    Inside (· = Stop.outside) (fun _ => done = true) (throwUnless done) := by
  cases done with
  | false => exact Stop.noConfusion
  | true => exact rfl

/-- Reading a word stays inside when its four bytes do. -/
theorem inside_read32 {p : List UInt8} {at' : ℕ} (h : at' + 4 ≤ p.length) :
    Inside (· = Stop.outside) (· = word p at') (read32 p at') :=
  (inside_read h).bind fun _ hbytes => congrArg (fun bytes => UInt32.ofNat (ofLe bytes)) hbytes

/-- The words of a key are the bytes it was read from. -/
theorem inside_readKey {p : List UInt8} {at' : ℕ} (h : at' + 28 ≤ p.length) :
    Inside (· = Stop.outside) (fun k => k.encode = slice p at' 28) (readKey p at') := by
  refine (inside_read32 (by omega)).bind fun width hwidth => ?_
  refine (inside_read32 (by omega)).bind fun height hheight => ?_
  refine (inside_read32 (by omega)).bind fun format hformat => ?_
  refine (inside_read32 (by omega)).bind fun endian hendian => ?_
  refine (inside_read32 (by omega)).bind fun tiled htiled => ?_
  refine (inside_read32 (by omega)).bind fun pitch hpitch => ?_
  refine (inside_read32 (by omega)).bind fun guestBytes hguestBytes => ?_
  subst hwidth hheight hformat hendian htiled hpitch hguestBytes
  change Key.encode _ = _
  rw [Key.encode, le_word (by omega), le_word (by omega), le_word (by omega), le_word (by omega),
    le_word (by omega), le_word (by omega), le_word (by omega)]
  simp only [slice_append, Nat.reduceAdd]

/-- Below an offset inside the file, what is left does not wrap. -/
theorem toNat_rest (hsize : bytes.length ≤ maxPackBytes) (hoffset : offset.toNat ≤ bytes.length) :
    (UInt64.ofNat bytes.length - offset).toNat = bytes.length - offset.toNat := by
  have hlength : (UInt64.ofNat bytes.length).toNat = bytes.length :=
    UInt64.toNat_ofNat_of_lt' (hsize.trans_lt (by decide))
  rw [UInt64.toNat_sub_of_le _ _ (UInt64.le_iff_toNat_le.2 (by rwa [hlength])), hlength]

/-- What a round of the loop adds. -/
structure Added (xxh3 : List UInt8 → UInt64) (bytes : List UInt8) (offset : UInt64) (entries : Entries)
    (record : Key × Entry) (done : UInt64 × Entries) : Prop where
  valid : ValidRecord xxh3 record
  agree : ∀ existing ∈ entries, Agree existing record
  appended : done.2 = entries ++ [record]
  encoded : slice bytes offset.toNat (encodeRecord record).length = encodeRecord record
  next : done.1.toNat = offset.toNat + (encodeRecord record).length
  inside : done.1.toNat ≤ bytes.length

/-- **A round of the loop** reads inside the file, and adds a valid record or stops. -/
theorem inside_loadRecord (hsize : bytes.length ≤ maxPackBytes) (hoffset : offset.toNat ≤ bytes.length)
    (allocated : Bool) :
    Inside (· = Stop.outside) (fun done => ∃ record, Added xxh3 bytes offset entries record done)
      (loadRecord xxh3 allocated bytes offset entries) := by
  have hmax : bytes.length < 2 ^ 28 := hsize.trans_lt (by decide)
  unfold loadRecord
  refine (inside_refuseIf _).bind fun _ hheader => ?_
  have hthirtyTwo : (32 : UInt64).toNat = 32 := rfl
  rw [UInt64.lt_iff_toNat_lt, toNat_rest hsize hoffset, hthirtyTwo] at hheader
  refine (inside_readKey (by omega)).bind fun key hkey => ?_
  refine (inside_read32 (by omega)).bind fun blockBytes hblockBytes => ?_
  have hrecords : (offset + 32).toNat = offset.toNat + 32 := Bits.toNat_add_of_lt (by omega)
  refine (inside_refuseIf _).bind fun _ hvalid => ?_
  rw [not_or, Bool.not_eq_false] at hvalid
  obtain ⟨hvalidKey, hleft⟩ := hvalid
  have hguestLt := key.guestBytes.toNat_lt
  have hblocksLt := blockBytes.toNat_lt
  have hsum : (key.guestBytes.toUInt64 + blockBytes.toUInt64).toNat =
      key.guestBytes.toNat + blockBytes.toNat := Bits.toNat_add_of_lt (by simp; omega)
  rw [UInt64.lt_iff_toNat_lt, hsum, toNat_rest hsize (by omega), hrecords] at hleft
  refine (inside_throwUnless _).bind fun _ _ => ?_
  refine (inside_read (by omega)).bind fun guest hguest => ?_
  have hpayload : (offset + 32 + key.guestBytes.toUInt64).toNat =
      offset.toNat + (32 + key.guestBytes.toNat) := by
    rw [Bits.toNat_add_of_lt (by simp; omega), hrecords, UInt32.toNat_toUInt64, Nat.add_assoc]
  refine (inside_read (by omega)).bind fun blocks hblocks => ?_
  refine (inside_refuseIf _).bind fun _ hagree => ?_
  have hnext : (offset + 32 + key.guestBytes.toUInt64 + blockBytes.toUInt64).toNat =
      offset.toNat + (32 + key.guestBytes.toNat + blockBytes.toNat) := by
    rw [Bits.toNat_add_of_lt (by simp; omega), hpayload, UInt32.toNat_toUInt64, Nat.add_assoc]
  have hguestLength : guest.length = key.guestBytes.toNat := hguest ▸ length_slice (by omega)
  have hblocksLength : blocks.length = blockBytes.toNat := hblocks ▸ length_slice (by omega)
  have hlength : (encodeRecord (key, { guest, blocks, guestHash := xxh3 guest })).length =
      32 + key.guestBytes.toNat + blockBytes.toNat := by
    rw [encodeRecord, List.length_append, List.length_append, List.length_append, hkey,
      length_slice (by omega), length_le, hguestLength, hblocksLength]
  have hword : le 4 blockBytes.toNat = slice bytes (offset.toNat + 28) 4 :=
    hblockBytes ▸ le_word (by omega)
  refine ⟨(key, { guest, blocks, guestHash := xxh3 guest }), ?_⟩
  exact {
    valid := ⟨hblocksLength ▸ layout_of_validKey hvalidKey, hguestLength, rfl⟩
    agree := fun existing hmem hkey hguest =>
      by_contra fun hne => hagree ⟨existing, hmem, hkey, hguest, hne⟩
    appended := rfl
    encoded := by
      rw [hlength, encodeRecord, hkey, hblocksLength, hword, hguest, hblocks, hrecords, hpayload,
        slice_append, slice_append, slice_append]
    next := by
      rw [hlength]
      exact hnext
    inside := by
      change (offset + 32 + key.guestBytes.toUInt64 + blockBytes.toUInt64).toNat ≤ bytes.length
      omega }

/-! ### The file -/

/-- The entries are the records before the offset. -/
structure Loaded (xxh3 : List UInt8 → UInt64) (bytes : List UInt8) (done : UInt64 × Entries) : Prop where
  start : 16 ≤ done.1.toNat
  inside : done.1.toNat ≤ bytes.length
  tiles : slice bytes 16 (done.1.toNat - 16) = done.2.flatMap encodeRecord
  valid : ∀ record ∈ done.2, ValidRecord xxh3 record
  agree : done.2.Pairwise Agree

/-- What the loader accepts. -/
structure Accepted (xxh3 : List UInt8 → UInt64) (bytes : List UInt8) (entries : Entries) : Prop where
  size : 16 ≤ bytes.length ∧ bytes.length ≤ maxPackBytes
  magic : slice bytes 0 8 = magic
  count : (word bytes 8).toNat = entries.length ∧ 0 < entries.length ∧ entries.length ≤ 4096
  checksum : crc32 (bytes.drop 16) = word bytes 12
  tiles : bytes.drop 16 = entries.flatMap encodeRecord
  valid : ∀ record ∈ entries, ValidRecord xxh3 record
  agree : ∀ r ∈ entries, ∀ s ∈ entries, Agree r s

/-- The loader starts behind the header, with no entries. -/
theorem Loaded.init (h : 16 ≤ bytes.length) : Loaded xxh3 bytes (16, []) where
  start := le_rfl
  inside := h
  tiles := rfl
  valid := nofun
  agree := .nil

/-- A round keeps the entries the records before the offset. -/
theorem Added.loaded {record : Key × Entry} {done : UInt64 × Entries}
    (h : Added xxh3 bytes offset entries record done) (hloaded : Loaded xxh3 bytes (offset, entries)) :
    Loaded xxh3 bytes done where
  start := h.next ▸ Nat.le_add_right_of_le hloaded.start
  inside := h.inside
  tiles := by
    have hstart : 16 ≤ offset.toNat := hloaded.start
    have hlength : done.1.toNat - 16 = (offset.toNat - 16) + (encodeRecord record).length := by
      rw [h.next]
      omega
    have hprefix : slice bytes 16 (offset.toNat - 16) = entries.flatMap encodeRecord := hloaded.tiles
    rw [h.appended, List.flatMap_append, List.flatMap_singleton, hlength, ← slice_append, hprefix,
      Nat.add_sub_cancel' hstart, h.encoded]
  valid := by
    rw [h.appended]
    exact List.forall_mem_append.2 ⟨hloaded.valid, List.forall_mem_singleton.2 h.valid⟩
  agree := by
    rw [h.appended, List.pairwise_append]
    exact ⟨hloaded.agree, List.pairwise_singleton .., fun r hr s hs =>
      List.mem_singleton.1 hs ▸ h.agree r hr⟩

/-- Keeping the entries that were read does not change what is read. -/
theorem inside_keeping {α : Type} {P : α → Prop} {step : Except Stop α} (entries : Entries)
    (h : Inside (· = Stop.outside) P step) :
    Inside (·.stop = Stop.outside) P (keeping entries step) :=
  h.mapError fun _ hstop => hstop

/-- **The loop** reads inside the file, by induction on the records that are left. -/
theorem inside_loadRecords (hsize : bytes.length ≤ maxPackBytes) (hheader : 16 ≤ bytes.length)
    (entryAllocated : ℕ → Bool) (count : ℕ) :
    Inside (·.stop = Stop.outside) (fun done => Loaded xxh3 bytes done ∧ done.2.length = count)
      ((List.range count).foldlM
        (fun done i => keeping done.2 (loadRecord xxh3 (entryAllocated i) bytes done.1 done.2))
        (16, [])) := by
  have hrounds := inside_foldlM (l := List.range count)
    (I := fun rounds done => Loaded xxh3 bytes done ∧ done.2.length = rounds.length)
    (fun rounds i _ done _ hdone =>
      inside_keeping done.2 ((inside_loadRecord hsize hdone.1.inside (entryAllocated i)).mono
        fun next ⟨record, hadded⟩ => ⟨hadded.loaded hdone.1, by
          rw [hadded.appended, List.length_append, List.length_append, hdone.2]
          rfl⟩))
    ⟨Loaded.init hheader, rfl⟩
  rwa [List.length_range] at hrounds

/-- **The header** of a buffer that is long enough. -/
theorem inside_readHeader (hheader : 16 ≤ bytes.length) :
    Inside (· = Stop.outside)
      (fun count => slice bytes 0 8 = magic ∧ count = word bytes 8 ∧ 0 < count.toNat ∧
        count.toNat ≤ 4096 ∧ crc32 (bytes.drop 16) = word bytes 12)
      (readHeader bytes) := by
  unfold readHeader
  refine (inside_read (by omega)).bind fun start hstart => ?_
  refine (inside_refuseIf _).bind fun _ hmagic => ?_
  refine (inside_read32 (by omega)).bind fun count hcount => ?_
  refine (inside_refuseIf _).bind fun _ hbounds => ?_
  refine (inside_read (by omega)).bind fun data hdata => ?_
  refine (inside_read32 (by omega)).bind fun checksum hchecksum => ?_
  refine (inside_refuseIf _).bind fun _ hcrc => ?_
  rw [not_or, UInt32.not_lt, UInt32.le_iff_toNat_le, ← UInt32.toNat_inj] at hbounds
  refine ⟨hstart ▸ not_not.1 hmagic, hcount, Nat.pos_of_ne_zero hbounds.1, hbounds.2, ?_⟩
  rw [← hchecksum, ← slice_rest, ← hdata]
  exact not_not.1 hcrc

/-- **The loader on a buffer** never reads outside it, and what it returns is all of it. -/
theorem inside_loadBytes (hsize : bytes.length ≤ maxPackBytes) (hheader : 16 ≤ bytes.length)
    (entryAllocated : ℕ → Bool) :
    Inside (·.stop = Stop.outside) (Accepted xxh3 bytes) (loadBytes xxh3 entryAllocated bytes) := by
  unfold loadBytes
  refine (inside_keeping _ (inside_readHeader hheader)).bind fun count hcount => ?_
  obtain ⟨hmagic, hcount, hpositive, hmax, hcrc⟩ := hcount
  refine (inside_loadRecords hsize hheader _ _).bind fun done ⟨hloaded, hlength⟩ => ?_
  refine (inside_keeping _ (inside_refuseIf _)).bind fun _ hend => ?_
  have hlast : done.1.toNat = bytes.length := by
    rw [not_not.1 hend]
    exact UInt64.toNat_ofNat_of_lt' (hsize.trans_lt (by decide))
  exact {
    size := ⟨hheader, hsize⟩
    magic := hmagic
    count := by
      rw [hlength, ← hcount]
      exact ⟨rfl, hpositive, hmax⟩
    checksum := hcrc
    tiles := by
      rw [← slice_rest, ← hlast]
      exact hloaded.tiles
    valid := hloaded.valid
    agree := hloaded.agree.forall_of_forall fun _ _ _ _ => rfl }

/-- A file that is read has its header and no more than the largest pack. -/
theorem inside_readFile (host : Host) :
    Inside (· = Stop.outside)
      (fun bytes => host.file = some bytes ∧ 16 ≤ bytes.length ∧ bytes.length ≤ maxPackBytes)
      (readFile host) := by
  unfold readFile
  refine (inside_throwUnless _).bind fun _ _ => ?_
  cases host.file with
  | none => exact Stop.noConfusion
  | some bytes =>
      refine (inside_refuseIf _).bind fun _ hlength => ?_
      refine (inside_throwUnless _).bind fun _ _ => ?_
      refine (inside_refuseIf _).bind fun _ _ => ?_
      rw [not_or, not_lt, not_lt] at hlength
      exact ⟨rfl, hlength⟩

/-- **The loader on a file** reads inside it, and what it accepts are valid records. -/
theorem inside_load (xxh3 : List UInt8 → UInt64) (host : Host) :
    Inside (·.stop = Stop.outside)
      (fun entries => ∃ bytes, host.file = some bytes ∧ Accepted xxh3 bytes entries)
      (load xxh3 host) := by
  refine (inside_keeping _ (inside_readFile host)).bind fun bytes ⟨hfile, hheader, hsize⟩ => ?_
  exact (inside_loadBytes hsize hheader _).mono fun entries h => ⟨bytes, hfile, h⟩

/-- A pack of one block. -/
example : (loadBytes (fun _ => 0) (fun _ => true)
    (magic ++ le 4 1 ++ le 4 1640521102 ++ ([4, 4, 18, 0, 0, 32, 1, 8].flatMap (le 4)) ++
      [7, 0, 1, 2, 3, 4, 5, 6, 7])).toOption =
    some [({ width := 4, height := 4, format := 18, endian := 0, tiled := 0, pitch := 32, guestBytes := 1 },
      { guest := [7], blocks := [0, 1, 2, 3, 4, 5, 6, 7], guestHash := 0 })] := by
  decide +kernel

end OfflineTexture
end BoltsRebuilt
