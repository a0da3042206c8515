/-
# The offline texture pack

`Cache::Load` and what it calls in `src/gpu/native/offline_texture_cache.cpp`
(lines 26–126): a file of texture uploads made in advance is read into entries,
or refused.

A file is a magic, a count, a checksum and then the records one after the other;
a record is its key of seven words, the size of its blocks, the guest bytes and
the blocks.  Sizes and offsets are machine words here as in the source, 32 or 64
bits wide where it has them so, and every byte is fetched by a checked read:
`load` could leave the file, and that it does not is proved.

The entries are in the order the records stood; a bucket of the source's map is
those with one key.  A bucket is made by `entries[key]` before its first entry is
in it, but the round that makes it adds one or refuses the pack.  `XXH3_64bits` is
a third party's hash, and nothing is assumed of it.
-/

import BoltsRebuilt.Lib.Bits
import BoltsRebuilt.Lib.Checked

namespace BoltsRebuilt
namespace OfflineTexture

open Checked

/-- `kMaxPackBytes`. -/
def maxPackBytes : ℕ := 128 * 1024 * 1024

/-- `kMaxUploadBytes`. -/
def maxUploadBytes : UInt64 := 2 * 1024 * 1024

/-- `NBTEX001`. -/
def magic : List UInt8 := [78, 66, 84, 69, 88, 48, 48, 49]

/-- `Key`. -/
structure Key where
  width : UInt32
  height : UInt32
  format : UInt32
  endian : UInt32
  tiled : UInt32
  pitch : UInt32
  guestBytes : UInt32
deriving DecidableEq, Repr

/-- `Entry`. -/
structure Entry where
  guest : List UInt8
  blocks : List UInt8
  guestHash : UInt64
deriving DecidableEq, Repr

/-- The map of the source. -/
abbrev Entries := List (Key × Entry)

/-- How a computation ends that does not return a value: with an access outside a buffer, with
`return false`, or with an exception. -/
inductive Stop
  | outside
  | refused
  | threw
deriving DecidableEq, Repr

/-- A computation of the loader that ended so, and the entries that stood in the map. -/
structure Failure where
  stop : Stop
  entries : Entries
deriving DecidableEq, Repr

/-- A step of the loader, with these entries in the map. -/
def keeping {α : Type} (entries : Entries) (step : Except Stop α) : Except Failure α :=
  step.mapError fun stop => { stop, entries }

/-- `return false` under a condition. -/
def refuseIf (bad : Prop) [Decidable bad] : Except Stop Unit := if bad then .error .refused else .ok ()

/-- An exception unless the host has done its part. -/
def throwUnless (done : Bool) : Except Stop Unit := if done then .ok () else .error .threw

/-- `Read32`. -/
def read32 (p : List UInt8) (offset : ℕ) : Except Stop UInt32 := do
  let bytes ← read .outside p offset 4
  return UInt32.ofNat (ofLe bytes)

/-- One bit of `Crc32`. -/
def crcBit (value : UInt32) : UInt32 := (value >>> 1) ^^^ (0xEDB88320 &&& (0 - (value &&& 1)))

/-- One byte of `Crc32`. -/
def crcByte (value : UInt32) (byte : UInt8) : UInt32 := Nat.repeat crcBit 8 (value ^^^ byte.toUInt32)

/-- `Crc32`. -/
def crc32 (data : List UInt8) : UInt32 := ~~~(data.foldl crcByte 0xFFFFFFFF)

/-- `ValidKey`. -/
def validKey (k : Key) (blockBytes : UInt32) : Bool :=
  if k.width = 0 ∨ k.height = 0 ∨ 8192 < k.width ∨ 8192 < k.height ∨ k.width % 4 ≠ 0 ∨
      k.height % 4 ≠ 0 ∨ (k.format ≠ 18 ∧ k.format ≠ 19 ∧ k.format ≠ 20) ∨ 3 < k.endian ∨
      1 < k.tiled ∨ k.pitch = 0 ∨ k.pitch % 32 ≠ 0 ∨ 16352 < k.pitch ∨ k.guestBytes = 0 ∨
      maxUploadBytes < k.guestBytes.toUInt64 then false
  else
    let tight := (k.width / 4).toUInt64 * (k.height / 4).toUInt64 * if k.format = 18 then 8 else 16
    let pitch := ((k.width / 4).toUInt64 * (if k.format = 18 then 8 else 16) + 255) &&& ~~~255
    tight = blockBytes.toUInt64 ∧ pitch * (k.height / 4).toUInt64 ≤ maxUploadBytes

/-- The seven words of a record. -/
def readKey (p : List UInt8) (offset : ℕ) : Except Stop Key := do
  let width ← read32 p offset
  let height ← read32 p (offset + 4)
  let format ← read32 p (offset + 8)
  let endian ← read32 p (offset + 12)
  let tiled ← read32 p (offset + 16)
  let pitch ← read32 p (offset + 20)
  let guestBytes ← read32 p (offset + 24)
  return { width, height, format, endian, tiled, pitch, guestBytes }

/-- A round of the loop in `Load`: the offset after the record, and the entries with it. -/
def loadRecord (xxh3 : List UInt8 → UInt64) (allocated : Bool) (bytes : List UInt8)
    (offset : UInt64) (entries : Entries) : Except Stop (UInt64 × Entries) := do
  let size := UInt64.ofNat bytes.length
  refuseIf (size - offset < 32)
  let key ← readKey bytes offset.toNat
  let blockBytes ← read32 bytes (offset.toNat + 28)
  let records := offset + 32
  refuseIf (validKey key blockBytes = false ∨
    size - records < key.guestBytes.toUInt64 + blockBytes.toUInt64)
  throwUnless allocated
  let guest ← read .outside bytes records.toNat key.guestBytes.toNat
  let payload := records + key.guestBytes.toUInt64
  let blocks ← read .outside bytes payload.toNat blockBytes.toNat
  refuseIf (∃ existing ∈ entries, existing.1 = key ∧ existing.2.guest = guest ∧
    existing.2.blocks ≠ blocks)
  return (payload + blockBytes.toUInt64, entries ++ [(key, { guest, blocks, guestHash := xxh3 guest })])

/-- What the loader asks of the host: the path as a file name, the file if it opens, the buffer, the
bytes, and the memory of each entry. -/
structure Host where
  pathValid : Bool
  file : Option (List UInt8)
  bufferAllocated : Bool
  fileRead : Bool
  entryAllocated : ℕ → Bool

/-- The part of `Load` before the loop: the count. -/
def readHeader (bytes : List UInt8) : Except Stop UInt32 := do
  let start ← read .outside bytes 0 8
  refuseIf (start ≠ magic)
  let count ← read32 bytes 8
  refuseIf (count = 0 ∨ 4096 < count)
  let data ← read .outside bytes 16 (bytes.length - 16)
  let checksum ← read32 bytes 12
  refuseIf (crc32 data ≠ checksum)
  return count

/-- `Load` once the file is in the buffer. -/
def loadBytes (xxh3 : List UInt8 → UInt64) (entryAllocated : ℕ → Bool) (bytes : List UInt8) :
    Except Failure Entries := do
  let count ← keeping [] (readHeader bytes)
  let (offset, entries) ← (List.range count.toNat).foldlM
    (fun done i => keeping done.2 (loadRecord xxh3 (entryAllocated i) bytes done.1 done.2)) (16, [])
  keeping entries (refuseIf (offset ≠ UInt64.ofNat bytes.length))
  return entries

/-- The file in the buffer. -/
def readFile (host : Host) : Except Stop (List UInt8) := do
  throwUnless host.pathValid
  match host.file with
  | none => .error .refused
  | some bytes =>
    refuseIf (bytes.length < 16 ∨ maxPackBytes < bytes.length)
    throwUnless host.bufferAllocated
    refuseIf (host.fileRead = false)
    return bytes

/-- `Load`; `Configure` left no entry in the map. -/
def load (xxh3 : List UInt8 → UInt64) (host : Host) : Except Failure Entries := do
  let bytes ← keeping [] (readFile host)
  loadBytes xxh3 host.entryAllocated bytes

end OfflineTexture
end BoltsRebuilt
