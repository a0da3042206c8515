/-
# Uploads from the offline texture pack

`PrepareOfflineTextureUpload` in `src/gpu/native/offline_texture_cache.cpp` (lines
67–83 and 134–191), the request and the statistics of its header.

A call configures the cache for the pack path it finds, looks for the entries of
the request's key, takes a snapshot of the guest bytes and uploads the entry whose
guest bytes are the same.  What the call asks of other parts is in `Call`: the
guest memory if the range is CPU authoritative, and the place the upload pool
gives for a number of bytes.  The copy reads the entry by checked reads and
writes by checked writes into the bytes it asked the pool for.
-/

import BoltsRebuilt.Texture.OfflinePack

namespace BoltsRebuilt
namespace OfflineTexture

open Checked

/-! ### Configuration -/

/-- `OfflineTextureCacheStats`; `matched` is `matches`. -/
structure Stats where
  candidates : UInt64 := 0
  matched : UInt64 := 0
  cpuAuthorityRefusals : UInt64 := 0
  byteMisses : UInt64 := 0
  preparedUploads : UInt64 := 0
  uploadBytes : UInt64 := 0
deriving DecidableEq, Repr

/-- `Cache`. -/
structure Cache where
  entries : Entries := []
  snapshot : List UInt8 := []
  stats : Stats := {}
  path : String := ""
deriving DecidableEq, Repr

/-- A change of the statistics. -/
def Cache.count (c : Cache) (f : Stats → Stats) : Cache := { c with stats := f c.stats }

/-- Bytes in `snapshot`. -/
def Cache.setSnapshot (c : Cache) (snapshot : List UInt8) : Cache := { c with snapshot }

/-- `entries.clear()`. -/
def Cache.clearEntries (c : Cache) : Cache := { c with entries := [] }

/-- `Configure`. -/
def Cache.configure (c : Cache) (xxh3 : List UInt8 → UInt64) (requestedPath : String) (host : Host) :
    Except Fault Cache :=
  if c.path = requestedPath then .ok c
  else
    let c := ({ c with path := requestedPath }.clearEntries).setSnapshot []
    if requestedPath = "" then .ok c
    else
      match load xxh3 host with
      | .ok entries => .ok { c with entries }
      | .error failure =>
        match failure.stop with
        | .outside => .error .outside
        | .refused => .ok { c with entries := failure.entries }.clearEntries
        | .threw => .ok { c with entries := failure.entries }.clearEntries

/-! ### Uploads -/

/-- `OfflineTextureRequest`. -/
structure Request where
  width : UInt32
  height : UInt32
  format : UInt32
  endian : UInt32
  tiled : UInt32
  pitchTexels : UInt32
  guestAddress : UInt32
  guestBytes : UInt32

/-- `key` of a request. -/
def Request.key (request : Request) : Key where
  width := request.width
  height := request.height
  format := request.format
  endian := request.endian
  tiled := request.tiled
  pitch := request.pitchTexels
  guestBytes := request.guestBytes

/-- What the upload pool gives: the address of the mapping, the buffer and the offset in it. -/
structure Place where
  mapping : ℕ
  buffer : ℕ
  offset : UInt64

/-- The formats of an upload. -/
inductive DxgiFormat
  | bc1Unorm
  | bc2Unorm
  | bc3Unorm
deriving DecidableEq, Repr

/-- `D3D12_SUBRESOURCE_FOOTPRINT` and its offset. -/
structure Footprint where
  offset : UInt64
  format : DxgiFormat
  width : UInt32
  height : UInt32
  depth : UInt32
  rowPitch : UInt32
deriving DecidableEq, Repr

/-- `OfflineTextureUpload`. -/
structure Upload where
  buffer : ℕ
  footprint : Footprint
deriving DecidableEq, Repr

/-- A call: the two options, the request, and what the call finds. -/
structure Call where
  enabled : Bool
  pack : String
  host : Host
  request : Request
  snapshotAllocated : Bool
  guestMemory : Option Bytes
  pool : UInt64 → Option Place
  memory : Bytes

/-- What a call leaves: the cache, `upload` if it returned true, and the memory behind the pool. -/
structure Outcome where
  cache : Cache
  upload : Option Upload
  memory : Bytes

/-- `return false`. -/
def Call.decline (call : Call) (c : Cache) : Except Fault Outcome :=
  .ok { cache := c, upload := none, memory := call.memory }

/-- `memset` and the loop of `memcpy`s. -/
def copyRows (mapping : ℕ) (uploadBytes : UInt64) (rowBytes rowPitch rows : UInt32)
    (blocks : List UInt8) (memory : Bytes) : Except Fault Bytes := do
  let size := uploadBytes.toNat
  let cleared ← write .outside mapping size memory 0 (List.replicate size 0)
  (List.range rows.toNat).foldlM (fun memory row => do
    let data ← read .outside blocks (UInt64.ofNat row * rowBytes.toUInt64).toNat rowBytes.toNat
    write .outside mapping size memory (UInt64.ofNat row * rowPitch.toUInt64).toNat data) cleared

/-- The rest of `PrepareOfflineTextureUpload` once an entry matched. -/
def uploadEntry (c : Cache) (call : Call) (entry : Entry) : Except Fault Outcome :=
  let request := call.request
  let blockBytes : UInt32 := if request.format = 18 then 8 else 16
  let rowBytes := request.width / 4 * blockBytes
  let rowPitch := (rowBytes + 255) &&& ~~~255
  let rows := request.height / 4
  let uploadBytes := rowPitch.toUInt64 * rows.toUInt64
  if maxUploadBytes < uploadBytes then call.decline c
  else
    match call.pool uploadBytes with
    | none => call.decline c
    | some place => do
        let memory ← copyRows place.mapping uploadBytes rowBytes rowPitch rows entry.blocks call.memory
        let format : DxgiFormat :=
          if request.format = 18 then .bc1Unorm else if request.format = 19 then .bc2Unorm else .bc3Unorm
        let footprint : Footprint :=
          { offset := place.offset, format, width := request.width, height := request.height, depth := 1,
            rowPitch }
        return {
          cache := c.count fun stats => { stats with
            preparedUploads := stats.preparedUploads + 1
            uploadBytes := stats.uploadBytes + UInt64.ofNat entry.blocks.length }
          upload := some { buffer := place.buffer, footprint }
          memory }

/-- The part of `PrepareOfflineTextureUpload` between the lookup of the key and the upload. -/
def matchEntry (xxh3 : List UInt8 → UInt64) (c : Cache) (call : Call) : Except Fault Outcome :=
  let bucket := c.entries.filter fun record => record.1 = call.request.key
  if bucket = [] then call.decline c
  else
    let c := c.count fun stats => { stats with candidates := stats.candidates + 1 }
    let size := call.request.guestBytes.toNat
    if call.snapshotAllocated = false then call.decline c
    else
      match call.guestMemory with
      | none =>
        let resized := c.snapshot.take size ++ List.replicate (size - c.snapshot.length) 0
        call.decline ((c.setSnapshot resized).count fun stats =>
          { stats with cpuAuthorityRefusals := stats.cpuAuthorityRefusals + 1 })
      | some guestMemory =>
        let snapshot := guestMemory.load call.request.guestAddress.toNat size
        let c := c.setSnapshot snapshot
        match bucket.find? fun record =>
          record.2.guestHash = xxh3 snapshot ∧ record.2.guest = snapshot with
        | none => call.decline (c.count fun stats => { stats with byteMisses := stats.byteMisses + 1 })
        | some record =>
          uploadEntry (c.count fun stats => { stats with matched := stats.matched + 1 }) call record.2

/-- `PrepareOfflineTextureUpload`. -/
def prepareOfflineTextureUpload (xxh3 : List UInt8 → UInt64) (c : Cache) (call : Call) :
    Except Fault Outcome := do
  if call.enabled = false then call.decline c
  else
    let c ← c.configure xxh3 call.pack call.host
    matchEntry xxh3 c call

/-- The cache after calls one after another. -/
def run (xxh3 : List UInt8 → UInt64) (calls : List Call) : Except Fault Cache :=
  calls.foldlM (fun c call => do
    let outcome ← prepareOfflineTextureUpload xxh3 c call
    return outcome.cache) {}

end OfflineTexture
end BoltsRebuilt
