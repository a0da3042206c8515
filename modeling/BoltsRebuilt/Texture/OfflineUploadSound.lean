/-
# Uploads copy what the pack holds

`src/gpu/native/offline_texture_cache.cpp`, lines 24–191: every call of
`PrepareOfflineTextureUpload` in every sequence of calls, whatever the pack files,
the guest memory and the upload pool are.

The entries of the cache are always those of one accepted pack, or none (`Sound`).
So an entry the lookup finds has the layout of the request's key, and the numbers
of the copy, made in 32 bits here and in 64 in `ValidKey`, are the same ones
(`toNat_copy`): the rows read are the payload, and they fit the bytes asked of the
pool, which are never too many.
-/

import BoltsRebuilt.Lib.PitchedRows
import BoltsRebuilt.Texture.OfflineAccepted
import BoltsRebuilt.Texture.OfflineUpload

namespace BoltsRebuilt
namespace OfflineTexture

open Checked

variable {xxh3 : List UInt8 → UInt64} {c : Cache} {call : Call}

/-! ### The copy -/

/-- The copy's 32-bit numbers are those of the layout. -/
theorem toNat_copy {k : Key} {payload : ℕ} (h : Layout k payload) :
    (k.width / 4 * if k.format = 18 then 8 else 16).toNat = k.rowBytes ∧
      (((k.width / 4 * if k.format = 18 then 8 else 16) + 255) &&& ~~~255).toNat = k.rowPitch ∧
      (k.height / 4).toNat = k.rows := by
  have hsize : (if k.format = 18 then 8 else 16 : UInt32).toNat = k.blockSize := by
    unfold Key.blockSize
    split_ifs <;> rfl
  have hmax := h.rowBytes_le
  have hrowBytes : (k.width / 4 * if k.format = 18 then 8 else 16).toNat = k.rowBytes := by
    rw [UInt32.toNat_mul, hsize, UInt32.toNat_div]
    exact Nat.mod_eq_of_lt (hmax.trans_lt (by decide))
  have hsum : ((k.width / 4 * if k.format = 18 then 8 else 16) + 255).toNat = k.rowBytes + 255 := by
    rw [UInt32.toNat_add, hrowBytes]
    exact Nat.mod_eq_of_lt (by simp; omega)
  refine ⟨hrowBytes, ?_, UInt32.toNat_div ..⟩
  rw [Key.rowPitch, ← hsum]
  exact Bits.toNat_and_not_low 8 _

/-- The offset of a row does not wrap in 64 bits. -/
theorem toNat_row {r : ℕ} {step rows : UInt32} (hr : r < rows.toNat) :
    (UInt64.ofNat r * step.toUInt64).toNat = r * step.toNat := by
  have hrow : (UInt64.ofNat r).toNat = r := UInt64.toNat_ofNat_of_lt' ((hr.trans rows.toNat_lt).trans (by decide))
  have hproduct : r * step.toNat < 2 ^ 32 * 2 ^ 32 :=
    Nat.mul_lt_mul'' (hr.trans rows.toNat_lt) step.toNat_lt
  rw [Bits.toNat_mul_of_lt (by rw [hrow]; exact hproduct), hrow, UInt32.toNat_toUInt64]

/-- **The copy** reads inside the blocks, writes inside the bytes asked for, and leaves the rows at
their pitch. -/
theorem inside_copyRows {mapping : ℕ} {uploadBytes : UInt64} {rowBytes rowPitch rows : UInt32}
    {blocks : List UInt8} {memory : Bytes} (hpitch : rowBytes.toNat ≤ rowPitch.toNat)
    (hblocks : blocks.length = rows.toNat * rowBytes.toNat)
    (hupload : uploadBytes.toNat = rows.toNat * rowPitch.toNat) :
    Inside (fun _ => True)
      (· = PitchedRows.copied memory mapping rowBytes.toNat rowPitch.toNat blocks rows.toNat)
      (copyRows mapping uploadBytes rowBytes rowPitch rows blocks memory) := by
  unfold copyRows
  refine (inside_write (by rw [List.length_replicate, Nat.zero_add])).bind fun cleared hcleared => ?_
  have hrow : ∀ done r rest, List.range rows.toNat = done ++ r :: rest → r < rows.toNat :=
    fun done r rest hl => List.mem_range.1 (hl ▸ by simp)
  refine (inside_foldlM
    (I := fun done memory => memory = cleared.storeAll mapping (done.map fun r =>
      (r * rowPitch.toNat, PitchedRows.row rowBytes.toNat blocks r)))
    (fun done r rest memory hl hmemory => ?_) rfl).mono fun memory hmemory => ?_
  · have hr := hrow done r rest hl
    have hread := PitchedRows.row_lt rowBytes.toNat hr
    have hwrite := PitchedRows.row_lt rowPitch.toNat hr
    have hlength := PitchedRows.length_row_le rowBytes.toNat blocks r
    rw [toNat_row hr, toNat_row hr]
    refine (inside_read (by omega)).bind fun data hdata => ?_
    have hdata : data = PitchedRows.row rowBytes.toNat blocks r := hdata
    refine (inside_write (by rw [hdata]; omega)).mono fun memory' hmemory' => ?_
    rw [hmemory', hmemory, hdata, List.map_append, List.map_singleton, Bytes.storeAll_concat]
  · rw [hmemory, hcleared, Nat.add_zero, hupload, PitchedRows.copied, PitchedRows.pieces]

/-! ### One call -/

/-- What the pool gives for the rows of a request. -/
def Call.slice (call : Call) : Option Place :=
  call.pool (UInt64.ofNat (call.request.key.rows * call.request.key.rowPitch))

/-- An upload of an entry: into the place the pool gave for its rows at their pitch, the whole payload
row after row, zeros between the rows, and nothing else. -/
structure Uploaded (call : Call) (k : Key) (entry : Entry) (place : Place) (upload : Upload)
    (memory : Bytes) : Prop where
  asked : call.slice = some place
  size : k.rows * k.rowPitch ≤ maxUploadBytes.toNat
  pitch : upload.footprint.rowPitch.toNat = k.rowPitch ∧ 256 ∣ k.rowPitch ∧ k.rowBytes ≤ k.rowPitch
  payload : k.rows * k.rowBytes = entry.blocks.length
  whole : (List.range k.rows).flatMap (PitchedRows.row k.rowBytes entry.blocks) = entry.blocks
  row : ∀ r < k.rows, memory.load (place.mapping + r * k.rowPitch) k.rowBytes =
    PitchedRows.row k.rowBytes entry.blocks r
  padding : ∀ r < k.rows, memory.load (place.mapping + r * k.rowPitch + k.rowBytes)
    (k.rowPitch - k.rowBytes) = List.replicate (k.rowPitch - k.rowBytes) 0
  frame : ∀ i, i < place.mapping ∨ place.mapping + k.rows * k.rowPitch ≤ i → memory i = call.memory i

/-- **The upload of an entry of the request's key** is made whenever the pool gives a place. -/
theorem inside_uploadEntry {entry : Entry} (hlayout : Layout call.request.key entry.blocks.length) :
    Inside (fun _ => True)
      (fun outcome => outcome.cache.entries = c.entries ∧
        (call.slice = none ∧ outcome.upload = none ∧ outcome.memory = call.memory ∨
          ∃ place upload, outcome.upload = some upload ∧
            Uploaded call call.request.key entry place upload outcome.memory))
      (uploadEntry c call entry) := by
  unfold uploadEntry
  extract_lets request blockBytes rowBytes rowPitch rows uploadBytes
  obtain ⟨hrowBytes, hrowPitch, hrows⟩ := toNat_copy hlayout
  have hrowBytes : rowBytes.toNat = call.request.key.rowBytes := hrowBytes
  have hrowPitch : rowPitch.toNat = call.request.key.rowPitch := hrowPitch
  have hrows : rows.toNat = call.request.key.rows := hrows
  have hfits := hlayout.fits
  have hupload : uploadBytes.toNat = call.request.key.rows * call.request.key.rowPitch := by
    rw [Nat.mul_comm, ← hrowPitch, ← hrows]
    refine Bits.toNat_mul_of_lt ?_
    rw [UInt32.toNat_toUInt64, UInt32.toNat_toUInt64, hrowPitch, hrows, Nat.mul_comm]
    exact hfits.trans_lt (by decide)
  have hslice : call.slice = call.pool uploadBytes := by
    rw [Call.slice, ← hupload, UInt64.ofNat_toNat]
  rw [if_neg (by rw [UInt64.lt_iff_toNat_lt, hupload]; omega), ← hslice]
  cases hplace : call.slice with
  | none => exact ⟨rfl, .inl ⟨rfl, rfl, rfl⟩⟩
  | some place =>
      have hpitch : rowBytes.toNat ≤ rowPitch.toNat := by
        rw [hrowBytes, hrowPitch]
        exact call.request.key.rowBytes_le_rowPitch
      have hblocks : entry.blocks.length = rows.toNat * rowBytes.toNat := by
        rw [hrows, hrowBytes, hlayout.payload_eq]
      have hsize : uploadBytes.toNat = rows.toNat * rowPitch.toNat := by rw [hupload, hrows, hrowPitch]
      refine (inside_copyRows hpitch hblocks hsize).bind fun memory hmemory => ?_
      rw [hrowBytes, hrowPitch, hrows] at hmemory
      rw [hrowBytes, hrowPitch] at hpitch
      rw [hrowBytes, hrows] at hblocks
      refine ⟨rfl, .inr ⟨place, _, rfl, ?_⟩⟩
      exact {
        asked := hplace
        size := hfits
        pitch := ⟨hrowPitch, call.request.key.dvd_rowPitch, hpitch⟩
        payload := hlayout.payload_eq
        whole := PitchedRows.flatMap_rows hblocks
        row := fun r hr => hmemory ▸ PitchedRows.load_row hpitch hblocks hr
        padding := fun r hr => hmemory ▸ PitchedRows.load_padding hpitch hr
        frame := fun i hi => hmemory ▸ PitchedRows.frame hpitch hi }

/-- A record is for the request: its key, and the guest bytes of the request's range. -/
def Matching (call : Call) (record : Key × Entry) : Prop :=
  record.1 = call.request.key ∧ ∃ guestMemory, call.guestMemory = some guestMemory ∧
    record.2.guest = guestMemory.load call.request.guestAddress.toNat call.request.guestBytes.toNat

/-- The entries are those of one accepted pack, or there are none. -/
def Sound (xxh3 : List UInt8 → UInt64) (entries : Entries) : Prop :=
  entries = [] ∨ ∃ bytes, Accepted xxh3 bytes entries

/-- A record of a sound pack is valid. -/
theorem Sound.valid {entries : Entries} (h : Sound xxh3 entries) {record : Key × Entry}
    (hmem : record ∈ entries) : ValidRecord xxh3 record := by
  rcases h with rfl | ⟨bytes, h⟩
  · exact absurd hmem List.not_mem_nil
  · exact h.valid record hmem

/-- The option is on, and the host has memory for the snapshot and for the upload. -/
def Call.Served (call : Call) : Prop :=
  call.enabled = true ∧ call.snapshotAllocated = true ∧ call.slice ≠ none

/-- What a call does with the entries it finds: an upload is of a record that matches, and a call
served uploads when there is one. -/
structure Prepared (call : Call) (entries : Entries) (outcome : Outcome) : Prop where
  entries_eq : outcome.cache.entries = entries
  declined : outcome.upload = none → outcome.memory = call.memory
  uploaded : ∀ upload, outcome.upload = some upload → ∃ record ∈ entries, Matching call record ∧
    ∃ place, Uploaded call record.1 record.2 place upload outcome.memory
  complete : ∀ record ∈ entries, Matching call record → call.Served → outcome.upload ≠ none

/-- A call that got to the upload of a record that matches. -/
theorem prepared_of_uploadEntry {entries : Entries} {record : Key × Entry} {outcome : Outcome}
    (hmem : record ∈ entries) (hmatch : Matching call record)
    (h : outcome.cache.entries = entries ∧
      (call.slice = none ∧ outcome.upload = none ∧ outcome.memory = call.memory ∨
        ∃ place upload, outcome.upload = some upload ∧
          Uploaded call call.request.key record.2 place upload outcome.memory)) :
    Prepared call entries outcome := by
  obtain ⟨hentries, ⟨hslice, hupload, hmemory⟩ | ⟨place, upload, hupload, huploaded⟩⟩ := h
  · exact {
      entries_eq := hentries
      declined := fun _ => hmemory
      uploaded := fun upload hsome => nomatch hupload.symm.trans hsome
      complete := fun _ _ _ hserved => absurd hslice hserved.2.2 }
  · exact {
      entries_eq := hentries
      declined := fun hnone => nomatch hupload.symm.trans hnone
      uploaded := fun upload' hsome => by
        obtain rfl : upload = upload' := Option.some.inj (hupload.symm.trans hsome)
        exact ⟨record, hmem, hmatch, place, hmatch.1 ▸ huploaded⟩
      complete := fun _ _ _ _ hnone => nomatch hupload.symm.trans hnone }

/-- A call that declines touches nothing, and declines only where no record matches. -/
theorem inside_decline {entries : Entries} (hentries : c.entries = entries)
    (hnone : ∀ record ∈ entries, Matching call record → ¬call.Served) :
    Inside (fun _ => True) (Prepared call entries) (call.decline c) where
  entries_eq := hentries
  declined := fun _ => rfl
  uploaded := nofun
  complete := fun record hmem hmatch hserved => (hnone record hmem hmatch hserved).elim

/-- **The lookup** reads inside the pack and the texture, and serves the record that matches. -/
theorem inside_matchEntry (h : Sound xxh3 c.entries) :
    Inside (fun _ => True) (Prepared call c.entries) (matchEntry xxh3 c call) := by
  unfold matchEntry
  extract_lets bucket c₁ size
  have hbucket : ∀ record ∈ c.entries, Matching call record → record ∈ bucket :=
    fun record hmem hmatch => List.mem_filter.2 ⟨hmem, decide_eq_true hmatch.1⟩
  split_ifs with hempty hallocated
  · refine inside_decline rfl fun record hmem hmatch _ => ?_
    exact absurd (hempty ▸ hbucket record hmem hmatch) List.not_mem_nil
  · refine inside_decline rfl fun record _ _ hserved => ?_
    exact Bool.false_ne_true (hallocated.symm.trans hserved.2.1)
  · cases hguest : call.guestMemory with
    | none =>
        refine inside_decline rfl fun record _ hmatch _ => ?_
        obtain ⟨-, guestMemory, hsome, -⟩ := hmatch
        rw [hguest] at hsome
        cases hsome
    | some guestMemory =>
        dsimp only
        split
        · rename_i hfind
          refine inside_decline rfl fun record hmem hmatch _ => ?_
          have hin := hbucket record hmem hmatch
          obtain ⟨-, guestMemory', hsome, hbytes⟩ := hmatch
          obtain rfl : guestMemory = guestMemory' := Option.some.inj (hguest.symm.trans hsome)
          refine List.find?_eq_none.1 hfind record hin (decide_eq_true ?_)
          exact ⟨by rw [(h.valid hmem).guestHash, hbytes], hbytes⟩
        · rename_i record hfind
          obtain ⟨hmem, hdecide⟩ := List.mem_filter.1 (List.mem_of_find?_eq_some hfind)
          have hkey : record.1 = call.request.key := of_decide_eq_true hdecide
          have hfound := List.find?_some hfind
          have hbytes := (of_decide_eq_true hfound).2
          have hlayout : Layout call.request.key record.2.blocks.length := hkey ▸ (h.valid hmem).layout
          exact (inside_uploadEntry hlayout).mono fun outcome hout =>
            prepared_of_uploadEntry hmem ⟨hkey, guestMemory, hguest, hbytes⟩ hout

/-! ### Calls one after another -/

/-- What a new path leaves: the entries of its pack, or none if the pack was not accepted. -/
structure Configured (xxh3 : List UInt8 → UInt64) (path : String) (host : Host) (c : Cache) : Prop where
  path_eq : c.path = path
  rejected : ∀ failure, load xxh3 host = .error failure → c.entries = []
  visible : c.entries = [] ∨ ∃ bytes, host.file = some bytes ∧ Accepted xxh3 bytes c.entries

/-- A pack that was configured is sound. -/
theorem Configured.sound {path : String} {host : Host} (h : Configured xxh3 path host c) :
    Sound xxh3 c.entries :=
  h.visible.imp_right fun ⟨bytes, _, haccepted⟩ => ⟨bytes, haccepted⟩

/-- **A new path** is loaded, and what was loaded before is given up. -/
theorem inside_configure {path : String} (hpath : c.path ≠ path) (host : Host) :
    Inside (fun _ => True) (Configured xxh3 path host) (c.configure xxh3 path host) := by
  have hload := inside_load xxh3 host
  unfold Cache.configure
  rw [if_neg hpath]
  dsimp only
  split_ifs with hempty
  · exact ⟨rfl, fun _ _ => rfl, .inl rfl⟩
  · cases hresult : load xxh3 host with
    | ok entries =>
        exact ⟨rfl, fun _ hfailure => (nomatch hresult.symm.trans hfailure),
          .inr (hload.of_eq_ok hresult)⟩
    | error failure =>
        dsimp only
        split
        · rename_i hstop
          exact absurd hstop (hload.not_bad hresult)
        · exact ⟨rfl, fun _ _ => rfl, .inl rfl⟩
        · exact ⟨rfl, fun _ _ => rfl, .inl rfl⟩

/-- **A call** stays inside, and leaves the entries of one accepted pack or none. -/
theorem inside_prepare (h : Sound xxh3 c.entries) (call : Call) :
    Inside (fun _ => True)
      (fun outcome => Sound xxh3 outcome.cache.entries ∧ Prepared call outcome.cache.entries outcome)
      (prepareOfflineTextureUpload xxh3 c call) := by
  unfold prepareOfflineTextureUpload
  split_ifs with hdisabled
  · exact ⟨h, inside_decline rfl fun _ _ _ hserved =>
      Bool.false_ne_true (hdisabled.symm.trans hserved.1)⟩
  · have hconfigured : Inside (fun _ => True) (fun c' => Sound xxh3 c'.entries)
        (c.configure xxh3 call.pack call.host) := by
      by_cases hpath : c.path = call.pack
      · rw [Cache.configure, if_pos hpath]
        exact h
      · exact (inside_configure hpath call.host).mono fun _ => Configured.sound
    refine hconfigured.bind fun c' hc' => (inside_matchEntry hc').mono fun outcome hprepared => ?_
    rw [hprepared.entries_eq]
    exact ⟨hc', hprepared⟩

/-- **Any sequence of calls** stays inside, and leaves a sound pack. -/
theorem inside_run (xxh3 : List UInt8 → UInt64) (calls : List Call) :
    Inside (fun _ => True) (fun c => Sound xxh3 c.entries) (run xxh3 calls) := by
  refine inside_foldlM (I := fun _ (c : Cache) => Sound xxh3 c.entries) (fun _ call _ c _ h => ?_)
    (.inl rfl)
  exact (inside_prepare h call).bind fun outcome houtcome => houtcome.1

/-- **Offline texture packs.**  On every file the loader reads only inside it, and returns entries only
if they are its records one after the other, those of one key and the same guest bytes with the same
blocks; a pack that is not accepted leaves no entry visible.  After every sequence of calls a call reads
and writes only inside its buffers; an upload is of a record of an accepted pack that matches the
request, all of it, row after row at the pitch with zeros between and nothing else changed; and a call
served uploads whenever there is such a record. -/
theorem offlineTexture_sound (xxh3 : List UInt8 → UInt64) :
    (∀ host, (∀ failure, load xxh3 host = .error failure → failure.stop ≠ .outside) ∧
      ∀ entries, load xxh3 host = .ok entries →
        ∃ bytes, host.file = some bytes ∧ Accepted xxh3 bytes entries) ∧
    (∀ (c : Cache) (path : String) (host : Host), c.path ≠ path →
      ∃ c', c.configure xxh3 path host = .ok c' ∧ Configured xxh3 path host c') ∧
    ∀ (calls : List Call) (call : Call), ∃ c outcome, run xxh3 calls = .ok c ∧
      prepareOfflineTextureUpload xxh3 c call = .ok outcome ∧
      Sound xxh3 outcome.cache.entries ∧ Prepared call outcome.cache.entries outcome := by
  refine ⟨fun host => ⟨fun failure h => (inside_load xxh3 host).not_bad h,
    fun entries h => (inside_load xxh3 host).of_eq_ok h⟩,
    fun c path host hpath => (inside_configure hpath host).exists_ok, fun calls call => ?_⟩
  obtain ⟨c, hrun, hsound⟩ := (inside_run xxh3 calls).exists_ok
  obtain ⟨outcome, hprepare, houtcome⟩ := (inside_prepare hsound call).exists_ok
  exact ⟨c, outcome, hrun, hprepare, houtcome⟩

end OfflineTexture
end BoltsRebuilt
