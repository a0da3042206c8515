/-
# The asset pack

`NativeAssetCache::Initialize` in `src/gpu/native/native_asset_cache.cpp`
(lines 26–66 and 138–189): the pack file is read into a byte arena and a table of
entries, or refused.

A file is an 80-byte header, a table of 64-byte records and the data area; each
record names the bytes of one asset.  The loader walks the records in order with
the end of what they claimed so far, so a record's place is not chosen by the
file: it is the next multiple of four, the bytes skipped are zero, and the last
record ends at the end of the data area.

`sha256` is the operating system's; it may fail, and nothing is assumed of it.
The 64-bit sums of the source do not wrap, because each is made after the bound
of its parts was checked, so the numbers here are natural numbers.
-/

import BoltsRebuilt.Lib.Bytes
import Mathlib.Data.Nat.Basic

namespace BoltsRebuilt
namespace Assets

/-- `kPhysicalBytes`. -/
def physicalBytes : ℕ := 2 ^ 29

/-- `kMaxEntries`. -/
def maxEntries : ℕ := 100000

/-- `kHeaderSize`. -/
def headerSize : ℕ := 80

/-- `kRecordSize`. -/
def recordSize : ℕ := 64

/-- `max_file`. -/
def maxFile : ℕ := physicalBytes + maxEntries * recordSize + 256

/-- `NBGEOM1` and a zero byte. -/
def magic : List UInt8 := [78, 66, 71, 69, 79, 77, 49, 0]

/-- The bytes of a window. -/
def slice (p : List UInt8) (offset length : ℕ) : List UInt8 := (p.drop offset).take length

/-- `U32`. -/
def u32 (p : List UInt8) (offset : ℕ) : ℕ := ofLe (slice p offset 4)

/-- `U64`. -/
def u64 (p : List UInt8) (offset : ℕ) : ℕ := ofLe (slice p offset 8)

/-- `Contains`. -/
def Contains (outer offset length : ℕ) : Prop := offset ≤ outer ∧ length ≤ outer - offset

instance (outer offset length : ℕ) : Decidable (Contains outer offset length) :=
  inferInstanceAs (Decidable (_ ∧ _))

/-- One round of the hash in `Fingerprint`. -/
def hashByte (h : ℕ) (byte : UInt8) : ℕ := (h ^^^ byte.toNat) * 1099511628211 % 2 ^ 64

/-- `Fingerprint`: a hash of the first and the last 32 bytes. -/
def fingerprint (bytes : List UInt8) : ℕ :=
  let n := min 32 bytes.length
  (bytes.drop (bytes.length - n)).foldl hashByte
    ((bytes.take n).foldl hashByte 14695981039346656037)

/-- `Entry`. -/
structure Entry where
  offset : ℕ
  length : ℕ
  fingerprint : ℕ
deriving DecidableEq, Repr

namespace Entry

/-- The end of an entry, exclusive. -/
def stop (e : Entry) : ℕ := e.offset + e.length

/-- The byte belongs to the entry. -/
def Covers (e : Entry) (i : ℕ) : Prop := e.offset ≤ i ∧ i < e.stop

end Entry

/-- What the loader keeps of a file: `bytes` and `entries`. -/
structure Pack where
  bytes : List UInt8
  entries : List Entry
deriving DecidableEq, Repr

/-- `throw` under a condition. -/
def refuse (bad : Prop) [Decidable bad] (message : String) : Except String Unit :=
  if bad then .error message else .ok ()

/-- One record: where it must start is decided by where the last one ended. -/
def readRow (sha256 : List UInt8 → Except String (List UInt8)) (bytes row : List UInt8)
    (stop : ℕ) : Except String Entry := do
  let offset := u64 row 0
  let length := u32 row 8
  let kinds := u32 row 12
  refuse (length = 0 ∨ kinds = 0 ∨ kinds / 4 ≠ 0 ∨ u64 row 56 ≠ 0 ∨
    offset ≠ (stop + 3) / 4 * 4 ∨ ¬Contains bytes.length offset length)
    "asset record bounds/order/flags are invalid"
  refuse (∃ byte ∈ slice bytes stop (offset - stop), byte ≠ 0) "nonzero asset padding"
  let raw := slice bytes offset length
  let hash ← sha256 raw
  refuse (hash ≠ slice row 24 32 ∨ fingerprint raw ≠ u64 row 16) "asset bytes checksum mismatch"
  return ⟨offset, length, u64 row 16⟩

/-- The loop over the records; the second part is `end`. -/
def readRows (sha256 : List UInt8 → Except String (List UInt8)) (bytes : List UInt8) :
    List (List UInt8) → ℕ → Except String (List Entry × ℕ)
  | [], stop => return ([], stop)
  | row :: rows, stop => do
      let entry ← readRow sha256 bytes row stop
      let (entries, stop) ← readRows sha256 bytes rows entry.stop
      return (entry :: entries, stop)

/-- The part of `Initialize` that reads the file. -/
def loadPack (sha256 : List UInt8 → Except String (List UInt8)) (file : List UInt8) :
    Except String Pack := do
  refuse (file.length < headerSize ∨ maxFile < file.length)
    "asset pack size is outside the bounded format"
  let header := file.take headerSize
  refuse (header.take 8 ≠ magic ∨ u32 header 8 ≠ 1 ∨ u32 header 12 ≠ headerSize ∨
    u32 header 20 ≠ recordSize) "unsupported asset pack format"
  let count := u32 header 16
  let tableOffset := u64 header 24
  let dataOffset := u64 header 32
  let dataSize := u64 header 40
  let tableSize := count * recordSize
  refuse (count = 0 ∨ maxEntries < count ∨ tableOffset ≠ headerSize ∨
    ¬Contains file.length tableOffset tableSize ∨ dataOffset % 256 ≠ 0 ∨
    dataOffset ≠ (tableOffset + tableSize + 255) / 256 * 256 ∨
    dataSize = 0 ∨ physicalBytes < dataSize ∨ ¬Contains file.length dataOffset dataSize ∨
    dataOffset + dataSize ≠ file.length) "asset pack table/data bounds are invalid"
  let table := slice file headerSize tableSize
  let hash ← sha256 table
  refuse (hash ≠ slice header 48 32) "asset pack table checksum mismatch"
  let bytes := slice file dataOffset dataSize
  let rows := (List.range count).map fun i => slice table (i * recordSize) recordSize
  let (entries, stop) ← readRows sha256 bytes rows 0
  refuse (stop ≠ dataSize) "unclaimed asset bytes"
  return ⟨bytes, entries⟩

/-! ### What an accepted file looks like -/

namespace Pack

/-- The bytes of an entry. -/
def raw (p : Pack) (e : Entry) : List UInt8 := slice p.bytes e.offset e.length

/-- The entries of an accepted pack: aligned, nonempty, inside the data, in order and
apart, each found under its own fingerprint.  What no entry covers is zero padding: it
starts at the end of an entry and is shorter than a word.  The last entry ends the
data. -/
structure WellFormed (p : Pack) : Prop where
  bounded : p.bytes.length ≤ physicalBytes
  aligned : ∀ e ∈ p.entries, 4 ∣ e.offset
  nonempty : ∀ e ∈ p.entries, 0 < e.length
  inside : ∀ e ∈ p.entries, e.stop ≤ p.bytes.length
  ordered : p.entries.Pairwise fun e e' => e.stop ≤ e'.offset
  fingerprints : ∀ e ∈ p.entries, fingerprint (p.raw e) = e.fingerprint
  padding : ∀ i, i < p.bytes.length → (∀ e ∈ p.entries, ¬e.Covers i) →
    p.bytes[i]? = some 0 ∧ ∃ e ∈ p.entries, e.stop ≤ i ∧ i < e.stop + 3
  filled : ∃ e ∈ p.entries, e.stop = p.bytes.length

/-- Two entries of a well-formed pack share no byte of the arena. -/
theorem WellFormed.disjoint {p : Pack} (h : p.WellFormed) :
    p.entries.Pairwise fun e e' => ∀ i, ¬(e.Covers i ∧ e'.Covers i) :=
  h.ordered.imp fun hle i hboth => by
    obtain ⟨⟨-, hlt⟩, hge, -⟩ := hboth
    omega

end Pack

/-- The entries claim the bytes from `start` to `stop`, each from the next multiple of
four, over zero padding. -/
def Claims (bytes : List UInt8) : ℕ → ℕ → List Entry → Prop
  | start, stop, [] => start = stop
  | start, stop, e :: entries =>
      e.offset = (start + 3) / 4 * 4 ∧ 0 < e.length ∧ e.stop ≤ bytes.length ∧
        (∀ byte ∈ slice bytes start (e.offset - start), byte = 0) ∧
        fingerprint (slice bytes e.offset e.length) = e.fingerprint ∧
        Claims bytes e.stop stop entries

/-- What follows a check is reached when the check passes. -/
theorem refuse_bind {α : Type} {bad : Prop} [Decidable bad] {message : String}
    {f : Unit → Except String α} {x : α} :
    (refuse bad message >>= f) = .ok x ↔ ¬bad ∧ f () = .ok x := by
  by_cases h : bad
  · rw [refuse, if_pos h]
    exact ⟨nofun, fun hx => absurd h hx.1⟩
  · rw [refuse, if_neg h]
    exact ⟨fun hx => ⟨h, hx⟩, fun hx => hx.2⟩

/-- A step followed by another succeeds when both do. -/
theorem bind_ok {α β : Type} {a : Except String α} {f : α → Except String β} {x : β} :
    (a >>= f) = .ok x ↔ ∃ y, a = .ok y ∧ f y = .ok x := by
  cases a with
  | error m => exact ⟨nofun, nofun⟩
  | ok y => exact ⟨fun h => ⟨y, rfl, h⟩, fun ⟨_, hy, h⟩ => by cases hy; exact h⟩

variable {sha256 : List UInt8 → Except String (List UInt8)} {bytes row file : List UInt8}
  {rows : List (List UInt8)} {start stop : ℕ} {e : Entry} {entries : List Entry} {p : Pack}

/-- What an accepted record satisfies: its offset is the next multiple of four, the padding before
it is zero, and its bytes have the fingerprint it names. -/
theorem readRow_ok (h : readRow sha256 bytes row start = .ok e) :
    e.offset = (start + 3) / 4 * 4 ∧ 0 < e.length ∧ e.stop ≤ bytes.length ∧
      (∀ byte ∈ slice bytes start (e.offset - start), byte = 0) ∧
      fingerprint (slice bytes e.offset e.length) = e.fingerprint := by
  rw [readRow, refuse_bind, refuse_bind, bind_ok] at h
  obtain ⟨hrecord, hpadding, hash, -, h⟩ := h
  rw [refuse_bind] at h
  obtain ⟨hhash, h⟩ := h
  cases h
  simp only [not_or, not_not] at hrecord hhash
  obtain ⟨hlength, -, -, -, hoffset, hoff, hlen⟩ := hrecord
  refine ⟨hoffset, Nat.pos_of_ne_zero hlength, ?_, fun byte hbyte => ?_, hhash.2⟩
  · simp only [Entry.stop]
    omega
  · by_contra hne
    exact hpadding ⟨byte, hbyte, hne⟩

/-- The loop's records claim what lies between its two ends. -/
theorem readRows_ok (h : readRows sha256 bytes rows start = .ok (entries, stop)) :
    Claims bytes start stop entries ∧ entries.length = rows.length := by
  induction rows generalizing start entries with
  | nil =>
      cases h
      exact ⟨rfl, rfl⟩
  | cons row rows ih =>
      rw [readRows, bind_ok] at h
      obtain ⟨e, he, h⟩ := h
      rw [bind_ok] at h
      obtain ⟨⟨tail, last⟩, htail, h⟩ := h
      cases h
      obtain ⟨hclaims, hcount⟩ := ih htail
      obtain ⟨h1, h2, h3, h4, h5⟩ := readRow_ok he
      exact ⟨⟨h1, h2, h3, h4, h5, hclaims⟩, congrArg (· + 1) hcount⟩

namespace Claims

/-- No entry begins before the offset from which the records were read. -/
theorem start_le (h : Claims bytes start stop entries) (he : e ∈ entries) : start ≤ e.offset := by
  induction entries generalizing start with
  | nil => exact absurd he List.not_mem_nil
  | cons d entries ih =>
      obtain ⟨hoffset, -, -, -, -, htail⟩ := h
      rcases List.mem_cons.1 he with rfl | he
      · omega
      · have := ih htail he
        simp only [Entry.stop] at this
        omega

/-- What holds of each entry by itself, whichever record it came from: alignment, a length, its
place in the file and its fingerprint. -/
theorem each (h : Claims bytes start stop entries) (he : e ∈ entries) :
    4 ∣ e.offset ∧ 0 < e.length ∧ e.stop ≤ bytes.length ∧
      fingerprint (slice bytes e.offset e.length) = e.fingerprint := by
  induction entries generalizing start with
  | nil => exact absurd he List.not_mem_nil
  | cons d entries ih =>
      obtain ⟨hoffset, hlength, hinside, -, hprint, htail⟩ := h
      rcases List.mem_cons.1 he with rfl | he
      · exact ⟨⟨_, hoffset.trans (Nat.mul_comm ..)⟩, hlength, hinside, hprint⟩
      · exact ih htail he

/-- Entries come one after the other: each ends no later than the next begins. -/
theorem ordered (h : Claims bytes start stop entries) :
    entries.Pairwise fun e e' => e.stop ≤ e'.offset := by
  induction entries generalizing start with
  | nil => exact .nil
  | cons e entries ih =>
      obtain ⟨-, -, -, -, -, htail⟩ := h
      exact List.pairwise_cons.2 ⟨fun e' he' => htail.start_le he', ih htail⟩

/-- A byte between the two ends that no entry covers is a zero in the padding before
one of the entries. -/
theorem padding (h : Claims bytes start stop entries) {i : ℕ} (hstart : start ≤ i) (hstop : i < stop)
    (hfree : ∀ e ∈ entries, ¬e.Covers i) :
    bytes[i]? = some 0 ∧ ((∃ e ∈ entries, e.stop ≤ i ∧ i < e.stop + 3) ∨
      i < (start + 3) / 4 * 4) := by
  induction entries generalizing start with
  | nil => exact absurd h (by simp only [Claims]; omega)
  | cons e entries ih =>
      obtain ⟨hoffset, hlength, hinside, hzero, -, htail⟩ := h
      have hfirst := hfree e (List.mem_cons_self ..)
      rcases Nat.lt_or_ge i e.offset with hlt | hge
      · have hi : i < bytes.length := by
          simp only [Entry.stop] at hinside
          omega
        have hbyte : bytes[i] ∈ slice bytes start (e.offset - start) :=
          List.mem_iff_getElem?.2 ⟨i - start, by
            rw [slice, List.getElem?_take_of_lt (by omega), List.getElem?_drop,
              Nat.add_sub_cancel' hstart, List.getElem?_eq_getElem hi]⟩
        rw [List.getElem?_eq_getElem hi, hzero _ hbyte]
        exact ⟨rfl, .inr (hoffset ▸ hlt)⟩
      · -- past the entry: the rest of the walk starts at its end
        have hpast : e.stop ≤ i := by
          by_contra hin
          exact hfirst ⟨hge, Nat.lt_of_not_le hin⟩
        obtain ⟨hval, hplace⟩ := ih htail hpast fun d hd => hfree d (List.mem_cons_of_mem _ hd)
        refine ⟨hval, .inl ?_⟩
        rcases hplace with ⟨d, hd, hplace⟩ | hplace
        · exact ⟨d, List.mem_cons_of_mem _ hd, hplace⟩
        · exact ⟨e, List.mem_cons_self .., hpast, by omega⟩

/-- The last of the entries ends exactly where the records did, so nothing behind them is left
unclaimed. -/
theorem filled (h : Claims bytes start stop entries) (hne : entries ≠ []) :
    ∃ e ∈ entries, e.stop = stop := by
  induction entries generalizing start with
  | nil => exact absurd rfl hne
  | cons e entries ih =>
      obtain ⟨-, -, -, -, -, htail⟩ := h
      by_cases hnil : entries = []
      · subst hnil
        exact ⟨e, List.mem_cons_self .., htail⟩
      · obtain ⟨d, hd, hstop⟩ := ih htail hnil
        exact ⟨d, List.mem_cons_of_mem _ hd, hstop⟩

end Claims

/-- What the loader has checked when it accepts a file. -/
theorem loadPack_ok (h : loadPack sha256 file = .ok p) :
    ∃ dataOffset, p.bytes = file.drop dataOffset ∧ p.bytes.length ≤ physicalBytes ∧
      p.entries ≠ [] ∧ Claims p.bytes 0 p.bytes.length p.entries := by
  rw [loadPack, refuse_bind, refuse_bind, refuse_bind, bind_ok] at h
  obtain ⟨-, -, hbounds, hash, -, h⟩ := h
  rw [refuse_bind, bind_ok] at h
  obtain ⟨-, ⟨entries, stop⟩, hrows, h⟩ := h
  dsimp only at h
  rw [refuse_bind] at h
  obtain ⟨hstop, h⟩ := h
  cases h
  simp only [not_or, not_not] at hbounds hstop
  obtain ⟨hcount, -, -, -, -, -, -, hsize, -, hfile⟩ := hbounds
  generalize u64 (file.take headerSize) 32 = dataOffset at hrows hfile ⊢
  generalize u64 (file.take headerSize) 40 = dataSize at hrows hfile hsize hstop ⊢
  have hbytes : slice file dataOffset dataSize = file.drop dataOffset :=
    List.take_of_length_le (by rw [List.length_drop]; omega)
  have hlength : (slice file dataOffset dataSize).length = dataSize := by
    rw [hbytes, List.length_drop]
    omega
  obtain ⟨hclaims, hentries⟩ := readRows_ok hrows
  refine ⟨dataOffset, hbytes, by rw [hlength]; omega, fun hnil => ?_, ?_⟩
  · dsimp only at hnil
    subst hnil
    simp only [List.length_nil, List.length_map, List.length_range] at hentries
    exact hcount hentries.symm
  · dsimp only
    subst hstop
    rwa [hlength]

/-- **An accepted pack is well formed**, every one of its entries inside the file, aligned,
fingerprinted and apart from the others. -/
theorem loadPack_wellFormed (h : loadPack sha256 file = .ok p) : p.WellFormed := by
  obtain ⟨-, -, hbounded, hne, hclaims⟩ := loadPack_ok h
  exact
    { bounded := hbounded
      aligned := fun e he => (hclaims.each he).1
      nonempty := fun e he => (hclaims.each he).2.1
      inside := fun e he => (hclaims.each he).2.2.1
      ordered := hclaims.ordered
      fingerprints := fun e he => (hclaims.each he).2.2.2
      padding := fun i hi hfree => by
        obtain ⟨hval, hplace⟩ := hclaims.padding (Nat.zero_le i) hi hfree
        exact ⟨hval, hplace.resolve_right (by omega)⟩
      filled := hclaims.filled hne }

end Assets
end BoltsRebuilt
