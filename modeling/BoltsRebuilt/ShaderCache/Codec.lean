/-
# Reading back an entry, and what a key is made of

src/src/gpu/native/native_shader_cache.cpp: the checks of `ReadEntry` on the bytes
of a file, `ValidContainer` with its reads, and what `MakeKey` hashes.

`decodeEntry` accepts exactly the images of shaders that `ValidContainer` accepts
(`decodeEntry_eq_some`), the header being fixed byte by byte.  `checkedContainer` is
`ValidContainer` on a buffer that refuses a read outside it, and never is refused
(`checkedContainer_eq`).  `MakeKey` puts the size of a text before the text and the
number of macros before the macros, so what it hashes can be read back
(`keyBytes_injective`).
-/

import BoltsRebuilt.ShaderCache.Container

namespace BoltsRebuilt
namespace ShaderCache

/-! ### An entry as bytes -/

/-- The shader that `ReadEntry` finds in a file with the content `bytes`, every operation
succeeding. -/
def decodeEntry (hash : List UInt8 → Digest) (key : Digest) (target : String) (bytes : List UInt8) :
    Option (List UInt8) :=
  if bytes.length < kHeaderBytes ∨ bytes.length > kHeaderBytes + kMaxBlobBytes then none
  else
    let head := bytesAt bytes 0 kHeaderBytes
    match readHeader key bytes.length head with
    | none => none
    | some blobSize =>
      let candidate := bytesAt bytes kHeaderBytes blobSize
      if bytesAt head 48 32 = (hash candidate).1 ∧ validContainer candidate target then some candidate
      else none

/-- A file shorter than the header, or longer than the largest entry, decodes to nothing. -/
theorem decodeEntry_of_size {hash : List UInt8 → Digest} {key : Digest} {target : String}
    {bytes : List UInt8}
    (hsize : bytes.length < kHeaderBytes ∨ bytes.length > kHeaderBytes + kMaxBlobBytes) :
    decodeEntry hash key target bytes = none := by
  rw [decodeEntry, if_pos hsize]

/-- So does one whose header is refused. -/
theorem decodeEntry_of_header {hash : List UInt8 → Digest} {key : Digest} {target : String}
    {bytes : List UInt8}
    (hhead : readHeader key bytes.length (bytesAt bytes 0 kHeaderBytes) = none) :
    decodeEntry hash key target bytes = none := by
  by_cases hsize : bytes.length < kHeaderBytes ∨ bytes.length > kHeaderBytes + kMaxBlobBytes
  · exact decodeEntry_of_size hsize
  · rw [decodeEntry, if_neg hsize]
    simp only [hhead]

/-- Bytes read in two parts are those read at once. -/
theorem bytesAt_add (bytes : List UInt8) (p k n : ℕ) :
    bytesAt bytes p k ++ bytesAt bytes (p + k) n = bytesAt bytes p (k + n) := by
  rw [bytesAt, bytesAt, bytesAt, List.take_add, List.drop_drop]

/-- Bytes read from inside the file are as many as were asked for. -/
theorem length_bytesAt {bytes : List UInt8} {p n : ℕ} (h : p + n ≤ bytes.length) :
    (bytesAt bytes p n).length = n := by
  rw [bytesAt, List.length_take, List.length_drop]
  omega

/-- The whole file is its bytes from the start. -/
theorem bytesAt_all (bytes : List UInt8) : bytesAt bytes 0 bytes.length = bytes := by
  rw [bytesAt, List.drop_zero, List.take_length]

/-- Bytes that read as a number are the little-endian bytes of that number. -/
theorem bytesAt_eq_le {bytes : List UInt8} {p n v : ℕ} (hp : p + n ≤ bytes.length)
    (h : ofLe (bytesAt bytes p n) = v) : bytesAt bytes p n = le n v := by
  rw [← h, le_ofLe (length_bytesAt hp)]

/-- What `ReadEntry` accepts in a header is the header it expects. -/
theorem readHeader_eq_some {key digest : Digest} {size blobSize : ℕ} {bytes blob : List UInt8}
    (hlength : bytes.length = kHeaderBytes) (h : readHeader key size bytes = some blobSize)
    (hblob : blob.length = blobSize) (hdigest : bytesAt bytes 48 32 = digest.1) :
    bytes = header key digest blob ∧ blobSize + kHeaderBytes = size := by
  rw [readHeader] at h
  by_cases hbad : bytesAt bytes 0 8 ≠ kMagic ∨ u32 bytes 8 ≠ kFormatVersion ∨
      u32 bytes 12 ≠ kHeaderBytes ∨ bytesAt bytes 16 32 ≠ key.1 ∨ u64 bytes 88 ≠ 0 ∨
      u64 bytes 80 = 0 ∨ u64 bytes 80 > kMaxBlobBytes ∨ u64 bytes 80 + kHeaderBytes ≠ size
  · rw [if_pos hbad] at h
    cases h
  · rw [if_neg hbad] at h
    simp only [not_or, not_not] at hbad
    obtain ⟨hmagic, hversion, hhead, hkey, hzero, -, -, hsize⟩ := hbad
    have hblobSize : u64 bytes 80 = blobSize := Option.some.inj h
    rw [kHeaderBytes] at hlength
    refine ⟨?_, by rw [← hblobSize, hsize]⟩
    have h₁ := bytesAt_eq_le (by omega) hversion
    have h₂ := bytesAt_eq_le (by omega) hhead
    have h₃ := bytesAt_eq_le (by omega) hblobSize
    have h₄ := bytesAt_eq_le (by omega) hzero
    rw [header, ← hmagic, ← h₁, ← h₂, ← hkey, ← hdigest, hblob, ← h₃, ← h₄, bytesAt_add, bytesAt_add,
      bytesAt_add, bytesAt_add, bytesAt_add, bytesAt_add]
    have hall := bytesAt_all bytes
    rw [hlength] at hall
    exact hall.symm

/-- **An entry is accepted exactly when it is the image of an acceptable shader**, and gives that
shader back. -/
theorem decodeEntry_eq_some {hash : List UInt8 → Digest} {key : Digest} {target : String}
    {bytes blob : List UInt8} : decodeEntry hash key target bytes = some blob ↔
      validContainer blob target = true ∧ bytes = entry key (hash blob) blob := by
  constructor
  · intro h
    rw [decodeEntry] at h
    split at h
    · cases h
    · rename_i hlength
      simp only at h
      split at h
      · cases h
      · rename_i blobSize hhead
        split at h
        · rename_i haccept
          obtain rfl := Option.some.inj h
          have hsize : blobSize + kHeaderBytes = bytes.length := by
            rw [readHeader] at hhead
            split at hhead
            · cases hhead
            · rename_i hbad
              simp only [not_or, not_not] at hbad
              rw [← Option.some.inj hhead]
              exact hbad.2.2.2.2.2.2.2
          have hblob : (bytesAt bytes kHeaderBytes blobSize).length = blobSize :=
            length_bytesAt (by omega)
          obtain ⟨hheader, -⟩ := readHeader_eq_some (length_bytesAt (by omega)) hhead hblob haccept.1
          refine ⟨haccept.2, ?_⟩
          have hjoin := bytesAt_add bytes 0 kHeaderBytes blobSize
          rw [Nat.zero_add, Nat.add_comm kHeaderBytes, hsize, bytesAt_all] at hjoin
          rw [entry, ← hheader, hjoin]
        · cases h
  · rintro ⟨hvalid, rfl⟩
    obtain ⟨hmin, hmax⟩ := length_of_validContainer hvalid
    have hhead : bytesAt (entry key (hash blob) blob) 0 kHeaderBytes = header key (hash blob) blob :=
      bytesAt_zero (length_header ..)
    have hblob : bytesAt (entry key (hash blob) blob) kHeaderBytes blob.length = blob := by
      rw [entry, bytesAt_append_right (by simp), length_header, Nat.sub_self, bytesAt_all]
    rw [decodeEntry, length_entry, if_neg (by omega)]
    simp only [hhead, readHeader_header (show 0 < blob.length by omega) hmax, hblob,
      bytesAt_header_digest, hvalid, and_self, if_true]

/-- An entry is of one key, the one in its header. -/
theorem entry_key {key key' digest digest' : Digest} {blob blob' : List UInt8}
    (h : entry key digest blob = entry key' digest' blob') : key = key' := by
  obtain ⟨hheader, -⟩ := List.append_inj h (by simp)
  have hkey := congrArg (bytesAt · 16 32) hheader
  simp only [bytesAt_header_key] at hkey
  exact Subtype.ext hkey

/-! ### The reads of `ValidContainer` -/

/-- The `n` bytes at `p`, when they are in the buffer. -/
def read? (blob : List UInt8) (p n : ℕ) : Option (List UInt8) :=
  if p + n ≤ blob.length then some (bytesAt blob p n) else none

def read32? (blob : List UInt8) (p : ℕ) : Option ℕ := (read? blob p 4).map ofLe

/-- `scanChunks` with checked reads, in the order of the source. -/
def checkedChunks (blob : List UInt8) (stage directoryEnd : ℕ) : ℕ → ℕ → Bool → Option Bool
  | 0, _, haveCode => some haveCode
  | n + 1, i, haveCode => do
    let offset ← read32? blob (32 + i * 4)
    if offset < directoryEnd ∨ offset > blob.length - 8 then some false
    else do
    let length ← read32? blob (offset + 4)
    if length > blob.length - offset - 8 then some false
    else do
    let tag ← read? blob offset 4
    if isCodeTag tag then
      if haveCode ∨ length < 8 ∨ length % 4 ≠ 0 then some false
      else do
      let version ← read32? blob (offset + 8)
      if version / 65536 ≠ stage ∨ version % 65536 ≠ 0x51 then some false
      else do
      let dwords ← read32? blob (offset + 12)
      if dwords ≠ length / 4 then some false
      else checkedChunks blob stage directoryEnd n (i + 1) true
    else checkedChunks blob stage directoryEnd n (i + 1) haveCode

/-- `ValidContainer` with checked reads: `none` is a read outside the buffer. -/
def checkedContainer (blob : List UInt8) (target : String) : Option Bool :=
  if blob.length < 32 ∨ blob.length > kMaxBlobBytes then some false
  else do
  let magic ← read? blob 0 4
  if magic ≠ [0x44, 0x58, 0x42, 0x43] then some false
  else do
  let one ← read32? blob 20
  if one ≠ 1 then some false
  else do
  let size ← read32? blob 24
  if size ≠ blob.length then some false
  else do
  let chunks ← read32? blob 28
  if chunks = 0 ∨ chunks > (blob.length - 32) / 4 then some false
  else
    match expectedStage target with
    | none => some false
    | some stage => checkedChunks blob stage (32 + chunks * 4) chunks 0 false

/-- A checked read that stays inside the blob is the word there. -/
theorem read32?_eq {blob : List UInt8} {p : ℕ} (h : p + 4 ≤ blob.length) :
    read32? blob p = some (u32 blob p) := by
  rw [read32?, read?, if_pos h]
  rfl

/-- The loop never reads outside while the chunk table is inside. -/
theorem checkedChunks_eq {blob : List UInt8} {stage directoryEnd : ℕ} (hsize : 32 ≤ blob.length)
    {n i : ℕ} (htable : 32 + (i + n) * 4 ≤ blob.length) (haveCode : Bool) :
    checkedChunks blob stage directoryEnd n i haveCode =
      some ((scanChunks blob stage directoryEnd n i haveCode).getD false) := by
  induction n generalizing i haveCode with
  | zero => rfl
  | succ n ih =>
      have hrest : 32 + (i + 1 + n) * 4 ≤ blob.length := by omega
      rw [checkedChunks, scanChunks, read32?_eq (by omega)]
      simp only [Option.bind_eq_bind, Option.bind_some]
      by_cases hoffset : u32 blob (32 + i * 4) < directoryEnd ∨
          u32 blob (32 + i * 4) > blob.length - 8
      · rw [if_pos hoffset, if_pos hoffset]
        rfl
      rw [if_neg hoffset, if_neg hoffset, read32?_eq (by omega)]
      simp only [Option.bind_some]
      by_cases hlength : u32 blob (u32 blob (32 + i * 4) + 4) >
          blob.length - u32 blob (32 + i * 4) - 8
      · rw [if_pos hlength, if_pos hlength]
        rfl
      rw [if_neg hlength, if_neg hlength, read?, if_pos (by omega)]
      simp only [Option.bind_some]
      by_cases htag : isCodeTag (bytesAt blob (u32 blob (32 + i * 4)) 4) = true
      · rw [if_pos htag, if_pos htag]
        by_cases hcode : haveCode = true ∨ u32 blob (u32 blob (32 + i * 4) + 4) < 8 ∨
            u32 blob (u32 blob (32 + i * 4) + 4) % 4 ≠ 0
        · rw [if_pos hcode, if_pos hcode]
          rfl
        rw [if_neg hcode, if_neg hcode, read32?_eq (by omega)]
        simp only [Option.bind_some]
        by_cases hversion : u32 blob (u32 blob (32 + i * 4) + 8) / 65536 ≠ stage ∨
            u32 blob (u32 blob (32 + i * 4) + 8) % 65536 ≠ 0x51
        · rw [if_pos hversion, if_pos (by tauto)]
          rfl
        rw [if_neg hversion, read32?_eq (by omega)]
        simp only [Option.bind_some]
        by_cases hdwords : u32 blob (u32 blob (32 + i * 4) + 12) ≠
            u32 blob (u32 blob (32 + i * 4) + 4) / 4
        · rw [if_pos hdwords, if_pos (by tauto)]
          rfl
        rw [if_neg hdwords, if_neg (by tauto)]
        exact ih hrest true
      · rw [if_neg htag, if_neg htag]
        exact ih hrest haveCode

/-- **`ValidContainer` reads only inside the buffer**: with every access checked it gives the same
answer, and none fails. -/
theorem checkedContainer_eq (blob : List UInt8) (target : String) :
    checkedContainer blob target = some (validContainer blob target) := by
  rw [checkedContainer, validContainer]
  by_cases hlength : blob.length < 32 ∨ blob.length > kMaxBlobBytes
  · rw [if_pos hlength, if_pos (by tauto)]
  rw [if_neg hlength, read?, if_pos (by omega)]
  simp only [Option.bind_eq_bind, Option.bind_some]
  by_cases hmagic : bytesAt blob 0 4 ≠ [0x44, 0x58, 0x42, 0x43]
  · rw [if_pos hmagic, if_pos (by tauto)]
  rw [if_neg hmagic, read32?_eq (by omega)]
  simp only [Option.bind_some]
  by_cases hone : u32 blob 20 ≠ 1
  · rw [if_pos hone, if_pos (by tauto)]
  rw [if_neg hone, read32?_eq (by omega)]
  simp only [Option.bind_some]
  by_cases hsize : u32 blob 24 ≠ blob.length
  · rw [if_pos hsize, if_pos (by tauto)]
  rw [if_neg hsize, read32?_eq (by omega), if_neg (by tauto)]
  simp only [Option.bind_some]
  by_cases hchunks : u32 blob 28 = 0 ∨ u32 blob 28 > (blob.length - 32) / 4
  · rw [if_pos hchunks, if_pos hchunks]
  rw [if_neg hchunks, if_neg hchunks]
  cases expectedStage target with
  | none => rfl
  | some stage => exact checkedChunks_eq (by omega) (by omega) false

/-! ### What `MakeKey` hashes -/

/-- Bytes behind a `std::string_view`. -/
abbrev Text := { bytes : List UInt8 // bytes.length < 2 ^ 64 }

structure Macro where
  name : Text
  value : Text
  hasDefinition : Bool

/-- `Request`. -/
structure Request where
  sourceName : Text
  source : Text
  entryPoint : Text
  target : Text
  macros : { list : List Macro // list.length < 2 ^ 64 }
  flags1 : UInt32
  flags2 : UInt32

/-- `Hash::Add`: the bytes fed so far, and those of `data`, in pieces of at most a mebibyte. -/
def addRounds : ℕ → List UInt8 → List UInt8 → List UInt8
  | 0, fed, _ => fed
  | rounds + 1, fed, data =>
    if data.isEmpty then fed else addRounds rounds (fed ++ data.take (2 ^ 20)) (data.drop (2 ^ 20))

def add (fed data : List UInt8) : List UInt8 := addRounds data.length fed data

/-- `Hash::Number`. -/
def addNumber (fed : List UInt8) (value : ℕ) : List UInt8 := add fed (le 8 value)

/-- `Hash::String`. -/
def addString (fed : List UInt8) (value : Text) : List UInt8 :=
  add (addNumber fed value.1.length) value.1

def addMacro (fed : List UInt8) (m : Macro) : List UInt8 :=
  addString (addNumber (addString fed m.name) m.hasDefinition.toNat) m.value

/-- `nb-native-shader-cache`. -/
def keyTag : Text :=
  ⟨[0x6E, 0x62, 0x2D, 0x6E, 0x61, 0x74, 0x69, 0x76, 0x65, 0x2D, 0x73, 0x68, 0x61, 0x64, 0x65, 0x72,
    0x2D, 0x63, 0x61, 0x63, 0x68, 0x65], by decide⟩

/-- What `MakeKey` has fed when it finishes. -/
def keyBytes (request : Request) (compilerIdentity : Digest) : List UInt8 :=
  let fed := addString [] keyTag
  let fed := addNumber fed kFormatVersion
  let fed := add fed compilerIdentity.1
  let fed := addString fed request.sourceName
  let fed := addString fed request.source
  let fed := addString fed request.entryPoint
  let fed := addString fed request.target
  let fed := addNumber fed request.flags1.toNat
  let fed := addNumber fed request.flags2.toNat
  let fed := addNumber fed request.macros.1.length
  request.macros.1.foldl addMacro fed

/-- `MakeKey`. -/
def makeKey (hash : List UInt8 → Digest) (request : Request) (compilerIdentity : Digest) : Digest :=
  hash (keyBytes request compilerIdentity)

/-- Feeding the digest in rounds of limited length feeds all of the data, when the rounds are
enough. -/
theorem addRounds_eq : ∀ (rounds : ℕ) (fed data : List UInt8), data.length ≤ rounds →
    addRounds rounds fed data = fed ++ data := by
  intro rounds
  induction rounds with
  | zero =>
      intro fed data h
      rw [List.eq_nil_of_length_eq_zero (Nat.le_zero.1 h), addRounds, List.append_nil]
  | succ rounds ih =>
      intro fed data h
      rw [addRounds]
      rcases data with _ | ⟨byte, data⟩
      · simp
      · have hpos : 0 < 2 ^ 20 := Nat.two_pow_pos 20
        have hdrop : ((byte :: data).drop (2 ^ 20)).length ≤ rounds := by
          rw [List.length_drop]
          omega
        rw [if_neg (by simp), ih _ _ hdrop, List.append_assoc, List.take_append_drop]

/-- The pieces of limited length are fed one after another, and together they are the data. -/
@[simp] theorem add_eq (fed data : List UInt8) : add fed data = fed ++ data :=
  addRounds_eq _ _ _ (Nat.le_refl _)

/-- The bytes of a number and of a text. -/
def numberBytes (value : ℕ) : List UInt8 := le 8 value

def stringBytes (value : Text) : List UInt8 := le 8 value.1.length ++ value.1

def macroBytes (m : Macro) : List UInt8 :=
  stringBytes m.name ++ (numberBytes m.hasDefinition.toNat ++ stringBytes m.value)

/-- A number is fed as its eight bytes. -/
theorem addNumber_eq (fed : List UInt8) (value : ℕ) : addNumber fed value = fed ++ numberBytes value :=
  add_eq ..

/-- A string is fed as its length and its bytes. -/
theorem addString_eq (fed : List UInt8) (value : Text) : addString fed value = fed ++ stringBytes value := by
  rw [addString, add_eq, addNumber_eq, List.append_assoc]
  rfl

/-- Macros are fed one after the other. -/
theorem foldl_addMacro (macros : List Macro) (fed : List UInt8) :
    macros.foldl addMacro fed = fed ++ macros.flatMap macroBytes := by
  induction macros generalizing fed with
  | nil => simp
  | cons m macros ih =>
      rw [List.foldl_cons, ih, addMacro, addString_eq, addNumber_eq, addString_eq, List.flatMap_cons,
        macroBytes]
      simp only [List.append_assoc]

/-- A number is known from its little-endian bytes. -/
theorem le_injective {n a b : ℕ} (ha : a < 256 ^ n) (hb : b < 256 ^ n) (h : le n a = le n b) : a = b := by
  have hof := congrArg ofLe h
  rwa [ofLe_le, ofLe_le, Nat.mod_eq_of_lt ha, Nat.mod_eq_of_lt hb] at hof

/-- A number at the front is read back, and so is what follows it. -/
theorem numberBytes_append {a b : ℕ} {x y : List UInt8} (ha : a < 2 ^ 64) (hb : b < 2 ^ 64)
    (h : numberBytes a ++ x = numberBytes b ++ y) : a = b ∧ x = y := by
  obtain ⟨hnumber, hrest⟩ := List.append_inj h (by simp [numberBytes])
  exact ⟨le_injective ha hb hnumber, hrest⟩

/-- A text at the front is read back by its length, and so is what follows it. -/
theorem stringBytes_append {a b : Text} {x y : List UInt8}
    (h : stringBytes a ++ x = stringBytes b ++ y) : a = b ∧ x = y := by
  rw [stringBytes, stringBytes, List.append_assoc, List.append_assoc] at h
  obtain ⟨hlength, hrest⟩ := numberBytes_append a.2 b.2 h
  obtain ⟨htext, hrest⟩ := List.append_inj hrest hlength
  exact ⟨Subtype.ext htext, hrest⟩

/-- A macro can be told from what follows it: its fields are fed with their lengths. -/
theorem macroBytes_append {a b : Macro} {x y : List UInt8}
    (h : macroBytes a ++ x = macroBytes b ++ y) : a = b ∧ x = y := by
  rw [macroBytes, macroBytes] at h
  simp only [List.append_assoc] at h
  obtain ⟨hname, h⟩ := stringBytes_append h
  obtain ⟨hdefinition, h⟩ := numberBytes_append (by cases a.hasDefinition <;> decide)
    (by cases b.hasDefinition <;> decide) h
  obtain ⟨hvalue, h⟩ := stringBytes_append h
  have hsame : a.hasDefinition = b.hasDefinition := by
    revert hdefinition
    cases a.hasDefinition <;> cases b.hasDefinition <;> simp
  refine ⟨?_, h⟩
  cases a
  cases b
  simp only [Macro.mk.injEq]
  exact ⟨hname, hvalue, hsame⟩

/-- As many macros at the end are read back. -/
theorem macros_injective {a b : List Macro} (hlength : a.length = b.length)
    (h : a.flatMap macroBytes = b.flatMap macroBytes) : a = b := by
  induction a generalizing b with
  | nil => exact (List.eq_nil_of_length_eq_zero hlength.symm).symm
  | cons m a ih =>
      rcases b with _ | ⟨m', b⟩
      · cases hlength
      · rw [List.flatMap_cons, List.flatMap_cons] at h
        obtain ⟨hm, hrest⟩ := macroBytes_append h
        rw [hm, ih (Nat.succ.inj hlength) hrest]

/-- **The bytes `MakeKey` hashes determine what it was given.** -/
theorem keyBytes_injective {a b : Request} {x y : Digest} (h : keyBytes a x = keyBytes b y) :
    a = b ∧ x = y := by
  simp only [keyBytes, foldl_addMacro, addNumber_eq, addString_eq, add_eq, List.nil_append,
    List.append_assoc] at h
  have h := List.append_cancel_left (List.append_cancel_left h)
  obtain ⟨hidentity, h⟩ := List.append_inj h (by simp)
  obtain ⟨hname, h⟩ := stringBytes_append h
  obtain ⟨hsource, h⟩ := stringBytes_append h
  obtain ⟨hentry, h⟩ := stringBytes_append h
  obtain ⟨htarget, h⟩ := stringBytes_append h
  have hflag : ∀ flag : UInt32, flag.toNat < 2 ^ 64 := fun flag =>
    Nat.lt_trans flag.toNat_lt (by decide)
  obtain ⟨hflags1, h⟩ := numberBytes_append (hflag _) (hflag _) h
  obtain ⟨hflags2, h⟩ := numberBytes_append (hflag _) (hflag _) h
  obtain ⟨hcount, h⟩ := numberBytes_append a.macros.2 b.macros.2 h
  have hmacros : a.macros = b.macros := Subtype.ext (macros_injective hcount h)
  refine ⟨?_, Subtype.ext hidentity⟩
  cases a
  cases b
  simp only [Request.mk.injEq]
  exact ⟨hname, hsource, hentry, htarget, hmacros, UInt32.toNat_inj.1 hflags1,
    UInt32.toNat_inj.1 hflags2⟩

/-- So two compilations with one key are the same one, unless the hash collides on their bytes. -/
theorem makeKey_injective {hash : List UInt8 → Digest} {a b : Request} {x y : Digest}
    (hash_injective : hash (keyBytes a x) = hash (keyBytes b y) → keyBytes a x = keyBytes b y)
    (h : makeKey hash a x = makeKey hash b y) : a = b ∧ x = y :=
  keyBytes_injective (hash_injective h)

end ShaderCache
end BoltsRebuilt
