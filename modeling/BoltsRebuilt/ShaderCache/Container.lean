/-
# What a shader cache file holds

src/src/gpu/native/native_shader_cache.cpp: `EntryPath`, `ValidContainer`, the
header that `Store` writes and the checks `ReadEntry` makes on it.

A cache entry is a file named by the key in hexadecimal, with a header of 96 bytes
before the compiled shader.  The checks on the shader are those of a DXBC
container: its chunks stay inside it and one of them is code of the wanted stage.

Names are texts inside the cache directory.  A temporary name is longer than every
entry name (`temporaryPath_ne_entryPath`), and the entry name gives the key back
(`entryPath_injective`).  `readHeader_header` is the round trip of the header.
-/

import BoltsRebuilt.Lib.Bytes
import BoltsRebuilt.Lib.Text
import Mathlib.Data.List.GetD
import Mathlib.Data.List.Flatten

namespace BoltsRebuilt
namespace ShaderCache

abbrev Digest := Blob 32

def kHeaderBytes : ℕ := 96
def kFormatVersion : ℕ := 1
def kMaxBlobBytes : ℕ := 64 * 1024 * 1024

/-- `NBHLSL01`. -/
def kMagic : List UInt8 := [0x4E, 0x42, 0x48, 0x4C, 0x53, 0x4C, 0x30, 0x31]

/-- The `n` bytes at `p`. -/
def bytesAt (bytes : List UInt8) (p n : ℕ) : List UInt8 := (bytes.drop p).take n

def u32 (bytes : List UInt8) (p : ℕ) : ℕ := ofLe (bytesAt bytes p 4)
def u64 (bytes : List UInt8) (p : ℕ) : ℕ := ofLe (bytesAt bytes p 8)

/-! ### The container -/

/-- The stage a target asks for. -/
def expectedStage (target : String) : Option ℕ :=
  if target = "vs_5_1" then some 1 else if target = "ps_5_1" then some 0 else none

def isCodeTag (tag : List UInt8) : Bool :=
  tag = [0x53, 0x48, 0x45, 0x58] || tag = [0x53, 0x48, 0x44, 0x52]

/-- The loop over the chunks: `n` of them from chunk `i` on.  `none` is `return false`. -/
def scanChunks (blob : List UInt8) (stage directoryEnd : ℕ) : ℕ → ℕ → Bool → Option Bool
  | 0, _, haveCode => some haveCode
  | n + 1, i, haveCode =>
    let offset := u32 blob (32 + i * 4)
    if offset < directoryEnd ∨ offset > blob.length - 8 then none
    else
      let length := u32 blob (offset + 4)
      if length > blob.length - offset - 8 then none
      else if isCodeTag (bytesAt blob offset 4) then
        let version := u32 blob (offset + 8)
        if haveCode ∨ length < 8 ∨ length % 4 ≠ 0 then none
        else if version / 65536 ≠ stage ∨ version % 65536 ≠ 0x51 ∨
            u32 blob (offset + 12) ≠ length / 4 then none
        else scanChunks blob stage directoryEnd n (i + 1) true
      else scanChunks blob stage directoryEnd n (i + 1) haveCode

/-- `ValidContainer`. -/
def validContainer (blob : List UInt8) (target : String) : Bool :=
  if blob.length < 32 ∨ blob.length > kMaxBlobBytes ∨ bytesAt blob 0 4 ≠ [0x44, 0x58, 0x42, 0x43] ∨
      u32 blob 20 ≠ 1 ∨ u32 blob 24 ≠ blob.length then false
  else
    let chunks := u32 blob 28
    if chunks = 0 ∨ chunks > (blob.length - 32) / 4 then false
    else
      match expectedStage target with
      | none => false
      | some stage => (scanChunks blob stage (32 + chunks * 4) chunks 0 false).getD false

/-- An accepted container has at least the 32 bytes its checks read, and at most the limit. -/
theorem length_of_validContainer {blob : List UInt8} {target : String}
    (h : validContainer blob target = true) : 32 ≤ blob.length ∧ blob.length ≤ kMaxBlobBytes := by
  by_contra hlength
  rw [validContainer, if_pos (by omega)] at h
  exact Bool.false_ne_true h

/-! ### The header -/

/-- The header: the magic, the version and the header's size, the key at 16, the digest of the
shader at 48, its size at 80, and eight bytes of zeros. -/
def header (key digest : Digest) (blob : List UInt8) : List UInt8 :=
  kMagic ++ (le 4 kFormatVersion ++ (le 4 kHeaderBytes ++ (key.1 ++ (digest.1 ++
    (le 8 blob.length ++ le 8 0)))))

/-- A complete entry. -/
def entry (key digest : Digest) (blob : List UInt8) : List UInt8 := header key digest blob ++ blob

/-- What `ReadEntry` makes of a header in a file of `size` bytes: the size of the shader. -/
def readHeader (key : Digest) (size : ℕ) (bytes : List UInt8) : Option ℕ :=
  let blobSize := u64 bytes 80
  if bytesAt bytes 0 8 ≠ kMagic ∨ u32 bytes 8 ≠ kFormatVersion ∨ u32 bytes 12 ≠ kHeaderBytes ∨
      bytesAt bytes 16 32 ≠ key.1 ∨ u64 bytes 88 ≠ 0 ∨ blobSize = 0 ∨ blobSize > kMaxBlobBytes ∨
      blobSize + kHeaderBytes ≠ size then none
  else some blobSize

/-- Bytes to the end of the first of two parts are that part's. -/
theorem bytesAt_append_left {a b : List UInt8} {p n : ℕ} (h : a.length = p + n) :
    bytesAt (a ++ b) p n = a.drop p := by
  rw [bytesAt, List.drop_append_of_le_length (by omega), List.take_left' (by simp; omega)]

/-- Bytes behind the first part are the second's. -/
theorem bytesAt_append_right {a b : List UInt8} {p n : ℕ} (h : a.length ≤ p) :
    bytesAt (a ++ b) p n = bytesAt b (p - a.length) n := by
  rw [bytesAt, bytesAt, List.drop_append, List.drop_eq_nil_of_le h, List.nil_append]

/-- As many bytes from the start as the first part has are that part. -/
theorem bytesAt_zero {a b : List UInt8} {n : ℕ} (h : a.length = n) : bytesAt (a ++ b) 0 n = a := by
  rw [bytesAt_append_left (by omega), List.drop_zero]

/-- The header has the length the source gives it. -/
@[simp] theorem length_header (key digest : Digest) (blob : List UInt8) :
    (header key digest blob).length = kHeaderBytes := by
  simp [header, kMagic, kHeaderBytes]

/-- An entry is as long as its header and its blob. -/
theorem length_entry (key digest : Digest) (blob : List UInt8) :
    (entry key digest blob).length = kHeaderBytes + blob.length := by
  simp [entry]

/-- The digest stands at byte 48 of the header. -/
theorem bytesAt_header_digest (key digest : Digest) (blob : List UInt8) :
    bytesAt (header key digest blob) 48 32 = digest.1 := by
  rw [header, bytesAt_append_right (by decide), bytesAt_append_right (by simp [kMagic]),
    bytesAt_append_right (by simp [kMagic]), bytesAt_append_right (by simp [kMagic])]
  simp only [length_le, Blob.length_val, kMagic, List.length_cons, List.length_nil]
  exact bytesAt_zero digest.2

/-- The key stands at byte 16. -/
theorem bytesAt_header_key (key digest : Digest) (blob : List UInt8) :
    bytesAt (header key digest blob) 16 32 = key.1 := by
  rw [header, bytesAt_append_right (by decide), bytesAt_append_right (by simp [kMagic]),
    bytesAt_append_right (by simp [kMagic])]
  simp only [length_le, kMagic, List.length_cons, List.length_nil]
  exact bytesAt_zero key.2

/-- The size of the blob stands at byte 80, as a 64-bit word. -/
theorem u64_header_size (key digest : Digest) (blob : List UInt8) :
    u64 (header key digest blob) 80 = blob.length % 256 ^ 8 := by
  rw [u64, header, bytesAt_append_right (by decide), bytesAt_append_right (by simp [kMagic]),
    bytesAt_append_right (by simp [kMagic]), bytesAt_append_right (by simp [kMagic]),
    bytesAt_append_right (by simp [kMagic])]
  simp only [length_le, Blob.length_val, kMagic, List.length_cons, List.length_nil]
  rw [bytesAt_zero (length_le ..), ofLe_le]

/-- The reserved word at byte 88 is zero. -/
theorem u64_header_zeros (key digest : Digest) (blob : List UInt8) :
    u64 (header key digest blob) 88 = 0 := by
  rw [u64, header, bytesAt_append_right (by decide), bytesAt_append_right (by simp [kMagic]),
    bytesAt_append_right (by simp [kMagic]), bytesAt_append_right (by simp [kMagic]),
    bytesAt_append_right (by simp [kMagic]), bytesAt_append_right (by simp [kMagic])]
  simp only [length_le, Blob.length_val, kMagic, List.length_cons, List.length_nil]
  rfl

/-- **The header reads back** as the size of the shader it was written for. -/
theorem readHeader_header {key digest : Digest} {blob : List UInt8} (hpos : 0 < blob.length)
    (hmax : blob.length ≤ kMaxBlobBytes) :
    readHeader key (kHeaderBytes + blob.length) (header key digest blob) = some blob.length := by
  have hsize : u64 (header key digest blob) 80 = blob.length := by
    rw [u64_header_size, Nat.mod_eq_of_lt]
    rw [kMaxBlobBytes] at hmax
    omega
  rw [readHeader]
  simp only [hsize]
  refine if_neg ?_
  rintro (h | h | h | h | h | h | h | h)
  · exact h (bytesAt_zero rfl)
  · exact h rfl
  · exact h rfl
  · exact h (bytesAt_header_key ..)
  · exact h (u64_header_zeros ..)
  · omega
  · omega
  · omega

/-! ### Names -/

abbrev Path := List Char

def hexDigits : List Char := "0123456789abcdef".toList

def hexDigit (n : ℕ) : Char := hexDigits.getD n '0'

def hexByte (b : UInt8) : List Char := [hexDigit (b.toNat / 16), hexDigit (b.toNat % 16)]

/-- `EntryPath`, inside the directory. -/
def entryPath (key : Digest) : Path := key.1.flatMap hexByte ++ ".nbcso".toList

/-- The name a writer tries: its process and a number that process counts up. -/
def temporaryPath (destination : Path) (pid sequence : ℕ) : Path :=
  destination ++ ".".toList ++ Text.decimal pid ++ ".".toList ++ Text.decimal sequence ++
    ".tmp".toList

/-- The sixteen hexadecimal digits are different. -/
theorem hexDigit_injective : ∀ a < 16, ∀ b < 16, hexDigit a = hexDigit b → a = b := by decide

/-- A byte is known from its two digits. -/
theorem hexByte_injective {a b : UInt8} (h : hexByte a = hexByte b) : a = b := by
  rw [hexByte, hexByte, List.cons.injEq, List.cons.injEq] at h
  have ha := a.toNat_lt
  have hb := b.toNat_lt
  have hhigh := hexDigit_injective _ (by omega) _ (by omega) h.1
  have hlow := hexDigit_injective _ (by omega) _ (by omega) h.2.1
  refine UInt8.toNat_inj.1 ?_
  omega

/-- And a text of bytes from its digits. -/
theorem hexBytes_injective {a b : List UInt8} (h : a.flatMap hexByte = b.flatMap hexByte) :
    a = b := by
  induction a generalizing b with
  | nil =>
      cases b with
      | nil => rfl
      | cons y b => simp [hexByte] at h
  | cons x a ih =>
      cases b with
      | nil => simp [hexByte] at h
      | cons y b =>
          rw [List.flatMap_cons, List.flatMap_cons] at h
          obtain ⟨hbyte, hrest⟩ := List.append_inj h rfl
          rw [hexByte_injective hbyte, ih hrest]

/-- An entry's path has 64 digits and its suffix. -/
theorem length_entryPath (key : Digest) : (entryPath key).length = 70 := by
  have hhex : ∀ a : List UInt8, (a.flatMap hexByte).length = 2 * a.length := by
    intro a
    induction a with
    | nil => rfl
    | cons x a ih => rw [List.flatMap_cons, List.length_append, ih, List.length_cons, hexByte]; simp; omega
  rw [entryPath, List.length_append, hhex, key.2]
  rfl

/-- So entries of different keys have different paths, and none overwrites another. -/
theorem entryPath_injective {a b : Digest} (h : entryPath a = entryPath b) : a = b :=
  Subtype.ext (hexBytes_injective (List.append_cancel_right h))

/-- A temporary name is no entry's name: it is longer. -/
theorem temporaryPath_ne_entryPath (key other : Digest) (pid sequence : ℕ) :
    temporaryPath (entryPath key) pid sequence ≠ entryPath other := by
  intro h
  have hlength := congrArg List.length h
  simp only [temporaryPath, List.length_append, length_entryPath] at hlength
  have hdot : ".".toList.length = 1 := rfl
  omega

end ShaderCache
end BoltsRebuilt
