/-
# `Load` and `Store`

src/src/gpu/native/native_shader_cache.cpp: `ReadExact`, `WriteExact`,
`ReadEntry`, `Load` and `Store`, as routines over the operations of the directory.

The directory itself is given, so the test for an empty directory name is not
here.  `catch (...)` is `caught`: it is reached where an allocation throws, and
removes the temporary file if the call owns one.  What `LastStoreFailure` reports
is the error of a `Store` that returns false.  The counters of `GetStats` are left
out, and so is closing a file that was only read.
-/

import BoltsRebuilt.ShaderCache.Directory

namespace BoltsRebuilt
namespace ShaderCache

abbrev Code := Routine Op Reply

/-! ### The operations, with the replies they have -/

def allocate : Code Bool := Routine.op Op.allocate
def createDirectories : Code (Except ℕ Unit) := Routine.op Op.createDirectories
def openExisting (path : Path) : Code (Except ℕ ℕ) := Routine.op (Op.openExisting path)
def regularDiskFile (file : ℕ) : Code Bool := Routine.op (Op.regularDiskFile file)
def fileSize (file : ℕ) : Code (Option ℕ) := Routine.op (Op.fileSize file)
def readFile (file offset wanted : ℕ) : Code (Option (List UInt8)) :=
  Routine.op (Op.read file offset wanted)
def sha256 (bytes : List UInt8) : Code (Option Digest) := Routine.op (Op.sha256 bytes)
def fetchAdd (pid : ℕ) : Code ℕ := Routine.op (Op.fetchAdd pid)
def createNew (path : Path) : Code (Except ℕ ℕ) := Routine.op (Op.createNew path)
def writeFile (file : ℕ) (bytes : List UInt8) : Code (Except ℕ (ℕ × ℕ)) :=
  Routine.op (Op.write file bytes)
def flush (file : ℕ) : Code (Except ℕ Unit) := Routine.op (Op.flush file)
def close (file : ℕ) : Code (Except ℕ Unit) := Routine.op (Op.close file)
def moveFile (source destination : Path) : Code (Except ℕ Unit) :=
  Routine.op (Op.moveFile source destination)
def deleteFile (path : Path) : Code (Except ℕ Unit) := Routine.op (Op.deleteFile path)

/-! ### The functions -/

/-- What the `ReadFile` and `WriteFile` loops ask for at once. -/
def kChunkBytes : ℕ := 2 ^ 20

/-- `ReadExact` for `remaining` bytes at `offset`.  Every round reads a byte at least, so as many
rounds as bytes are enough. -/
def readRounds (file : ℕ) : ℕ → ℕ → ℕ → Code (Option (List UInt8))
  | _, _, 0 => pure (some [])
  | 0, _, _ + 1 => pure none
  | rounds + 1, offset, remaining + 1 => do
    match ← readFile file offset (min (remaining + 1) kChunkBytes) with
    | none => pure none
    | some [] => pure none
    | some (byte :: bytes) =>
      match ← readRounds file rounds (offset + (bytes.length + 1)) (remaining - bytes.length) with
      | none => pure none
      | some rest => pure (some (byte :: bytes ++ rest))

def readExact (file offset size : ℕ) : Code (Option (List UInt8)) := readRounds file size offset size

/-- `WriteExact`; the error is what `GetLastError` gives after it. -/
def writeRounds (file : ℕ) : ℕ → List UInt8 → Code (Except ℕ Unit)
  | _, [] => pure (.ok ())
  | 0, _ :: _ => pure (.error 0)
  | rounds + 1, byte :: bytes => do
    match ← writeFile file ((byte :: bytes).take kChunkBytes) with
    | .error lastError => pure (.error lastError)
    | .ok (0, lastError) => pure (.error lastError)
    | .ok (taken + 1, _) => writeRounds file rounds (bytes.drop taken)

def writeExact (file : ℕ) (bytes : List UInt8) : Code (Except ℕ Unit) :=
  writeRounds file bytes.length bytes

/-- `ReadResult`, with the shader of a hit and the error of a miss, or the allocation threw. -/
inductive ReadResult where
  | miss (openError : ℕ)
  | invalid
  | hit (blob : List UInt8)
  | threw
  deriving DecidableEq

/-- `ReadEntry` once the header is read and accepted. -/
def readBlob (file : ℕ) (digest : List UInt8) (blobSize : ℕ) (target : String) : Code ReadResult := do
  match ← allocate with
  | false => pure .threw
  | true =>
  match ← readExact file kHeaderBytes blobSize with
  | none => pure .invalid
  | some candidate =>
  match ← sha256 candidate with
  | none => pure .invalid
  | some actual =>
    pure (if digest = actual.1 ∧ validContainer candidate target then .hit candidate else .invalid)

/-- `ReadEntry`. -/
def readEntry (path : Path) (key : Digest) (target : String) : Code ReadResult := do
  match ← openExisting path with
  | .error openError => pure (.miss openError)
  | .ok file =>
  match ← regularDiskFile file with
  | false => pure .invalid
  | true =>
  match ← fileSize file with
  | none => pure .invalid
  | some size =>
  if size < kHeaderBytes ∨ size > kHeaderBytes + kMaxBlobBytes then pure .invalid
  else do
  match ← readExact file 0 kHeaderBytes with
  | none => pure .invalid
  | some bytes =>
  match readHeader key size bytes with
  | none => pure .invalid
  | some blobSize => readBlob file (bytesAt bytes 48 32) blobSize target

/-- `Load`: the shader of a hit. -/
def load (key : Digest) (target : String) : Code (Option (List UInt8)) := do
  match ← allocate with
  | false => pure none
  | true =>
  match ← readEntry (entryPath key) key target with
  | .hit blob => pure (some blob)
  | _ => pure none

/-- `StoreFailure`. -/
structure StoreFailure where
  operation : String
  systemError : ℕ
  deriving DecidableEq

/-- Whether `Store` returns true, else its failure. -/
abbrev StoreResult := Except StoreFailure Unit

/-- `catch (...)`, and the cleanup after it. -/
def caught (own : Option Path) : Code StoreResult :=
  match own with
  | none => pure (.error ⟨"exception", 0⟩)
  | some temporary => do
    let _ ← deleteFile temporary
    pure (.error ⟨"exception", 0⟩)

/-- The end of an attempt that did not publish: the temporary file goes. -/
def discard (temporary : Path) (result : StoreResult) : Code StoreResult := do
  let _ ← deleteFile temporary
  pure result

/-- `WriteExact` twice and `FlushFileBuffers`: `complete`. -/
def writeTemporary (file : ℕ) (header blob : List UInt8) : Code (Except ℕ Unit) := do
  match ← writeExact file header with
  | .error lastError => pure (.error lastError)
  | .ok () =>
  match ← writeExact file blob with
  | .error lastError => pure (.error lastError)
  | .ok () => flush file

/-- What `Store` reports when the existing entry holds `existing`. -/
def compareExisting (existing blob : List UInt8) : StoreResult :=
  if existing = blob then .ok () else .error ⟨"different_existing_bytes", 0⟩

/-- The rest of an attempt that lost the race, or could not move its file: it looks at the winner. -/
def readWinner (key : Digest) (target : String) (blob : List UInt8) (temporary : Path) :
    Code StoreResult := do
  match ← readEntry (entryPath key) key target with
  | .threw => caught (some temporary)
  | .miss openError => discard temporary (.error ⟨"read_publish_winner", openError⟩)
  | .invalid => discard temporary (.error ⟨"invalid_publish_winner", 0⟩)
  | .hit existing => discard temporary (compareExisting existing blob)

/-- An attempt from the moment its temporary file is created. -/
def publish (key : Digest) (target : String) (blob : List UInt8) (digest : Digest)
    (temporary : Path) (file : ℕ) : Code StoreResult := do
  match ← writeTemporary file (header key digest blob) blob with
  | .error lastError => do
    let _ ← close file
    discard temporary (.error ⟨"write_or_flush_temporary", lastError⟩)
  | .ok () =>
  match ← close file with
  | .error lastError => discard temporary (.error ⟨"close_temporary", lastError⟩)
  | .ok () =>
  match ← moveFile temporary (entryPath key) with
  | .ok () => pure (.ok ())
  | .error _ => readWinner key target blob temporary

/-- The loop over the attempts to create a temporary file; `failure` is the last one. -/
def attempts (pid : ℕ) (key : Digest) (target : String) (blob : List UInt8) (digest : Digest) :
    ℕ → StoreFailure → Code StoreResult
  | 0, failure => pure (.error failure)
  | n + 1, _ => do
    match ← allocate with
    | false => caught none
    | true => do
      let sequence ← fetchAdd pid
      match ← allocate with
      | false => caught none
      | true =>
      match ← createNew (temporaryPath (entryPath key) pid sequence) with
      | .ok file =>
        publish key target blob digest (temporaryPath (entryPath key) pid sequence) file
      | .error createError =>
        if createError = kErrorFileExists ∨ createError = kErrorAlreadyExists then
          attempts pid key target blob digest n ⟨"create_temporary", createError⟩
        else pure (.error ⟨"create_temporary", createError⟩)

/-- `Store`, from its look at an existing entry on. -/
def storeEntry (pid : ℕ) (key : Digest) (target : String) (blob : List UInt8) (digest : Digest) :
    Code StoreResult := do
  match ← readEntry (entryPath key) key target with
  | .threw => caught none
  | .hit existing => pure (compareExisting existing blob)
  | _ => attempts pid key target blob digest 32 ⟨"none", 0⟩

/-- `Store`. -/
def store (pid : ℕ) (key : Digest) (target : String) (blob : List UInt8) : Code StoreResult :=
  if validContainer blob target = false then pure (.error ⟨"validate_input", 0⟩)
  else do
  match ← sha256 blob with
  | none => pure (.error ⟨"validate_input", 0⟩)
  | some digest =>
  match ← allocate with
  | false => caught none
  | true =>
  match ← createDirectories with
  | .error lastError => pure (.error ⟨"create_directories", lastError⟩)
  | .ok () =>
  match ← allocate with
  | false => caught none
  | true => storeEntry pid key target blob digest

/-- A call: a `Store` of a process, or a `Load`. -/
inductive Call where
  | store (pid : ℕ) (key : Digest) (target : String) (blob : List UInt8)
  | load (key : Digest) (target : String)

/-- What a call returns. -/
inductive Outcome where
  | stored (result : StoreResult)
  | loaded (blob : Option (List UInt8))

def Call.run : Call → Code Outcome
  | .store pid key target blob => do pure (.stored (← ShaderCache.store pid key target blob))
  | .load key target => do pure (.loaded (← ShaderCache.load key target))

end ShaderCache
end BoltsRebuilt
