/-
# The cache directory and the operations on it

The system calls of src/src/gpu/native/native_shader_cache.cpp, on one directory:
names of files, what the files hold, and who created them.

Every operation may fail.  `CreateFileW` with `CREATE_NEW` succeeds only where no
file has the name, `MoveFileExW` without the replace flag only where the
destination has none, and both are one step.  A read gives at least one byte
before the end of the file, a write takes any number of bytes, and one that fails
may have taken some.  A failed allocation is a thrown `std::bad_alloc`.

`temporary_sequence` is a counter of the process.  A process id is used again
after its process ended, and then the counter starts over: that is the one thing
that happens to the directory's callers from outside.
-/

import BoltsRebuilt.Lib.Threads
import BoltsRebuilt.ShaderCache.Container

namespace BoltsRebuilt
namespace ShaderCache

/-- The directory: each name's file, and what each file holds and which call created it.
Files are numbered as they are created. -/
structure Directory where
  file : Path → Option ℕ
  content : ℕ → List UInt8
  owner : ℕ → Option ℕ
  next : ℕ
  sequence : ℕ → ℕ

/-- The operations. -/
inductive Op where
  | allocate
  | createDirectories
  | openExisting (path : Path)
  | regularDiskFile (file : ℕ)
  | fileSize (file : ℕ)
  | read (file offset wanted : ℕ)
  | sha256 (bytes : List UInt8)
  | fetchAdd (pid : ℕ)
  | createNew (path : Path)
  | write (file : ℕ) (bytes : List UInt8)
  | flush (file : ℕ)
  | close (file : ℕ)
  | moveFile (source destination : Path)
  | deleteFile (path : Path)

/-- Their replies.  An error is the code `GetLastError` gives; a write that succeeds says how many
bytes it took and what `GetLastError` gives after it. -/
def Reply : Op → Type
  | .allocate | .regularDiskFile _ => Bool
  | .fileSize _ => Option ℕ
  | .read .. => Option (List UInt8)
  | .sha256 _ => Option Digest
  | .fetchAdd _ => ℕ
  | .openExisting _ | .createNew _ => Except ℕ ℕ
  | .write .. => Except ℕ (ℕ × ℕ)
  | .createDirectories | .flush _ | .close _ | .moveFile .. | .deleteFile _ => Except ℕ Unit

/-- What the caller does not control: whether the operation fails, with which error, and how much
of it is done. -/
structure Fate where
  fails : Bool
  lastError : ℕ
  amount : ℕ

def Fate.verdict {α : Type} (fate : Fate) (a : α) : Except ℕ α :=
  if fate.fails then .error fate.lastError else .ok a

def Fate.unless {α : Type} (fate : Fate) (a : α) : Option α := if fate.fails then none else some a

def kErrorFileNotFound : ℕ := 2
def kErrorFileExists : ℕ := 80
def kErrorAlreadyExists : ℕ := 183

namespace Directory

/-- A new file for call `i` under `path`. -/
def create (d : Directory) (i : ℕ) (path : Path) : Directory where
  file := Function.update d.file path (some d.next)
  content := Function.update d.content d.next []
  owner := Function.update d.owner d.next (some i)
  next := d.next + 1
  sequence := d.sequence

def append (d : Directory) (file : ℕ) (bytes : List UInt8) : Directory :=
  { d with content := Function.update d.content file (d.content file ++ bytes) }

def rename (d : Directory) (source destination : Path) (file : ℕ) : Directory :=
  { d with file := Function.update (Function.update d.file source none) destination (some file) }

def remove (d : Directory) (path : Path) : Directory :=
  { d with file := Function.update d.file path none }

end Directory

/-- What an operation of call `i` does.  `hash` is SHA-256. -/
def perform (hash : List UInt8 → Digest) (i : ℕ) :
    (op : Op) → Fate → Directory → Reply op × Directory
  | .allocate, fate, d => (!fate.fails, d)
  | .createDirectories, fate, d => (fate.verdict (), d)
  | .openExisting path, fate, d =>
    match d.file path with
    | none => (.error kErrorFileNotFound, d)
    | some file => (fate.verdict file, d)
  | .regularDiskFile _, fate, d => (!fate.fails, d)
  | .fileSize file, fate, d => (fate.unless (d.content file).length, d)
  | .read file offset wanted, fate, d =>
    (fate.unless (bytesAt (d.content file) offset (min wanted (fate.amount + 1))), d)
  | .sha256 bytes, fate, d => (fate.unless (hash bytes), d)
  | .fetchAdd pid, _, d =>
    (d.sequence pid,
      { d with sequence := Function.update d.sequence pid ((d.sequence pid + 1) % 2 ^ 64) })
  | .createNew path, fate, d =>
    match d.file path with
    | some _ => (.error kErrorFileExists, d)
    | none => if fate.fails then (.error fate.lastError, d) else (.ok d.next, d.create i path)
  | .write file bytes, fate, d =>
    (fate.verdict (min fate.amount bytes.length, fate.lastError),
      d.append file (bytes.take fate.amount))
  | .flush _, fate, d => (fate.verdict (), d)
  | .close _, fate, d => (fate.verdict (), d)
  | .moveFile source destination, fate, d =>
    match d.file source, d.file destination with
    | some file, none =>
      if fate.fails then (.error fate.lastError, d)
      else (.ok (), d.rename source destination file)
    | _, _ => (.error fate.lastError, d)
  | .deleteFile path, fate, d =>
    match d.file path with
    | none => (.error kErrorFileNotFound, d)
    | some _ => if fate.fails then (.error fate.lastError, d) else (.ok (), d.remove path)

/-- The replies of an operation that did what it was asked to. -/
def Succeeds : (op : Op) → Reply op → Prop
  | .allocate, r | .regularDiskFile _, r => r = true
  | .fileSize _, r => r ≠ none
  | .read .., r => r ≠ none
  | .sha256 _, r => r ≠ none
  | .fetchAdd _, _ => True
  | .openExisting _, r | .createNew _, r => ∃ file, r = .ok file
  | .write .., r => ∃ taken, r = .ok taken
  | .createDirectories, r | .flush _, r | .close _, r | .moveFile .., r | .deleteFile _, r => r = .ok ()

/-- A process id is used again: the counter of its new process starts at 0. -/
def Directory.restart (d : Directory) (pid : ℕ) : Directory :=
  { d with sequence := Function.update d.sequence pid 0 }

/-- Calls are numbered, and share the directory. -/
def machine (hash : List UInt8 → Digest) : Machine ℕ Op Reply Fate ℕ Directory where
  perform := perform hash
  outside pid d := d.restart pid

end ShaderCache
end BoltsRebuilt
