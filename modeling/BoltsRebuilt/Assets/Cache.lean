/-
# The asset cache among the threads that invalidate it

`src/gpu/native/native_asset_cache.cpp`: `Invalidated` and `Version` (lines 106–121)
and `Resolve` (lines 246–332); `CopyCpuAuthoritativeRange` and the callers of the
watch in `src/gpu/vendored/src/graphics/shared_memory.cpp`.

The command processor thread calls `Resolve`, which reads the version of each page
without a lock, copies the range under the global lock, and keeps its answers for the
rest of the frame.  Any other thread may write guest memory and invalidate pages at
any moment.  An invalidation holds the global lock: it takes the CPU authority of its
pages away, then the watch bumps the sequence and stores the new version page by page
(`MemoryInvalidationCallback`, `InvalidateAllPages`); a page with CPU authority is
write watched, so it is not written before it was invalidated.  `Interferes` is one
step of those threads, and `resolve` is a program whose atomic steps have any number
of them in between.

`instant` and the lists at the end of `Shared` are what the theorems speak of; the
code has no such thing, and nothing it computes depends on them.
-/

import BoltsRebuilt.Assets.MappingTable
import BoltsRebuilt.Assets.Redirect
import BoltsRebuilt.Lib.Program
import BoltsRebuilt.Lib.Spans

namespace BoltsRebuilt
namespace Assets

/-- The page of an address: `kPageShift`. -/
def pageOf (address : ℕ) : ℕ := address / 2 ^ 12

/-- The pages of a range that is not empty. -/
def pagesOf (base length : BitVec 32) : Span :=
  (pageOf base.toNat, pageOf (base.toNat + length.toNat - 1))

/-- Two spans of pages have one in common. -/
def Meets (a b : Span) : Prop := ∃ page, (a.1 ≤ page ∧ page ≤ a.2) ∧ b.1 ≤ page ∧ page ≤ b.2

/-- `Invalidated` under way: its pages, the next one to store, and the version. -/
structure Callback where
  first : ℕ
  last : ℕ
  next : ℕ
  version : BitVec 64

/-- A range that was copied: in which frame and with which bytes, the instant at which
the version was read before, and the instant of the copy. -/
structure Snapshot where
  frame : BitVec 64
  base : BitVec 32
  length : BitVec 32
  bytes : Blob length.toNat
  since : ℕ
  taken : ℕ

/-- What the threads share.  `callback` is the one that holds the global lock;
`allocates` says whether memory can be had.  Of `begun`, `finished` and `snapshots` the
code knows nothing: the number of invalidations begun, the pages of those completed,
and the copies made. -/
structure Shared where
  sequence : BitVec 64
  pageVersions : ℕ → BitVec 64
  authority : ℕ → Bool
  memory : Bytes
  callback : Option Callback
  allocates : Bool
  begun : ℕ
  finished : List Span
  snapshots : List Snapshot

/-! ### The other threads -/

namespace Shared

variable (s : Shared)

/-- The start of an invalidation: the pages lose their authority, `fetch_add`. -/
def begin (first last : ℕ) : Shared :=
  let pages : Span := (pageOf first, pageOf (min last (physicalBytes - 1)))
  { s with
    authority := fun page => if pages.1 ≤ page ∧ page ≤ pages.2 then false else s.authority page
    sequence := s.sequence + 1
    callback := some ⟨pages.1, pages.2, pages.1, s.sequence + 1⟩
    begun := s.begun + 1 }

open Function in
/-- One round of the loop in `Invalidated`. -/
def store (c : Callback) : Shared :=
  { s with
    pageVersions := update s.pageVersions c.next c.version
    callback := some { c with next := c.next + 1 } }

/-- The end of the callback. -/
def release (c : Callback) : Shared :=
  { s with callback := none, finished := s.finished ++ [(c.first, c.last)] }

open Function in
/-- A byte of guest memory is written. -/
def write (address : ℕ) (byte : UInt8) : Shared :=
  { s with memory := update s.memory address byte }

/-- The authority of the pages is what the command processor makes it. -/
def setAuthority (authority : ℕ → Bool) : Shared := { s with authority }

end Shared

/-- A step of another thread. -/
inductive Interferes : Shared → Shared → Prop
  | begin {s : Shared} {first last : ℕ} (free : s.callback = none) (inside : first < physicalBytes)
      (ordered : first ≤ last) : Interferes s (s.begin first last)
  | store {s : Shared} {c : Callback} (held : s.callback = some c) (more : c.next ≤ c.last) :
      Interferes s (s.store c)
  | release {s : Shared} {c : Callback} (held : s.callback = some c) (done : c.last < c.next) :
      Interferes s (s.release c)
  | write {s : Shared} {address : ℕ} {byte : UInt8}
      (unwatched : s.authority (pageOf address) = false) : Interferes s (s.write address byte)
  | allocates {s : Shared} {allocates : Bool} : Interferes s { s with allocates }

/-! ### The cache -/

/-- `Mapping`. -/
structure Mapping where
  version : BitVec 64
  binding : Binding
deriving DecidableEq, Repr

/-- The arguments of `Resolve`. -/
structure Call where
  base : BitVec 32
  length : BitVec 32
  frame : BitVec 64
  legacy : Bool
deriving DecidableEq, Repr

/-- `kLegacyMaxMappings`. -/
def legacyMaxMappings : ℕ := 8192

/-- The parameters of `MappingTable`. -/
def mappingCapacity : ℕ := 65536

/-- The default `ProbeLimit`. -/
def probeLimit : ℕ := 64

/-- The key of a range. -/
def rangeKey (base length : BitVec 32) : BitVec 64 := base ++ length

/-- What `Resolve` keeps: `frame`, `legacy_mode`, `mappings` and `legacy_mappings`. -/
structure Cache where
  frame : BitVec 64
  legacyMode : Bool
  mappings : MappingTable Mapping
  legacyMappings : List (BitVec 64 × Mapping)

namespace Cache

/-- The cache after `Initialize`. -/
def initial : Cache := ⟨BitVec.allOnes 64, false, .initial ⟨0, .empty⟩, []⟩

/-- A call of another frame or mode clears both maps. -/
def enter (c : Cache) (call : Call) : Cache :=
  if c.frame ≠ call.frame ∨ c.legacyMode ≠ call.legacy then
    ⟨call.frame, call.legacy, (c.mappings.clear mappingCapacity).2, []⟩
  else c

/-- The lookup in the table. -/
def lookup (c : Cache) (call : Call) : Lookup Mapping :=
  c.mappings.find mappingCapacity probeLimit (rangeKey call.base call.length)

/-- `prior`. -/
def prior (c : Cache) (call : Call) : Option Mapping :=
  if call.legacy then c.legacyMappings.lookup (rangeKey call.base call.length)
  else (c.lookup call).value

/-- The legacy map is emptied when it is full. -/
def makeRoom (c : Cache) : Cache :=
  if legacyMaxMappings ≤ c.legacyMappings.length then { c with legacyMappings := [] } else c

/-- `legacy_mappings[key] = m`. -/
def insert (c : Cache) (call : Call) (m : Mapping) : Cache :=
  let key := rangeKey call.base call.length
  { c with legacyMappings := (key, m) :: c.legacyMappings.filter fun entry => entry.1 ≠ key }

/-- `Store`, which may refuse. -/
def store (c : Cache) (call : Call) (m : Mapping) : Cache :=
  { c with mappings := (c.mappings.store mappingCapacity (c.lookup call) m).2 }

end Cache

/-! ### `Resolve` -/

/-- How many invalidations are completed: the clock of this model. -/
def instant : Prog Shared ℕ := .read fun s => s.finished.length

/-- The load of a page's version. -/
def readPage (page : ℕ) : Prog Shared (BitVec 64) := .read fun s => s.pageVersions page

/-- Whether an allocation succeeds. -/
def allocate : Prog Shared Bool := .read fun s => s.allocates

/-- The pages all have CPU authority. -/
def Shared.authoritative (s : Shared) (pages : Span) : Bool := (Span.cells pages).all s.authority

/-- The copy of a range. -/
def Shared.copy (s : Shared) (call : Call) (since : ℕ) : Option (List UInt8) × Shared :=
  if s.authoritative (pagesOf call.base call.length) = true then
    let bytes := s.memory.blob call.base.toNat call.length.toNat
    (some bytes.1,
      { s with
        snapshots := s.snapshots ++
          [⟨call.frame, call.base, call.length, bytes, since, s.finished.length⟩] })
  else (none, s)

/-- `CopyCpuAuthoritativeRange`, a step under the global lock. -/
def copyCpuAuthoritativeRange (call : Call) (since : ℕ) : Prog Shared (Option (List UInt8)) :=
  .atomic (fun s => s.callback = none) fun s => s.copy call since

/-- The loop of `Version`. -/
def versionFrom : List ℕ → BitVec 64 → Prog Shared (BitVec 64)
  | [], version => pure version
  | page :: pages, version => do
      let load ← readPage page
      versionFrom pages (if version < load then load else version)

/-- `Version`. -/
def version (call : Call) : Prog Shared (BitVec 64) :=
  versionFrom (Span.cells (pagesOf call.base call.length)) 0

/-- What `Resolve` returns, and the instant at which it began to read the version that
admits the answer. -/
structure Answer where
  binding : Binding
  checked : ℕ
deriving DecidableEq, Repr

/-- The answer `{}`. -/
def Answer.refused : Answer := ⟨.empty, 0⟩

/-- The end of `Resolve`: the answer is remembered. -/
def remember (c : Cache) (call : Call) (m : Mapping) (checked : ℕ) : Prog Shared (Answer × Cache) :=
  if call.legacy then do
    if ← allocate then return (⟨m.binding, checked⟩, c.makeRoom.insert call m)
    else return (.refused, c.makeRoom)
  else return (⟨m.binding, checked⟩, c.store call m)

/-- The part of `Resolve` that compares the range anew. -/
def compare (p : Pack) (c : Cache) (call : Call) (since : ℕ) (before : BitVec 64) :
    Prog Shared (Answer × Cache) := do
  if ← allocate then
    match ← copyCpuAuthoritativeRange call since with
    | none => return (.refused, c)
    | some snapshot =>
        let checked ← instant
        let after ← version call
        if before ≠ after then return (.refused, c)
        else remember c call ⟨before, p.answer call.base call.length snapshot⟩ checked
  else return (.refused, c)

/-- `Resolve`. -/
def resolve (p : Pack) (c : Cache) (call : Call) : Prog Shared (Answer × Cache) := do
  if ¬p.Resolvable call.base call.length then return (.refused, c)
  else
    let c := c.enter call
    let since ← instant
    let before ← version call
    match c.prior call with
    | none => compare p c call since before
    | some m =>
        if m.version = before then return (⟨m.binding, since⟩, c)
        else compare p c call since before

/-! ### Runs -/

/-- The threads, the cache, and what `Resolve` has answered so far. -/
structure Machine where
  shared : Shared
  cache : Cache
  answers : List (Call × Answer)

/-- A step of a run: of another thread, of the command processor between two calls, or a
call of `Resolve` with the others at work. -/
inductive Machine.Step (p : Pack) (R : Shared → Shared → Prop) : Machine → Machine → Prop
  | other {m : Machine} {s : Shared} (others : R m.shared s) : Step p R m { m with shared := s }
  | setAuthority {m : Machine} {authority : ℕ → Bool} (free : m.shared.callback = none) :
      Step p R m { m with shared := m.shared.setAuthority authority }
  | resolve {m : Machine} {call : Call} {answer : Answer} {cache : Cache} {s : Shared}
      (run : (resolve p m.cache call).Exec R m.shared (answer, cache) s) :
      Step p R m ⟨s, cache, m.answers ++ [(call, answer)]⟩

/-- The threads when the cache is made: no page has a version yet. -/
structure Shared.Initial (s : Shared) : Prop where
  sequence : s.sequence = 0
  pageVersions : s.pageVersions = fun _ => 0
  callback : s.callback = none
  begun : s.begun = 0
  finished : s.finished = []
  snapshots : s.snapshots = []

end Assets
end BoltsRebuilt
