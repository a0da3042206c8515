/-
# `ReadEntry` as the inverse of `Store`'s file image

src/src/gpu/native/native_shader_cache.cpp: `ReadEntry` run by itself on a file
with any content, every operation succeeding and every `ReadFile` giving as many
bytes as it likes.

It gives what `decodeEntry` gives (`readEntry_alone`), so it hits exactly on the
images of shaders that `ValidContainer` accepts, under the key it was asked for.
-/

import BoltsRebuilt.ShaderCache.Specs

namespace BoltsRebuilt
namespace ShaderCache

open Machine

variable {hash : List UInt8 → Digest} {path : Path} {key : Digest} {target : String} {d : Directory}
  {file i : ℕ}

/-- The operations of a reader of `path`. -/
def Reader (path : Path) (op : Op) : Prop := Looks op ∧ ∀ other, op = .openExisting other → other = path

/-- An operation that only looks, and opens nothing else, is a reader's. -/
theorem reader_of_looks {op : Op} (hlooks : Looks op) (hopen : ∀ other, op ≠ .openExisting other) :
    Reader path op :=
  ⟨hlooks, fun other h => absurd h (hopen other)⟩

/-- Reading in rounds only looks. -/
theorem each_readRounds (rounds p n : ℕ) : (readRounds file rounds p n).Each (Reader path) := by
  induction rounds generalizing p n with
  | zero => cases n <;> trivial
  | succ rounds ih =>
      rcases n with _ | n
      · trivial
      · refine Routine.each_op (reader_of_looks trivial nofun) fun r => ?_
        rcases r with _ | _ | ⟨byte, bytes⟩
        · trivial
        · trivial
        · refine (ih _ _).bind fun r => ?_
          cases r <;> trivial

/-- So does reading the blob. -/
theorem each_readBlob (digest : List UInt8) (n : ℕ) :
    (readBlob file digest n target).Each (Reader path) := by
  refine Routine.each_op (reader_of_looks trivial nofun) fun r => ?_
  rcases r with _ | _
  · trivial
  · refine (each_readRounds _ _ _).bind fun r => ?_
    rcases r with _ | candidate
    · trivial
    · refine Routine.each_op (reader_of_looks trivial nofun) fun r => ?_
      cases r <;> trivial

/-- And so does reading an entry as a whole. -/
theorem each_readEntry : (readEntry path key target).Each (Reader path) := by
  refine Routine.each_op ⟨trivial, fun other h => (Op.openExisting.inj h).symm⟩ fun r => ?_
  rcases r with error | file
  · trivial
  refine Routine.each_op (reader_of_looks trivial nofun) fun r => ?_
  rcases r with _ | _
  · trivial
  refine Routine.each_op (reader_of_looks trivial nofun) fun r => ?_
  rcases r with _ | size
  · trivial
  show Routine.Each _ (if _ then _ else _)
  split
  · trivial
  refine (each_readRounds _ _ _).bind fun r => ?_
  rcases r with _ | bytes
  · trivial
  simp only
  cases readHeader key size bytes with
  | none => trivial
  | some n => exact each_readBlob _ _

/-- An operation of a reader that does not fail succeeds. -/
theorem reader_succeeds {op : Op} {fate : Fate} (hreader : Reader path op)
    (hfate : fate.fails = false) (hfile : d.file path = some file) :
    Succeeds op (perform hash i op fate d).1 := by
  have hlooks := hreader.1
  have hverdict : ∀ {α : Type} (a : α), fate.verdict a = .ok a := fun a => by
    rw [Fate.verdict, hfate]
    rfl
  have hunless : ∀ {α : Type} (a : α), fate.unless a ≠ none := fun a => by
    rw [Fate.unless, hfate]
    exact Option.some_ne_none a
  have hallowed : (!fate.fails) = true := by
    rw [hfate]
    rfl
  cases op with
  | openExisting other =>
      obtain rfl := hreader.2 other rfl
      simp only [perform, hfile]
      exact ⟨file, hverdict file⟩
  | allocate => exact hallowed
  | regularDiskFile g => exact hallowed
  | createDirectories => exact hverdict ()
  | flush g => exact hverdict ()
  | close g => exact hverdict ()
  | fileSize g => exact hunless _
  | read g p n => exact hunless _
  | sha256 bytes => exact hunless _
  | fetchAdd pid => exact hlooks.elim
  | createNew other => exact hlooks.elim
  | write g bytes => exact hlooks.elim
  | moveFile source destination => exact hlooks.elim
  | deleteFile other => exact hlooks.elim

/-- **`ReadEntry` by itself** gives what the content of the file decodes to. -/
theorem readEntry_alone {fates : ℕ → Fate} (hfates : ∀ n, (fates n).fails = false)
    (hfile : d.file path = some file) :
    ((machine hash).alone i fates (readEntry path key target) 0 d).1.1 =
      readResult (decodeEntry hash key target (d.content file)) := by
  obtain ⟨data, hcontent⟩ : ∃ data, d.content file = data := ⟨_, rfl⟩
  -- nobody else is there
  have hstable : ∀ g data, (machine hash).Stable (fun j _ _ => j = i) i fun d =>
      d.file path = some g ∧ d.content g = data := by
    rintro g data s t (⟨j, hj, rfl⟩ | ⟨pid, rfl⟩) h
    · exact absurd rfl hj
    · exact h
  have hensures : (machine hash).Ensures (fun j _ _ => j = i) Succeeds i (readEntry path key target)
      (fun r d => (d.file path = some file ∧ d.content file = data) ∧
        (∀ found, r = .hit found → ∃ file, d.file path = some file ∧
          decodeEntry hash key target (d.content file) = some found) ∧
        (True → ∃ file, d.file path = some file ∧
          r = readResult (decodeEntry hash key target (d.content file)))) d :=
    readEntry_decodes (fun _ => rfl) (fun _ _ _ h => h) (hstable file data) hstable ⟨hfile, hcontent⟩
  have hsucceeds : ∀ e ∈ ((machine hash).alone i fates (readEntry path key target) 0 d).2,
      Succeeds e.1 e.2 := by
    have hstep : ∀ op n s, Reader path op → s.file path = some file →
        Succeeds op (perform hash i op (fates n) s).1 ∧
          (perform hash i op (fates n) s).2.file path = some file := fun op n s hop hs =>
      ⟨reader_succeeds hop (hfates n) hs, by rw [looks_perform hash i op (fates n) s hop.1, hs]⟩
    exact alone_accepts hstep each_readEntry hfile
  obtain ⟨⟨hfile', hcontent'⟩, -, hresult⟩ := hensures.alone hsucceeds
  obtain ⟨g, hg, hr⟩ := hresult trivial
  obtain rfl := Option.some.inj (hfile'.symm.trans hg)
  rw [hr, hcontent', hcontent]

/-- **The file codec.**  `ReadEntry` on a file with any content, its operations succeeding, hits
exactly on the image of a shader that `ValidContainer` accepts, and gives that shader; the image of
another key it refuses.  `ValidContainer` reads inside its buffer only, and what `MakeKey` hashes
determines everything it was given. -/
theorem fileCodec (hash : List UInt8 → Digest) :
    (∀ (i : ℕ) (fates : ℕ → Fate) (path : Path) (key : Digest) (target : String) (d : Directory)
        (file : ℕ), (∀ n, (fates n).fails = false) → d.file path = some file →
      (∀ blob, ((machine hash).alone i fates (readEntry path key target) 0 d).1.1 = .hit blob ↔
        validContainer blob target = true ∧ d.content file = entry key (hash blob) blob) ∧
      ∀ key' digest blob, d.content file = entry key' digest blob → key' ≠ key →
        ((machine hash).alone i fates (readEntry path key target) 0 d).1.1 = .invalid) ∧
    (∀ blob target, checkedContainer blob target = some (validContainer blob target)) ∧
    ∀ request request' identity identity', keyBytes request identity = keyBytes request' identity' →
      request = request' ∧ identity = identity' := by
  refine ⟨fun i fates path key target d file hfates hfile => ?_, checkedContainer_eq,
    fun _ _ _ _ => keyBytes_injective⟩
  rw [readEntry_alone hfates hfile]
  constructor
  · intro blob
    rw [← decodeEntry_eq_some]
    cases decodeEntry hash key target (d.content file) with
    | none => exact ⟨nofun, nofun⟩
    | some found =>
        constructor
        · intro h
          rw [ReadResult.hit.inj h]
        · intro h
          rw [Option.some.inj h]
          rfl
  · intro key' digest blob hcontent hkey
    cases hdecoded : decodeEntry hash key target (d.content file) with
    | none => rfl
    | some found =>
        have hentry := (decodeEntry_eq_some.1 hdecoded).2
        exact absurd (entry_key (hcontent.symm.trans hentry)) hkey

/-- A container with one chunk, two words of vertex shader code. -/
def smallestShader : List UInt8 :=
  [0x44, 0x58, 0x42, 0x43] ++ List.replicate 16 0 ++ le 4 1 ++ le 4 52 ++ le 4 1 ++ le 4 36 ++
    [0x53, 0x48, 0x45, 0x58] ++ le 4 8 ++ le 4 0x10051 ++ le 4 2

/-- Its SHA-256. -/
def smallestHash : Digest :=
  ⟨[0xE7, 0xCE, 0x79, 0x5E, 0x37, 0xD1, 0xD9, 0x68, 0xE3, 0x5B, 0xB2, 0xED, 0x06, 0xCC, 0x9D, 0xB6,
    0x36, 0x4B, 0xA1, 0x6E, 0xDC, 0xFB, 0xE0, 0x14, 0x9A, 0xEC, 0x6D, 0x0E, 0x95, 0xE5, 0x06, 0x7D], rfl⟩

/-- A key of one byte over and over. -/
def keyOf (byte : UInt8) : Digest := ⟨List.replicate 32 byte, List.length_replicate⟩

/-- The image of the shader under key 7, as file 0, wherever it is looked for. -/
def smallestDirectory : Directory where
  file := fun _ => some 0
  content := fun _ => entry (keyOf 7) smallestHash smallestShader
  owner := fun _ => none
  next := 1
  sequence := fun _ => 0

/-- The hypotheses are satisfiable: read seven bytes at a time under its key the image
hits, as a vertex shader, and under another key it is invalid. -/
theorem fileCodec_smallestShader :
    let fates : ℕ → Fate := fun _ => ⟨false, 0, 7⟩
    let read := fun key => ((machine fun _ => smallestHash).alone 0 fates
      (readEntry (entryPath key) key "vs_5_1") 0 smallestDirectory).1.1
    read (keyOf 7) = .hit smallestShader ∧ read (keyOf 8) = .invalid ∧
      checkedContainer smallestShader "vs_5_1" = some true ∧
      checkedContainer smallestShader "ps_5_1" = some false := by
  obtain ⟨hread, hchecked, -⟩ := fileCodec fun _ => smallestHash
  have hvalid : validContainer smallestShader "vs_5_1" = true := by decide +kernel
  refine ⟨?_, ?_, ?_, ?_⟩
  · exact ((hread 0 _ _ _ _ _ 0 (fun _ => rfl) rfl).1 smallestShader).2 ⟨hvalid, rfl⟩
  · refine (hread 0 _ _ _ _ _ 0 (fun _ => rfl) rfl).2 (keyOf 7) smallestHash smallestShader rfl ?_
    exact fun h => absurd (congrArg Subtype.val h) (by decide)
  · rw [hchecked, hvalid]
  · rw [hchecked]
    decide +kernel

end ShaderCache
end BoltsRebuilt
