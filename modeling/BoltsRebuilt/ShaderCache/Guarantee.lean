/-
# What the calls do to the directory

Each call creates temporary files, writes to those it created, and gives one of
them the name of an entry or takes its name away.  `Changes` says so, for a set of
calls: what others created stays as it is, and so does every published entry.
`Entries` says what an entry's file holds, and every operation of every call keeps
it.

The lemmas here are about single operations: what an operation of one call does
(`Guarantee`), and which facts the operations of the others cannot end
(`stable_entries`, `stable_published`, `stable_held`).
-/

import BoltsRebuilt.ShaderCache.Calls

namespace BoltsRebuilt
namespace ShaderCache

open Machine

/-- The entry of `key` is there and holds `blob`. -/
def Published (hash : List UInt8 → Digest) (key : Digest) (blob : List UInt8) (d : Directory) : Prop :=
  ∃ file, d.file (entryPath key) = some file ∧ d.content file = entry key (hash blob) blob

/-- The directory's files were created, and every entry is complete: it holds what a `Store` of
its key was given. -/
structure Entries (hash : List UInt8 → Digest) (calls : ℕ → Call) (d : Directory) : Prop where
  bounded : ∀ path file, d.file path = some file → file < d.next
  complete : ∀ key file, d.file (entryPath key) = some file → ∃ i pid target blob,
    d.owner file = some i ∧ calls i = .store pid key target blob ∧
      validContainer blob target = true ∧ d.content file = entry key (hash blob) blob

/-- What the calls in `movers` may have done between `d` and `e`. -/
structure Changes (movers : ℕ → Prop) (d e : Directory) : Prop where
  next : d.next ≤ e.next
  owner : ∀ file < d.next, e.owner file = d.owner file
  fresh : ∀ file, d.next ≤ file → file < e.next → ∃ i, movers i ∧ e.owner file = some i
  kept : ∀ file < d.next, (∀ i, movers i → d.owner file ≠ some i) →
    e.content file = d.content file ∧ ∀ path, e.file path = some file ↔ d.file path = some file
  published : ∀ key file, d.file (entryPath key) = some file →
    e.file (entryPath key) = some file ∧ e.content file = d.content file

/-- What one operation of call `i` may do. -/
def Guarantee (hash : List UInt8 → Digest) (calls : ℕ → Call) (i : ℕ) (d e : Directory) : Prop :=
  Changes (· = i) d e ∧ (Entries hash calls d → Entries hash calls e)

variable {hash : List UInt8 → Digest} {calls : ℕ → Call} {movers movers' : ℕ → Prop}
  {d e : Directory} {i file : ℕ} {key : Digest} {blob : List UInt8} {path : Path}

/-- What some movers may do, more of them may do as well. -/
theorem Changes.mono (h : Changes movers d e) (hmovers : ∀ i, movers i → movers' i) :
    Changes movers' d e where
  next := h.next
  owner := h.owner
  fresh file hge hlt := by
    obtain ⟨i, hi, howner⟩ := h.fresh file hge hlt
    exact ⟨i, hmovers i hi, howner⟩
  kept file hlt hothers := h.kept file hlt fun i hi => hothers i (hmovers i hi)
  published := h.published

/-- A counter moved, and nothing else: no file, no name and no owner. -/
theorem Changes.counter (sequence : ℕ → ℕ) : Changes movers d { d with sequence } where
  next := Nat.le_refl _
  owner _ _ := rfl
  fresh _ hge hlt := absurd hlt (Nat.not_lt.2 hge)
  kept _ _ _ := ⟨rfl, fun _ => Iff.rfl⟩
  published _ _ h := ⟨h, rfl⟩

/-- The counter of temporary names says nothing about the entries. -/
theorem Entries.counter (sequence : ℕ → ℕ) (h : Entries hash calls d) :
    Entries hash calls { d with sequence } := ⟨h.bounded, h.complete⟩

/-- Counting up is within what every call guarantees. -/
theorem Guarantee.counter (sequence : ℕ → ℕ) : Guarantee hash calls i d { d with sequence } :=
  ⟨.counter sequence, .counter sequence⟩

/-- Doing nothing is within what every call guarantees. -/
theorem Guarantee.refl : Guarantee hash calls i d d := .counter d.sequence

/-- What happens between two operations of call `i` is the others' doing. -/
theorem others_changes (h : (machine hash).Others (Guarantee hash calls) i d e) :
    Changes (· ≠ i) d e ∧ (Entries hash calls d → Entries hash calls e) := by
  rcases h with ⟨j, hj, hchanges, hentries⟩ | ⟨pid, rfl⟩
  · exact ⟨hchanges.mono fun k hk => hk ▸ hj, hentries⟩
  · exact ⟨.counter _, .counter _⟩

/-- An entry that was published stays, whatever the others do. -/
theorem Changes.keeps_published (h : Changes movers d e) (hd : Published hash key blob d) :
    Published hash key blob e := by
  obtain ⟨file, hfile, hcontent⟩ := hd
  obtain ⟨hfile', hcontent'⟩ := h.published key file hfile
  exact ⟨file, hfile', hcontent'.trans hcontent⟩

/-- That all entries are whole is stable under the other calls. -/
theorem stable_entries : (machine hash).Stable (Guarantee hash calls) i (Entries hash calls) :=
  fun _ _ h => (others_changes h).2

/-- That an entry was published is stable under them. -/
theorem stable_published :
    (machine hash).Stable (Guarantee hash calls) i (Published hash key blob) :=
  fun _ _ h => (others_changes h).1.keeps_published

/-- An open entry stays what it is: no call writes to a file that has an entry's name. -/
theorem stable_opened {data : List UInt8} : (machine hash).Stable (Guarantee hash calls) i fun d =>
    d.file (entryPath key) = some file ∧ d.content file = data := by
  rintro d e h ⟨hfile, hdata⟩
  obtain ⟨hfile', hcontent⟩ := (others_changes h).1.published key file hfile
  exact ⟨hfile', hcontent.trans hdata⟩

/-! ### The files of a call -/

/-- The names of the files call `i` created are names of entries. -/
def Clear (i : ℕ) (d : Directory) : Prop :=
  ∀ path file, d.file path = some file → d.owner file = some i → ∃ key, path = entryPath key

/-- Call `i` stands between two temporary files. -/
structure Free (hash : List UInt8 → Digest) (calls : ℕ → Call) (tidy : Prop) (i : ℕ)
    (d : Directory) : Prop where
  entries : Entries hash calls d
  clear : tidy → Clear i d

/-- Call `i` owns the temporary file `file` under `path`, with `content` in it. -/
structure Held (hash : List UInt8 → Digest) (calls : ℕ → Call) (tidy : Prop) (i : ℕ) (path : Path)
    (file : ℕ) (content : List UInt8) (d : Directory) : Prop where
  entries : Entries hash calls d
  temporary : ∀ key, path ≠ entryPath key
  named : d.file path = some file
  only : ∀ other, d.file other = some file → other = path
  owner : d.owner file = some i
  content : d.content file = content
  clear : tidy → ∀ other g, d.file other = some g → d.owner g = some i →
    (∃ key, other = entryPath key) ∨ g = file

variable {tidy : Prop} {content : List UInt8}

/-- A name of one of `i`'s files was there before the others moved. -/
theorem Changes.of_owner (h : Changes (· ≠ i) d e) (hentries : Entries hash calls e)
    (hfile : e.file path = some file) (howner : e.owner file = some i) :
    d.file path = some file ∧ d.owner file = some i := by
  have hbound := hentries.bounded path file hfile
  rcases Nat.lt_or_ge file d.next with hlt | hge
  · have hold : d.owner file = some i := by rw [← h.owner file hlt, howner]
    have hmine : ∀ j, j ≠ i → d.owner file ≠ some j := fun j hj hjo =>
      hj (Option.some.inj (hjo.symm.trans hold))
    exact ⟨((h.kept file hlt hmine).2 path).1 hfile, hold⟩
  · obtain ⟨j, hj, hjo⟩ := h.fresh file hge hbound
    exact absurd (Option.some.inj (hjo.symm.trans howner)) hj

/-- That a call owns no file is stable under the other calls. -/
theorem stable_free : (machine hash).Stable (Guarantee hash calls) i (Free hash calls tidy i) := by
  intro d e h hfree
  obtain ⟨hchanges, hentries⟩ := others_changes h
  refine ⟨hentries hfree.entries, fun htidy path file hfile howner => ?_⟩
  obtain ⟨hfile', howner'⟩ := hchanges.of_owner (hentries hfree.entries) hfile howner
  exact hfree.clear htidy path file hfile' howner'

/-- That a call holds its temporary file, with what was written to it, is stable under the other
calls. -/
theorem stable_held :
    (machine hash).Stable (Guarantee hash calls) i (Held hash calls tidy i path file content) := by
  intro d e h hheld
  obtain ⟨hchanges, hentries⟩ := others_changes h
  have hlt := hheld.entries.bounded path file hheld.named
  have hmine : ∀ j, j ≠ i → d.owner file ≠ some j := fun j hj hjo =>
    hj (Option.some.inj (hjo.symm.trans hheld.owner))
  obtain ⟨hcontent, hnames⟩ := hchanges.kept file hlt hmine
  constructor
  case entries => exact hentries hheld.entries
  case temporary => exact hheld.temporary
  case named => exact (hnames path).2 hheld.named
  case only => exact fun other hother => hheld.only other ((hnames other).1 hother)
  case owner => rw [hchanges.owner file hlt, hheld.owner]
  case content => exact hcontent.trans hheld.content
  case clear =>
    intro htidy other g hg howner
    obtain ⟨hg', howner'⟩ := hchanges.of_owner (hentries hheld.entries) hg howner
    exact hheld.clear htidy other g hg' howner'

/-! ### The operations that change the directory -/

/-- **A temporary file is created**: it is empty, the call's own, and under a name that no entry
has. -/
theorem create_held (hfree : Free hash calls tidy i d) (hnone : d.file path = none)
    (htemporary : ∀ key, path ≠ entryPath key) :
    Guarantee hash calls i d (d.create i path) ∧
      Held hash calls tidy i path d.next [] (d.create i path) := by
  have hname : ∀ other file, (d.create i path).file other = some file →
      other = path ∧ file = d.next ∨ other ≠ path ∧ d.file other = some file := by
    intro other file hfile
    by_cases hother : other = path
    · subst hother
      simp only [Directory.create, Function.update_self] at hfile
      exact .inl ⟨rfl, (Option.some.inj hfile).symm⟩
    · simp only [Directory.create, Function.update_of_ne hother] at hfile
      exact .inr ⟨hother, hfile⟩
  have hold : ∀ {other file}, d.file other = some file →
      (d.create i path).file other = some file := by
    intro other file hfile
    have hne : other ≠ path := by
      rintro rfl
      rw [hnone] at hfile
      exact absurd hfile nofun
    simp only [Directory.create, Function.update_of_ne hne, hfile]
  have hsame : ∀ file < d.next, (d.create i path).content file = d.content file ∧
      (d.create i path).owner file = d.owner file := by
    intro file hlt
    exact ⟨Function.update_of_ne (Nat.ne_of_lt hlt) .., Function.update_of_ne (Nat.ne_of_lt hlt) ..⟩
  have hentries : Entries hash calls (d.create i path) := by
    refine ⟨fun other file hfile => ?_, fun key file hfile => ?_⟩
    · rcases hname other file hfile with ⟨-, rfl⟩ | ⟨-, hfile⟩
      · exact Nat.lt_succ_self _
      · exact Nat.lt_succ_of_lt (hfree.entries.bounded other file hfile)
    · rcases hname _ file hfile with ⟨hpath, -⟩ | ⟨-, hfile⟩
      · exact absurd hpath.symm (htemporary key)
      · obtain ⟨hcontent, howner⟩ := hsame file (hfree.entries.bounded _ _ hfile)
        rw [hcontent, howner]
        exact hfree.entries.complete key file hfile
  have hchanges : Changes (· = i) d (d.create i path) := by
    constructor
    case next => exact Nat.le_succ _
    case owner => exact fun file hlt => (hsame file hlt).2
    case fresh =>
      intro file hge hlt
      obtain rfl : file = d.next := Nat.le_antisymm (Nat.le_of_lt_succ hlt) hge
      exact ⟨i, rfl, Function.update_self ..⟩
    case kept =>
      refine fun file hlt _ => ⟨(hsame file hlt).1, fun other => ⟨fun hfile => ?_, hold⟩⟩
      rcases hname other file hfile with ⟨-, rfl⟩ | ⟨-, hfile⟩
      · exact absurd hlt (Nat.lt_irrefl _)
      · exact hfile
    case published =>
      exact fun key file hfile => ⟨hold hfile, (hsame file (hfree.entries.bounded _ _ hfile)).1⟩
  refine ⟨⟨hchanges, fun _ => hentries⟩, ?_⟩
  constructor
  case entries => exact hentries
  case temporary => exact htemporary
  case named | owner | content => exact Function.update_self ..
  case only =>
    intro other hother
    rcases hname other _ hother with ⟨hpath, -⟩ | ⟨-, hfile⟩
    · exact hpath
    · exact absurd (hfree.entries.bounded _ _ hfile) (Nat.lt_irrefl _)
  case clear =>
    intro htidy other g hg howner
    rcases hname other g hg with ⟨-, rfl⟩ | ⟨-, hfile⟩
    · exact .inr rfl
    · rw [(hsame g (hfree.entries.bounded _ _ hfile)).2] at howner
      exact .inl (hfree.clear htidy other g hfile howner)

/-- Call `i` does something to the names of its temporary file, or to what it holds. -/
theorem Held.changes (hheld : Held hash calls tidy i path file content d) (hnext : e.next = d.next)
    (howner : e.owner = d.owner) (hcontent : ∀ g, g ≠ file → e.content g = d.content g)
    (hnames : ∀ other g, g ≠ file → (e.file other = some g ↔ d.file other = some g)) :
    Changes (· = i) d e where
  next := Nat.le_of_eq hnext.symm
  owner _ _ := by rw [howner]
  fresh g hge hlt := absurd (hnext ▸ hlt) (Nat.not_lt.2 hge)
  kept g _ hothers := by
    have hne : g ≠ file := fun h => hothers i rfl (h ▸ hheld.owner)
    exact ⟨hcontent g hne, fun other => hnames other g hne⟩
  published key g hg := by
    have hne : g ≠ file := fun h => hheld.temporary key (hheld.only _ (h ▸ hg)).symm
    exact ⟨(hnames _ g hne).2 hg, hcontent g hne⟩

/-- **Bytes are written to the temporary file**, which no other call touches. -/
theorem append_held (hheld : Held hash calls tidy i path file content d) (bytes : List UInt8) :
    Guarantee hash calls i d (d.append file bytes) ∧
      Held hash calls tidy i path file (content ++ bytes) (d.append file bytes) := by
  have hother : ∀ g, g ≠ file → (d.append file bytes).content g = d.content g :=
    fun g hg => Function.update_of_ne hg ..
  have hentries : Entries hash calls (d.append file bytes) := by
    refine ⟨hheld.entries.bounded, fun key g hg => ?_⟩
    have hne : g ≠ file := fun h => hheld.temporary key (hheld.only _ (h ▸ hg)).symm
    rw [hother g hne]
    exact hheld.entries.complete key g hg
  have hcontent : (d.append file bytes).content file = content ++ bytes := by
    simp only [Directory.append, Function.update_self, hheld.content]
  exact ⟨⟨hheld.changes rfl rfl hother fun _ _ _ => Iff.rfl, fun _ => hentries⟩,
    { hheld with entries := hentries, content := hcontent }⟩

/-- **The temporary file is deleted**, and the call owns none afterwards. -/
theorem remove_free (hheld : Held hash calls tidy i path file content d) :
    Guarantee hash calls i d (d.remove path) ∧ Free hash calls tidy i (d.remove path) := by
  have hname : ∀ other g, (d.remove path).file other = some g ↔
      other ≠ path ∧ d.file other = some g := by
    intro other g
    simp only [Directory.remove, Function.update_apply]
    split
    · exact ⟨nofun, fun h => absurd ‹_› h.1⟩
    · exact ⟨fun h => ⟨‹_›, h⟩, fun h => h.2⟩
  have hentries : Entries hash calls (d.remove path) := by
    refine ⟨fun other g hg => hheld.entries.bounded other g ((hname other g).1 hg).2,
      fun key g hg => hheld.entries.complete key g ((hname _ g).1 hg).2⟩
  refine ⟨⟨hheld.changes rfl rfl (fun _ _ => rfl) fun other g hg => ?_, fun _ => hentries⟩,
    hentries, fun htidy other g hg howner => ?_⟩
  · rw [hname]
    refine ⟨fun h => h.2, fun h => ⟨?_, h⟩⟩
    rintro rfl
    exact hg (Option.some.inj (h.symm.trans hheld.named))
  · obtain ⟨hne, hg⟩ := (hname other g).1 hg
    rcases hheld.clear htidy other g hg howner with hkey | rfl
    · exact hkey
    · exact absurd (hheld.only other hg) hne

/-- **The complete temporary file gets the entry's name**: the entry is published, whole, at that
instant. -/
theorem rename_published {pid : ℕ} {target : String}
    (hheld : Held hash calls tidy i path file (entry key (hash blob) blob) d)
    (hcall : calls i = .store pid key target blob) (hvalid : validContainer blob target = true)
    (hnone : d.file (entryPath key) = none) :
    Guarantee hash calls i d (d.rename path (entryPath key) file) ∧
      Free hash calls tidy i (d.rename path (entryPath key) file) ∧
      Published hash key blob (d.rename path (entryPath key) file) := by
  have hnew : (d.rename path (entryPath key) file).file (entryPath key) = some file :=
    Function.update_self ..
  have hname : ∀ other, other ≠ entryPath key → ∀ g,
      (d.rename path (entryPath key) file).file other = some g ↔
        other ≠ path ∧ d.file other = some g := by
    intro other hother g
    simp only [Directory.rename, Function.update_of_ne hother, Function.update_apply]
    split
    · exact ⟨nofun, fun h => absurd ‹_› h.1⟩
    · exact ⟨fun h => ⟨‹_›, h⟩, fun h => h.2⟩
  have hentries : Entries hash calls (d.rename path (entryPath key) file) := by
    refine ⟨fun other g hg => ?_, fun key' g hg => ?_⟩
    · by_cases hother : other = entryPath key
      · rw [hother, hnew] at hg
        exact Option.some.inj hg ▸ hheld.entries.bounded path file hheld.named
      · exact hheld.entries.bounded other g ((hname other hother g).1 hg).2
    · by_cases hother : entryPath key' = entryPath key
      · obtain rfl := entryPath_injective hother
        rw [hnew] at hg
        exact Option.some.inj hg ▸ ⟨i, pid, target, blob, hheld.owner, hcall, hvalid, hheld.content⟩
      · exact hheld.entries.complete key' g ((hname _ hother g).1 hg).2
  refine ⟨⟨hheld.changes rfl rfl (fun _ _ => rfl) fun other g hg => ?_, fun _ => hentries⟩,
    ⟨hentries, fun htidy other g hg howner => ?_⟩, file, hnew, hheld.content⟩
  · by_cases hother : other = entryPath key
    · rw [hother, hnew, hnone]
      exact ⟨fun h => absurd (Option.some.inj h).symm hg, nofun⟩
    · rw [hname other hother]
      refine ⟨fun h => h.2, fun h => ⟨?_, h⟩⟩
      rintro rfl
      exact hg (Option.some.inj (h.symm.trans hheld.named))
  · by_cases hother : other = entryPath key
    · exact ⟨key, hother⟩
    · obtain ⟨hne, hold⟩ := (hname other hother g).1 hg
      rcases hheld.clear htidy other g hold howner with hkey | rfl
      · exact hkey
      · exact absurd (hheld.only other hold) hne

end ShaderCache
end BoltsRebuilt
