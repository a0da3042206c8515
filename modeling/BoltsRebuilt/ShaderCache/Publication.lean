/-
# The cache publishes complete entries, once

Any number of `Load` and `Store` calls run on one directory, their operations in
any order and each of them failing or not (`runCalls`).  At first the directory
holds no entry; it may hold other files, such as temporary files of processes that
ended.

The specifications of the calls put together (`promises`) give `publication`: what
a `Load` returns was stored, entries stay as they were published, a `Store` that
returned true is what later `Load` calls find, and no two of them disagree.  A
`Store` removes its temporary file with `DeleteFileW`, whose result it does not
look at: where that fails the file stays (`store_leaves_temporary`).
-/

import BoltsRebuilt.ShaderCache.Specs
import Mathlib.Data.List.Induction

namespace BoltsRebuilt
namespace ShaderCache

open Machine

abbrev Cache := Pool ℕ Op Reply Directory Outcome

/-- The calls after some events. -/
def runCalls (hash : List UInt8 → Digest) (calls : ℕ → Call) (c : Cache)
    (es : List (Event ℕ Fate ℕ)) : Cache :=
  es.foldl ((machine hash).step fun i => (calls i).run) c

/-- No call started, no entry is there, and nobody owns what is there. -/
structure Initial (c : Cache) : Prop where
  idle : ∀ i, c.thread i = none
  bounded : ∀ path file, c.shared.file path = some file → file < c.shared.next
  empty : ∀ key, c.shared.file (entryPath key) = none
  unowned : ∀ file, c.shared.owner file = none

/-- What a call promises at its return. -/
def Delivers (hash : List UInt8 → Digest) : Call → Outcome → Directory → Prop
  | .store _ key target blob, .stored result, d =>
    result = .ok () → Published hash key blob d ∧ validContainer blob target = true
  | .load key _, .loaded result, d => ∀ found, result = some found → Published hash key found d
  | _, _, _ => False

variable {hash : List UInt8 → Digest} {calls : ℕ → Call} {c : Cache} {i j : ℕ}

/-- What a call has delivered stays delivered whatever the other calls do. -/
theorem stable_delivers {call : Call} {outcome : Outcome} :
    Stable hash calls i (Delivers hash call outcome) := by
  intro s t h hd
  cases call with
  | store pid key target blob =>
      cases outcome with
      | stored result => exact fun hok => ⟨stable_published s t h (hd hok).1, (hd hok).2⟩
      | loaded result => exact hd
  | load key target =>
      cases outcome with
      | stored result => exact hd
      | loaded result => exact fun found hfound => stable_published s t h (hd found hfound)

/-- **Every call keeps its promise** among all others: a load answers with an entry, a store
delivers what its result says. -/
theorem promises (hash : List UInt8 → Digest) (calls : ℕ → Call) :
    Promises (machine hash) (Guarantee hash calls) (fun i => (calls i).run) (Entries hash calls)
      fun i => Delivers hash (calls i) where
  keeps _ _ _ h := h.2
  outside _ _ h := h.counter _
  program i d hd := by
    cases hcall : calls i with
    | store pid key target blob =>
        have hfree : Free hash calls False i d := ⟨hd, False.elim⟩
        refine ensures_bind (store_spec hcall False.elim hfree) fun r d hr => ?_
        have hdelivers : Delivers hash (.store pid key target blob) (.stored r) d :=
          fun hok => ⟨hr.1.published hok, hr.2 hok⟩
        exact ensures_pure stable_delivers hdelivers fun _ h => h
    | load key target =>
        have hload : Ensures hash calls (fun _ _ => True) i (load key target) (fun r d =>
            (∀ found, r = some found → Published hash key found d) ∧
              (False → r = if validContainer [] target then some [] else none)) d :=
          load_spec False.elim hd False.elim
        refine ensures_bind hload fun r d hr => ?_
        have hdelivers : Delivers hash (.load key target) (.loaded r) d := hr.1
        exact ensures_pure stable_delivers hdelivers fun _ h => h

/-- Before any call has begun, every call is sound. -/
theorem sound_initial (h : Initial c) :
    Sound (machine hash) (Guarantee hash calls) (Entries hash calls)
      (fun i => Delivers hash (calls i)) c := by
  refine .idle ⟨h.bounded, fun key file hfile => ?_⟩ h.idle
  rw [h.empty key] at hfile
  cases hfile

/-- **Any interleaving of the calls keeps each of them sound**, by the rule for threads. -/
theorem sound_run (hash : List UInt8 → Digest) (calls : ℕ → Call) (h : Initial c) (es : List (Event ℕ Fate ℕ)) :
    Sound (machine hash) (Guarantee hash calls) (Entries hash calls)
      (fun i => Delivers hash (calls i)) (runCalls hash calls c es) :=
  (sound_initial h).run (promises hash calls) es

/-! ### Who created a file -/

/-- The owner of every file was started. -/
def OwnersStarted (c : Cache) : Prop :=
  ∀ file i, c.shared.owner file = some i → c.thread i ≠ none

/-- A file's owner is who it was, or the call that made it. -/
theorem perform_owner {op : Op} {fate : Fate} {d : Directory} {file : ℕ}
    (h : (perform hash i op fate d).2.owner file = some j) : d.owner file = some j ∨ j = i := by
  have hlooks : Looks op → d.owner file = some j ∨ j = i := fun hl =>
    .inl (looks_perform hash i op fate d hl ▸ h)
  cases op with
  | createNew path =>
      simp only [perform] at h
      split at h
      · exact .inl h
      · split at h
        · exact .inl h
        · simp only [Directory.create, Function.update_apply] at h
          split at h
          · exact .inr (Option.some.inj h).symm
          · exact .inl h
  | moveFile source destination =>
      simp only [perform] at h
      split at h
      · split at h <;> exact .inl h
      · exact .inl h
  | deleteFile path =>
      simp only [perform] at h
      split at h
      · exact .inl h
      · split at h <;> exact .inl h
  | fetchAdd pid => exact .inl h
  | write g bytes => exact .inl h
  | _ => exact hlooks trivial

/-- Only a call that has started owns a file. -/
theorem ownersStarted_step (h : OwnersStarted c) (e : Event ℕ Fate ℕ) :
    OwnersStarted ((machine hash).step (fun i => (calls i).run) c e) := by
  intro file i howner
  cases e with
  | start j =>
      simp only [Machine.step] at howner ⊢
      split at howner
      · simp only [Function.update_apply]
        split
        · exact Option.some_ne_none _
        · exact h file i howner
      · exact h file i howner
  | outside pid => exact h file i howner
  | act j fate =>
      simp only [Machine.step] at howner ⊢
      split at howner
      · simp only [Function.update_apply]
        split
        · exact Option.some_ne_none _
        · rename_i hne
          rcases perform_owner howner with hold | hij
          · exact h file i hold
          · exact absurd hij hne
      · exact h file i howner

/-- And so along every run, by induction on its events. -/
theorem ownersStarted_run (hinitial : Initial c) (es : List (Event ℕ Fate ℕ)) :
    OwnersStarted (runCalls hash calls c es) := by
  have hstart : OwnersStarted c := fun file i howner => by
    rw [hinitial.unowned file] at howner
    cases howner
  induction es using List.reverseRecOn with
  | nil => exact hstart
  | append_singleton es e ih =>
      rw [runCalls, List.foldl_append]
      exact ownersStarted_step ih e

/-! ### The parts of the claim -/

/-- A hit was stored: what a load returns is the blob of a store of this key that has started. -/
theorem load_stored (hinitial : Initial c) (es : List (Event ℕ Fate ℕ)) {key : Digest}
    {target : String} {blob : List UInt8} (hcall : calls i = .load key target)
    (hret : Returned (runCalls hash calls c es) i (.loaded (some blob))) :
    ∃ j pid target', calls j = .store pid key target' blob ∧
      (runCalls hash calls c es).thread j ≠ none := by
  have hsound := sound_run hash calls hinitial es
  have hdelivers := hsound.returned hret
  rw [hcall] at hdelivers
  obtain ⟨file, hfile, hcontent⟩ := hdelivers blob rfl
  obtain ⟨j, pid, target', held, howner, hstore, -, hheld⟩ := hsound.1.complete key file hfile
  obtain rfl := entry_injective (hheld.symm.trans hcontent)
  exact ⟨j, pid, target', hstore, ownersStarted_run hinitial es file j howner⟩

/-- A run goes on from where its first part ended. -/
theorem runCalls_append (es later : List (Event ℕ Fate ℕ)) :
    runCalls hash calls c (es ++ later) = runCalls hash calls (runCalls hash calls c es) later :=
  List.foldl_append

/-- A published entry stays as it is in every later state of a run. -/
theorem published_run (hinitial : Initial c) (es later : List (Event ℕ Fate ℕ)) {key : Digest}
    {file : ℕ} {content : List UInt8}
    (h : (runCalls hash calls c es).shared.file (entryPath key) = some file ∧
      (runCalls hash calls c es).shared.content file = content) :
    (runCalls hash calls c (es ++ later)).shared.file (entryPath key) = some file ∧
      (runCalls hash calls c (es ++ later)).shared.content file = content := by
  rw [runCalls_append]
  have hkept : ∀ i s t, Guarantee hash calls i s t →
      s.file (entryPath key) = some file ∧ s.content file = content →
        t.file (entryPath key) = some file ∧ t.content file = content := by
    rintro i s t ⟨hchanges, -⟩ ⟨hfile, hcontent⟩
    obtain ⟨hfile', hcontent'⟩ := hchanges.published key file hfile
    exact ⟨hfile', hcontent'.trans hcontent⟩
  exact (sound_run hash calls hinitial es).preserves (promises hash calls) hkept
    (fun _ _ h => h) h later

/-- A later `Load` whose operations succeed returns what was published. -/
theorem load_after (hinitial : Initial c) (es later : List (Event ℕ Fate ℕ)) {key : Digest}
    {target : String} {blob : List UInt8} (hcall : calls i = .load key target)
    (hidle : (runCalls hash calls c es).thread i = none)
    (hpublished : Published hash key blob (runCalls hash calls c es).shared)
    {result : Option (List UInt8)} {replies : List ((op : Op) × Reply op)}
    (hret : (runCalls hash calls c (es ++ later)).thread i = some ⟨.ret (.loaded result), replies⟩)
    (hreplies : ∀ e ∈ replies, Succeeds e.1 e.2) :
    result = if validContainer blob target then some blob else none := by
  have hsound := sound_run hash calls hinitial es
  have hstable : Stable hash calls i fun d => Entries hash calls d ∧ Published hash key blob d :=
    stable_entries.and stable_published
  have hprogram : ∀ d, (Entries hash calls d ∧ Published hash key blob d) →
      Ensures hash calls Succeeds i (calls i).run (fun outcome _ => ∀ result,
        outcome = .loaded result → result = if validContainer blob target then some blob else none) d := by
    intro d ⟨hd, hpublished⟩
    rw [hcall]
    have hload : Ensures hash calls Succeeds i (load key target) (fun r d =>
        (∀ found, r = some found → Published hash key found d) ∧
          (True → r = if validContainer blob target then some blob else none)) d :=
      load_spec (fun _ _ _ h => h) hd fun _ => hpublished
    refine ensures_bind hload fun r d hr =>
      ensures_pure (stable_const True) trivial fun s _ result hresult => ?_
    rw [← Outcome.loaded.inj hresult, hr.2 trivial]
  have htracked : Tracked (machine hash) (Guarantee hash calls) Succeeds i
      (fun d => Entries hash calls d ∧ Published hash key blob d) (fun outcome _ => ∀ result,
        outcome = .loaded result → result = if validContainer blob target then some blob else none)
      (runCalls hash calls c es) :=
    ⟨fun _ => ⟨hsound.1, hpublished⟩, fun r hr => by rw [hidle] at hr; cases hr⟩
  rw [runCalls_append] at hret
  exact (htracked.run (promises hash calls) hsound hstable hprogram later).returned hret hreplies
    result rfl

/-- A `Store` whose deletions succeeded leaves no temporary file. -/
theorem store_clear (hinitial : Initial c) (es : List (Event ℕ Fate ℕ)) {pid : ℕ} {key : Digest}
    {target : String} {blob : List UInt8} (hcall : calls i = .store pid key target blob)
    {outcome : Outcome} {replies : List ((op : Op) × Reply op)}
    (hret : (runCalls hash calls c es).thread i = some ⟨.ret outcome, replies⟩)
    (hreplies : ∀ e ∈ replies, ∀ path, e.1 = .deleteFile path → Succeeds e.1 e.2) :
    Clear i (runCalls hash calls c es).shared := by
  have hprogram : ∀ d, Free hash calls True i d →
      Ensures hash calls (fun op r => ∀ path, op = .deleteFile path → Succeeds op r) i (calls i).run
        (fun _ d => Clear i d) d := by
    intro d hd
    rw [hcall]
    refine ensures_bind (store_spec hcall (fun _ path r h => h path rfl) hd) fun r d hr => ?_
    exact ensures_pure stable_free hr.1.free fun s hs => hs.clear trivial
  have htracked : Tracked (machine hash) (Guarantee hash calls)
      (fun op r => ∀ path, op = .deleteFile path → Succeeds op r) i (Free hash calls True i)
      (fun _ d => Clear i d) c := by
    refine ⟨fun _ => ⟨(sound_initial hinitial).1, fun _ path file _ howner => ?_⟩, fun r hr => ?_⟩
    · rw [hinitial.unowned file] at howner
      cases howner
    · rw [hinitial.idle i] at hr
      cases hr
  exact (htracked.run (promises hash calls) (sound_initial hinitial) stable_free hprogram es).returned
    hret hreplies

/-- **Publication.**  In every run of the calls from an initial directory: a `Load` that hits
returns what some `Store` of its key, already started, was given; the entry of a key stays the same
file with the same content; a `Load` that starts after a `Store` of its key returned true, and
whose operations succeed, returns the shader of that `Store` if it asks for its target, and
nothing if the shader is no good for the target it asks for; two `Store` calls of one key that
returned true were given the same shader; and a `Store` that returned has no file left under a
name that is not an entry's, unless a `DeleteFileW` of it failed. -/
theorem publication (hash : List UInt8 → Digest) (calls : ℕ → Call) {c : Cache}
    (hinitial : Initial c) (es later : List (Event ℕ Fate ℕ)) :
    (∀ i key target blob, calls i = .load key target →
      Returned (runCalls hash calls c es) i (.loaded (some blob)) →
        ∃ j pid target', calls j = .store pid key target' blob ∧
          (runCalls hash calls c es).thread j ≠ none) ∧
    (∀ key file, (runCalls hash calls c es).shared.file (entryPath key) = some file →
      (runCalls hash calls c (es ++ later)).shared.file (entryPath key) = some file ∧
        (runCalls hash calls c (es ++ later)).shared.content file =
          (runCalls hash calls c es).shared.content file) ∧
    (∀ i pid key target blob, calls i = .store pid key target blob →
      Returned (runCalls hash calls c es) i (.stored (.ok ())) →
        ∀ j target', calls j = .load key target' → (runCalls hash calls c es).thread j = none →
          ∀ result replies,
            (runCalls hash calls c (es ++ later)).thread j = some ⟨.ret (.loaded result), replies⟩ →
            (∀ e ∈ replies, Succeeds e.1 e.2) →
              (target' = target → result = some blob) ∧
                result = if validContainer blob target' then some blob else none) ∧
    (∀ i j pid pid' key target target' blob blob', calls i = .store pid key target blob →
      calls j = .store pid' key target' blob' →
        Returned (runCalls hash calls c es) i (.stored (.ok ())) →
        Returned (runCalls hash calls c (es ++ later)) j (.stored (.ok ())) → blob = blob') ∧
    (∀ i pid key target blob, calls i = .store pid key target blob →
      ∀ outcome replies, (runCalls hash calls c es).thread i = some ⟨.ret outcome, replies⟩ →
        (∀ e ∈ replies, ∀ path, e.1 = .deleteFile path → Succeeds e.1 e.2) →
          ∀ path file, (runCalls hash calls c es).shared.file path = some file →
            (runCalls hash calls c es).shared.owner file = some i → ∃ key', path = entryPath key') := by
  have hstored : ∀ es i pid key target blob, calls i = .store pid key target blob →
      Returned (runCalls hash calls c es) i (.stored (.ok ())) →
        Published hash key blob (runCalls hash calls c es).shared ∧
          validContainer blob target = true := by
    intro es i pid key target blob hcall hret
    have hdelivers := (sound_run hash calls hinitial es).returned hret
    rw [hcall] at hdelivers
    exact hdelivers rfl
  refine ⟨fun i key target blob hcall hret => load_stored hinitial es hcall hret,
    fun key file hfile => published_run hinitial es later ⟨hfile, rfl⟩, ?_, ?_,
    fun i pid key target blob hcall outcome replies hret hreplies =>
      store_clear hinitial es hcall hret hreplies⟩
  · intro i pid key target blob hcall hret j target' hload hidle result replies hlater hreplies
    obtain ⟨hpublished, hvalid⟩ := hstored es i pid key target blob hcall hret
    have hresult := load_after hinitial es later hload hidle hpublished hlater hreplies
    refine ⟨fun htarget => ?_, hresult⟩
    rw [hresult, htarget, if_pos hvalid]
  · intro i j pid pid' key target target' blob blob' hi hj hreti hretj
    obtain ⟨⟨file, hentry⟩, -⟩ := hstored es i pid key target blob hi hreti
    obtain ⟨⟨file', hfile', hcontent'⟩, -⟩ := hstored (es ++ later) j pid' key target' blob' hj hretj
    obtain ⟨hfile, hcontent⟩ := published_run hinitial es later hentry
    obtain rfl := Option.some.inj (hfile.symm.trans hfile')
    exact entry_injective (hcontent.symm.trans hcontent')

/-! ### A store that could not write -/

/-- The pixel container of the source's own test. -/
def fixture : List UInt8 :=
  [0x44, 0x58, 0x42, 0x43] ++ List.replicate 16 0 ++ le 4 1 ++ le 4 52 ++ le 4 1 ++ le 4 36 ++
    [0x53, 0x48, 0x45, 0x58] ++ le 4 8 ++ le 4 0x51 ++ le 4 2

def fixtureKey : Digest := ⟨42 :: List.replicate 31 0, rfl⟩

/-- One call, that stores it. -/
def fixtureCalls : ℕ → Call := fun _ => .store 7 fixtureKey "ps_5_1" fixture

/-- An empty directory. -/
def emptyCache : Cache where
  shared := ⟨fun _ => none, fun _ => [], fun _ => none, 0, fun _ => 0⟩
  thread _ := none

/-- The empty cache is where runs begin. -/
theorem initial_emptyCache : Initial emptyCache :=
  ⟨fun _ => rfl, nofun, fun _ => rfl, fun _ => rfl⟩

/-- The temporary file's name. -/
def fixtureTemporary : Path := temporaryPath (entryPath fixtureKey) 7 0

/-- The disk is full when the header is written, and the file is closed. -/
def fullDisk : List (Event ℕ Fate ℕ) :=
  .start 0 :: List.replicate 9 (.act 0 ⟨false, 0, 0⟩) ++ [.act 0 ⟨true, 112, 5⟩, .act 0 ⟨false, 0, 0⟩]

/-- What the `Store` goes on with. -/
def fixtureRest : Code Outcome :=
  discard fixtureTemporary (.error ⟨"write_or_flush_temporary", 112⟩) >>= fun r => pure (.stored r)

/-- On a full disk the store of the example stops where its temporary file is still there. -/
theorem fullDisk_thread (hash : List UInt8 → Digest) : ∃ replies,
    (∀ e ∈ replies, ∀ path, e.1 ≠ .deleteFile path) ∧
      (runCalls hash fixtureCalls emptyCache fullDisk).thread 0 = some ⟨fixtureRest, replies⟩ := by
  refine ⟨_, ?_, rfl⟩
  simp

/-- That file is its own. -/
theorem fullDisk_owner (hash : List UInt8 → Digest) :
    (runCalls hash fixtureCalls emptyCache fullDisk).shared.owner 0 = some 0 := rfl

/-- And stays in the directory under its temporary name. -/
theorem fullDisk_file (hash : List UInt8 → Digest) :
    (runCalls hash fixtureCalls emptyCache fullDisk).shared.file fixtureTemporary = some 0 := by
  have hfile : (runCalls hash fixtureCalls emptyCache fullDisk).shared.file =
      Function.update (fun _ => none) fixtureTemporary (some 0) := rfl
  rw [hfile, Function.update_self]

/-- The deletion that follows, by its fate: with it the temporary file goes or stays. -/
theorem fullDisk_delete (hash : List UInt8 → Digest) (fate : Fate) :
    ∃ replies, (runCalls hash fixtureCalls emptyCache (fullDisk ++ [.act 0 fate])).thread 0 =
        some ⟨.ret (.stored (.error ⟨"write_or_flush_temporary", 112⟩)), replies⟩ ∧
      (fate.fails = false → ∀ e ∈ replies, ∀ path, e.1 = .deleteFile path → Succeeds e.1 e.2) ∧
      (fate.fails = true → (runCalls hash fixtureCalls emptyCache (fullDisk ++ [.act 0 fate])).shared =
        (runCalls hash fixtureCalls emptyCache fullDisk).shared) := by
  obtain ⟨replies, hreplies, hthread⟩ := fullDisk_thread hash
  have hfile := fullDisk_file hash
  rw [runCalls_append]
  generalize runCalls hash fixtureCalls emptyCache fullDisk = c at hthread hfile
  have hstep : runCalls hash fixtureCalls c [.act 0 fate] =
      (machine hash).step (fun i => (fixtureCalls i).run) c (.act 0 fate) := rfl
  have hnext : (machine hash).step (fun i => (fixtureCalls i).run) c (.act 0 fate) =
      ⟨(perform hash 0 (.deleteFile fixtureTemporary) fate c.shared).2,
        Function.update c.thread 0 (some ⟨.ret (.stored (.error ⟨"write_or_flush_temporary", 112⟩)),
          replies ++ [⟨.deleteFile fixtureTemporary,
            (perform hash 0 (.deleteFile fixtureTemporary) fate c.shared).1⟩]⟩)⟩ := by
    rw [Machine.step, hthread]
    rfl
  rw [hstep, hnext]
  refine ⟨replies ++ [⟨.deleteFile fixtureTemporary,
    (perform hash 0 (.deleteFile fixtureTemporary) fate c.shared).1⟩], ?_,
    fun hfails e he path hop => ?_, fun hfails => ?_⟩
  · simp only [Function.update_self]
  · rcases List.mem_append.1 he with he | he
    · exact absurd hop (hreplies e he path)
    · obtain rfl := List.mem_singleton.1 he
      simp only [perform, hfile, hfails, Bool.false_eq_true, if_false]
      rfl
  · simp [perform, hfile, hfails]

/-- Some hash. -/
def lengthHash (bytes : List UInt8) : Digest := ⟨le 32 bytes.length, length_le ..⟩

/-- The hypotheses are satisfiable: on a full disk a store fails; where the deletion works, nothing
is left of it. -/
theorem publication_fullDisk :
    Clear 0 (runCalls lengthHash fixtureCalls emptyCache
      (fullDisk ++ [.act 0 ⟨false, 0, 0⟩])).shared := by
  obtain ⟨replies, hret, hdeleted, -⟩ := fullDisk_delete lengthHash ⟨false, 0, 0⟩
  have hclear := (publication lengthHash fixtureCalls initial_emptyCache
    (fullDisk ++ [.act 0 ⟨false, 0, 0⟩]) []).2.2.2.2
  exact hclear 0 7 fixtureKey "ps_5_1" fixture rfl _ replies hret (hdeleted rfl)

/-- Every `Store` that returned left no temporary file. -/
def StoresClear (hash : List UInt8 → Digest) : Prop :=
  ∀ calls c, Initial c → ∀ es i pid key target blob, calls i = .store pid key target blob →
    ∀ outcome, Returned (runCalls hash calls c es) i outcome →
      Clear i (runCalls hash calls c es).shared

/-- **A temporary file stays behind** where its deletion fails, whatever the hash. -/
theorem store_leaves_temporary : ¬∃ hash, StoresClear hash := by
  rintro ⟨hash, h⟩
  obtain ⟨replies, hret, -, hsame⟩ := fullDisk_delete hash ⟨true, 5, 0⟩
  have hclear : Clear 0 (runCalls hash fixtureCalls emptyCache
      (fullDisk ++ [.act 0 ⟨true, 5, 0⟩])).shared :=
    h fixtureCalls emptyCache initial_emptyCache _ 0 7 fixtureKey "ps_5_1" fixture rfl _
      ⟨replies, hret⟩
  rw [hsame rfl] at hclear
  obtain ⟨key, hkey⟩ := hclear fixtureTemporary 0 (fullDisk_file hash) (fullDisk_owner hash)
  exact absurd hkey (temporaryPath_ne_entryPath fixtureKey key 7 0)

end ShaderCache
end BoltsRebuilt
