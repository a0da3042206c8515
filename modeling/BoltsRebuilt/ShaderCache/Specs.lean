/-
# What `Load` and `Store` ensure

One specification for each function of `Calls`, for one call among others.

A `Load` that hits returns what the entry holds, and one whose operations all
succeed hits where the entry is there and good for its target.  A `Store` that
returns true leaves its shader published, and every `Store` returns without a
temporary file if its deletions succeeded.  The replies a specification is about
are those `A` accepts: `clean` says that they are successes, and `tidy` that the
deletions are.
-/

import BoltsRebuilt.ShaderCache.Codec
import BoltsRebuilt.ShaderCache.Guarantee

namespace BoltsRebuilt
namespace ShaderCache

open Machine

variable {hash : List UInt8 → Digest} {calls : ℕ → Call} {A : (op : Op) → Reply op → Prop}
  {i pid file : ℕ} {key : Digest} {target : String} {blob content data : List UInt8} {path : Path}
  {d : Directory} {clean tidy : Prop} {P X : Directory → Prop} {α : Type}
  {G : ℕ → Directory → Directory → Prop}

/-- What call `i` ensures among the others. -/
abbrev Ensures (hash : List UInt8 → Digest) (calls : ℕ → Call) (A : (op : Op) → Reply op → Prop)
    (i : ℕ) (p : Code α) (Q : α → Directory → Prop) (d : Directory) : Prop :=
  (machine hash).Ensures (Guarantee hash calls) A i p Q d

abbrev Stable (hash : List UInt8 → Digest) (calls : ℕ → Call) (i : ℕ) (P : Directory → Prop) : Prop :=
  (machine hash).Stable (Guarantee hash calls) i P

/-! ### Operations that only look -/

/-- The operations that leave the directory alone. -/
def Looks : Op → Prop
  | .fetchAdd _ | .createNew _ | .write .. | .moveFile .. | .deleteFile _ => False
  | _ => True

/-- What a reply says about the directory. -/
def Answers (hash : List UInt8 → Digest) : (op : Op) → Reply op → Directory → Prop
  | .openExisting path, r, d => ∀ file, r = .ok file → d.file path = some file
  | .fileSize file, r, d => ∀ size, r = some size → size = (d.content file).length
  | .read file offset wanted, r, d => ∀ bytes, r = some bytes →
      ∃ n, bytes = bytesAt (d.content file) offset (min wanted (n + 1))
  | .sha256 bytes, r, _ => ∀ digest, r = some digest → digest = hash bytes
  | _, _, _ => True

/-- An operation that only looks at the directory answers with what is in it. -/
theorem answers_perform (o : Op) (fate : Fate) (d : Directory) (hlooks : Looks o) :
    Answers hash o (perform hash i o fate d).1 d := by
  cases o with
  | openExisting path =>
      intro file hfile
      simp only [perform] at hfile
      cases hpath : d.file path with
      | none => rw [hpath] at hfile; cases hfile
      | some g =>
          rw [hpath] at hfile
          simp only [Fate.verdict] at hfile
          split at hfile
          · cases hfile
          · rw [Except.ok.inj hfile]
  | fileSize file =>
      intro size hsize
      simp only [perform, Fate.unless] at hsize
      split at hsize
      · cases hsize
      · exact (Option.some.inj hsize).symm
  | read file offset wanted =>
      intro bytes hbytes
      simp only [perform, Fate.unless] at hbytes
      split at hbytes
      · cases hbytes
      · exact ⟨fate.amount, (Option.some.inj hbytes).symm⟩
  | sha256 bytes =>
      intro digest hdigest
      simp only [perform, Fate.unless] at hdigest
      split at hdigest
      · cases hdigest
      · exact (Option.some.inj hdigest).symm
  | createNew path => exact hlooks.elim
  | write file bytes => exact hlooks.elim
  | moveFile source destination => exact hlooks.elim
  | deleteFile path => exact hlooks.elim
  | allocate => trivial
  | createDirectories => trivial
  | regularDiskFile file => trivial
  | fetchAdd pid => exact hlooks.elim
  | flush file => trivial
  | close file => trivial

/-- And changes nothing in it. -/
theorem looks_perform (hash : List UInt8 → Digest) (i : ℕ) (o : Op) (fate : Fate) (d : Directory) (hlooks : Looks o) :
    (perform hash i o fate d).2 = d := by
  cases o with
  | openExisting path =>
      simp only [perform]
      split <;> rfl
  | fetchAdd pid => exact hlooks.elim
  | createNew path => exact hlooks.elim
  | write file bytes => exact hlooks.elim
  | moveFile source destination => exact hlooks.elim
  | deleteFile path => exact hlooks.elim
  | _ => rfl

/-- **A step that looks** leaves what is stable, and its reply says what it saw. -/
theorem ensures_looks {o : Op} {f : Reply o → Code α} {Q : α → Directory → Prop}
    (hG : ∀ d, G i d d) (hP : (machine hash).Stable G i P) (hlooks : Looks o) (hd : P d)
    (h : ∀ d r, P d → A o r → Answers hash o r d → (machine hash).Ensures G A i (f r) Q d) :
    (machine hash).Ensures G A i (Routine.op o >>= f) Q d := by
  refine ensures_op hP hd fun s fate hs hA => ?_
  have hsame := looks_perform hash i o fate s hlooks
  show G i s (perform hash i o fate s).2 ∧
    (machine hash).Ensures G A i (f (perform hash i o fate s).1) Q (perform hash i o fate s).2
  rw [hsame]
  exact ⟨hG s, h s _ hs hA (answers_perform o fate s hlooks)⟩

/-- The rule for an operation that only looks: what holds before it holds behind it, with the answer
it has given. -/
theorem ensures_look {o : Op} {f : Reply o → Code α} {Q : α → Directory → Prop}
    (hP : Stable hash calls i P) (hlooks : Looks o) (hd : P d)
    (h : ∀ d r, P d → A o r → Answers hash o r d → Ensures hash calls A i (f r) Q d) :
    Ensures hash calls A i (Routine.op o >>= f) Q d :=
  ensures_looks (fun _ => .refl) hP hlooks hd h

/-! ### Reading

The callers of these need not be the calls of the cache: `G` is what the others may do. -/

/-- What reading `n` bytes at `p` of `data` gives. -/
def ReadsBytes (clean : Prop) (data : List UInt8) (p n : ℕ) (r : Option (List UInt8)) : Prop :=
  (∀ bytes, r = some bytes → bytes = bytesAt data p n) ∧ (clean → r ≠ none)

/-- A read that fails tells nothing, and only happens when operations may fail. -/
theorem readsBytes_none {p n : ℕ} (h : ¬clean) : ReadsBytes clean data p n none :=
  ⟨nofun, fun hclean => absurd hclean h⟩

/-- **`ReadExact`** on a file whose content stays `data`, by induction on the rounds it may take. -/
theorem readRounds_spec (hG : ∀ d, G i d d) (hclean : clean → ∀ o r, A o r → Succeeds o r)
    (hP : (machine hash).Stable G i P) (hdata : ∀ d, P d → d.content file = data) :
    ∀ rounds p n d, n ≤ rounds → p + n ≤ data.length → P d →
      (machine hash).Ensures G A i (readRounds file rounds p n)
        (fun r d => P d ∧ ReadsBytes clean data p n r) d := by
  intro rounds
  induction rounds with
  | zero =>
      intro p n d hn hp hd
      obtain rfl : n = 0 := by omega
      rw [readRounds]
      exact ensures_pure hP hd fun s hs =>
        ⟨hs, fun bytes hb => (Option.some.inj hb).symm, fun _ => nofun⟩
  | succ rounds ih =>
      intro p n d hn hp hd
      rcases n with _ | n
      · rw [readRounds]
        exact ensures_pure hP hd fun s hs =>
          ⟨hs, fun bytes hb => (Option.some.inj hb).symm, fun _ => nofun⟩
      rw [readRounds]
      refine ensures_looks hG hP trivial hd fun d r hd hA hr => ?_
      rcases r with _ | bytes
      · exact ensures_pure hP hd fun s hs =>
          ⟨hs, readsBytes_none fun hc => hclean hc _ _ hA rfl⟩
      obtain ⟨k, hk⟩ := hr bytes rfl
      rw [hdata d hd] at hk
      -- how much the round read: one byte at least
      obtain ⟨count, hcount, hpos, hle⟩ : ∃ count, min (min (n + 1) kChunkBytes) (k + 1) = count ∧
          0 < count ∧ count ≤ n + 1 := by
        refine ⟨_, rfl, ?_, ?_⟩
        · have hchunk : 0 < kChunkBytes := Nat.two_pow_pos 20
          omega
        · omega
      rw [hcount] at hk
      have hlength := congrArg List.length hk
      rw [length_bytesAt (by omega)] at hlength
      rcases bytes with _ | ⟨byte, bytes⟩
      · rw [List.length_nil] at hlength
        omega
      rw [List.length_cons] at hlength
      refine ensures_bind (ih (p + (bytes.length + 1)) (n - bytes.length) d (by omega) (by omega) hd)
        fun r d ⟨hd, hrest⟩ => ?_
      rcases r with _ | rest
      · exact ensures_pure hP hd fun s hs => ⟨hs, readsBytes_none fun hc => hrest.2 hc rfl⟩
      · refine ensures_pure hP hd fun s hs => ⟨hs, fun all hall => ?_, fun _ => nofun⟩
        have hlast := hrest.1 rest rfl
        rw [← Option.some.inj hall, hlast, hk, hlength, bytesAt_add]
        congr 1
        omega

/-- **`ReadExact`** reads the bytes of the file that it is asked for, in however many parts, or
fails. -/
theorem readExact_spec {p n : ℕ} (hG : ∀ d, G i d d)
    (hclean : clean → ∀ o r, A o r → Succeeds o r) (hP : (machine hash).Stable G i P)
    (hdata : ∀ d, P d → d.content file = data) (hd : P d) (hp : p + n ≤ data.length) :
    (machine hash).Ensures G A i (readExact file p n)
      (fun r d => P d ∧ ReadsBytes clean data p n r) d :=
  readRounds_spec hG hclean hP hdata n p n d (Nat.le_refl _) hp hd

/-- The result of `ReadEntry` on a file, as `decodeEntry` has it. -/
def readResult : Option (List UInt8) → ReadResult
  | some blob => .hit blob
  | none => .invalid

/-- A hit is what was decoded, and without a failure the result is. -/
def Decodes (clean : Prop) (decoded : Option (List UInt8)) (r : ReadResult) : Prop :=
  (∀ found, r = .hit found → decoded = some found) ∧ (clean → r = readResult decoded)

/-- An entry that decodes to nothing is reported as invalid. -/
theorem decodes_invalid {decoded : Option (List UInt8)} (h : clean → decoded = none) :
    Decodes clean decoded .invalid :=
  ⟨nofun, fun hclean => by rw [h hclean]; rfl⟩

/-- An accepted header names the size that the file has. -/
theorem size_of_readHeader {n size : ℕ} {head : List UInt8} (h : readHeader key size head = some n) :
    n + kHeaderBytes = size := by
  rw [readHeader] at h
  split at h
  · cases h
  · rename_i hbad
    simp only [not_or, not_not] at hbad
    rw [← Option.some.inj h]
    exact hbad.2.2.2.2.2.2.2

/-- The blob behind an accepted header is read in full, or the read fails. -/
theorem readBlob_spec {n : ℕ} (hG : ∀ d, G i d d) (hclean : clean → ∀ o r, A o r → Succeeds o r)
    (hP : (machine hash).Stable G i P) (hdata : ∀ d, P d → d.content file = data) (hd : P d)
    (hmax : ¬(data.length < kHeaderBytes ∨ data.length > kHeaderBytes + kMaxBlobBytes))
    (hhead : readHeader key data.length (bytesAt data 0 kHeaderBytes) = some n) :
    (machine hash).Ensures G A i (readBlob file (bytesAt (bytesAt data 0 kHeaderBytes) 48 32) n target)
      (fun r d => P d ∧ Decodes clean (decodeEntry hash key target data) r) d := by
  have hsize := size_of_readHeader hhead
  rw [readBlob]
  refine ensures_looks hG hP trivial hd fun d r hd hA _ => ?_
  rcases r with _ | _
  · refine ensures_pure hP hd fun s hs => ⟨hs, nofun, fun hc => ?_⟩
    exact absurd (hclean hc _ _ hA) Bool.false_ne_true
  refine ensures_bind (readExact_spec hG hclean hP hdata hd (by omega)) fun r d ⟨hd, hr⟩ => ?_
  rcases r with _ | candidate
  · exact ensures_pure hP hd fun s hs => ⟨hs, decodes_invalid fun hc => absurd rfl (hr.2 hc)⟩
  obtain rfl := hr.1 candidate rfl
  refine ensures_looks hG hP trivial hd fun d r hd hA hr => ?_
  rcases r with _ | digest
  · exact ensures_pure hP hd fun s hs => ⟨hs, decodes_invalid fun hc => absurd rfl (hclean hc _ _ hA)⟩
  obtain rfl := hr digest rfl
  refine ensures_pure hP hd fun s hs => ⟨hs, ?_⟩
  rw [decodeEntry, if_neg hmax]
  simp only [hhead]
  split
  · exact ⟨fun found hfound => by rw [ReadResult.hit.inj hfound], fun _ => rfl⟩
  · exact decodes_invalid fun _ => rfl

/-- **`ReadEntry`** of a name whose file and content stay once they are there. -/
theorem readEntry_decodes (hG : ∀ d, G i d d) (hclean : clean → ∀ o r, A o r → Succeeds o r)
    (hX : (machine hash).Stable G i X) (hopened : ∀ file data, (machine hash).Stable G i fun d =>
      d.file path = some file ∧ d.content file = data) (hd : X d) :
    (machine hash).Ensures G A i (readEntry path key target) (fun r d => X d ∧
      (∀ found, r = .hit found → ∃ file, d.file path = some file ∧
        decodeEntry hash key target (d.content file) = some found) ∧
      (clean → ∃ file, d.file path = some file ∧
        r = readResult (decodeEntry hash key target (d.content file)))) d := by
  rw [readEntry]
  refine ensures_looks hG hX trivial hd fun d r hd hA hr => ?_
  rcases r with error | file
  · refine ensures_pure hX hd fun s hs => ⟨hs, nofun, fun hc => ?_⟩
    obtain ⟨_, hok⟩ := hclean hc _ _ hA
    cases hok
  have hfile := hr file rfl
  obtain ⟨data, hcontent⟩ : ∃ data, d.content file = data := ⟨_, rfl⟩
  -- from here on the file is open, and its content stays
  have hP : (machine hash).Stable G i fun d => X d ∧ d.file path = some file ∧ d.content file = data :=
    hX.and (hopened file data)
  have hdata : ∀ d, (X d ∧ d.file path = some file ∧ d.content file = data) →
      d.content file = data := fun d h => h.2.2
  have hresult : ∀ {r d}, (X d ∧ d.file path = some file ∧ d.content file = data) →
      Decodes clean (decodeEntry hash key target data) r → X d ∧
        (∀ found, r = .hit found → ∃ file, d.file path = some file ∧
          decodeEntry hash key target (d.content file) = some found) ∧
        (clean → ∃ file, d.file path = some file ∧
          r = readResult (decodeEntry hash key target (d.content file))) :=
    fun h hr => ⟨h.1, fun found hfound => ⟨file, h.2.1, by rw [h.2.2]; exact hr.1 found hfound⟩,
      fun hc => ⟨file, h.2.1, by rw [h.2.2]; exact hr.2 hc⟩⟩
  refine ensures_looks hG hP trivial ⟨hd, hfile, hcontent⟩ fun d r hd hA _ => ?_
  rcases r with _ | _
  · exact ensures_pure hP hd fun s hs => hresult hs
      (decodes_invalid fun hc => absurd (hclean hc _ _ hA) Bool.false_ne_true)
  refine ensures_looks hG hP trivial hd fun d r hd hA hr => ?_
  rcases r with _ | size
  · exact ensures_pure hP hd fun s hs => hresult hs
      (decodes_invalid fun hc => absurd rfl (hclean hc _ _ hA))
  obtain rfl : size = data.length := by rw [hr size rfl, hd.2.2]
  show (machine hash).Ensures G A i (if _ then _ else _) _ d
  split
  · rename_i hsize
    exact ensures_pure hP hd fun s hs => hresult hs
      (decodes_invalid fun _ => decodeEntry_of_size hsize)
  rename_i hsize
  refine ensures_bind (readExact_spec hG hclean hP hdata hd (by omega)) fun r d ⟨hd, hr⟩ => ?_
  rcases r with _ | bytes
  · exact ensures_pure hP hd fun s hs => hresult hs
      (decodes_invalid fun hc => absurd rfl (hr.2 hc))
  obtain rfl := hr.1 bytes rfl
  cases hhead : readHeader key data.length (bytesAt data 0 kHeaderBytes) with
  | none =>
      simp only [hhead]
      refine ensures_pure hP hd fun s hs => hresult hs (decodes_invalid fun _ =>
        decodeEntry_of_header hhead)
  | some n =>
      simp only [hhead]
      exact (readBlob_spec hG hclean hP hdata hd hsize hhead).mono fun r d ⟨hd, hr⟩ => hresult hd hr

/-- An entry determines the blob it was made of, its digest being computed from the blob. -/
theorem entry_injective {a b : List UInt8} (h : entry key (hash a) a = entry key (hash b) b) :
    a = b :=
  (List.append_inj h (by simp)).2

/-- A published entry is decoded where its shader is good for the target. -/
theorem decodeEntry_entry (hash : List UInt8 → Digest) (key : Digest) (target : String)
    (blob : List UInt8) : decodeEntry hash key target (entry key (hash blob) blob) =
      if validContainer blob target then some blob else none := by
  cases hdecoded : decodeEntry hash key target (entry key (hash blob) blob) with
  | some found =>
      obtain ⟨hvalid, hentry⟩ := decodeEntry_eq_some.1 hdecoded
      obtain rfl := entry_injective hentry
      rw [if_pos hvalid]
  | none =>
      split
      · rename_i hvalid
        rw [decodeEntry_eq_some.2 ⟨hvalid, rfl⟩] at hdecoded
        cases hdecoded
      · rfl

/-- What `ReadEntry` finds: a hit is what the entry holds, and an entry that was there is read. -/
def Finds (hash : List UInt8 → Digest) (clean : Prop) (key : Digest) (target : String)
    (blob : List UInt8) (r : ReadResult) (d : Directory) : Prop :=
  (∀ found, r = .hit found → Published hash key found d) ∧
    (clean → r = if validContainer blob target then .hit blob else .invalid)

/-- **`ReadEntry`** among the calls of the cache, with what else is stable. -/
theorem readEntry_spec (hclean : clean → ∀ o r, A o r → Succeeds o r)
    (hX : Stable hash calls i X) (hd : X d) (hpublished : clean → Published hash key blob d) :
    Ensures hash calls A i (readEntry (entryPath key) key target)
      (fun r d => X d ∧ Finds hash clean key target blob r d) d := by
  have hstart : Stable hash calls i fun d => X d ∧ (clean → Published hash key blob d) :=
    hX.and fun s t h hp hc => stable_published s t h (hp hc)
  refine (readEntry_decodes (fun _ => .refl) hclean hstart (fun _ _ => stable_opened)
    ⟨hd, hpublished⟩).mono fun r d ⟨⟨hd, hpublished⟩, hhit, hread⟩ => ⟨hd, fun found hfound => ?_,
      fun hc => ?_⟩
  · obtain ⟨file, hfile, hdecoded⟩ := hhit found hfound
    exact ⟨file, hfile, (decodeEntry_eq_some.1 hdecoded).2⟩
  · obtain ⟨file, hfile, hr⟩ := hread hc
    obtain ⟨file', hfile', hcontent⟩ := hpublished hc
    obtain rfl := Option.some.inj (hfile.symm.trans hfile')
    rw [hr, hcontent, decodeEntry_entry]
    split <;> rfl

/-- A hit of `ReadEntry` is what the entry holds. -/
theorem readEntry_hit (hX : Stable hash calls i X) (hd : X d) :
    Ensures hash calls A i (readEntry (entryPath key) key target)
      (fun r d => X d ∧ ∀ found, r = .hit found → Published hash key found d) d := by
  have hfinds : Ensures hash calls A i (readEntry (entryPath key) key target)
      (fun r d => X d ∧ Finds hash False key target [] r d) d :=
    readEntry_spec False.elim hX hd False.elim
  exact hfinds.mono fun r d h => ⟨h.1, h.2.1⟩

/-- **`Load`** as a whole: a hit returns a published blob; with operations that succeed, a published
entry is a hit. -/
theorem load_spec (hclean : clean → ∀ o r, A o r → Succeeds o r)
    (hd : Entries hash calls d) (hpublished : clean → Published hash key blob d) :
    Ensures hash calls A i (load key target)
      (fun r d => (∀ found, r = some found → Published hash key found d) ∧
        (clean → r = if validContainer blob target then some blob else none)) d := by
  have hstart : Stable hash calls i fun d => Entries hash calls d ∧
      (clean → Published hash key blob d) :=
    stable_entries.and fun s t h hp hc => stable_published s t h (hp hc)
  rw [load]
  refine ensures_look hstart trivial ⟨hd, hpublished⟩ fun d r hd hA _ => ?_
  rcases r with _ | _
  · refine ensures_pure hstart hd fun s hs => ⟨nofun, fun hc => ?_⟩
    exact absurd (hclean hc _ _ hA) Bool.false_ne_true
  refine ensures_bind (readEntry_spec hclean stable_entries hd.1 hd.2)
    fun r d ⟨_, hr⟩ => ?_
  have hnone : (∀ found, r ≠ .hit found) → clean → none = if validContainer blob target then
      some blob else none := by
    intro hmiss hc
    have hit := hr.2 hc
    split at hit
    · exact absurd hit (hmiss blob)
    · rw [if_neg ‹_›]
  rcases r with error | _ | found | _
  · exact ensures_pure (stable_const True) trivial fun s _ => ⟨nofun, hnone nofun⟩
  · exact ensures_pure (stable_const True) trivial fun s _ => ⟨nofun, hnone nofun⟩
  · refine ensures_pure stable_published (hr.1 found rfl) fun s hs => ⟨fun b hb => ?_, fun hc => ?_⟩
    · exact Option.some.inj hb ▸ hs
    · have hit := hr.2 hc
      split at hit
      · rw [if_pos ‹_›, ReadResult.hit.inj hit]
      · cases hit
  · exact ensures_pure (stable_const True) trivial fun s _ => ⟨nofun, hnone nofun⟩

/-! ### Writing and publishing -/

/-- What a `Store` leaves when it returns. -/
structure Stored (hash : List UInt8 → Digest) (calls : ℕ → Call) (tidy : Prop) (i : ℕ)
    (key : Digest) (blob : List UInt8) (result : StoreResult) (d : Directory) : Prop where
  free : Free hash calls tidy i d
  published : result = .ok () → Published hash key blob d

/-- What a store leaves behind stays so while other calls run. -/
theorem stable_stored {result : StoreResult} :
    Stable hash calls i (Stored hash calls tidy i key blob result) :=
  fun s t h hd => ⟨stable_free s t h hd.free, fun hr => stable_published s t h (hd.published hr)⟩

/-- A failure reports nothing published, and ensures nothing more. -/
theorem ensures_fails {failure : StoreFailure} (hd : Free hash calls tidy i d) :
    Ensures hash calls A i (pure (.error failure) : Code StoreResult)
      (Stored hash calls tidy i key blob) d :=
  ensures_pure stable_free hd fun _ hs => ⟨hs, nofun⟩

/-- **The deletion of the temporary file**, and what is reported after it. -/
theorem discard_spec {result : StoreResult} (htidy : tidy → ∀ path r, A (.deleteFile path) r → r = .ok ())
    (hd : Held hash calls tidy i path file content d)
    (hresult : result = .ok () → Published hash key blob d) :
    Ensures hash calls A i (discard path result) (Stored hash calls tidy i key blob) d := by
  have hP : Stable hash calls i fun d => Held hash calls tidy i path file content d ∧
      (result = .ok () → Published hash key blob d) :=
    stable_held.and fun s t h hp hr => stable_published s t h (hp hr)
  rw [discard]
  refine ensures_op hP ⟨hd, hresult⟩ fun s fate hs hA => ?_
  obtain ⟨hheld, hresult⟩ := hs
  have hfree : ∀ {s}, Stored hash calls tidy i key blob result s →
      Ensures hash calls A i (pure result) (Stored hash calls tidy i key blob) s :=
    fun h => ensures_pure stable_stored h fun _ h => h
  revert hA
  simp only [machine, perform, hheld.named]
  cases hfails : fate.fails with
  | true =>
      intro hA
      refine ⟨.refl, hfree ⟨⟨hheld.entries, fun ht => ?_⟩, hresult⟩⟩
      cases htidy ht _ _ hA
  | false =>
      intro _
      obtain ⟨hG, hremoved⟩ := remove_free hheld
      exact ⟨hG, hfree ⟨hremoved, fun hr => hG.1.keeps_published (hresult hr)⟩⟩

/-- Behind a failure the temporary file is deleted, unless that fails as well. -/
theorem caught_spec (htidy : tidy → ∀ path r, A (.deleteFile path) r → r = .ok ())
    (hd : Held hash calls tidy i path file content d) :
    Ensures hash calls A i (caught (some path)) (Stored hash calls tidy i key blob) d :=
  discard_spec htidy hd nofun

/-- **`WriteExact`** on the temporary file: it is whole if the write is. -/
theorem writeRounds_spec : ∀ rounds bytes content d, bytes.length ≤ rounds →
    Held hash calls tidy i path file content d →
      Ensures hash calls A i (writeRounds file rounds bytes) (fun r d => ∃ written,
        Held hash calls tidy i path file written d ∧ (r = .ok () → written = content ++ bytes)) d := by
  intro rounds
  induction rounds with
  | zero =>
      intro bytes content d hn hd
      rcases bytes with _ | ⟨byte, bytes⟩
      · rw [writeRounds]
        exact ensures_pure stable_held hd fun s hs => ⟨content, hs, fun _ => (List.append_nil _).symm⟩
      · rw [List.length_cons] at hn
        omega
  | succ rounds ih =>
      intro bytes content d hn hd
      rcases bytes with _ | ⟨byte, bytes⟩
      · rw [writeRounds]
        exact ensures_pure stable_held hd fun s hs => ⟨content, hs, fun _ => (List.append_nil _).symm⟩
      rw [List.length_cons] at hn
      rw [writeRounds]
      refine ensures_op stable_held hd fun s fate hs _ => ?_
      obtain ⟨hG, hheld⟩ := append_held hs (((byte :: bytes).take kChunkBytes).take fate.amount)
      refine ⟨hG, ?_⟩
      have hfailed : ∀ lastError, Ensures hash calls A i
          (pure (.error lastError) : Code (Except ℕ Unit)) (fun r d => ∃ written,
            Held hash calls tidy i path file written d ∧
              (r = .ok () → written = content ++ byte :: bytes)) _ :=
        fun lastError => ensures_pure stable_held hheld fun s hs => ⟨_, hs, nofun⟩
      simp only [machine, perform, Fate.verdict]
      cases fate.fails with
      | true => exact hfailed _
      | false =>
          rcases htaken : min fate.amount ((byte :: bytes).take kChunkBytes).length with _ | taken
          · simp only [Bool.false_eq_true, if_false]
            exact hfailed _
          · simp only [Bool.false_eq_true, if_false]
            -- the bytes taken are the first of those still to write
            have htake : ((byte :: bytes).take kChunkBytes).take fate.amount =
                (byte :: bytes).take (taken + 1) := by
              rw [List.take_take, ← htaken, List.length_take, List.take_eq_take_iff]
              omega
            refine (ih (bytes.drop taken) _ _ ?_ hheld).mono fun r d ⟨written, hw, hok⟩ =>
              ⟨written, hw, fun hr => ?_⟩
            · rw [List.length_drop]
              omega
            · rw [hok hr, htake, List.append_assoc, List.take_succ_cons, List.cons_append,
                List.take_append_drop]

/-- The temporary file holds what has been written to it so far, and the whole entry when the write
succeeds. -/
theorem writeTemporary_spec {head : List UInt8} (hd : Held hash calls tidy i path file [] d) :
    Ensures hash calls A i (writeTemporary file head blob) (fun r d => ∃ written,
      Held hash calls tidy i path file written d ∧ (r = .ok () → written = head ++ blob)) d := by
  rw [writeTemporary]
  refine ensures_bind (writeRounds_spec _ head [] d (Nat.le_refl _) hd)
    fun r d ⟨written, hd, hw⟩ => ?_
  rcases r with lastError | _
  · exact ensures_pure stable_held hd fun s hs => ⟨_, hs, nofun⟩
  obtain rfl := hw rfl
  refine ensures_bind (writeRounds_spec _ blob _ d (Nat.le_refl _) hd) fun r d ⟨written, hd, hw⟩ => ?_
  rcases r with lastError | _
  · exact ensures_pure stable_held hd fun s hs => ⟨_, hs, nofun⟩
  obtain rfl := hw rfl
  refine ensures_op stable_held hd fun s fate hs _ => ⟨.refl, ?_⟩
  exact ensures_pure stable_held hs fun s hs => ⟨_, hs, fun _ => rfl⟩

/-- The result of comparing with an entry that was found. -/
theorem compareExisting_ok {found : List UInt8} (h : compareExisting found blob = .ok ()) :
    found = blob := by
  by_contra hne
  rw [compareExisting, if_neg hne] at h
  cases h

/-- A store that finds another's entry reads it, and answers with what it has read. -/
theorem readWinner_spec (htidy : tidy → ∀ path r, A (.deleteFile path) r → r = .ok ())
    (hd : Held hash calls tidy i path file content d) :
    Ensures hash calls A i (readWinner key target blob path) (Stored hash calls tidy i key blob) d := by
  rw [readWinner]
  refine ensures_bind (readEntry_hit stable_held hd) fun r d ⟨hd, hr⟩ => ?_
  rcases r with error | _ | found | _
  · exact discard_spec htidy hd nofun
  · exact discard_spec htidy hd nofun
  · exact discard_spec htidy hd fun hok => compareExisting_ok hok ▸ hr found rfl
  · exact caught_spec htidy hd

/-- **An attempt** publishes its file or removes it, or finds another call's entry in its place. -/
theorem publish_spec (hcall : calls i = .store pid key target blob)
    (hvalid : validContainer blob target = true)
    (htidy : tidy → ∀ path r, A (.deleteFile path) r → r = .ok ())
    (hd : Held hash calls tidy i path file [] d) :
    Ensures hash calls A i (publish key target blob (hash blob) path file)
      (Stored hash calls tidy i key blob) d := by
  rw [publish]
  refine ensures_bind (writeTemporary_spec hd) fun r d ⟨written, hd, hw⟩ => ?_
  rcases r with lastError | _
  · exact ensures_look stable_held trivial hd fun d r hd _ _ => discard_spec htidy hd nofun
  obtain rfl := hw rfl
  refine ensures_look stable_held trivial hd fun d r hd _ _ => ?_
  rcases r with lastError | _
  · exact discard_spec htidy hd nofun
  refine ensures_op stable_held hd fun s fate hs _ => ?_
  simp only [machine, perform, hs.named]
  cases hnone : s.file (entryPath key) with
  | some winner => exact ⟨.refl, readWinner_spec htidy hs⟩
  | none =>
      cases fate.fails with
      | true => exact ⟨.refl, readWinner_spec htidy hs⟩
      | false =>
          obtain ⟨hG, hfree, hpublished⟩ := rename_published hs hcall hvalid hnone
          exact ⟨hG, ensures_pure stable_stored ⟨hfree, fun _ => hpublished⟩ fun _ h => h⟩

/-- **The attempts**, by induction on how many are left: each has a temporary name of its own. -/
theorem attempts_spec (hcall : calls i = .store pid key target blob)
    (hvalid : validContainer blob target = true)
    (htidy : tidy → ∀ path r, A (.deleteFile path) r → r = .ok ()) :
    ∀ n failure d, Free hash calls tidy i d →
      Ensures hash calls A i (attempts pid key target blob (hash blob) n failure)
        (Stored hash calls tidy i key blob) d := by
  intro n
  induction n with
  | zero =>
      intro failure d hd
      exact ensures_fails hd
  | succ n ih =>
      intro failure d hd
      rw [attempts]
      refine ensures_look stable_free trivial hd fun d r hd _ _ => ?_
      rcases r with _ | _
      · exact ensures_fails hd
      refine ensures_op stable_free hd fun s fate hs _ => ⟨.counter _, ?_⟩
      have hcounted : Free hash calls tidy i ((machine hash).perform i (.fetchAdd pid) fate s).2 :=
        ⟨hs.entries.counter _, hs.clear⟩
      refine ensures_look stable_free trivial hcounted fun d r hd _ _ => ?_
      rcases r with _ | _
      · exact ensures_fails hd
      refine ensures_op stable_free hd fun s fate hs _ => ?_
      have hrefused : ∀ createError, Ensures hash calls A i
          (if createError = kErrorFileExists ∨ createError = kErrorAlreadyExists then
            attempts pid key target blob (hash blob) n ⟨"create_temporary", createError⟩
          else pure (.error ⟨"create_temporary", createError⟩)) (Stored hash calls tidy i key blob) s := by
        intro createError
        split
        · exact ih _ _ hs
        · exact ensures_fails hs
      simp only [machine, perform]
      split
      · exact ⟨.refl, hrefused _⟩
      · rename_i hnone
        cases fate.fails with
        | true => exact ⟨.refl, hrefused _⟩
        | false =>
            obtain ⟨hG, hheld⟩ := create_held hs hnone (temporaryPath_ne_entryPath key · pid _)
            exact ⟨hG, publish_spec hcall hvalid htidy hheld⟩

/-- **`StoreEntry` as a whole**, with every one of its failures, leaves the entry of this key and
blob or what was there before. -/
theorem storeEntry_spec (hcall : calls i = .store pid key target blob)
    (hvalid : validContainer blob target = true)
    (htidy : tidy → ∀ path r, A (.deleteFile path) r → r = .ok ()) (hd : Free hash calls tidy i d) :
    Ensures hash calls A i (storeEntry pid key target blob (hash blob))
      (Stored hash calls tidy i key blob) d := by
  rw [storeEntry]
  refine ensures_bind (readEntry_hit stable_free hd) fun r d ⟨hd, hr⟩ => ?_
  rcases r with error | _ | found | _
  · exact attempts_spec hcall hvalid htidy _ _ _ hd
  · exact attempts_spec hcall hvalid htidy _ _ _ hd
  · exact ensures_pure stable_stored
      ⟨hd, fun hok => compareExisting_ok hok ▸ hr found rfl⟩ fun _ h => h
  · exact ensures_fails hd

/-- **`Store`** as a whole: a blob that is not valid is refused before anything is written. -/
theorem store_spec (hcall : calls i = .store pid key target blob)
    (htidy : tidy → ∀ path r, A (.deleteFile path) r → r = .ok ()) (hd : Free hash calls tidy i d) :
    Ensures hash calls A i (store pid key target blob) (fun r d =>
      Stored hash calls tidy i key blob r d ∧ (r = .ok () → validContainer blob target = true)) d := by
  rw [store]
  split
  · exact ensures_pure stable_free hd fun _ hs => ⟨⟨hs, nofun⟩, nofun⟩
  rename_i hvalid
  have hvalid : validContainer blob target = true := by simpa using hvalid
  have hfails : ∀ {d} failure, Free hash calls tidy i d → Ensures hash calls A i
      (pure (.error failure) : Code StoreResult) (fun r d => Stored hash calls tidy i key blob r d ∧
        (r = .ok () → validContainer blob target = true)) d :=
    fun failure hd => ensures_pure stable_free hd fun _ hs => ⟨⟨hs, nofun⟩, nofun⟩
  refine ensures_look stable_free trivial hd fun d r hd _ hr => ?_
  rcases r with _ | digest
  · exact hfails _ hd
  obtain rfl := hr digest rfl
  refine ensures_look stable_free trivial hd fun d r hd _ _ => ?_
  rcases r with _ | _
  · exact hfails _ hd
  refine ensures_look stable_free trivial hd fun d r hd _ _ => ?_
  rcases r with _ | _
  · exact hfails _ hd
  refine ensures_look stable_free trivial hd fun d r hd _ _ => ?_
  rcases r with _ | _
  · exact hfails _ hd
  exact (storeEntry_spec hcall hvalid htidy hd).mono fun r d h => ⟨h, fun _ => hvalid⟩

end ShaderCache
end BoltsRebuilt
