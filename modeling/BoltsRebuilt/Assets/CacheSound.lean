/-
# What a kept answer rests on

The answer of `Resolve` in `src/gpu/native/native_asset_cache.cpp` comes from one copy
of its range, made in the same frame, perhaps by an earlier call.  Two arguments say
that no invalidation of the range was completed from the read of the version before
that copy up to the check that admits the answer.

*Up to the copy* by authority: a completed invalidation has taken the authority of its
pages, nobody gives it back during the call, and the copy is only made with it
(`Revoked`).

*After the copy* by version: the copy is made while no invalidation is under way, so
one completed later began later; it has left a greater version on each of its pages
than the cache ever read before (`Fresh`), and the check reads every page of the range.

The numbers do not wrap: fewer than `2 ^ 64` invalidations begin.
-/

import BoltsRebuilt.Assets.Cache
import BoltsRebuilt.Lib.System

namespace BoltsRebuilt
namespace Assets

open Relation

/-- A step of another thread, short of the wrap. -/
def Bounded (s t : Shared) : Prop := Interferes s t ∧ t.begun < 2 ^ 64

/-! ### What the other threads keep -/

/-- Versions are numbers of invalidations; the one under way has the last number, has
stored it on the pages it passed, and has taken the authority of all its pages. -/
structure Shared.WellFormed (s : Shared) : Prop where
  room : s.begun < 2 ^ 64
  sequence : s.sequence.toNat = s.begun
  versions : ∀ page, (s.pageVersions page).toNat ≤ s.begun
  number : ∀ c, s.callback = some c → c.version.toNat = s.begun
  passed : ∀ c, s.callback = some c → ∀ page, c.first ≤ page → page < c.next →
    s.pageVersions page = c.version
  revoked : ∀ c, s.callback = some c → ∀ page, c.first ≤ page → page ≤ c.last →
    s.authority page = false

/-- The later state has what the earlier one had. -/
structure Later (s t : Shared) : Prop where
  finished : s.finished <+: t.finished
  versions : ∀ page, (s.pageVersions page).toNat ≤ (t.pageVersions page).toNat
  begun : s.begun ≤ t.begun
  snapshots : s.snapshots ⊆ t.snapshots

/-- What was completed since `mark` has no authority left. -/
def Revoked (mark : ℕ) (s : Shared) : Prop :=
  ∀ i, mark ≤ i → ∀ span, s.finished[i]? = some span → ∀ page, span.1 ≤ page → page ≤ span.2 →
    s.authority page = false

/-- What was completed since `mark` has left versions above `bound`. -/
structure Fresh (mark bound : ℕ) (s : Shared) : Prop where
  begun : bound ≤ s.begun
  running : ∀ c, s.callback = some c → bound < s.begun
  pages : ∀ i, mark ≤ i → ∀ span, s.finished[i]? = some span → ∀ page, span.1 ≤ page →
    page ≤ span.2 → bound < (s.pageVersions page).toNat

variable {p : Pack} {s t u : Shared} {mark bound : ℕ} {call : Call} {c c' : Cache} {m : Mapping}
  {answer : Answer} {key : BitVec 64}

/-- An entry of a list with one more at its end is an old one or the new one. -/
theorem getElem?_concat {α : Type} {l : List α} {a b : α} {i : ℕ} (h : (l ++ [a])[i]? = some b) :
    l[i]? = some b ∨ i = l.length ∧ b = a := by
  rcases Nat.lt_or_ge i l.length with hlt | hge
  · rw [List.getElem?_append_left hlt] at h
    exact .inl h
  · rw [List.getElem?_append_right hge] at h
    obtain ⟨h0, hb⟩ := List.getElem?_eq_some_iff.1 h
    rw [List.length_singleton] at h0
    exact .inr ⟨by omega, by rw [← hb, List.getElem_singleton]⟩

/-- A state is later than itself. -/
theorem Later.refl : Later s s := ⟨List.prefix_rfl, fun _ => Nat.le_refl _, Nat.le_refl _, fun _ h => h⟩

/-- What is later than a later state is later. -/
theorem Later.trans (h : Later s t) (h' : Later t u) : Later s u where
  finished := h.finished.trans h'.finished
  versions := fun page => (h.versions page).trans (h'.versions page)
  begun := h.begun.trans h'.begun
  snapshots := fun _ hr => h'.snapshots (h.snapshots hr)

/-- What is completed stays in its place, since the list of completed invalidations only grows at
its end. -/
theorem Later.getElem? (h : Later s t) {i : ℕ} (hi : i < s.finished.length) :
    t.finished[i]? = s.finished[i]? := by
  obtain ⟨rest, hrest⟩ := h.finished
  rw [← hrest, List.getElem?_append_left hi]

namespace Shared.WellFormed

/-- A bounded step of the shared state keeps it well formed: finished and begun writes in order,
page versions no newer than the writes begun. -/
theorem step (h : s.WellFormed) (hstep : Bounded s t) : t.WellFormed := by
  obtain ⟨hstep, hroom⟩ := hstep
  cases hstep with
  | begin hfree hinside hordered =>
      have hnext : (s.sequence + 1).toNat = s.begun + 1 := by
        rw [BitVec.toNat_add, h.sequence]
        exact Nat.mod_eq_of_lt hroom
      exact
        { room := hroom
          sequence := hnext
          versions := fun page => (h.versions page).trans (Nat.le_succ _)
          number := by
            rintro c ⟨⟩
            exact hnext
          passed := by
            rintro c ⟨⟩ page hfirst hlt
            exact absurd hfirst (Nat.not_le.2 hlt)
          revoked := by
            rintro c ⟨⟩ page hfirst hlast
            exact if_pos ⟨hfirst, hlast⟩ }
  | @store c hheld hmore =>
      have hnumber := h.number c hheld
      exact
        { room := hroom
          sequence := h.sequence
          versions := fun page => by
            show (Function.update s.pageVersions c.next c.version page).toNat ≤ s.begun
            by_cases heq : page = c.next
            · rw [heq, Function.update_self]
              exact hnumber.le
            · rw [Function.update_of_ne heq]
              exact h.versions page
          number := by
            rintro d ⟨⟩
            exact hnumber
          passed := by
            rintro d ⟨⟩ page hfirst hlt
            show Function.update s.pageVersions c.next c.version page = c.version
            by_cases heq : page = c.next
            · rw [heq, Function.update_self]
            · rw [Function.update_of_ne heq]
              have hlt : page < c.next + 1 := hlt
              exact h.passed c hheld page hfirst (by omega)
          revoked := by
            rintro d ⟨⟩ page hfirst hlast
            exact h.revoked c hheld page hfirst hlast }
  | release => exact { h with room := hroom, number := nofun, passed := nofun, revoked := nofun }
  | write => exact { h with room := hroom }
  | allocates => exact { h with room := hroom }

/-- A bounded step only moves forward: it finishes more writes, begins more, and lowers no page's
version. -/
theorem later (h : s.WellFormed) (hstep : Bounded s t) : Later s t := by
  obtain ⟨hstep, -⟩ := hstep
  cases hstep with
  | begin => exact { Later.refl with begun := Nat.le_succ _ }
  | @store c hheld =>
      refine { Later.refl with versions := fun page => ?_ }
      show (s.pageVersions page).toNat ≤ (Function.update s.pageVersions c.next c.version page).toNat
      by_cases heq : page = c.next
      · rw [heq, Function.update_self, h.number c hheld]
        exact h.versions c.next
      · rw [Function.update_of_ne heq]
  | release => exact { Later.refl with finished := List.prefix_append .. }
  | write => exact { Later.refl with }
  | allocates => exact { Later.refl with }

end Shared.WellFormed

/-- Nothing has been completed since a mark that is set now. -/
theorem Revoked.start : Revoked s.finished.length s := fun i hi span hspan => by
  rw [List.getElem?_eq_none hi] at hspan
  exact absurd hspan nofun

/-- A step completes a write only where authority was taken away when it began, so what was
completed since the mark has none left afterwards either. -/
theorem Revoked.step (hs : s.WellFormed) (h : Revoked mark s) (hstep : Bounded s t) :
    Revoked mark t := by
  obtain ⟨hstep, -⟩ := hstep
  cases hstep with
  | begin =>
      intro i hi span hspan page hfirst hlast
      show (if _ then false else s.authority page) = false
      rw [h i hi span hspan page hfirst hlast, ite_self]
  | release hheld hdone =>
      intro i hi span hspan page hfirst hlast
      rcases getElem?_concat hspan with hold | ⟨-, rfl⟩
      · exact h i hi span hold page hfirst hlast
      · exact hs.revoked _ hheld page hfirst hlast
  | store => exact h
  | write => exact h
  | allocates => exact h

/-- Nothing is completed since the present, and nothing under way is old. -/
theorem Fresh.start (hfree : s.callback = none) : Fresh s.finished.length s.begun s where
  begun := Nat.le_refl _
  running := fun c hc => by
    rw [hfree] at hc
    exact absurd hc nofun
  pages := fun i hi span hspan => by
    rw [List.getElem?_eq_none hi] at hspan
    exact absurd hspan nofun

/-- A write that is completed after the mark leaves its pages at versions above the bound, since it
began above it. -/
theorem Fresh.step (hs : s.WellFormed) (h : Fresh mark bound s) (hstep : Bounded s t) :
    Fresh mark bound t := by
  have hlater := hs.later hstep
  obtain ⟨hstep, -⟩ := hstep
  cases hstep with
  | begin =>
      have hlt : bound < s.begun + 1 := Nat.lt_succ_of_le h.begun
      exact { h with begun := hlt.le, running := fun _ _ => hlt }
  | store hheld =>
      refine
        { begun := h.begun
          running := fun _ _ => h.running _ hheld
          pages := fun i hi span hspan page hfirst hlast => ?_ }
      exact (h.pages i hi span hspan page hfirst hlast).trans_le (hlater.versions page)
  | release hheld hdone =>
      refine { begun := h.begun, running := nofun, pages := ?_ }
      intro i hi span hspan page hfirst hlast
      rcases getElem?_concat hspan with hold | ⟨-, rfl⟩
      · exact h.pages i hi span hold page hfirst hlast
      · -- the callback that ends has passed all its pages
        have hpassed := hs.passed _ hheld page hfirst (Nat.lt_of_le_of_lt hlast hdone)
        show bound < (s.pageVersions page).toNat
        rw [hpassed, hs.number _ hheld]
        exact h.running _ hheld
  | write => exact { h with }
  | allocates => exact { h with }

/-- What each step of the others keeps, they keep. -/
theorem kept {P : Shared → Prop} (hP : ∀ s t, s.WellFormed → P s → Bounded s t → P t)
    (hs : s.WellFormed) (h : P s) (hrun : ReflTransGen Bounded s t) : t.WellFormed ∧ P t := by
  induction hrun with
  | refl => exact ⟨hs, h⟩
  | tail _ hstep ih => exact ⟨ih.1.step hstep, hP _ _ ih.1 ih.2 hstep⟩

/-- Any run of the shared state moves forward and stays well formed. -/
theorem later_of_run (hs : s.WellFormed) (hrun : ReflTransGen Bounded s t) : t.WellFormed ∧ Later s t :=
  kept (P := Later s) (fun _ _ hw h hstep => h.trans (hw.later hstep)) hs .refl hrun

/-! ### The reads of a call -/

/-- `Version` reads at least what each page had when it began. -/
theorem versionFrom_exec {pages : List ℕ} {v w : BitVec 64} (hs : s.WellFormed)
    (h : (versionFrom pages v).Exec Bounded s w t) :
    ReflTransGen Bounded s t ∧ v.toNat ≤ w.toNat ∧ w.toNat ≤ max v.toNat t.begun ∧
      ∀ page ∈ pages, (s.pageVersions page).toNat ≤ w.toNat := by
  induction pages generalizing s v with
  | nil =>
      obtain ⟨rfl, rfl⟩ := Prog.exec_pure.1 h
      exact ⟨.refl, Nat.le_refl _, Nat.le_max_left .., nofun⟩
  | cons page pages ih =>
      rw [versionFrom, Prog.exec_bind] at h
      obtain ⟨load, s₁, hread, hrest⟩ := h
      obtain ⟨hrun, rfl⟩ := Prog.exec_read.1 hread
      obtain ⟨hs₁, hlater⟩ := later_of_run hs hrun
      obtain ⟨hrun', hv, hw, hpages⟩ := ih hs₁ hrest
      have hlater' := (later_of_run hs₁ hrun').2
      have hload := (hs₁.versions page).trans hlater'.begun
      have hmax : v.toNat ≤ (if v < s₁.pageVersions page then s₁.pageVersions page else v).toNat ∧
          (s₁.pageVersions page).toNat ≤
            (if v < s₁.pageVersions page then s₁.pageVersions page else v).toNat ∧
          (if v < s₁.pageVersions page then s₁.pageVersions page else v).toNat ≤
            max v.toNat t.begun := by
        split
        next hlt =>
          have hlt := BitVec.lt_def.1 hlt
          omega
        next hge =>
          have hge := Nat.not_lt.1 fun hlt => hge (BitVec.lt_def.2 hlt)
          omega
      refine ⟨hrun.trans hrun', hmax.1.trans hv, by omega, fun q hq => ?_⟩
      rcases List.mem_cons.1 hq with rfl | hq
      · exact (hlater.versions q).trans (hmax.2.1.trans hv)
      · exact (hlater.versions q).trans (hpages q hq)

/-- **What `Version` reads.** The version it returns is no larger than the writes begun, and covers
every page of the range as it was when the call began. -/
theorem version_exec {w : BitVec 64} (hs : s.WellFormed) (h : (version call).Exec Bounded s w t) :
    ReflTransGen Bounded s t ∧ w.toNat ≤ t.begun ∧
      ∀ page ∈ Span.cells (pagesOf call.base call.length), (s.pageVersions page).toNat ≤ w.toNat := by
  obtain ⟨hrun, -, hw, hpages⟩ := versionFrom_exec hs h
  exact ⟨hrun, by simpa using hw, hpages⟩

/-! ### Kept answers -/

/-- No invalidation of the range was completed from the read of the version before the
copy up to the instant `stop`. -/
def Undisturbed (r : Snapshot) (stop : ℕ) (s : Shared) : Prop :=
  stop ≤ s.finished.length ∧ ∀ i, r.since ≤ i → i < stop → ∀ span, s.finished[i]? = some span →
    ¬Meets span (pagesOf r.base r.length)

/-- A snapshot not disturbed up to some write stays so. -/
theorem Undisturbed.later {r : Snapshot} {stop : ℕ} (h : Undisturbed r stop s) (hlater : Later s t) :
    Undisturbed r stop t := by
  refine ⟨h.1.trans hlater.finished.length_le, fun i hi hlt span hspan => ?_⟩
  rw [hlater.getElem? (hlt.trans_le h.1)] at hspan
  exact h.2 i hi hlt span hspan

/-- What an answer kept under a key in a frame rests on: a copy of the range, and
versions that show what was completed since. -/
def Supported (p : Pack) (frame : BitVec 64) (key : BitVec 64) (m : Mapping) (s : Shared) : Prop :=
  ∃ r ∈ s.snapshots, r.frame = frame ∧ rangeKey r.base r.length = key ∧
    m.binding = p.answer r.base r.length r.bytes.1 ∧ Undisturbed r r.taken s ∧
    ∃ bound, m.version.toNat ≤ bound ∧ Fresh r.taken bound s

/-- A mapping supported by the writes it was taken from stays supported, as long as no newer write
lowers what it was checked against. -/
theorem Supported.later {frame : BitVec 64} (h : Supported p frame key m s) (hlater : Later s t)
    (hfresh : ∀ mark bound, Fresh mark bound s → Fresh mark bound t) : Supported p frame key m t := by
  obtain ⟨r, hr, hframe, hkey, hbinding, hundisturbed, bound, hle, hr'⟩ := h
  exact ⟨r, hlater.snapshots hr, hframe, hkey, hbinding, hundisturbed.later hlater, bound, hle,
    hfresh _ _ hr'⟩

/-- Everything a cache may serve is supported. -/
structure Cache.Sound (p : Pack) (c : Cache) (s : Shared) : Prop where
  table : c.mappings.WellFormed mappingCapacity
  mappings : ∀ key m, c.mappings.Live mappingCapacity key m → Supported p c.frame key m s
  legacyMappings : ∀ key m, (key, m) ∈ c.legacyMappings → Supported p c.frame key m s

/-- The cache stays sound as the shared state moves on under it. -/
theorem Cache.Sound.later (h : c.Sound p s) (hlater : Later s t)
    (hfresh : ∀ mark bound, Fresh mark bound s → Fresh mark bound t) : c.Sound p t where
  table := h.table
  mappings := fun key m hm => (h.mappings key m hm).later hlater hfresh
  legacyMappings := fun key m hm => (h.legacyMappings key m hm).later hlater hfresh

/-- The cache stays sound through any run of the shared state, by induction on its steps. -/
theorem Cache.Sound.run (h : c.Sound p s) (hs : s.WellFormed) (hrun : ReflTransGen Bounded s t) :
    c.Sound p t :=
  h.later (later_of_run hs hrun).2 fun _ _ hf => (kept (fun _ _ hw h => h.step hw) hs hf hrun).2

/-- The empty cache is sound: it holds no mapping that would need support. -/
theorem Cache.sound_initial : Cache.initial.Sound p s where
  table := MappingTable.wellFormed_initial (by decide)
  mappings := fun _ _ hm => absurd hm (MappingTable.not_live_initial (by decide))
  legacyMappings := nofun

/-- After a clear nothing is served; otherwise the frame is the call's already. -/
theorem Cache.Sound.enter (h : c.Sound p s) :
    (c.enter call).Sound p s ∧ (c.enter call).frame = call.frame := by
  rw [Cache.enter]
  split
  next =>
    exact ⟨⟨h.table.clear (by decide),
      fun _ _ hm => absurd hm (MappingTable.not_live_clear (by decide) h.table), nofun⟩, rfl⟩
  next hsame => exact ⟨h, not_not.1 fun hframe => hsame (.inl hframe)⟩

/-- A key that is found in the memo is an entry of it. -/
theorem mem_of_lookup {l : List (BitVec 64 × Mapping)} (h : l.lookup key = some m) : (key, m) ∈ l := by
  induction l with
  | nil => exact absurd h nofun
  | cons entry l ih =>
      obtain ⟨k, v⟩ := entry
      rw [List.lookup_cons] at h
      split at h
      next heq =>
        rw [beq_iff_eq] at heq
        rw [heq, Option.some.inj h]
        exact List.mem_cons_self ..
      next => exact List.mem_cons_of_mem _ (ih h)

/-- The mapping found for a range is supported by what the cache knows. -/
theorem Cache.Sound.prior (h : c.Sound p s) (hprior : c.prior call = some m) :
    Supported p c.frame (rangeKey call.base call.length) m s := by
  rw [Cache.prior] at hprior
  split at hprior
  next => exact h.legacyMappings _ _ (mem_of_lookup hprior)
  next => exact h.mappings _ _ (MappingTable.live_of_find (by decide) hprior)

/-- Making room in the memo drops mappings and adds none, so all that are left are still supported. -/
theorem Cache.Sound.makeRoom (h : c.Sound p s) : c.makeRoom.Sound p s := by
  rw [Cache.makeRoom]
  split
  · exact { h with legacyMappings := nofun }
  · exact h

/-- Making room leaves the frame as it is. -/
theorem Cache.makeRoom_frame : c.makeRoom.frame = c.frame := by
  rw [Cache.makeRoom]
  split <;> rfl

/-- Storing a supported mapping in the table keeps the cache sound. -/
theorem Cache.Sound.insert (h : c.Sound p s)
    (hm : Supported p c.frame (rangeKey call.base call.length) m s) : (c.insert call m).Sound p s := by
  refine { h with legacyMappings := fun key v hv => ?_ }
  rcases List.mem_cons.1 hv with heq | hv
  · obtain ⟨rfl, rfl⟩ := Prod.mk.inj heq
    exact hm
  · exact h.legacyMappings key v (List.mem_of_mem_filter hv)

/-- Storing it under its range, with room made first, keeps it sound as well. -/
theorem Cache.Sound.store (h : c.Sound p s)
    (hm : Supported p c.frame (rangeKey call.base call.length) m s) : (c.store call m).Sound p s := by
  refine { h with table := h.table.store, mappings := fun key v hv => ?_ }
  rcases MappingTable.live_store hv with hold | ⟨hkey, rfl⟩
  · exact h.mappings key v hold
  · rw [Cache.lookup, MappingTable.find_key] at hkey
    rw [hkey]
    exact hm

/-! ### A call -/

/-- What an enabled answer rests on. -/
def Admitted (p : Pack) (call : Call) (answer : Answer) (s : Shared) : Prop :=
  answer.binding.enabled ≠ 0 → ∃ r ∈ s.snapshots, r.frame = call.frame ∧ r.base = call.base ∧
    r.length = call.length ∧ answer.binding = p.answer r.base r.length r.bytes.1 ∧
    Undisturbed r answer.checked s

/-- A refusal admits nothing and needs no support. -/
theorem Admitted.refused : Admitted p call .refused s := fun h => absurd rfl h

/-- An answer that was right when it was given is right in every later state. -/
theorem Admitted.later (h : Admitted p call answer s) (hlater : Later s t) :
    Admitted p call answer t := fun henabled => by
  obtain ⟨r, hr, hframe, hbase, hlength, hbinding, hundisturbed⟩ := h henabled
  exact ⟨r, hlater.snapshots hr, hframe, hbase, hlength, hbinding, hundisturbed.later hlater⟩

/-- The check: pages whose versions are not above the bound met nothing since. -/
theorem Fresh.not_meets {w : BitVec 64} {pages : Span} (h : Fresh mark bound s)
    (hbound : w.toNat ≤ bound) (hw : ∀ page ∈ Span.cells pages, (s.pageVersions page).toNat ≤ w.toNat)
    {i : ℕ} (hi : mark ≤ i) {span : Span} (hspan : s.finished[i]? = some span) : ¬Meets span pages := by
  rintro ⟨page, ⟨hfirst, hlast⟩, hin⟩
  have habove := h.pages i hi span hspan page hfirst hlast
  have hread := hw page (Span.mem_cells.2 hin)
  omega

/-- A snapshot checked again at a version that covers its range is undisturbed up to the check: a
write completed in between would have left a higher one. -/
theorem Undisturbed.check {r : Snapshot} {w : BitVec 64} (h : Undisturbed r r.taken s)
    (hfresh : Fresh r.taken bound s) (hbound : w.toNat ≤ bound)
    (hw : ∀ page ∈ Span.cells (pagesOf r.base r.length), (s.pageVersions page).toNat ≤ w.toNat) :
    Undisturbed r s.finished.length s := by
  refine ⟨Nat.le_refl _, fun i hi _ span hspan => ?_⟩
  rcases Nat.lt_or_ge i r.taken with hbefore | hafter
  · exact h.2 i hi hbefore span hspan
  · exact hfresh.not_meets hbound hw hafter hspan

/-- The key of a range names its base and its length. -/
theorem rangeKey_inj {base length base' length' : BitVec 32}
    (h : rangeKey base length = rangeKey base' length') : base = base' ∧ length = length' := by
  rw [rangeKey, rangeKey] at h
  have hhigh := congrArg (BitVec.extractLsb' 32 32) h
  have hlow := congrArg (BitVec.extractLsb' 0 32) h
  rw [BitVec.extractLsb'_append_eq_left, BitVec.extractLsb'_append_eq_left] at hhigh
  rw [BitVec.extractLsb'_append_eq_right, BitVec.extractLsb'_append_eq_right] at hlow
  exact ⟨hhigh, hlow⟩

/-- A range the state calls authoritative is so on every one of its pages. -/
theorem Shared.authority_of_authoritative {pages : Span} (h : s.authoritative pages = true) {page : ℕ}
    (hfirst : pages.1 ≤ page) (hlast : page ≤ pages.2) : s.authority page = true :=
  List.all_eq_true.1 h page (Span.mem_cells.2 ⟨hfirst, hlast⟩)

/-- What a call leaves behind. -/
structure CallSound (p : Pack) (call : Call) (s t : Shared) (answer : Answer) (c : Cache) : Prop where
  wellFormed : t.WellFormed
  later : Later s t
  sound : c.Sound p t
  admitted : Admitted p call answer t

/-- A call that is refused changes nothing and admits nothing. -/
theorem CallSound.refused (hs : s.WellFormed) (hc : c.Sound p s) : CallSound p call s s .refused c :=
  ⟨hs, .refl, hc, .refused⟩

/-- A call is sound seen from any state that came before it. -/
theorem CallSound.after (h : CallSound p call s t answer c) (hlater : Later u s) :
    CallSound p call u t answer c := { h with later := hlater.trans h.later }

/-- Remembering an answer that is supported and admitted keeps the cache sound, whether or not the
memo could take it. -/
theorem remember_sound {checked : ℕ} (hs : s.WellFormed) (hc : c.Sound p s)
    (hm : Supported p c.frame (rangeKey call.base call.length) m s)
    (hadmitted : Admitted p call ⟨m.binding, checked⟩ s)
    (h : (remember c call m checked).Exec Bounded s (answer, c') t) :
    CallSound p call s t answer c' := by
  rw [remember] at h
  split at h
  · rw [Prog.exec_bind] at h
    obtain ⟨ok, s', hallocate, h⟩ := h
    obtain ⟨hrun, -⟩ := Prog.exec_read.1 hallocate
    obtain ⟨hs', hlater⟩ := later_of_run hs hrun
    have hc' := (hc.run hs hrun).makeRoom
    split at h
    · obtain ⟨hresult, rfl⟩ := Prog.exec_pure.1 h
      obtain ⟨rfl, rfl⟩ := Prod.mk.inj hresult
      have hm' := hm.later hlater fun _ _ hf => (kept (fun _ _ hw h => h.step hw) hs hf hrun).2
      rw [← Cache.makeRoom_frame] at hm'
      exact ⟨hs', hlater, hc'.insert hm', hadmitted.later hlater⟩
    · obtain ⟨hresult, rfl⟩ := Prog.exec_pure.1 h
      obtain ⟨rfl, rfl⟩ := Prod.mk.inj hresult
      exact (CallSound.refused hs' hc').after hlater
  · obtain ⟨hresult, rfl⟩ := Prog.exec_pure.1 h
    obtain ⟨rfl, rfl⟩ := Prod.mk.inj hresult
    exact ⟨hs, .refl, hc.store hm, hadmitted⟩

/-- The copy: it is made with authority over the range while no invalidation is under
way. -/
theorem copy_exec {since : ℕ} {result : Option (List UInt8)}
    (h : (copyCpuAuthoritativeRange call since).Exec Bounded s result t) :
    ∃ s', ReflTransGen Bounded s s' ∧ s'.callback = none ∧
      ((result = none ∧ t = s') ∨
        ∃ bytes : Blob call.length.toNat, result = some bytes.1 ∧
          s'.authoritative (pagesOf call.base call.length) = true ∧
          t = { s' with
            snapshots := s'.snapshots ++
              [⟨call.frame, call.base, call.length, bytes, since, s'.finished.length⟩] }) := by
  rw [copyCpuAuthoritativeRange, Prog.exec_atomic] at h
  obtain ⟨s', hrun, hfree, hresult, ht⟩ := h
  refine ⟨s', hrun, hfree, ?_⟩
  rw [Shared.copy] at hresult ht
  split at hresult
  next hauthority =>
    rw [if_pos hauthority] at ht
    exact .inr ⟨_, hresult, hauthority, ht⟩
  next hauthority =>
    rw [if_neg hauthority] at ht
    exact .inl ⟨hresult, ht⟩

/-- Comparing the range anew: the copy is taken under authority, and the answer it leads to is
supported from the instant of the copy. -/
theorem compare_sound {since : ℕ} {before : BitVec 64} (hs : s.WellFormed) (hc : c.Sound p s)
    (hframe : c.frame = call.frame) (hbefore : before.toNat ≤ s.begun) (hsince : Revoked since s)
    (h : (compare p c call since before).Exec Bounded s (answer, c') t) :
    CallSound p call s t answer c' := by
  rw [compare, Prog.exec_bind] at h
  obtain ⟨ok, s₁, hallocate, h⟩ := h
  obtain ⟨hrun₁, -⟩ := Prog.exec_read.1 hallocate
  obtain ⟨hs₁, hlater₁⟩ := later_of_run hs hrun₁
  split at h
  case isFalse =>
    obtain ⟨hresult, rfl⟩ := Prog.exec_pure.1 h
    obtain ⟨rfl, rfl⟩ := Prod.mk.inj hresult
    exact (CallSound.refused hs₁ (hc.run hs hrun₁)).after hlater₁
  rw [Prog.exec_bind] at h
  obtain ⟨result, s₂, hcopy, h⟩ := h
  obtain ⟨s', hrun', hfree, hcopy⟩ := copy_exec hcopy
  have hrun := hrun₁.trans hrun'
  obtain ⟨hs', hlater⟩ := later_of_run hs hrun
  have hc' := hc.run hs hrun
  rcases hcopy with ⟨rfl, rfl⟩ | ⟨bytes, rfl, hauthority, rfl⟩
  · obtain ⟨hresult, rfl⟩ := Prog.exec_pure.1 h
    obtain ⟨rfl, rfl⟩ := Prod.mk.inj hresult
    exact (CallSound.refused hs' hc').after hlater
  have hrevoked := (kept (fun _ _ hw h => Revoked.step hw h) hs hsince hrun).2
  generalize hr : (⟨call.frame, call.base, call.length, bytes, since, s'.finished.length⟩ : Snapshot)
    = r at h
  generalize hs₂eq : ({ s' with snapshots := s'.snapshots ++ [r] } : Shared) = s₂ at h
  have hbase : r.base = call.base := by rw [← hr]
  have hlength : r.length = call.length := by rw [← hr]
  have hs₂ : s₂.WellFormed := by
    rw [← hs₂eq]
    exact { hs' with }
  have hlater₂ : Later s' s₂ := by
    rw [← hs₂eq]
    exact { Later.refl with snapshots := List.subset_append_left .. }
  have hfresh₂ : ∀ mark bound, Fresh mark bound s' → Fresh mark bound s₂ := by
    rw [← hs₂eq]
    exact fun _ _ hf => { hf with }
  have hc₂ : c.Sound p s₂ := hc'.later hlater₂ hfresh₂
  have hmem : r ∈ s₂.snapshots := by
    rw [← hs₂eq]
    exact List.mem_append_right _ (List.mem_singleton.2 rfl)
  -- up to the copy: what was completed since the read has no authority, the range has
  have hundisturbed : Undisturbed r r.taken s₂ := by
    refine Undisturbed.later (s := s') ⟨by rw [← hr], fun i hi _ span hspan hmeets => ?_⟩ hlater₂
    obtain ⟨page, ⟨hfirst, hlast⟩, hlo, hhi⟩ := hmeets
    rw [hbase, hlength] at hlo hhi
    rw [← hr] at hi
    have hlost := hrevoked i hi span hspan page hfirst hlast
    rw [Shared.authority_of_authoritative hauthority hlo hhi] at hlost
    exact absurd hlost Bool.true_eq_false.mp
  have hfresh : Fresh r.taken s'.begun s₂ := by
    rw [← hr]
    exact hfresh₂ _ _ (.start hfree)
  rw [Prog.exec_bind] at h
  obtain ⟨checked, s₃, hinstant, h⟩ := h
  obtain ⟨hrun₃, rfl⟩ := Prog.exec_read.1 hinstant
  obtain ⟨hs₃, hlater₃⟩ := later_of_run hs₂ hrun₃
  rw [Prog.exec_bind] at h
  obtain ⟨after, s₄, hversion, h⟩ := h
  obtain ⟨hrun₄, -, hpages⟩ := version_exec hs₃ hversion
  obtain ⟨hs₄, hlater₄⟩ := later_of_run hs₃ hrun₄
  have hfresh₃ := (kept (fun _ _ hw h => Fresh.step hw h) hs₂ hfresh hrun₃).2
  have hfresh₄ := (kept (fun _ _ hw h => Fresh.step hw h) hs₃ hfresh₃ hrun₄).2
  have hc₄ := (hc₂.run hs₂ hrun₃).run hs₃ hrun₄
  have hall := ((hlater.trans hlater₂).trans hlater₃).trans hlater₄
  split at h
  case isTrue =>
    obtain ⟨hresult, rfl⟩ := Prog.exec_pure.1 h
    obtain ⟨rfl, rfl⟩ := Prod.mk.inj hresult
    exact (CallSound.refused hs₄ hc₄).after hall
  case isFalse hsame =>
    rw [not_not] at hsame
    subst hsame
    have hbound : before.toNat ≤ s'.begun := hbefore.trans hlater.begun
    rw [← hbase, ← hlength] at hpages
    have hchecked := ((hundisturbed.later hlater₃).check hfresh₃ hbound hpages).later hlater₄
    have hmem₄ := hlater₄.snapshots (hlater₃.snapshots hmem)
    have hbinding : p.answer call.base call.length bytes.1 = p.answer r.base r.length r.bytes.1 := by
      rw [← hr]
    refine (remember_sound hs₄ hc₄ ?_ ?_ h).after hall
    · exact ⟨r, hmem₄, by rw [hframe, ← hr], by rw [hbase, hlength], hbinding,
        (hundisturbed.later hlater₃).later hlater₄, _, hbound, hfresh₄⟩
    · exact fun _ => ⟨r, hmem₄, by rw [← hr], hbase, hlength, hbinding, hchecked⟩

/-- A call of `Resolve`, with the others at work. -/
theorem resolve_sound (hs : s.WellFormed) (hc : c.Sound p s)
    (h : (resolve p c call).Exec Bounded s (answer, c') t) : CallSound p call s t answer c' := by
  rw [resolve] at h
  split at h
  · obtain ⟨hresult, rfl⟩ := Prog.exec_pure.1 h
    obtain ⟨rfl, rfl⟩ := Prod.mk.inj hresult
    exact .refused hs hc
  obtain ⟨hc, hframe⟩ : (c.enter call).Sound p s ∧ (c.enter call).frame = call.frame := hc.enter
  rw [Prog.exec_bind] at h
  obtain ⟨since, s₁, hinstant, h⟩ := h
  obtain ⟨hrun₁, rfl⟩ := Prog.exec_read.1 hinstant
  obtain ⟨hs₁, hlater₁⟩ := later_of_run hs hrun₁
  rw [Prog.exec_bind] at h
  obtain ⟨before, s₂, hversion, h⟩ := h
  obtain ⟨hrun₂, hbefore, hpages⟩ := version_exec hs₁ hversion
  obtain ⟨hs₂, hlater₂⟩ := later_of_run hs₁ hrun₂
  have hc₁ := hc.run hs hrun₁
  have hc₂ := hc₁.run hs₁ hrun₂
  have hsince := (kept (fun _ _ hw h => Revoked.step hw h) hs₁ .start hrun₂).2
  have hlater := hlater₁.trans hlater₂
  split at h
  next => exact (compare_sound hs₂ hc₂ hframe hbefore hsince h).after hlater
  next m hprior =>
    split at h
    next hsame =>
      obtain ⟨hresult, rfl⟩ := Prog.exec_pure.1 h
      obtain ⟨rfl, rfl⟩ := Prod.mk.inj hresult
      -- the kept answer is admitted by the read of the version that just ended
      obtain ⟨r, hr, hrframe, hkey, hbinding, hundisturbed, bound, hle, hfresh⟩ := hc₁.prior hprior
      obtain ⟨hbase, hlength⟩ := rangeKey_inj hkey
      rw [hsame] at hle
      rw [← hbase, ← hlength] at hpages
      have hchecked := (hundisturbed.check hfresh hle hpages).later hlater₂
      exact ⟨hs₂, hlater, hc₂, fun _ => ⟨r, hlater₂.snapshots hr, hrframe.trans hframe, hbase,
        hlength, hbinding, hchecked⟩⟩
    next => exact (compare_sound hs₂ hc₂ hframe hbefore hsince h).after hlater

end Assets
end BoltsRebuilt
