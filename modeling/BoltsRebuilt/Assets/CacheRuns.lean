/-
# Runs of the asset cache

Every interleaving of `Resolve` in `src/gpu/native/native_asset_cache.cpp` with the
threads that invalidate and write guest memory: an enabled answer comes from a copy of
its range, made in the same frame, and no invalidation of the range was completed from
the read of the version before that copy up to the check that admitted the answer
(`resolve_justified`).

It needs the 64-bit sequence not to wrap.  After `2 ^ 64` invalidations a page has the
version it began with, and a kept answer is served again
(`not_justified_after_wrap`).
-/

import BoltsRebuilt.Assets.CacheSound

namespace BoltsRebuilt
namespace Assets

open Relation

variable {p : Pack} {s t : Shared} {call : Call} {c : Cache} {answer : Answer} {m m' : Machine}

section Steps

variable {P : (γ : Type) → (Shared → Prop) → (Shared → γ × Shared) → Prop}
  (hread : ∀ (γ : Type) (look : Shared → γ), P γ (fun _ => True) fun s => (look s, s))

include hread

/-- `Version` only looks at the shared state: each of its atomic steps is a read, whatever is asked
of the writes of a call. -/
theorem versionFrom_each {pages : List ℕ} {v : BitVec 64} : (versionFrom pages v).Each P := by
  induction pages generalizing v with
  | nil => trivial
  | cons page pages ih => exact Prog.Each.bind ⟨hread .., fun _ => trivial⟩ fun load => ih

/-- Every step of `Resolve` looks at the shared state or copies a range. -/
theorem resolve_each
    (hcopy : ∀ call since, P _ (fun s => s.callback = none) fun s => s.copy call since) :
    (resolve p c call).Each P := by
  have hlook : ∀ {γ : Type} (look : Shared → γ), (Prog.read look).Each P := fun look =>
    ⟨hread _ look, fun _ => trivial⟩
  have hremember : ∀ c m checked, (remember c call m checked).Each P := by
    intro c m checked
    rw [remember]
    split
    · refine (hlook _).bind fun ok => ?_
      split <;> trivial
    · trivial
  have hcompare : ∀ c since before, (compare p c call since before).Each P := by
    intro c since before
    refine (hlook _).bind fun ok => ?_
    split
    · refine Prog.Each.bind ⟨hcopy call since, fun _ => trivial⟩ fun result => ?_
      cases result with
      | none => trivial
      | some snapshot =>
          refine (hlook _).bind fun checked => (versionFrom_each hread).bind fun after => ?_
          split
          · trivial
          · exact hremember ..
    · trivial
  rw [resolve]
  split
  · trivial
  · refine (hlook _).bind fun since => (versionFrom_each hread).bind fun before => ?_
    split
    · exact hcompare ..
    · split
      · trivial
      · exact hcompare ..

end Steps

/-! ### Every interleaving -/

/-- The runs of the machine, the other threads stepping by `R`. -/
def machine (p : Pack) (R : Shared → Shared → Prop) : System Machine where
  init m := m.shared.Initial ∧ m.cache = .initial ∧ m.answers = []
  step := Machine.Step p R

/-- What an answer should come from: a copy of its range in its frame that has the bytes
of the pack at the answer's offset, with no invalidation of the range completed from
the read of the version before the copy up to the check that admitted the answer. -/
def Justified (p : Pack) (s : Shared) (call : Call) (answer : Answer) : Prop :=
  ∃ r ∈ s.snapshots, r.frame = call.frame ∧ r.base = call.base ∧ r.length = call.length ∧
    slice p.bytes answer.binding.assetOffset.toNat r.length.toNat = r.bytes.1 ∧
    ∀ i, r.since ≤ i → i < answer.checked → ∀ span, s.finished[i]? = some span →
      ¬Meets span (pagesOf r.base r.length)

/-- What every state of a bounded run satisfies. -/
structure Machine.Sound (p : Pack) (m : Machine) : Prop where
  shared : m.shared.WellFormed
  cache : m.cache.Sound p m.shared
  answers : ∀ call answer, (call, answer) ∈ m.answers → Admitted p call answer m.shared

/-- An initial state of the shared memory is well formed. -/
theorem Shared.Initial.wellFormed (h : s.Initial) : s.WellFormed where
  room := by rw [h.begun]; decide
  sequence := by rw [h.begun, h.sequence]; rfl
  versions := fun page => by rw [h.begun, h.pageVersions]; exact Nat.le_refl _
  number := by rw [h.callback]; exact nofun
  passed := by rw [h.callback]; exact nofun
  revoked := by rw [h.callback]; exact nofun

/-- The machine starts sound: nothing is cached, nothing has been answered, and the shared state is
well formed. -/
theorem Machine.Sound.init (h : (machine p Bounded).init m) : m.Sound p := by
  obtain ⟨hs, hc, ha⟩ := h
  refine ⟨hs.wellFormed, ?_, ?_⟩
  · rw [hc]
    exact Cache.sound_initial
  · rw [ha]
    exact nofun

/-- What the answers rest on is not lost when the shared state moves on, as long as it stays well
formed and fresh for every mark. -/
theorem Machine.Sound.move (h : m.Sound p) (ht : t.WellFormed) (hlater : Later m.shared t)
    (hfresh : ∀ mark bound, Fresh mark bound m.shared → Fresh mark bound t) :
    Machine.Sound p { m with shared := t } where
  shared := ht
  cache := h.cache.later hlater hfresh
  answers := fun call answer ha => (h.answers call answer ha).later hlater

/-- A call on a sound machine leaves it sound, with its own answer added to those given before. -/
theorem Machine.Sound.resolve (h : m.Sound p)
    (hrun : (Assets.resolve p m.cache call).Exec Bounded m.shared (answer, c) s) :
    Machine.Sound p ⟨s, c, m.answers ++ [(call, answer)]⟩ := by
  have hcall := resolve_sound h.shared h.cache hrun
  refine ⟨hcall.wellFormed, hcall.sound, fun call' answer' ha => ?_⟩
  rcases List.mem_append.1 ha with ha | ha
  · exact (h.answers _ _ ha).later hcall.later
  · obtain ⟨rfl, rfl⟩ := Prod.mk.inj (List.mem_singleton.1 ha)
    exact hcall.admitted

/-- Between callbacks the authority of pages may be set anew. -/
theorem Machine.Sound.setAuthority {authority : ℕ → Bool} (h : m.Sound p)
    (hfree : m.shared.callback = none) :
    Machine.Sound p { m with shared := m.shared.setAuthority authority } := by
  refine h.move ?_ { Later.refl with } fun _ _ hf => { hf with }
  exact
    { h.shared with
      revoked := fun c hc => by
        rw [Shared.setAuthority, hfree] at hc
        exact absurd hc nofun }

/-- **Every step of the machine keeps it sound**: a step of another thread, new authority between
callbacks, or a call of `Resolve`. -/
theorem Machine.Sound.step (h : m.Sound p) (hstep : Machine.Step p Bounded m m') : m'.Sound p := by
  cases hstep with
  | other hother =>
      exact h.move (h.shared.step hother) (h.shared.later hother) fun _ _ hf => hf.step h.shared hother
  | setAuthority hfree => exact h.setAuthority hfree
  | resolve hrun => exact h.resolve hrun

/-- Other threads never lower the number of writes begun. -/
theorem begun_le (h : Interferes s t) : s.begun ≤ t.begun := by
  cases h with
  | begin => exact Nat.le_succ _
  | store => exact Nat.le_refl _
  | release => exact Nat.le_refl _
  | write => exact Nat.le_refl _
  | allocates => exact Nat.le_refl _

/-- A run that ends before the versions wrap has not wrapped on its way. -/
theorem bounded_of_run (h : ReflTransGen Interferes s t) (ht : t.begun < 2 ^ 64) :
    ReflTransGen Bounded s t :=
  (Prog.restrict (m := Shared.begun) (fun _ _ => begun_le) h ht).1

/-- Copying begins no write. -/
theorem Shared.copy_begun {since : ℕ} : (s.copy call since).2.begun = s.begun := by
  rw [Shared.copy]
  split <;> rfl

/-- Nor does it begin a callback. -/
theorem Shared.copy_callback {since : ℕ} (h : s.callback = none) :
    (s.copy call since).2.callback = none := by
  rw [Shared.copy]
  split <;> exact h

/-- A run that has not wrapped is bounded at every step. -/
theorem reachable_bounded (h : (machine p Interferes).Reachable m) (hm : m.shared.begun < 2 ^ 64) :
    (machine p Bounded).Reachable m := by
  obtain ⟨m₀, h₀, hrun⟩ := h
  induction hrun with
  | refl => exact .of_init h₀
  | tail _ hstep ih =>
      cases hstep with
      | other hother => exact (ih ((begun_le hother).trans_lt hm)).tail (.other ⟨hother, hm⟩)
      | setAuthority hfree => exact (ih hm).tail (.setAuthority hfree)
      | resolve hrun =>
          obtain ⟨hbounded, hle⟩ := hrun.restrict (m := Shared.begun) (fun _ _ => begun_le)
            (resolve_each (fun _ _ _ => rfl) fun _ _ _ => Shared.copy_begun) hm
          exact (ih (hle.trans_lt hm)).tail (.resolve hbounded)

/-- What is admitted is justified: an enabled binding is the answer for bytes that were memory's at
an instant inside the call. -/
theorem Admitted.justified (hp : p.WellFormed) (h : Admitted p call answer s)
    (henabled : answer.binding.enabled ≠ 0) : Justified p s call answer := by
  obtain ⟨r, hr, hframe, hbase, hlength, hbinding, hundisturbed⟩ := h henabled
  refine ⟨r, hr, hframe, hbase, hlength, ?_, hundisturbed.2⟩
  rw [hbinding, Pack.answer] at henabled ⊢
  split at henabled
  next e he =>
    obtain ⟨hmem, hlen, hsame⟩ := find_spec he
    have hin := hp.inside e hmem
    have hsize := hp.bounded
    simp only [Entry.stop, physicalBytes] at hin hsize
    have hoffset : (BitVec.ofNat 32 e.offset).toNat = e.offset :=
      (BitVec.toNat_ofNat ..).trans (Nat.mod_eq_of_lt (by omega))
    rw [Blob.length_val] at hlen
    rw [Pack.raw, hlen] at hsame
    dsimp only
    rw [hoffset]
    exact hsame.symm
  next => exact absurd rfl henabled

/-- An enabled answer of a run that has not wrapped is justified. -/
theorem resolve_justified (hp : p.WellFormed) (h : (machine p Interferes).Reachable m)
    (hm : m.shared.begun < 2 ^ 64) (ha : (call, answer) ∈ m.answers)
    (henabled : answer.binding.enabled ≠ 0) : Justified p m.shared call answer :=
  have hsound : m.Sound p := (reachable_bounded h hm).invariant
    ⟨fun _ h => .init h, fun _ _ h hstep => h.step hstep⟩
  (hsound.answers call answer ha).justified hp henabled

/-! ### Whole invalidations -/

/-- An invalidation from its beginning to its end. -/
def Shared.invalidate (s : Shared) (first last : ℕ) : Shared :=
  let pages : Span := (pageOf first, pageOf (min last (physicalBytes - 1)))
  { s with
    authority := fun page => if pages.1 ≤ page ∧ page ≤ pages.2 then false else s.authority page
    sequence := s.sequence + 1
    pageVersions := fun page =>
      if pages.1 ≤ page ∧ page ≤ pages.2 then s.sequence + 1 else s.pageVersions page
    begun := s.begun + 1
    finished := s.finished ++ [pages] }

/-- A callback that has stored `n` pages. -/
def Shared.passed (s : Shared) (pages : Span) (version : BitVec 64) (n : ℕ) : Shared :=
  { s with
    pageVersions := fun page =>
      if pages.1 ≤ page ∧ page < pages.1 + n then version else s.pageVersions page
    callback := some ⟨pages.1, pages.2, pages.1 + n, version⟩ }

/-- A callback passes its pages one after the other, each by a step of its own. -/
theorem passed_run {pages : Span} {version : BitVec 64} {n : ℕ} (hn : pages.1 + n ≤ pages.2 + 1) :
    ReflTransGen Interferes (s.passed pages version 0) (s.passed pages version n) := by
  induction n with
  | zero => exact .refl
  | succ n ih =>
      refine (ih (by omega)).tail ?_
      have hstore : s.passed pages version (n + 1) =
          (s.passed pages version n).store ⟨pages.1, pages.2, pages.1 + n, version⟩ := by
        rw [Shared.passed, Shared.store, Shared.passed]
        congr 1
        funext page
        by_cases heq : page = pages.1 + n
        · rw [heq, Function.update_self, if_pos (by omega)]
        · rw [Function.update_of_ne heq]
          exact if_congr (by omega) rfl rfl
      have hmore : pages.1 + n ≤ pages.2 := by omega
      rw [hstore]
      exact .store rfl hmore

/-- A whole invalidation is a run of another thread's steps. -/
theorem invalidate_run {first last : ℕ} (hfree : s.callback = none) (hinside : first < physicalBytes)
    (hordered : first ≤ last) : ReflTransGen Interferes s (s.invalidate first last) := by
  generalize hpages : ((pageOf first, pageOf (min last (physicalBytes - 1))) : Span) = pages
  have hle : pages.1 ≤ pages.2 := by
    rw [← hpages]
    exact Nat.div_le_div_right (by omega)
  have hbegin : (s.begin first last).passed pages (s.sequence + 1) 0 = s.begin first last := by
    rw [Shared.begin, hpages, Shared.passed]
    congr 1
    funext page
    exact if_neg (by omega)
  have hstored : ReflTransGen Interferes
      ((s.begin first last).passed pages (s.sequence + 1) 0)
      ((s.begin first last).passed pages (s.sequence + 1) (pages.2 + 1 - pages.1)) :=
    passed_run (by omega)
  rw [hbegin] at hstored
  have hend : s.invalidate first last =
      ((s.begin first last).passed pages (s.sequence + 1) (pages.2 + 1 - pages.1)).release
        ⟨pages.1, pages.2, pages.1 + (pages.2 + 1 - pages.1), s.sequence + 1⟩ := by
    rw [Shared.release, Shared.passed, Shared.begin, Shared.invalidate, hpages]
    congr 1
    funext page
    exact if_congr (by omega) rfl rfl
  rw [hend]
  exact ((ReflTransGen.single (.begin hfree hinside hordered)).trans hstored).tail
    (.release rfl (by dsimp only; omega))

/-! ### The wrap -/

/-- The range of the sample's bytes, in the legacy mode. -/
def sampleCall : Call := ⟨0, 4, 0, true⟩

/-- Guest memory that holds the sample's bytes at address 0. -/
def sampleShared : Shared where
  sequence := 0
  pageVersions := fun _ => 0
  authority := fun _ => true
  memory := fun i => [1, 2, 3, 4].getD i 0
  callback := none
  allocates := true
  begun := 0
  finished := []
  snapshots := []

/-- The machine after the first call. -/
def sampleMachine : Machine :=
  let result := (resolve samplePack .initial sampleCall).run sampleShared
  ⟨result.2, result.1.2, [(sampleCall, result.1.1)]⟩

/-- And after `n` invalidations of the first page. -/
def invalidated (n : ℕ) : Shared := (fun s => s.invalidate 0 0)^[n] sampleMachine.shared

/-- The sample call finds the sample cache in its own frame. -/
theorem sampleMachine_enter : sampleMachine.cache.enter sampleCall = sampleMachine.cache := rfl

/-- And finds the mapping that was stored for its range. -/
theorem sampleMachine_prior :
    sampleMachine.cache.prior sampleCall = some ⟨0, ⟨0, 4, 0, 1⟩⟩ := by decide +kernel

/-- The invalidations count the sequence and the version of the page up together. -/
theorem invalidated_spec (n : ℕ) :
    (invalidated n).sequence = BitVec.ofNat 64 n ∧
      (invalidated n).pageVersions 0 = BitVec.ofNat 64 n ∧ (invalidated n).callback = none ∧
      (invalidated n).finished = List.replicate n (0, 0) ∧
      (invalidated n).snapshots = [⟨0, 0, 4, ⟨[1, 2, 3, 4], rfl⟩, 0, 0⟩] := by
  induction n with
  | zero => exact ⟨rfl, rfl, rfl, rfl, rfl⟩
  | succ n ih =>
      obtain ⟨hsequence, -, hcallback, hfinished, hsnapshots⟩ := ih
      have hstep : invalidated (n + 1) = (invalidated n).invalidate 0 0 :=
        Function.iterate_succ_apply' ..
      have hnext : (invalidated n).sequence + 1 = BitVec.ofNat 64 (n + 1) := by
        rw [hsequence, BitVec.ofNat_add]
        rfl
      rw [hstep, List.replicate_succ', ← hfinished]
      exact ⟨hnext, hnext, hcallback, rfl, hsnapshots⟩

/-- What other threads do is part of a run. -/
theorem reachable_others (h : (machine p Interferes).Reachable m)
    (hrun : ReflTransGen Interferes m.shared s) :
    (machine p Interferes).Reachable { m with shared := s } := by
  induction hrun with
  | refl => exact h
  | tail _ hstep ih => exact ih.tail (.other hstep)

/-- The sample range can be invalidated any number of times. -/
theorem reachable_invalidated (n : ℕ) :
    (machine samplePack Interferes).Reachable { sampleMachine with shared := invalidated n } := by
  induction n with
  | zero =>
      have hexec : (resolve samplePack .initial sampleCall).Exec Interferes sampleShared _ _ :=
        Prog.exec_run (I := fun s => s.callback = none)
          (resolve_each (fun _ _ _ hs => ⟨trivial, hs⟩) fun _ _ _ hs => ⟨hs, Shared.copy_callback hs⟩) rfl
      have hinit : (machine samplePack Interferes).init ⟨sampleShared, .initial, []⟩ :=
        ⟨⟨rfl, rfl, rfl, rfl, rfl, rfl⟩, rfl, rfl⟩
      exact (System.Reachable.of_init hinit).tail (.resolve hexec)
  | succ n ih =>
      have hstep : invalidated (n + 1) = (invalidated n).invalidate 0 0 :=
        Function.iterate_succ_apply' ..
      rw [hstep]
      exact @reachable_others _ _ { sampleMachine with shared := invalidated n } ih
        (invalidate_run (invalidated_spec n).2.2.1 (by decide) (Nat.le_refl 0))

/-- With the version back at zero the second call is answered from the map. -/
theorem sampleCall_hit (hversion : s.pageVersions 0 = 0) :
    (resolve samplePack sampleMachine.cache sampleCall).run s =
      ((⟨⟨0, 4, 0, 1⟩, s.finished.length⟩, sampleMachine.cache), s) := by
  have hresolvable : samplePack.Resolvable sampleCall.base sampleCall.length := by decide
  have hread : (version sampleCall).run s =
      (if 0 < s.pageVersions 0 then s.pageVersions 0 else 0, s) := rfl
  rw [hversion, ite_self] at hread
  rw [resolve, if_neg (not_not.2 hresolvable), sampleMachine_enter, Prog.run_bind, instant,
    Prog.run_read, Prog.run_bind]
  dsimp only
  rw [hread, sampleMachine_prior]
  rfl

/-- A sequence that wraps brings back a version, and with it an answer from before
`2 ^ 64` invalidations of its range. -/
theorem not_justified_after_wrap :
    ∃ sha256 file p, loadPack sha256 file = .ok p ∧
      ¬∀ m, (machine p Interferes).Reachable m → ∀ call answer, (call, answer) ∈ m.answers →
        answer.binding.enabled ≠ 0 → Justified p m.shared call answer := by
  refine ⟨sampleHash, sampleFile, samplePack, loadPack_sampleFile, fun hall => ?_⟩
  generalize hn : 2 ^ 64 = n
  obtain ⟨-, hversion, hfree, hfinished, hsnapshots⟩ := invalidated_spec n
  have hzero : BitVec.ofNat 64 n = 0 := by rw [← hn]; rfl
  have hexec : (resolve samplePack sampleMachine.cache sampleCall).Exec Interferes (invalidated n) _ _ :=
    Prog.exec_run (I := fun s => s.callback = none)
      (resolve_each (fun _ _ _ hs => ⟨trivial, hs⟩) fun _ _ _ hs => ⟨hs, Shared.copy_callback hs⟩) hfree
  rw [sampleCall_hit (hversion.trans hzero)] at hexec
  have hreachable := (reachable_invalidated n).tail (.resolve hexec)
  obtain ⟨r, hr, -, -, -, -, hundisturbed⟩ := hall _ hreachable sampleCall
    ⟨⟨0, 4, 0, 1⟩, (invalidated n).finished.length⟩ (List.mem_append_right _ (List.mem_singleton.2 rfl))
    (by show (1 : BitVec 32) ≠ 0; decide)
  have hr : r ∈ (invalidated n).snapshots := hr
  rw [hsnapshots, List.mem_singleton] at hr
  subst hr
  have hpos : 0 < n := by rw [← hn]; decide
  have hlength : 0 < (invalidated n).finished.length := by rwa [hfinished, List.length_replicate]
  have hfirst : (invalidated n).finished[0]? = some (0, 0) := by
    rw [hfinished, List.getElem?_replicate, if_pos hpos]
  exact hundisturbed 0 (Nat.le_refl 0) hlength (0, 0) hfirst
    ⟨0, ⟨Nat.le_refl 0, Nat.le_refl 0⟩, by decide, by decide⟩

end Assets
end BoltsRebuilt
