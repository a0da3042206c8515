/-
# The two maps of the asset cache

`src/gpu/native/native_asset_cache.cpp`: `Resolve` keeps its answers in the table or, in
the legacy mode, in a map.  The table may refuse to keep an answer, the map is emptied
when it is full, so the two do not keep the same answers.

The histories here are of whole calls, with whatever other threads do in between.
Where authority is lost in a frame only together with a watch callback, every answer,
kept or not, is the one for what the range holds now (`expected`); so the answers of a
history do not depend on the mode of any of its calls (`modes_agree`).
-/

import BoltsRebuilt.Assets.CacheRuns
import BoltsRebuilt.Lib.History

namespace BoltsRebuilt
namespace Assets

open Relation

variable {p : Pack} {s t : Shared} {call : Call} {c : Cache}

/-! ### Histories of whole calls -/

/-- What happens between and in the calls: an invalidation, a byte written, pages made
valid by the command processor, the end of a frame, after which pages may have lost
their authority unnoticed, and a call. -/
inductive Event where
  | invalidate (first last : ℕ)
  | write (address : ℕ) (byte : UInt8)
  | grant (pages : Span)
  | endFrame (authority : ℕ → Bool)
  | resolve (base length : BitVec 32) (frame : BitVec 64)

/-- A machine, and the frame numbers that were in use when a frame last ended. -/
structure Play where
  machine : Machine
  ended : List (BitVec 64)

/-- The frame numbers of the calls so far. -/
def Machine.frames (m : Machine) : List (BitVec 64) := m.answers.map fun a => a.1.frame

/-- An event; `mode` gives the mode of each call. -/
def Play.apply (p : Pack) (mode : ℕ → Bool) (x : Play) : Event → Play
  | .invalidate first last =>
      { x with machine.shared := x.machine.shared.invalidate first last }
  | .write address byte => { x with machine.shared := x.machine.shared.write address byte }
  | .grant pages =>
      { x with
        machine.shared := x.machine.shared.setAuthority fun page =>
          decide (pages.1 ≤ page ∧ page ≤ pages.2) || x.machine.shared.authority page }
  | .endFrame authority =>
      { machine := { x.machine with shared := x.machine.shared.setAuthority authority }
        ended := x.machine.frames }
  | .resolve base length frame =>
      let call := ⟨base, length, frame, mode x.machine.answers.length⟩
      let result := (resolve p x.machine.cache call).run x.machine.shared
      { x with machine := ⟨result.2, result.1.2, x.machine.answers ++ [(call, result.1.1)]⟩ }

/-- What a history may do: the sequence does not wrap, a page with CPU authority is
write watched, and authority is lost within a frame only by an invalidation. -/
def Allowed (x : Play) : Event → Prop
  | .invalidate first last =>
      first < physicalBytes ∧ first ≤ last ∧ x.machine.shared.begun + 1 < 2 ^ 64
  | .write address _ => x.machine.shared.authority (pageOf address) = false
  | .grant _ => True
  | .endFrame _ => True
  | .resolve _ _ frame => frame ∉ x.ended

/-- The start of a history. -/
def Play.start (s : Shared) : Play := ⟨⟨s, .initial, []⟩, []⟩

/-- The bindings a history returns. -/
def bindings (p : Pack) (mode : ℕ → Bool) (x : Play) (history : List Event) : List Binding :=
  (history.foldl (Play.apply p mode) x).machine.answers.map fun a => a.2.binding

/-- The answer for what a range holds now. -/
def expected (p : Pack) (s : Shared) (base length : BitVec 32) : Binding :=
  if p.Resolvable base length ∧ s.authoritative (pagesOf base length) = true then
    p.answer base length (s.memory.load base.toNat length.toNat)
  else .empty

/-- What every state of an allowed history satisfies.  A copy of a frame that has not
ended is still what the range holds, unless an invalidation met it. -/
structure Play.Sound (p : Pack) (x : Play) : Prop where
  machine : x.machine.Sound p
  free : x.machine.shared.callback = none
  allocates : x.machine.shared.allocates = true
  used : ∀ r ∈ x.machine.shared.snapshots, r.frame ∈ x.machine.frames
  taken : ∀ r ∈ x.machine.shared.snapshots, r.taken ≤ x.machine.shared.finished.length
  current : ∀ r ∈ x.machine.shared.snapshots, r.frame ∉ x.ended →
    (∀ i, r.taken ≤ i → ∀ span, x.machine.shared.finished[i]? = some span →
      ¬Meets span (pagesOf r.base r.length)) →
    x.machine.shared.authoritative (pagesOf r.base r.length) = true ∧
      x.machine.shared.memory.load r.base.toNat r.length.toNat = r.bytes.1

variable {x y : Play} {mode mode' : ℕ → Bool} {event : Event}

/-- An address inside a range lies on one of the pages of the range. -/
theorem pageOf_mem {base length : BitVec 32} {address : ℕ} (hlo : base.toNat ≤ address)
    (hhi : address < base.toNat + length.toNat) :
    (pagesOf base length).1 ≤ pageOf address ∧ pageOf address ≤ (pagesOf base length).2 :=
  ⟨Nat.div_le_div_right hlo, Nat.div_le_div_right (by omega)⟩

/-- Whether a range is authoritative depends on its pages' authority alone. -/
theorem authoritative_congr {pages : Span}
    (h : ∀ page, pages.1 ≤ page → page ≤ pages.2 → t.authority page = s.authority page) :
    t.authoritative pages = s.authoritative pages := by
  rw [Bool.eq_iff_iff, Shared.authoritative, Shared.authoritative, List.all_eq_true, List.all_eq_true]
  refine forall₂_congr fun page hpage => ?_
  obtain ⟨hfirst, hlast⟩ := Span.mem_cells.1 hpage
  rw [h page hfirst hlast]

/-! ### A call by itself -/

/-- Reading a version alone, with nothing else running, changes nothing. -/
theorem version_run : ((version call).run s).2 = s :=
  Prog.run_reads (versionFrom_each fun _ _ _ => rfl)

/-- The version of a range depends on the versions of the pages only. -/
theorem versionFrom_run {pages : List ℕ} {v : BitVec 64} (h : t.pageVersions = s.pageVersions) :
    ((versionFrom pages v).run t).1 = ((versionFrom pages v).run s).1 := by
  induction pages generalizing v with
  | nil => rfl
  | cons page pages ih =>
      rw [versionFrom, Prog.run_bind, Prog.run_bind, readPage, Prog.run_read, Prog.run_read, h]
      exact ih

/-- Copying a range changes no page's version. -/
theorem Shared.copy_pageVersions {since : ℕ} : (s.copy call since).2.pageVersions = s.pageVersions := by
  rw [Shared.copy]
  split <;> rfl

/-- Remembering a mapping alone answers with its binding and changes nothing of the shared state. -/
theorem remember_run {m : Mapping} {checked : ℕ} (hs : s.allocates = true) :
    ((remember c call m checked).run s).1.1.binding = m.binding ∧
      ((remember c call m checked).run s).2 = s := by
  rw [remember]
  split
  · rw [Prog.run_bind, allocate, Prog.run_read]
    dsimp only
    rw [hs, if_pos rfl]
    exact ⟨rfl, rfl⟩
  · exact ⟨rfl, rfl⟩

/-- Comparing anew gives the answer for what the range holds. -/
theorem compare_run {since : ℕ} (hs : s.allocates = true) (hr : p.Resolvable call.base call.length) :
    let result := (compare p c call since ((version call).run s).1).run s
    result.1.1.binding = expected p s call.base call.length ∧ result.2 = (s.copy call since).2 := by
  intro result
  have hcopy_allocates : (s.copy call since).2.allocates = true := by
    rw [Shared.copy]
    split <;> exact hs
  have hversion : ((version call).run (s.copy call since).2).1 = ((version call).run s).1 :=
    versionFrom_run Shared.copy_pageVersions
  have hresult : result = (compare p c call since ((version call).run s).1).run s := rfl
  rw [compare, Prog.run_bind, allocate, Prog.run_read] at hresult
  dsimp only at hresult
  rw [hs, if_pos rfl, Prog.run_bind, copyCpuAuthoritativeRange, Prog.run_atomic] at hresult
  rw [expected]
  by_cases hauthority : s.authoritative (pagesOf call.base call.length) = true
  · rw [if_pos ⟨hr, hauthority⟩]
    have hsnapshot : (s.copy call since).1 =
        some (s.memory.load call.base.toNat call.length.toNat) := by
      rw [Shared.copy, if_pos hauthority]
      rfl
    rw [hsnapshot] at hresult
    dsimp only at hresult
    rw [Prog.run_bind, instant, Prog.run_read, Prog.run_bind] at hresult
    dsimp only at hresult
    rw [hversion, version_run, if_neg (not_not.2 rfl)] at hresult
    rw [hresult]
    exact remember_run hcopy_allocates
  · rw [if_neg fun h => hauthority h.2]
    have hsnapshot : s.copy call since = (none, s) := by rw [Shared.copy, if_neg hauthority]
    rw [hsnapshot] at hresult ⊢
    rw [hresult]
    exact ⟨rfl, rfl⟩

/-- A call of an allowed history answers for what the range holds, whether or not it finds
a kept answer. -/
theorem resolve_run (hx : x.Sound p) (hframe : call.frame ∉ x.ended) :
    let result := (resolve p x.machine.cache call).run x.machine.shared
    result.1.1.binding = expected p x.machine.shared call.base call.length ∧
      (result.2 = x.machine.shared ∨ ∃ since, result.2 = (x.machine.shared.copy call since).2) := by
  intro result
  have hresult : result = (resolve p x.machine.cache call).run x.machine.shared := rfl
  rw [resolve] at hresult
  by_cases hr : p.Resolvable call.base call.length
  case neg =>
    rw [if_pos hr] at hresult
    rw [hresult, expected, if_neg fun h => hr h.1]
    exact ⟨rfl, .inl rfl⟩
  rw [if_neg (not_not.2 hr), Prog.run_bind, instant, Prog.run_read, Prog.run_bind] at hresult
  dsimp only at hresult
  rw [version_run] at hresult
  have hcompare : ∀ c, result = (compare p c call x.machine.shared.finished.length
      ((version call).run x.machine.shared).1).run x.machine.shared →
      result.1.1.binding = expected p x.machine.shared call.base call.length ∧
        (result.2 = x.machine.shared ∨
          ∃ since, result.2 = (x.machine.shared.copy call since).2) := by
    intro c hc
    obtain ⟨hbinding, hshared⟩ : _ ∧ _ := @compare_run p x.machine.shared call c
      x.machine.shared.finished.length hx.allocates hr
    rw [← hc] at hbinding hshared
    exact ⟨hbinding, .inr ⟨_, hshared⟩⟩
  split at hresult
  next => exact hcompare _ hresult
  next m hprior =>
    split at hresult
    next hsame =>
      rw [hresult, expected]
      refine ⟨?_, .inl rfl⟩
      obtain ⟨hcache, henter⟩ : (x.machine.cache.enter call).Sound p x.machine.shared ∧ _ :=
        hx.machine.cache.enter
      obtain ⟨r, hmem, hrframe, hkey, hbinding, -, bound, hle, hfresh⟩ := hcache.prior hprior
      obtain ⟨hbase, hlength⟩ := rangeKey_inj hkey
      have hexec : (version call).Exec Bounded x.machine.shared _ _ :=
        Prog.exec_run (I := fun _ => True) (versionFrom_each fun _ _ _ _ => ⟨trivial, trivial⟩) trivial
      obtain ⟨-, -, hpages⟩ := version_exec hx.machine.shared hexec
      rw [hsame] at hle
      rw [← hbase, ← hlength] at hpages hr
      rw [henter] at hrframe
      rw [← hrframe] at hframe
      obtain ⟨hauthority, hbytes⟩ := hx.current r hmem hframe fun i hi span hspan =>
        hfresh.not_meets hle hpages hi hspan
      rw [← hbase, ← hlength, if_pos ⟨hr, hauthority⟩, hbytes]
      exact hbinding
    next => exact hcompare _ hresult

/-! ### A history -/

/-- A copy is refused and changes nothing, or is made from an authoritative range and kept as a
snapshot. -/
theorem Shared.copy_spec {since : ℕ} :
    (s.copy call since).2 = s ∨
      s.authoritative (pagesOf call.base call.length) = true ∧
        (s.copy call since).2 = { s with
          snapshots := s.snapshots ++ [⟨call.frame, call.base, call.length,
            s.memory.blob call.base.toNat call.length.toNat, since, s.finished.length⟩] } := by
  rw [Shared.copy]
  split
  next h => exact .inr ⟨h, rfl⟩
  next => exact .inl rfl

/-- A play starts sound, on any initial state that can allocate. -/
theorem Play.sound_start (hs : s.Initial) (hallocates : s.allocates = true) : (start s).Sound p where
  machine := .init ⟨hs, rfl, rfl⟩
  free := hs.callback
  allocates := hallocates
  used := fun r hr => absurd (hs.snapshots ▸ hr : r ∈ []) List.not_mem_nil
  taken := fun r hr => absurd (hs.snapshots ▸ hr : r ∈ []) List.not_mem_nil
  current := fun r hr => absurd (hs.snapshots ▸ hr : r ∈ []) List.not_mem_nil

namespace Play.Sound

/-- An invalidation by the host keeps the play sound. -/
theorem invalidate {first last : ℕ} (h : x.Sound p)
    (hallowed : Allowed x (.invalidate first last)) :
    (x.apply p mode (.invalidate first last)).Sound p := by
  obtain ⟨hinside, hordered, hroom⟩ := hallowed
  have hrun := bounded_of_run (invalidate_run h.free hinside hordered) hroom
  obtain ⟨hw, hlater⟩ := later_of_run h.machine.shared hrun
  refine
    { machine := h.machine.move hw hlater fun _ _ hf =>
        (kept (fun _ _ hw h => Fresh.step hw h) h.machine.shared hf hrun).2
      free := h.free
      allocates := h.allocates
      used := h.used
      taken := fun r hr => (h.taken r hr).trans hlater.finished.length_le
      current := fun r hr hended hmet => ?_ }
  obtain ⟨hauthority, hbytes⟩ := h.current r hr hended fun i hi span hspan =>
    hmet i hi span (by
      show (x.machine.shared.invalidate first last).finished[i]? = some span
      rw [hlater.getElem? (List.getElem?_eq_some_iff.1 hspan).1]
      exact hspan)
  refine ⟨?_, hbytes⟩
  -- the invalidation is the last one completed, so it does not meet the range
  have hlast := hmet _ (h.taken r hr) _ (List.getElem?_concat_length ..)
  rw [← hauthority]
  exact authoritative_congr fun page hlo hhi => if_neg fun hin => hlast ⟨page, hin, hlo, hhi⟩

/-- A write of the guest keeps the play sound, since it is made only to a page that has no
authority. -/
theorem write {address : ℕ} {byte : UInt8} (h : x.Sound p)
    (hallowed : Allowed x (.write address byte)) :
    (x.apply p mode (.write address byte)).Sound p := by
  have hstep : Bounded x.machine.shared (x.machine.shared.write address byte) :=
    ⟨.write hallowed, h.machine.shared.room⟩
  refine
    { machine := h.machine.step (.other hstep)
      free := h.free
      allocates := h.allocates
      used := h.used
      taken := h.taken
      current := fun r hr hended hmet => ?_ }
  obtain ⟨hauthority, hbytes⟩ := h.current r hr hended hmet
  refine ⟨hauthority, ?_⟩
  rw [← hbytes]
  refine Bytes.load_congr fun i hlo hhi => ?_
  refine Function.update_of_ne (fun heq => ?_) _ _
  -- the range has authority, so its pages are watched
  obtain ⟨hfirst, hlast⟩ := pageOf_mem hlo hhi
  have hpage := Shared.authority_of_authoritative hauthority hfirst hlast
  rw [heq, hallowed] at hpage
  exact Bool.false_ne_true hpage

/-- Granting authority over pages keeps the play sound: it changes neither memory nor versions. -/
theorem grant {pages : Span} (h : x.Sound p) : (x.apply p mode (.grant pages)).Sound p := by
  refine
    { machine := h.machine.setAuthority h.free
      free := h.free
      allocates := h.allocates
      used := h.used
      taken := h.taken
      current := fun r hr hended hmet => ?_ }
  obtain ⟨hauthority, hbytes⟩ := h.current r hr hended hmet
  refine ⟨List.all_eq_true.2 fun page hpage => ?_, hbytes⟩
  have hold := List.all_eq_true.1 hauthority page hpage
  show (_ || x.machine.shared.authority page) = true
  rw [hold, Bool.or_true]

/-- Ending a frame, with the authority it leaves behind, keeps it sound. -/
theorem endFrame {authority : ℕ → Bool} (h : x.Sound p) :
    (x.apply p mode (.endFrame authority)).Sound p where
  machine := h.machine.setAuthority h.free
  free := h.free
  allocates := h.allocates
  used := h.used
  taken := h.taken
  current := fun r hr hended => absurd (h.used r hr) hended

/-- **A resolved range is answered from memory as it is**, and the play stays sound. -/
theorem resolve {base length : BitVec 32} {frame : BitVec 64} (h : x.Sound p)
    (hallowed : Allowed x (.resolve base length frame)) :
    (x.apply p mode (.resolve base length frame)).Sound p := by
  generalize hcall : (⟨base, length, frame, mode x.machine.answers.length⟩ : Call) = call
  have happly : x.apply p mode (.resolve base length frame) =
      { x with
        machine := ⟨((Assets.resolve p x.machine.cache call).run x.machine.shared).2,
          ((Assets.resolve p x.machine.cache call).run x.machine.shared).1.2,
          x.machine.answers ++
            [(call, ((Assets.resolve p x.machine.cache call).run x.machine.shared).1.1)]⟩ } := by
    rw [Play.apply, hcall]
  have hframe : call.frame ∉ x.ended := by
    rw [← hcall]
    exact hallowed
  have hexec : (Assets.resolve p x.machine.cache call).Exec Bounded x.machine.shared _ _ :=
    Prog.exec_run (I := fun s => s.callback = none)
      (resolve_each (fun _ _ _ hs => ⟨trivial, hs⟩) fun _ _ _ hs => ⟨hs, Shared.copy_callback hs⟩) h.free
  have hmachine := h.machine.resolve hexec
  have hframes : ∀ r ∈ x.machine.shared.snapshots,
      r.frame ∈ (x.machine.answers ++ [(call, ((Assets.resolve p x.machine.cache call).run
        x.machine.shared).1.1)]).map fun a => a.1.frame := by
    intro r hr
    rw [List.map_append]
    exact List.mem_append_left _ (h.used r hr)
  obtain ⟨-, hshared⟩ := resolve_run h hframe
  rw [happly]
  rcases hshared with hsame | ⟨since, hcopy⟩
  · rw [hsame] at hmachine ⊢
    exact { h with machine := hmachine, used := hframes }
  · rw [hcopy] at hmachine ⊢
    rcases x.machine.shared.copy_spec with hsame | ⟨hauthority, hnew⟩
    · rw [hsame] at hmachine ⊢
      exact { h with machine := hmachine, used := hframes }
    · rw [hnew] at hmachine ⊢
      constructor
      case machine => exact hmachine
      case free => exact h.free
      case allocates => exact h.allocates
      case used =>
        intro r hr
        rcases List.mem_append.1 hr with hr | hr
        · exact hframes r hr
        · rw [List.mem_singleton.1 hr]
          show call.frame ∈ List.map _ _
          rw [List.map_append]
          exact List.mem_append_right _ (List.mem_singleton.2 rfl)
      case taken =>
        intro r hr
        rcases List.mem_append.1 hr with hr | hr
        · exact h.taken r hr
        · rw [List.mem_singleton.1 hr]
      case current =>
        intro r hr
        rcases List.mem_append.1 hr with hr | hr
        · exact h.current r hr
        · rw [List.mem_singleton.1 hr]
          exact fun _ _ => ⟨hauthority, rfl⟩

/-- Every allowed event keeps a play sound. -/
theorem apply (h : x.Sound p) (hallowed : Allowed x event) : (x.apply p mode event).Sound p := by
  cases event with
  | invalidate first last => exact h.invalidate hallowed
  | write address byte => exact h.write hallowed
  | grant pages => exact h.grant
  | endFrame authority => exact h.endFrame
  | resolve base length frame => exact h.resolve hallowed

end Play.Sound

/-- Two plays that differ only in what their caches keep and in the copies made. -/
structure Play.Same (x y : Play) : Prop where
  shared : y.machine.shared = { x.machine.shared with snapshots := y.machine.shared.snapshots }
  ended : y.ended = x.ended
  frames : y.machine.frames = x.machine.frames
  bindings : (y.machine.answers.map fun a => a.2.binding) = x.machine.answers.map fun a => a.2.binding

/-- What a range is expected to answer depends on memory and authority alone. -/
theorem expected_congr {base length : BitVec 32} (hauthority : t.authority = s.authority)
    (hmemory : t.memory = s.memory) : expected p t base length = expected p s base length := by
  rw [expected, expected, Shared.authoritative, Shared.authoritative, hauthority, hmemory]

/-- What is allowed in one mode is allowed in the other. -/
theorem Play.Same.allowed (h : Play.Same x y) (hx : Allowed x event) : Allowed y event := by
  have hauthority := congrArg Shared.authority h.shared
  have hbegun := congrArg Shared.begun h.shared
  cases event with
  | invalidate first last =>
      obtain ⟨hinside, hordered, hroom⟩ := hx
      exact ⟨hinside, hordered, by rw [hbegun]; exact hroom⟩
  | write address byte =>
      show y.machine.shared.authority _ = false
      rw [hauthority]
      exact hx
  | grant pages => trivial
  | endFrame authority => trivial
  | resolve base length frame =>
      show frame ∉ y.ended
      rw [h.ended]
      exact hx

/-- A call of a history adds the answer for what the range holds. -/
theorem apply_resolve {base length : BitVec 32} {frame : BitVec 64} (hx : x.Sound p)
    (hallowed : Allowed x (.resolve base length frame)) :
    (∃ snapshots, (x.apply p mode (.resolve base length frame)).machine.shared =
        { x.machine.shared with snapshots }) ∧
      (x.apply p mode (.resolve base length frame)).machine.frames = x.machine.frames ++ [frame] ∧
      ((x.apply p mode (.resolve base length frame)).machine.answers.map fun a => a.2.binding) =
        (x.machine.answers.map fun a => a.2.binding) ++ [expected p x.machine.shared base length] := by
  obtain ⟨hbinding, hshared⟩ :=
    @resolve_run p ⟨base, length, frame, mode x.machine.answers.length⟩ x hx hallowed
  refine ⟨?_, List.map_append, ?_⟩
  · rcases hshared with hsame | ⟨since, hcopy⟩
    · exact ⟨x.machine.shared.snapshots, hsame⟩
    · rcases x.machine.shared.copy_spec with hsame | ⟨-, hnew⟩
      · exact ⟨x.machine.shared.snapshots, hcopy.trans hsame⟩
      · exact ⟨_, hcopy.trans hnew⟩
  · rw [Play.apply, List.map_append, ← hbinding]
    rfl

namespace Play.Same

/-- A call answers alike in both plays, whatever the modes. -/
theorem resolve {base length : BitVec 32} {frame : BitVec 64} (h : Play.Same x y)
    (hx : x.Sound p) (hy : y.Sound p) (hallowed : Allowed x (.resolve base length frame)) :
    Play.Same (x.apply p mode (.resolve base length frame))
      (y.apply p mode' (.resolve base length frame)) := by
  obtain ⟨⟨xs, hxshared⟩, hxframes, hxbindings⟩ := apply_resolve hx hallowed
  obtain ⟨⟨ys, hyshared⟩, hyframes, hybindings⟩ := apply_resolve hy (h.allowed hallowed)
  have hexpected : expected p y.machine.shared base length = expected p x.machine.shared base length :=
    expected_congr (by rw [h.shared]) (by rw [h.shared])
  refine ⟨?_, h.ended, ?_, ?_⟩
  · rw [hxshared, hyshared, h.shared]
  · rw [hxframes, hyframes, h.frames]
  · rw [hxbindings, hybindings, h.bindings, hexpected]

/-- **The two modes answer alike** at every event, and stay alike after it. -/
theorem apply (h : Play.Same x y) (hx : x.Sound p) (hy : y.Sound p) (hallowed : Allowed x event) :
    Play.Same (x.apply p mode event) (y.apply p mode' event) := by
  cases event with
  | invalidate first last =>
      refine ⟨?_, h.ended, h.frames, h.bindings⟩
      show y.machine.shared.invalidate first last = _
      rw [h.shared]
      rfl
  | write address byte =>
      refine ⟨?_, h.ended, h.frames, h.bindings⟩
      show y.machine.shared.write address byte = _
      rw [h.shared]
      rfl
  | grant pages =>
      refine ⟨?_, h.ended, h.frames, h.bindings⟩
      show y.machine.shared.setAuthority _ = _
      rw [h.shared]
      rfl
  | endFrame authority =>
      refine ⟨?_, h.frames, h.frames, h.bindings⟩
      show y.machine.shared.setAuthority _ = _
      rw [h.shared]
      rfl
  | resolve base length frame => exact h.resolve hx hy hallowed

end Play.Same

/-- Histories of whole calls: the modes do not matter. -/
theorem bindings_congr {history : List Event} (h : Play.Same x y) (hx : x.Sound p) (hy : y.Sound p)
    (hallowed : History.Along (Play.apply p mode) Allowed x history) :
    bindings p mode' y history = bindings p mode x history := by
  induction history generalizing x y with
  | nil => exact h.bindings
  | cons event history ih =>
      obtain ⟨hevent, hrest⟩ := hallowed
      exact ih (h.apply hx hy hevent) (hx.apply hevent) (hy.apply (h.allowed hevent)) hrest

/-- **Both modes return the same bindings.** One history of invalidations, writes, grants, frames
and resolves, played with the version memo and without it, answers every resolve with the same
binding. -/
theorem modes_agree {history : List Event} (hs : s.Initial) (hallocates : s.allocates = true)
    (hallowed : History.Along (Play.apply p mode) Allowed (Play.start s) history) :
    bindings p mode (Play.start s) history = bindings p mode' (Play.start s) history :=
  (bindings_congr ⟨rfl, rfl, rfl, rfl⟩ (Play.sound_start hs hallocates)
    (Play.sound_start hs hallocates) hallowed).symm

/-- **Asset bindings are sound in every interleaving, and the same in both modes.**  For an
accepted pack: in every run that begins fewer than `2 ^ 64` invalidations, an enabled
answer of `Resolve` comes from a copy of its range, made in the same frame, that has the
bytes of the pack at the answer's offset, with no invalidation of the range completed
from the read of the version before the copy up to the check that admitted the answer.
And in every allowed history without allocation failures the bindings do not depend on
the modes of the calls. -/
theorem assetCache_sound {sha256 : List UInt8 → Except String (List UInt8)} {file : List UInt8}
    {p : Pack} (h : loadPack sha256 file = .ok p) :
    (∀ m, (machine p Interferes).Reachable m → m.shared.begun < 2 ^ 64 →
      ∀ call answer, (call, answer) ∈ m.answers → answer.binding.enabled ≠ 0 →
        Justified p m.shared call answer) ∧
    ∀ (s : Shared), s.Initial → s.allocates = true → ∀ (mode mode' : ℕ → Bool) (history : List Event),
      History.Along (Play.apply p mode) Allowed (Play.start s) history →
        bindings p mode (Play.start s) history = bindings p mode' (Play.start s) history :=
  ⟨fun _ hm hroom _ _ ha henabled => resolve_justified (loadPack_wellFormed h) hm hroom ha henabled,
    fun _ hs hallocates _ _ _ hallowed => modes_agree hs hallocates hallowed⟩

/-- The hypotheses are satisfiable: a file mapped by the sample pack is answered with its binding. -/
theorem assetCache_sound_sampleFile :
    Justified samplePack sampleMachine.shared sampleCall ⟨⟨0, 4, 0, 1⟩, 0⟩ :=
  (assetCache_sound loadPack_sampleFile).1 sampleMachine (reachable_invalidated 0) (by decide +kernel)
    sampleCall ⟨⟨0, 4, 0, 1⟩, 0⟩ (by decide +kernel) (by decide)

end Assets
end BoltsRebuilt
