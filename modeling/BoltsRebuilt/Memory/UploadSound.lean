/-
# The upload shadow agrees with the GPU buffer

What the shadow holds for a page is what the last upload put into the buffer,
with no GPU write since (`Agrees`), except for a page whose copy or GPU write
the command processor has recorded and not yet told the shadow about.

The one delicate place is a publication that is refused.  Until then the shadow
may hold the bytes of the page before the copy.  Between the capture of a chunk
and the publication of its runs only other threads touch the shadow, and all
they can do is to reset it: a shadow whose epoch is not the captured one holds
nothing at all.
-/

import BoltsRebuilt.Memory.UploadRequest

namespace BoltsRebuilt
namespace Memory

open UploadShadow

/-- Pages of the buffer that the command processor has changed and not yet told
the shadow about. -/
def Point.inFlight : Point → List ℕ
  | gpuWritten first last => Span.cells (first, last)
  | copied _ _ run _ => run
  | _ => []

/-- Captured pages whose copy is still to be recorded. -/
def Point.uncopied : Point → List ℕ
  | captured _ _ runs => runs.flatten
  | copied _ _ _ runs => runs.flatten
  | _ => []

/-- Pages about to be copied with nobody to tell the shadow. -/
def Point.cleared (pageBytes : ℕ) : Point → List ℕ
  | forgotten l => l.chunk pageBytes
  | retrying ranges => pagesOf ranges
  | plain rest => pagesOf rest
  | plainValid first count rest => List.range' first count ++ pagesOf rest
  | _ => []

/-- The loop and the epoch of a captured chunk. -/
def Point.capture : Point → Option (Loop × ℕ)
  | captured l epoch _ => some (l, epoch)
  | copied l epoch _ _ => some (l, epoch)
  | _ => none

/-- The command processor is in a request, or has just returned from one. -/
def Point.inRequest : Point → Bool
  | idle | gpuWritten _ _ | gpuFired _ _ => false
  | _ => true

/-- The setting the command processor acts on. -/
def Point.mode : Point → Option Bool
  | modeSet enabled _ => some enabled
  | shadowReady _ | allocating _ | chunks _ | refused _ | forgotten _ | captured _ _ _
  | copied _ _ _ _ => some true
  | _ => none

variable {pageBytes : ℕ} {s : State pageBytes}

/-- What the shadow says at a point of the command processor. -/
structure Agrees (s : State pageBytes) (shadow : UploadShadow) : Prop where
  size : shadow.pageBytes = pageBytes ∨ shadow.pageBytes = 0
  requested : ∀ p b, shadow.holds p = some b → s.requested = true
  physical : ∀ p b, shadow.holds p = some b → p * pageBytes + pageBytes ≤ kPhysicalBytes
  cleared : ∀ p ∈ s.cp.cleared pageBytes, shadow.holds p = none
  queued : ∀ p b, shadow.holds p = some b → p ∈ s.cp.inFlight ∨ ∃ d, s.queued p = some d ∧ d.toList = b
  epoch : ∀ l epoch, s.cp.capture = some (l, epoch) →
    shadow.epoch = epoch ∨ ∀ p, shadow.holds p = none

/-- The invariant. -/
structure Inv (s : State pageBytes) : Prop where
  buffer : ∀ p d, s.queued p = some d → s.buffer p = d
  shadow : ∀ shadow, s.shadow = some shadow → Agrees s shadow
  captures : s.cp.inRequest = true → ∀ p d, s.captures p = some d →
    p ∈ s.cp.uncopied ∨ s.queued p = some d
  scratch : ∀ l epoch, s.cp.capture = some (l, epoch) →
    (∀ p ∈ s.cp.uncopied, s.captures p = some (fromScratch s l p)) ∧
      ∀ p ∈ s.cp.inFlight, s.queued p = some (fromScratch s l p)
  failed : s.failed = true → s.shadow = none
  mode : ∀ enabled, s.cp.mode = some enabled → s.requested = enabled

/-- A point where no page is between two steps. -/
structure Point.Quiet (cp : Point) : Prop where
  inFlight : cp.inFlight = []
  uncopied : cp.uncopied = []
  capture : cp.capture = none

/-- Guest memory and the page flags do not matter. -/
theorem Inv.memory (h : Inv s) (mem : ℕ → PageData pageBytes) (valid gpuWritten : ℕ → Bool) :
    Inv { s with mem, valid, gpuWritten } :=
  { h with shadow := fun shadow hs => { h.shadow shadow hs with } }

/-- The shadow may forget pages at any time, and be switched off; while a capture is open it keeps
its epoch or forgets all. -/
theorem Inv.forget (h : Inv s) {shadow' : Option UploadShadow}
    (hs : ∀ t, shadow' = some t → ∃ shadow, s.shadow = some shadow ∧ Shrinks shadow t ∧
      (t.pageBytes = shadow.pageBytes ∨ t.pageBytes = 0) ∧
      (s.cp.capture = none ∨ t.epoch = shadow.epoch ∨ ∀ p, t.holds p = none)) :
    Inv { s with shadow := shadow' } := by
  have hagrees : ∀ t, shadow' = some t → Agrees { s with shadow := shadow' } t := by
    intro t ht
    obtain ⟨shadow, hshadow, hshrinks, hbytes, hepoch⟩ := hs t ht
    have a := h.shadow shadow hshadow
    constructor
    case size =>
      have := a.size
      omega
    case requested => exact fun p b hb => a.requested p b (hshrinks p b hb)
    case physical => exact fun p b hb => a.physical p b (hshrinks p b hb)
    case cleared => exact fun p hp => hshrinks.none (a.cleared p hp)
    case queued => exact fun p b hb => a.queued p b (hshrinks p b hb)
    case epoch =>
      intro l epoch hcapture
      rcases hepoch with hquiet | hepoch | hnone'
      · simp [hquiet] at hcapture
      · rw [hepoch]
        exact (a.epoch l epoch hcapture).imp_right fun hall p => hshrinks.none (hall p)
      · exact .inr hnone'
  have hfailed : s.failed = true → shadow' = none := by
    intro hf
    cases hshadow' : shadow' with
    | none => rfl
    | some t =>
        obtain ⟨shadow, hshadow, -⟩ := hs t hshadow'
        have := h.failed hf
        simp [this] at hshadow
  exact { h with shadow := hagrees, failed := hfailed }

/-- The command processor moves on, and the shadow holds nothing for the pages
that were between two steps. -/
theorem Inv.land (h : Inv s) {cp : Point} (huncopied : s.cp.uncopied = [])
    (hflight : ∀ p ∈ s.cp.inFlight, ∀ shadow, s.shadow = some shadow → shadow.holds p = none)
    (hto : cp.Quiet) (hrequest : cp.inRequest = true → s.cp.inRequest = true)
    (hcleared : ∀ p ∈ cp.cleared pageBytes, ∀ shadow, s.shadow = some shadow →
      shadow.holds p = none)
    (hmode : ∀ enabled, cp.mode = some enabled → s.requested = enabled) : Inv { s with cp } := by
  have hagrees : ∀ shadow, s.shadow = some shadow → Agrees { s with cp } shadow := by
    intro shadow hs
    have a := h.shadow shadow hs
    have hqueued : ∀ p b, shadow.holds p = some b → ∃ d, s.queued p = some d ∧ d.toList = b := by
      intro p b hb
      refine (a.queued p b hb).resolve_left fun hmem => ?_
      rw [hflight p hmem shadow hs] at hb
      exact Option.some_ne_none _ hb.symm
    exact { a with
      cleared := fun p hp => hcleared p hp shadow hs
      queued := fun p b hb => .inr (hqueued p b hb)
      epoch := fun l epoch hc => by simp [hto.capture] at hc }
  have hcaptures : cp.inRequest = true → ∀ p d, s.captures p = some d →
      p ∈ cp.uncopied ∨ s.queued p = some d := by
    intro hr p d hp
    have := h.captures (hrequest hr) p d hp
    rw [huncopied] at this
    exact .inr (this.resolve_left List.not_mem_nil)
  exact { h with
    shadow := hagrees
    captures := hcaptures
    scratch := fun l epoch hc => by simp [hto.capture] at hc
    mode := hmode }

/-- The command processor goes from one quiet point of a request to another, with nothing captured
and no copy under way. -/
theorem Inv.next (h : Inv s) {a b : Point} (hcp : s.cp = a) (huncopied : a.uncopied = [])
    (hflight : a.inFlight = []) (hto : b.Quiet)
    (hrequest : b.inRequest = true → a.inRequest = true)
    (hcleared : ∀ p ∈ b.cleared pageBytes, p ∈ a.cleared pageBytes)
    (hmode : ∀ enabled, b.mode = some enabled → a.mode = some enabled) :
    Inv { s with cp := b } := by
  subst hcp
  exact h.land huncopied (fun p hp => by simp [hflight] at hp) hto hrequest
    (fun p hp shadow hs => (h.shadow shadow hs).cleared p (hcleared p hp))
    fun enabled he => h.mode enabled (hmode enabled he)

/-! ### What other threads do -/

/-- An invalidation is only queued: the command processor is where it was. -/
theorem uploadShadowInvalidated_cp (s : State pageBytes) (addressFirst addressLast : ℕ)
    (byGpu : Bool) : (uploadShadowInvalidated s addressFirst addressLast byGpu).cp = s.cp := by
  rw [uploadShadowInvalidated]
  split
  · rfl
  · split_ifs <;> rfl

/-- Queueing an invalidation keeps the invariant, the processor's own writes falling outside every
capture. -/
theorem Inv.invalidated (h : Inv s) (addressFirst addressLast : ℕ) (byGpu : Bool)
    (hgpu : byGpu = true → s.cp.capture = none) :
    Inv (uploadShadowInvalidated s addressFirst addressLast byGpu) := by
  rw [uploadShadowInvalidated]
  split
  · exact h
  · rename_i shadow hshadow
    split
    · exact h
    · split
      · refine h.forget fun t ht => ?_
        obtain rfl : shadow.reset = t := Option.some.inj ht
        exact ⟨shadow, hshadow, fun p b hb => by simp at hb, pageBytes_advanceEpoch shadow,
          .inr (.inr fun p => by simp)⟩
      · split
        · rename_i hbyGpu
          refine h.forget fun t ht => ?_
          obtain rfl := Option.some.inj ht
          exact ⟨shadow, hshadow, shrinks_invalidate _ _ _, pageBytes_invalidate _ _ _,
            .inl (hgpu hbyGpu)⟩
        · exact h

/-! ### Invalidation by the command processor -/

/-- Ranges of pages leave the shadow, each page of them, and all other pages stay. -/
theorem invalidateRange_spec {shadow : UploadShadow}
    (hsize : shadow.pageBytes = pageBytes ∨ shadow.pageBytes = 0)
    (hphysical : ∀ p b, shadow.holds p = some b → p * pageBytes + pageBytes ≤ kPhysicalBytes)
    (r : PageRange) :
    Shrinks shadow (invalidateRange pageBytes shadow r) ∧
      ((invalidateRange pageBytes shadow r).pageBytes = shadow.pageBytes ∨
        (invalidateRange pageBytes shadow r).pageBytes = 0) ∧
      ∀ p ∈ List.range' r.1 r.2, (invalidateRange pageBytes shadow r).holds p = none := by
  obtain ⟨first, count⟩ := r
  have hshrinks : Shrinks shadow (invalidateRange pageBytes shadow (first, count)) :=
    shrinks_invalidate _ _ _
  refine ⟨hshrinks, pageBytes_invalidate .., fun p hp => ?_⟩
  obtain ⟨hfirst, hlast⟩ := List.mem_range'_1.1 hp
  by_contra hne
  obtain ⟨b, hb⟩ := Option.ne_none_iff_exists'.1 hne
  have hold := hshrinks p b hb
  have hpos : 0 < pageBytes := by
    have := (holds_eq_some.1 hold).1
    omega
  have haddress : first * pageBytes + count * pageBytes - 1 =
      (first + count - 1) * pageBytes + pageBytes - 1 := by
    obtain ⟨k, rfl⟩ : ∃ k, count = k + 1 := ⟨count - 1, by omega⟩
    rw [Nat.add_mul k, ← Nat.add_assoc, ← Nat.add_mul, Nat.one_mul]
    rfl
  rw [invalidateRange, haddress, holds_invalidate shadow hsize hfirst (by omega)
    (by have := hphysical p b hold; omega)] at hb
  exact Option.some_ne_none _ hb.symm

/-- Folding the queued ranges in loses their pages from the shadow, and leaves the others as they
were. -/
theorem foldl_invalidateRange {shadow : UploadShadow}
    (hsize : shadow.pageBytes = pageBytes ∨ shadow.pageBytes = 0)
    (hphysical : ∀ p b, shadow.holds p = some b → p * pageBytes + pageBytes ≤ kPhysicalBytes)
    (ranges : List PageRange) :
    let t := ranges.foldl (invalidateRange pageBytes) shadow
    Shrinks shadow t ∧ (t.pageBytes = shadow.pageBytes ∨ t.pageBytes = 0) ∧
      ∀ p ∈ pagesOf ranges, t.holds p = none := by
  induction ranges generalizing shadow with
  | nil => exact ⟨fun _ _ h => h, .inl rfl, by simp [pagesOf]⟩
  | cons r ranges ih =>
      obtain ⟨hshrinks, hbytes, hnone⟩ := invalidateRange_spec hsize hphysical r
      obtain ⟨hshrinks', hbytes', hnone'⟩ :=
        @ih (invalidateRange pageBytes shadow r) (by omega)
          fun p b hb => hphysical p b (hshrinks p b hb)
      refine ⟨hshrinks.trans hshrinks', ?_, fun p hp => ?_⟩
      · simp only [List.foldl_cons]
        omega
      · rw [pagesOf, List.flatMap_cons, List.mem_append] at hp
        rcases hp with hp | hp
        · exact hshrinks'.none (hnone p hp)
        · exact hnone' p hp

/-! ### The copy of a chunk -/

/-- The runs of changed pages are the changed pages in order, cut where one is unchanged. -/
theorem flatten_changedRuns (changed : ℕ → Bool) (run pages : List ℕ) :
    (changedRuns changed run pages).flatten = run ++ pages.filter changed := by
  induction pages generalizing run with
  | nil =>
      rw [changedRuns]
      split <;> simp_all
  | cons p pages ih =>
      rw [changedRuns]
      split
      · rename_i hp
        rw [ih, List.filter_cons_of_pos hp, List.append_assoc, List.singleton_append]
      · rename_i hp
        rw [List.flatten_append, ih, List.filter_cons_of_neg hp]
        split <;> simp_all

/-- Publishing a page's data makes the shadow hold that data for it, or leaves the shadow as it was,
and may lose another page. -/
theorem publish_page {shadow : UploadShadow}
    (hsize : shadow.pageBytes = pageBytes ∨ shadow.pageBytes = 0) (p : ℕ) (d : PageData pageBytes)
    (epoch : ℕ) :
    let t := (shadow.publish (p * pageBytes) d.toList epoch).2
    t.pageBytes = shadow.pageBytes ∧ t.epoch = shadow.epoch ∧
      ∀ q c, t.holds q = some c →
        q = p ∧ c = d.toList ∧ epoch = shadow.epoch ∧ p * pageBytes + pageBytes ≤ kPhysicalBytes ∨
        shadow.holds q = some c ∧
          (q = p → epoch ≠ shadow.epoch ∨ kPhysicalBytes < p * pageBytes + pageBytes) := by
  rcases hsize with rfl | hoff
  · exact holds_publish d.toList_length p epoch rfl
  · rw [publish_off hoff]
    exact ⟨rfl, rfl, fun q c hc => absurd hoff (holds_eq_some.1 hc).1⟩

/-- Publishing the pages of a run one by one, by induction on the run. -/
theorem publishRun_spec {shadow : UploadShadow}
    (hsize : shadow.pageBytes = pageBytes ∨ shadow.pageBytes = 0) (l : Loop) (epoch : ℕ)
    (run : List ℕ) :
    let t := publishRun s shadow l epoch run
    t.pageBytes = shadow.pageBytes ∧ t.epoch = shadow.epoch ∧
      ∀ q c, t.holds q = some c →
        q ∈ run ∧ c = (fromScratch s l q).toList ∧ epoch = shadow.epoch ∧
          q * pageBytes + pageBytes ≤ kPhysicalBytes ∨
        shadow.holds q = some c ∧
          (q ∈ run → epoch ≠ shadow.epoch ∨ kPhysicalBytes < q * pageBytes + pageBytes) := by
  induction run generalizing shadow with
  | nil => exact ⟨rfl, rfl, fun q c hc => .inr ⟨hc, fun h => absurd h List.not_mem_nil⟩⟩
  | cons p run ih =>
      obtain ⟨hbytes, hepoch, hholds⟩ := publish_page hsize p (fromScratch s l p) epoch
      obtain ⟨hbytes', hepoch', hholds'⟩ :=
        @ih (shadow.publish (p * pageBytes) (fromScratch s l p).toList epoch).2 (by omega)
      refine ⟨hbytes'.trans hbytes, hepoch'.trans hepoch, fun q c hc => ?_⟩
      rcases hholds' q c hc with ⟨hq, hc, he, hphysical⟩ | ⟨hq, hrefused⟩
      · exact .inl ⟨List.mem_cons_of_mem _ hq, hc, he.trans hepoch, hphysical⟩
      · rcases hholds q c hq with ⟨rfl, hc, he, hphysical⟩ | ⟨hq, hrefused'⟩
        · exact .inl ⟨List.mem_cons_self .., hc, he, hphysical⟩
        · refine .inr ⟨hq, fun hmem => ?_⟩
          rcases List.mem_cons.1 hmem with rfl | hmem
          · exact hrefused' rfl
          · rw [← hepoch]
            exact hrefused hmem

/-- Inspecting a chunk against the shadow keeps the invariant: a page that is skipped is one whose
data the shadow holds. -/
theorem Inv.inspect (h : Inv s) {l : Loop} (hcp : s.cp = .chunks l) {shadow : UploadShadow}
    (hshadow : s.shadow = some shadow) (hon : shadow.pageBytes ≠ 0) (direct : Bool) :
    Inv (inspect s shadow direct l) := by
  have a := h.shadow shadow hshadow
  have hflat : (changedRuns (changed s shadow) [] (l.chunk pageBytes)).flatten =
      (l.chunk pageBytes).filter (changed s shadow) := by
    rw [flatten_changedRuns, List.nil_append]
  have hmode : s.requested = true := h.mode true (by rw [hcp]; rfl)
  have hagrees : Agrees (Memory.inspect s shadow direct l) shadow := by
    refine { a with cleared := fun p hp => absurd hp List.not_mem_nil, queued := ?_, epoch := ?_ }
    · intro p b hb
      have := a.queued p b hb
      rw [hcp] at this
      exact .inr (this.resolve_left List.not_mem_nil)
    · intro l' epoch hl
      obtain ⟨rfl, rfl⟩ : l = l' ∧ shadow.epoch = epoch := by
        simpa [Memory.inspect, Point.capture] using hl
      exact .inl rfl
  constructor
  case buffer => exact h.buffer
  case shadow =>
    intro t ht
    obtain rfl : shadow = t := Option.some.inj (hshadow.symm.trans ht)
    exact hagrees
  case captures =>
    intro _ p d hp
    simp only [Memory.inspect, captureMem, Point.uncopied, hflat, List.mem_filter] at hp ⊢
    split at hp
    · rename_i hmem
      obtain rfl : s.mem p = d := Option.some.inj hp
      rcases Bool.eq_false_or_eq_true (changed s shadow p) with hchanged | hchanged
      · exact .inl ⟨hmem, hchanged⟩
      · -- The page matched what the shadow holds, which is what was queued.
        rw [changed, Bool.not_eq_false'] at hchanged
        obtain ⟨q, haddress, hq⟩ := holds_of_matches? hchanged
        have hsize : shadow.pageBytes = pageBytes := a.size.resolve_right hon
        rw [hsize] at haddress hon
        obtain rfl : p = q := Nat.eq_of_mul_eq_mul_right (Nat.pos_of_ne_zero hon) haddress
        have hqueued := a.queued p _ hq
        rw [hcp] at hqueued
        obtain ⟨d, hd, hlist⟩ := hqueued.resolve_left List.not_mem_nil
        rw [hd, List.Vector.toList_injective hlist]
        exact .inr rfl
    · have := h.captures (by rw [hcp]; rfl) p d hp
      rw [hcp] at this
      exact .inr (this.resolve_left List.not_mem_nil)
  case scratch =>
    intro l' epoch hl
    refine ⟨fun p hp => ?_, fun p hp => absurd hp List.not_mem_nil⟩
    obtain ⟨rfl, -⟩ : l = l' ∧ shadow.epoch = epoch := by
      simpa [Memory.inspect, Point.capture] using hl
    simp only [Memory.inspect, Point.uncopied, hflat, List.mem_filter] at hp
    have hindex : l.first + (p - l.first) = p := by
      have := List.mem_range'_1.1 hp.1
      omega
    simp [Memory.inspect, captureMem, fromScratch, fillScratch, hindex, hp.1, hp.2]
  case failed => exact h.failed
  case mode =>
    intro enabled he
    obtain rfl : true = enabled := Option.some.inj he
    exact hmode

/-- After a copy is queued and made, the buffer has what was last queued of every page. -/
theorem Inv.buffer_queueCopy (h : Inv s) {t : State pageBytes} (hqueued : t.queued = s.queued)
    (hbuffer : t.buffer = s.buffer) (pages : List ℕ) (data : ℕ → PageData pageBytes) (p : ℕ)
    (d : PageData pageBytes) (hp : (queueCopy t pages data).queued p = some d) :
    (queueCopy t pages data).buffer p = d := by
  simp only [queueCopy, hqueued, hbuffer] at hp ⊢
  split
  · rename_i hmem
    rw [if_pos hmem] at hp
    exact Option.some.inj hp
  · rename_i hmem
    rw [if_neg hmem] at hp
    exact h.buffer p d hp

/-- Queueing a copy of a captured run keeps it, the data having been captured before. -/
theorem Inv.copyRun (h : Inv s) {l : Loop} {epoch : ℕ} {run : List ℕ} {runs : List (List ℕ)}
    (hcp : s.cp = .captured l epoch (run :: runs)) :
    Inv { queueCopy s run (fromScratch s l) with cp := .copied l epoch run runs } := by
  obtain ⟨huncopied, -⟩ := h.scratch l epoch (by rw [hcp]; rfl)
  rw [hcp, Point.uncopied, List.flatten_cons] at huncopied
  constructor
  case buffer => exact h.buffer_queueCopy rfl rfl run (fromScratch s l)
  case shadow =>
    intro shadow hs
    have a := h.shadow shadow hs
    refine { a with
      cleared := fun p hp => absurd hp List.not_mem_nil
      queued := fun p b hb => ?_
      epoch := fun l' epoch' hl => a.epoch l' epoch' (by rw [hcp]; exact hl) }
    by_cases hmem : p ∈ run
    · exact .inl hmem
    · have := a.queued p b hb
      rw [hcp] at this
      simp only [queueCopy, if_neg hmem]
      exact .inr (this.resolve_left List.not_mem_nil)
  case captures =>
    intro _ p d hp
    have hold := h.captures (by rw [hcp]; rfl) p d hp
    rw [hcp, Point.uncopied, List.flatten_cons, List.mem_append] at hold
    simp only [queueCopy, Point.uncopied]
    by_cases hmem : p ∈ run
    · rw [if_pos hmem, ← huncopied p (List.mem_append_left _ hmem)]
      exact .inr hp
    · rw [if_neg hmem]
      exact hold.imp_left fun hor => hor.resolve_left hmem
  case scratch =>
    intro l' epoch' hl
    obtain ⟨rfl, -⟩ : l = l' ∧ epoch = epoch' := by simpa [Point.capture] using hl
    exact ⟨fun p hp => huncopied p (List.mem_append_right _ hp), fun p hp => if_pos hp⟩
  case failed => exact h.failed
  case mode => exact fun enabled he => h.mode enabled (by rw [hcp]; exact he)

/-- **A publication.**  Accepted, the shadow holds what was copied; refused, the
shadow has been reset since the capture and holds nothing for the page. -/
theorem Inv.publish (h : Inv s) {l : Loop} {epoch : ℕ} {run : List ℕ} {runs : List (List ℕ)}
    (hcp : s.cp = .copied l epoch run runs) :
    Inv { s with
      shadow := s.shadow.map (publishRun s · l epoch run)
      cp := .captured l epoch runs } := by
  obtain ⟨huncopied, hflight⟩ := h.scratch l epoch (by rw [hcp]; rfl)
  have hmode : s.requested = true := h.mode true (by rw [hcp]; rfl)
  constructor
  case buffer => exact h.buffer
  case shadow =>
    intro t ht
    obtain ⟨shadow, hs, rfl⟩ := Option.map_eq_some_iff.1 ht
    have a := h.shadow shadow hs
    have hepoch := a.epoch l epoch (by rw [hcp]; rfl)
    obtain ⟨hbytes, hsame, hholds⟩ := publishRun_spec (s := s) a.size l epoch run
    constructor
    case size => exact hbytes ▸ a.size
    case requested => exact fun _ _ _ => hmode
    case physical =>
      intro p b hb
      rcases hholds p b hb with ⟨-, -, -, hphysical⟩ | ⟨hold, -⟩
      · exact hphysical
      · exact a.physical p b hold
    case cleared => exact fun p hp => absurd hp List.not_mem_nil
    case queued =>
      refine fun p b hb => .inr ?_
      rcases hholds p b hb with ⟨hmem, rfl, -, -⟩ | ⟨hold, hrefused⟩
      · exact ⟨_, hflight p (by rw [hcp]; exact hmem), rfl⟩
      · have hqueued := a.queued p b hold
        rw [hcp] at hqueued
        refine hqueued.resolve_left fun hmem => ?_
        rcases hrefused hmem with hother | hbeyond
        · have := (hepoch.resolve_left (Ne.symm hother)) p
          rw [hold] at this
          exact Option.some_ne_none _ this
        · have := a.physical p b hold
          omega
    case epoch =>
      intro l' epoch' hl
      obtain ⟨rfl, rfl⟩ : l = l' ∧ epoch = epoch' := by simpa [Point.capture] using hl
      rw [hsame]
      by_cases heq : shadow.epoch = epoch
      · exact .inl heq
      · refine .inr fun p => ?_
        by_contra hne
        obtain ⟨b, hb⟩ := Option.ne_none_iff_exists'.1 hne
        rcases hholds p b hb with ⟨-, -, he, -⟩ | ⟨hold, -⟩
        · exact heq he.symm
        · rw [(hepoch.resolve_left heq) p] at hold
          exact Option.some_ne_none _ hold.symm
  case captures =>
    intro _ p d hp
    have hold := h.captures (by rw [hcp]; rfl) p d hp
    rwa [hcp] at hold
  case scratch =>
    intro l' epoch' hl
    obtain ⟨rfl, -⟩ : l = l' ∧ epoch = epoch' := by simpa [Point.capture] using hl
    exact ⟨fun p hp => huncopied p (by rw [hcp]; exact hp), fun p hp => absurd hp List.not_mem_nil⟩
  case failed => exact fun hf => by simp [h.failed hf]
  case mode => exact fun enabled he => h.mode enabled (by rw [hcp]; exact he)

/-- A copy of guest memory, of pages the shadow holds nothing for. -/
theorem Inv.copyMem (h : Inv s) {pages : List ℕ} {cp : Point} (hfrom : s.cp.Quiet)
    (hto : cp.Quiet) (hrequest : s.cp.inRequest = true)
    (hpages : ∀ p ∈ pages, p ∈ s.cp.cleared pageBytes)
    (hcleared : ∀ p ∈ cp.cleared pageBytes, p ∈ s.cp.cleared pageBytes)
    (hmode : ∀ enabled, cp.mode = some enabled → s.requested = enabled) :
    Inv { queueCopy (captureMem s pages) pages s.mem with cp } := by
  constructor
  case buffer => exact h.buffer_queueCopy rfl rfl pages s.mem
  case shadow =>
    intro shadow hs
    have a := h.shadow shadow hs
    refine { a with
      cleared := fun p hp => a.cleared p (hcleared p hp)
      queued := fun p b hb => .inr ?_
      epoch := fun l epoch hc => by simp [hto.capture] at hc }
    have hmem : p ∉ pages := fun hmem => by
      rw [a.cleared p (hpages p hmem)] at hb
      exact Option.some_ne_none _ hb.symm
    have := a.queued p b hb
    rw [hfrom.inFlight] at this
    simp only [queueCopy, captureMem, if_neg hmem]
    exact this.resolve_left List.not_mem_nil
  case captures =>
    refine fun _ p d hp => .inr ?_
    simp only [queueCopy, captureMem] at hp ⊢
    split
    · rename_i hmem
      rwa [if_pos hmem] at hp
    · rename_i hmem
      rw [if_neg hmem] at hp
      have := h.captures hrequest p d hp
      rw [hfrom.uncopied] at this
      exact this.resolve_left List.not_mem_nil
  case scratch => exact fun l epoch hc => by simp [hto.capture] at hc
  case failed => exact h.failed
  case mode => exact hmode

/-! ### GPU writes -/

/-- A write of the GPU keeps it, since its pages are invalidated before they are read again. -/
theorem Inv.gpuWrite (h : Inv s) (hcp : s.cp = .idle) (first last : ℕ)
    (contents : ℕ → PageData pageBytes) :
    Inv { s with
      cp := .gpuWritten first last
      queued := fun p => if p ∈ Span.cells (first, last) then none else s.queued p
      buffer := fun p => if p ∈ Span.cells (first, last) then contents p else s.buffer p } := by
  constructor
  case buffer =>
    intro p d hp
    simp only at hp ⊢
    split at hp
    · exact absurd hp.symm (Option.some_ne_none _)
    · rename_i hmem
      rw [if_neg hmem]
      exact h.buffer p d hp
  case shadow =>
    intro shadow hs
    have a := h.shadow shadow hs
    refine { a with
      cleared := fun p hp => absurd hp List.not_mem_nil
      queued := fun p b hb => ?_
      epoch := fun l epoch hc => absurd hc (Option.some_ne_none _).symm }
    by_cases hmem : p ∈ Span.cells (first, last)
    · exact .inl hmem
    · have := a.queued p b hb
      rw [hcp] at this
      simp only [if_neg hmem]
      exact .inr (this.resolve_left List.not_mem_nil)
  case captures => exact fun hr => absurd hr Bool.false_ne_true
  case scratch => exact fun l epoch hc => absurd hc (Option.some_ne_none _).symm
  case failed => exact h.failed
  case mode => exact fun enabled he => absurd he (Option.some_ne_none _).symm

/-- The watches of a GPU write take its pages out of the shadow. -/
theorem Inv.gpuFire (h : Inv s) {first last : ℕ} (hcp : s.cp = .gpuWritten first last) :
    Inv { fireWatches s first last true with cp := .gpuFired first last } := by
  have hfired := h.invalidated (first * pageBytes) (last * pageBytes + pageBytes - 1) true
    fun _ => by rw [hcp]; rfl
  have hpoint : (fireWatches s first last true).cp = .gpuWritten first last := by
    rw [fireWatches, uploadShadowInvalidated_cp, hcp]
  refine hfired.land ?_ ?_ ⟨rfl, rfl, rfl⟩ (fun hr => absurd hr Bool.false_ne_true)
    (fun p hp => absurd hp List.not_mem_nil) (fun enabled he => absurd he (Option.some_ne_none _).symm)
  · exact congrArg Point.uncopied hpoint
  · intro p hp t ht
    rw [show (uploadShadowInvalidated s _ _ true).cp = _ from hpoint] at hp
    obtain ⟨hfirst, hlast⟩ := Span.mem_cells.1 hp
    by_contra hne
    obtain ⟨b, hb⟩ := Option.ne_none_iff_exists'.1 hne
    have hpos := (holds_eq_some.1 hb).1
    have hsize := (hfired.shadow t ht).size
    have hphysical := (hfired.shadow t ht).physical p b hb
    rw [uploadShadowInvalidated] at ht
    split at ht
    · rename_i hnone
      simp [hnone] at ht
    · rename_i shadow hshadow
      have hinvalidate := holds_invalidate shadow (h.shadow shadow hshadow).size hfirst hlast
        (by omega)
      split_ifs at ht with hrequested hall
      · have := (h.shadow t ht).requested p b hb
        simp [this] at hrequested
      · obtain rfl : shadow.reset = t := Option.some.inj ht
        simp at hb
      · obtain rfl := Option.some.inj ht
        rw [hinvalidate] at hb
        exact Option.some_ne_none _ hb.symm
      · rename_i hfalse
        exact hfalse rfl

/-! ### All steps -/

/-- The pages of a list of ranges are those of its first and those of the others. -/
theorem pagesOf_cons (r : PageRange) (ranges : List PageRange) :
    pagesOf (r :: ranges) = List.range' r.1 r.2 ++ pagesOf ranges := by
  simp [pagesOf]

/-- An allocation of the upload buffer splits a range in two, and the pages are those of both parts. -/
theorem mem_pagesOf_split {first size length : ℕ} {rest : List PageRange} (hle : size ≤ length)
    {p : ℕ} :
    p ∈ pagesOf ((first, length) :: rest) ↔
      p ∈ List.range' first size ++ pagesOf ((first + size, length - size) :: rest) := by
  simp only [pagesOf_cons, List.mem_append, List.mem_range'_1]
  rw [← or_assoc]
  refine or_congr_left ?_
  omega

/-- A request starts with the ranges it was asked for, nothing of them inspected yet. -/
theorem Inv.enter (h : Inv s) (hcp : s.cp = .idle) (ranges : List PageRange) :
    Inv { s with cp := .entered ranges, captures := fun _ => none } := by
  refine { h with shadow := fun shadow hs => ?_, captures := nofun, scratch := nofun, mode := nofun }
  have a := h.shadow shadow hs
  refine { a with cleared := nofun, queued := fun p b hb => .inr ?_, epoch := nofun }
  have := a.queued p b hb
  rw [hcp] at this
  exact this.resolve_left List.not_mem_nil

/-- A new setting of the switch, taken over at the start of a request, keeps the invariant. -/
theorem Inv.setMode (h : Inv s) {ranges : List PageRange} (hcp : s.cp = .entered ranges)
    (enabled : Bool) : Inv { updateMode s enabled with cp := .modeSet enabled ranges } := by
  rw [updateMode]
  split
  · rename_i heq
    refine h.land (by rw [hcp]; rfl) (by simp [hcp, Point.inFlight]) ⟨rfl, rfl, rfl⟩
      (fun _ => by rw [hcp]; rfl) (fun p hp => absurd hp List.not_mem_nil) fun e he => ?_
    obtain rfl : enabled = e := Option.some.inj he
    exact heq.symm
  · have hcaptures := h.captures
    rw [hcp] at hcaptures
    refine { h with
      shadow := fun t ht => ?_
      captures := fun _ => hcaptures rfl
      scratch := fun l epoch hc => absurd hc (Option.some_ne_none _).symm
      failed := fun hf => absurd hf Bool.false_ne_true
      mode := fun e he => Option.some.inj he }
    obtain ⟨shadow, hs, rfl⟩ := Option.map_eq_some_iff.1 ht
    have hsize := (h.shadow shadow hs).size
    have hreset : shadow.reset.pageBytes = shadow.pageBytes ∨ shadow.reset.pageBytes = 0 :=
      pageBytes_advanceEpoch shadow
    exact
      { size := by omega
        requested := by simp
        physical := by simp
        cleared := by simp
        queued := by simp
        epoch := fun _ _ _ => .inr fun p => by simp }

/-- The shadow of a first use holds nothing, so nothing can be wrong about it. -/
theorem Inv.create (h : Inv s) {ranges : List PageRange} {shadow : UploadShadow}
    (hcp : s.cp = .modeSet true ranges) (hfailed : s.failed = false)
    (hshadow : initializeWith {} pageBytes kDefaultCapacityBytes = (true, shadow)) :
    Inv { s with shadow := some shadow, cp := .shadowReady ranges } := by
  have hcaptures := h.captures
  rw [hcp] at hcaptures
  obtain ⟨hsize, hholds⟩ := initializeWith_spec hshadow
  have hempty : ∀ {p b}, shadow.holds p ≠ some b := by
    intro p b hb
    rw [hholds] at hb
    exact Option.some_ne_none _ hb.symm
  constructor
  case buffer => exact h.buffer
  case shadow =>
    intro t ht
    obtain rfl : shadow = t := Option.some.inj ht
    exact
      { size := .inl hsize
        requested := fun p b hb => absurd hb hempty
        physical := fun p b hb => absurd hb hempty
        cleared := fun p hp => absurd hp List.not_mem_nil
        queued := fun p b hb => absurd hb hempty
        epoch := fun l epoch hc => absurd hc (Option.some_ne_none _).symm }
  case captures => exact fun _ => hcaptures rfl
  case scratch => exact fun l epoch hc => absurd hc (Option.some_ne_none _).symm
  case failed => exact fun hf => by simp [hfailed] at hf
  case mode =>
    intro e he
    obtain rfl : true = e := Option.some.inj he
    exact h.mode true (by rw [hcp]; rfl)

/-- Where the shadow is not used for a request, every page of it is copied. -/
theorem Inv.bypass (h : Inv s) (failed : Bool) {ranges : List PageRange} {enabled : Bool}
    (hcp : s.cp = .modeSet enabled ranges)
    (hnone : ∀ shadow, s.shadow = some shadow → ∀ p, shadow.holds p = none)
    (hfailed : failed = true → s.shadow = none) :
    Inv { s with failed, cp := .plain ranges } := by
  have hplain : Inv { s with cp := .plain ranges } :=
    h.land (by rw [hcp]; rfl) (by simp [hcp, Point.inFlight]) ⟨rfl, rfl, rfl⟩
      (fun _ => by rw [hcp]; rfl) (fun p _ shadow hs => hnone shadow hs p) (by simp [Point.mode])
  exact { hplain with
    shadow := fun shadow hs => { hplain.shadow shadow hs with }
    failed := hfailed }

/-- The command processor takes pages out of the shadow and goes on to `b`. -/
theorem Inv.forgetPages (h : Inv s) {a b : Point} (hcp : s.cp = a) (ha : a.Quiet) (hb : b.Quiet)
    (hrequest : b.inRequest = true → a.inRequest = true)
    (hmode : ∀ enabled, b.mode = some enabled → a.mode = some enabled)
    {shadow' : Option UploadShadow}
    (hs : ∀ t, shadow' = some t → ∃ shadow, s.shadow = some shadow ∧ Shrinks shadow t ∧
      (t.pageBytes = shadow.pageBytes ∨ t.pageBytes = 0) ∧
      ∀ p ∈ b.cleared pageBytes, t.holds p = none) :
    Inv { s with shadow := shadow', cp := b } := by
  subst hcp
  have hforget : Inv { s with shadow := shadow' } := h.forget fun t ht => by
    obtain ⟨shadow, hshadow, hshrinks, hbytes, -⟩ := hs t ht
    exact ⟨shadow, hshadow, hshrinks, hbytes, .inl ha.capture⟩
  refine hforget.land ha.uncopied (fun p hp => by simp [ha.inFlight] at hp) hb hrequest
    (fun p hp t ht => ?_) fun enabled he => h.mode enabled (hmode enabled he)
  obtain ⟨-, -, -, -, hcleared⟩ := hs t ht
  exact hcleared p hp

/-- **Every step keeps the invariant**, one case for each constructor of `Step`. -/
theorem Inv.step (h : Inv s) {t : State pageBytes} (hstep : Step pageBytes s t) : Inv t := by
  cases hstep with
  | cpuWrite p bytes => exact h.memory _ _ _
  | cpuInvalidated first last => exact (h.memory s.mem _ _).invalidated _ _ _ (by simp)
  | invalidateAll => exact (h.memory s.mem _ _).invalidated _ _ _ (by simp)
  | gpuWrite first last contents hcp => exact h.gpuWrite hcp first last contents
  | gpuFire hcp => exact h.gpuFire hcp
  | gpuValid hcp =>
      exact (h.next hcp rfl rfl (b := .idle) ⟨rfl, rfl, rfl⟩ nofun nofun nofun).memory s.mem _ _
  | endFrame hcp => exact h.memory s.mem s.gpuWritten s.gpuWritten
  | clearCache hcp => exact h.invalidated _ _ _ fun _ => by rw [hcp]; rfl
  | request ranges hcp hranges => exact h.enter hcp ranges
  | setMode enabled hcp => exact h.setMode hcp enabled
  | @modeOff enabled ranges hcp hoff =>
      refine h.bypass s.failed hcp (fun shadow hs p => ?_) h.failed
      by_contra hne
      obtain ⟨b, hb⟩ := Option.ne_none_iff_exists'.1 hne
      rcases hoff with rfl | hfailed
      · have := (h.shadow shadow hs).requested p b hb
        simp [h.mode false (by rw [hcp]; rfl)] at this
      · simp [h.failed hfailed] at hs
  | @modeKept ranges shadow hcp hfailed hshadow =>
      split
      · rename_i hoff
        refine h.bypass s.failed hcp (fun t ht p => ?_) h.failed
        obtain rfl : shadow = t := Option.some.inj (hshadow.symm.trans ht)
        exact holds_of_pageBytes_eq_zero hoff p
      · exact h.next hcp rfl rfl ⟨rfl, rfl, rfl⟩ (fun _ => rfl) nofun fun _ he => he
  | modeCreated hcp hfailed hnone hshadow => exact h.create hcp hfailed hshadow
  | modeFailed hcp hfailed hnone =>
      exact h.bypass true hcp (fun t ht => by simp [hnone] at ht) fun _ => hnone
  | start hcp hshadow => exact h.next hcp rfl rfl ⟨rfl, rfl, rfl⟩ (fun _ => rfl) nofun fun _ he => he
  | nextRange hcp hrest => exact h.next hcp rfl rfl ⟨rfl, rfl, rfl⟩ (fun _ => rfl) nofun fun _ he => he
  | @allocate l first length rest size hcp hrest hpos hle =>
      exact (h.next hcp rfl rfl ⟨rfl, rfl, rfl⟩ (b := .chunks _) (fun _ => rfl) nofun
        fun _ he => he).memory s.mem _ _
  | allocateFails hcp hrest hpos => exact h.next hcp rfl rfl ⟨rfl, rfl, rfl⟩ (fun _ => rfl) nofun nofun
  | chunksDone hcp hcount => exact h.next hcp rfl rfl ⟨rfl, rfl, rfl⟩ (fun _ => rfl) nofun fun _ he => he
  | visit direct hcp hcount hshadow hon hauth => exact h.inspect hcp hshadow hon direct
  | visitRefused hcp hcount hauth =>
      exact h.next hcp rfl rfl ⟨rfl, rfl, rfl⟩ (fun _ => rfl) nofun fun _ he => he
  | @forget l hcp =>
      refine h.forgetPages hcp (b := .forgotten l) ⟨rfl, rfl, rfl⟩ ⟨rfl, rfl, rfl⟩ (fun _ => rfl)
        (fun _ he => he) fun t ht => ?_
      obtain ⟨shadow, hs, rfl⟩ := Option.map_eq_some_iff.1 ht
      have a := h.shadow shadow hs
      exact ⟨shadow, hs, invalidateRange_spec a.size a.physical _⟩
  | copyRefused hcp =>
      exact h.copyMem (by rw [hcp]; exact ⟨rfl, rfl, rfl⟩) ⟨rfl, rfl, rfl⟩ (by rw [hcp]; rfl)
        (fun p hp => by rw [hcp]; exact hp) nofun fun e he => h.mode e (by rw [hcp]; exact he)
  | copyRun hcp => exact h.copyRun hcp
  | publish hcp => exact h.publish hcp
  | runsDone hcp => exact h.next hcp rfl rfl ⟨rfl, rfl, rfl⟩ (fun _ => rfl) nofun fun _ he => he
  | finish hcp hrest hshadow hepoch =>
      exact h.next hcp rfl rfl ⟨rfl, rfl, rfl⟩ (fun _ => rfl) nofun nofun
  | @retryFails l shadow hcp hrest hshadow hepoch =>
      refine h.forgetPages hcp (b := .returned false) ⟨rfl, rfl, rfl⟩ ⟨rfl, rfl, rfl⟩ (fun _ => rfl)
        nofun fun t ht => ?_
      obtain rfl : shadow.reset = t := Option.some.inj ht
      exact ⟨shadow, hshadow, fun p b hb => by simp at hb, pageBytes_advanceEpoch shadow, nofun⟩
  | @retry l shadow hcp hrest hshadow hepoch =>
      refine h.forgetPages hcp (b := .retrying l.ranges) ⟨rfl, rfl, rfl⟩ ⟨rfl, rfl, rfl⟩ (fun _ => rfl)
        nofun fun t ht => ?_
      obtain rfl := Option.some.inj ht
      have a := h.shadow shadow hshadow
      exact ⟨shadow, hshadow, foldl_invalidateRange a.size a.physical l.ranges⟩
  | retryScan uploads hcp huploads =>
      exact h.next hcp rfl rfl ⟨rfl, rfl, rfl⟩ (fun _ => rfl) (fun p hp => ((huploads p).1 hp).1) nofun
  | retryScanFails hcp => exact h.next hcp rfl rfl ⟨rfl, rfl, rfl⟩ (fun _ => rfl) nofun nofun
  | plainNextRange hcp =>
      refine h.next hcp rfl rfl ⟨rfl, rfl, rfl⟩ (fun _ => rfl) (fun p hp => ?_) nofun
      rw [Point.cleared, pagesOf_cons]
      exact List.mem_append_right _ hp
  | @plainAllocate first length rest size hcp hpos hle =>
      exact (h.next hcp rfl rfl ⟨rfl, rfl, rfl⟩ (b := .plainValid _ _ _) (fun _ => rfl)
        (fun p hp => (mem_pagesOf_split hle).2 hp) nofun).memory s.mem _ _
  | plainAllocateFails hcp hpos => exact h.next hcp rfl rfl ⟨rfl, rfl, rfl⟩ (fun _ => rfl) nofun nofun
  | plainCopy hcp =>
      exact h.copyMem (by rw [hcp]; exact ⟨rfl, rfl, rfl⟩) ⟨rfl, rfl, rfl⟩ (by rw [hcp]; rfl)
        (fun p hp => by rw [hcp]; exact List.mem_append_left _ hp)
        (fun p hp => by rw [hcp]; exact List.mem_append_right _ hp) nofun
  | plainDone hcp => exact h.next hcp rfl rfl ⟨rfl, rfl, rfl⟩ (fun _ => rfl) nofun nofun
  | leave hcp => exact h.next hcp rfl rfl ⟨rfl, rfl, rfl⟩ nofun nofun nofun

/-- The invariant holds of the initial states and is kept by every step. -/
theorem inductive_inv (pageBytes : ℕ) : (uploads pageBytes).Inductive Inv where
  init s := by
    rintro ⟨hcp, -, hfailed, hshadow, hclear⟩
    constructor
    case buffer => exact fun p d hp => by simp [(hclear p).2.2] at hp
    case shadow => exact fun shadow hs => by simp [hshadow] at hs
    case failed => exact fun _ => hshadow
    all_goals
      rw [hcp]
      nofun
  step _ _ h hstep := h.step hstep

/-- **The upload shadow is sound.**  In every reachable state, what the shadow
holds for a page is what was last queued for it, with no GPU write since, unless
the command processor is between a copy or a GPU write of the page and telling
the shadow.  When a request returns, the buffer has for every page it read,
copied or skipped, the bytes it read. -/
theorem uploadShadow_sound {pageBytes : ℕ} {s : State pageBytes}
    (h : (uploads pageBytes).Reachable s) :
    (∀ shadow, s.shadow = some shadow → ∀ p b, shadow.holds p = some b → p ∉ s.cp.inFlight →
      ∃ d, s.queued p = some d ∧ d.toList = b) ∧
    ∀ ok, s.cp = .returned ok → ∀ p d, s.captures p = some d → s.buffer p = d := by
  have hinv := h.invariant (inductive_inv pageBytes)
  refine ⟨fun shadow hs p b hb hflight => ?_, fun ok hcp p d hp => ?_⟩
  · exact ((hinv.shadow shadow hs).queued p b hb).resolve_left hflight
  · have hqueued := hinv.captures (by rw [hcp]; rfl) p d hp
    rw [hcp] at hqueued
    exact hinv.buffer p d (hqueued.resolve_left List.not_mem_nil)

/-! ### Between the copy and the publication -/

/-- The pages of a one-page allocation. -/
def firstPage (epoch : ℕ) : Loop where
  ranges := [(0, 1)]
  requestEpoch := epoch
  first := 0
  count := 1
  rest := [(1, 0)]

/-- The first page of memory is captured and compared with the shadow: it is the one run to copy, or there
is none. -/
theorem reach_captured {s : State pageBytes} {shadow : UploadShadow}
    (h : (uploads pageBytes).Reachable s) (hcp : s.cp = .shadowReady [(0, 1)])
    (hshadow : s.shadow = some shadow) (hon : shadow.pageBytes = pageBytes)
    (hsize : pageBytes = 4096) :
    ∃ t, (uploads pageBytes).Reachable t ∧
      t.cp = .captured (firstPage shadow.epoch) shadow.epoch
        (if shadow.matches? 0 (s.mem 0).toList then [] else [[0]]) ∧
      t.shadow = some shadow ∧
      (shadow.matches? 0 (s.mem 0).toList = false → fromScratch t (firstPage shadow.epoch) 0 = s.mem 0) ∧
      t.captures 0 = some (s.mem 0) ∧ t.mem = s.mem ∧ t.requested = s.requested ∧ t.failed = s.failed ∧
      t.gpuWritten 0 = false := by
  have hchunk : (firstPage shadow.epoch).chunk pageBytes = [0] := by
    rw [hsize]
    rfl
  have hchanged : ∀ t : State pageBytes, t.mem = s.mem →
      changed t shadow 0 = !shadow.matches? 0 (s.mem 0).toList := by
    intro t hmem
    rw [changed, hmem, Nat.zero_mul]
  have hruns : ∀ t : State pageBytes, t.mem = s.mem →
      changedRuns (changed t shadow) [] ((firstPage shadow.epoch).chunk pageBytes) =
        if shadow.matches? 0 (s.mem 0).toList then [] else [[0]] := by
    intro t hmem
    rw [hchunk, changedRuns, hchanged t hmem]
    cases shadow.matches? 0 (s.mem 0).toList with
    | true => rfl
    | false => rfl
  have hstart := h.tail (Step.start hcp hshadow)
  have hallocate := hstart.tail (Step.allocate 1 rfl rfl Nat.one_pos le_rfl)
  have hvisit := hallocate.tail (Step.visit true (l := firstPage shadow.epoch) rfl Nat.one_pos hshadow
    (by omega) (by
      rw [hchunk]
      simp [cpuAuthoritative, makeRangeValid, kBufferSize, hsize]))
  have hscratch : ∀ t : State pageBytes, t.mem = s.mem → shadow.matches? 0 (s.mem 0).toList = false →
      fillScratch t shadow true (firstPage shadow.epoch) 0 = s.mem 0 := by
    intro t hmem hmiss
    have hmember : (firstPage shadow.epoch).first + 0 ∈ (firstPage shadow.epoch).chunk pageBytes := by
      rw [hchunk]
      exact List.mem_singleton.2 rfl
    have hcopies : changed t shadow ((firstPage shadow.epoch).first + 0) = true := by
      show changed t shadow 0 = true
      rw [hchanged t hmem, hmiss]
      rfl
    rw [fillScratch, if_pos ⟨hmember, .inr hcopies⟩, hmem]
    rfl
  have hcaptures : ∀ t : State pageBytes, t.mem = s.mem →
      (captureMem t ((firstPage shadow.epoch).chunk pageBytes)).captures 0 = some (s.mem 0) := by
    intro t hmem
    show (if 0 ∈ (firstPage shadow.epoch).chunk pageBytes then some (t.mem 0) else t.captures 0) = _
    rw [hchunk, if_pos (List.mem_singleton.2 rfl), hmem]
  exact ⟨_, hvisit, congrArg (Point.captured _ _) (hruns _ rfl), hshadow, hscratch _ rfl, hcaptures _ rfl, rfl,
    rfl, rfl, rfl⟩

/-- The first page of memory is uploaded: the copy is recorded. -/
theorem reach_copied {s : State pageBytes} {shadow : UploadShadow}
    (h : (uploads pageBytes).Reachable s) (hcp : s.cp = .shadowReady [(0, 1)])
    (hshadow : s.shadow = some shadow) (hon : shadow.pageBytes = pageBytes)
    (hsize : pageBytes = 4096) (hmiss : shadow.holds 0 ≠ some (s.mem 0).toList) :
    ∃ t, (uploads pageBytes).Reachable t ∧
      t.cp = .copied (firstPage shadow.epoch) shadow.epoch [0] [] ∧
      t.shadow = some shadow ∧ fromScratch t (firstPage shadow.epoch) 0 = s.mem 0 ∧
      t.queued 0 = some (s.mem 0) ∧ t.requested = s.requested ∧ t.failed = s.failed ∧
      t.gpuWritten 0 = false ∧ t.mem = s.mem := by
  have hmatches : shadow.matches? 0 (s.mem 0).toList = false := by
    refine Bool.eq_false_iff.2 fun hmatch => hmiss ?_
    obtain ⟨p, haddress, hp⟩ := holds_of_matches? hmatch
    rw [eq_comm, Nat.mul_eq_zero] at haddress
    rwa [haddress.resolve_right (by omega)] at hp
  obtain ⟨t, ht, hcaptured, hshadow', hscratch, -, hmem, hrequested, hfailed, hgpu⟩ :=
    reach_captured h hcp hshadow hon hsize
  rw [hmatches, if_neg Bool.false_ne_true] at hcaptured
  have hcopy := ht.tail (Step.copyRun hcaptured)
  exact ⟨_, hcopy, rfl, hshadow', hscratch hmatches, congrArg some (hscratch hmatches), hrequested, hfailed, hgpu,
    hmem⟩

/-- Where nothing is left to copy, the request returns. -/
theorem reach_returned {s : State pageBytes} {shadow : UploadShadow} {epoch : ℕ}
    (h : (uploads pageBytes).Reachable s) (hcp : s.cp = .captured (firstPage epoch) epoch [])
    (hsize : pageBytes = 4096) (hshadow : s.shadow = some shadow) (hepoch : shadow.epoch = epoch) :
    (uploads pageBytes).Reachable { s with cp := .returned true } := by
  have hadvance : (firstPage epoch).advance pageBytes = { firstPage epoch with first := 1, count := 0 } := by
    rw [hsize]
    rfl
  have hdone := h.tail (Step.runsDone hcp)
  rw [hadvance] at hdone
  have hchunks := hdone.tail (Step.chunksDone rfl rfl)
  have hnext := hchunks.tail (Step.nextRange rfl rfl)
  exact hnext.tail (Step.finish rfl rfl hshadow hepoch)

/-- In the example the copy is published and the request returns. -/
theorem reach_idle {s : State pageBytes} {shadow : UploadShadow}
    (h : (uploads pageBytes).Reachable s)
    (hcp : s.cp = .copied (firstPage shadow.epoch) shadow.epoch [0] [])
    (hsize : pageBytes = 4096)
    (hshadow : s.shadow.map (publishRun s · (firstPage shadow.epoch) shadow.epoch [0]) = some shadow) :
    ∃ t, (uploads pageBytes).Reachable t ∧ t.cp = .idle ∧ t.shadow = some shadow ∧
      t.requested = s.requested ∧ t.failed = s.failed ∧ t.gpuWritten = s.gpuWritten ∧ t.mem = s.mem := by
  have hpublish := h.tail (Step.publish hcp)
  have hreturned := reach_returned hpublish rfl hsize hshadow rfl
  exact ⟨_, hreturned.tail (Step.leave rfl), rfl, hshadow, rfl, rfl, rfl, rfl⟩

/-- A request for the first page finds the shadow as the last one left it. -/
theorem reach_ready {s : State pageBytes} {shadow : UploadShadow}
    (h : (uploads pageBytes).Reachable s) (hcp : s.cp = .idle) (hshadow : s.shadow = some shadow)
    (hon : shadow.pageBytes ≠ 0) (hrequested : s.requested = true) (hfailed : s.failed = false)
    (hvalid : s.valid 0 = false) :
    ∃ t, (uploads pageBytes).Reachable t ∧ t.cp = .shadowReady [(0, 1)] ∧
      t.shadow = some shadow ∧ t.mem = s.mem := by
  have hrequest := h.tail (Step.request [(0, 1)] hcp fun p hp => by
    obtain rfl : p = 0 := by simpa [pagesOf] using hp
    exact hvalid)
  have hmode := hrequest.tail (Step.setMode true rfl)
  rw [updateMode, if_pos hrequested.symm] at hmode
  have hkept := hmode.tail (Step.modeKept rfl hfailed hshadow)
  rw [if_neg hon] at hkept
  exact ⟨_, hkept, rfl, hshadow, rfl⟩

def zeros : PageData 4096 := .replicate 4096 0
def ones : PageData 4096 := .replicate 4096 1

/-- The two pages of the witness differ. -/
theorem zeros_ne_ones : zeros.toList ≠ ones.toList := by
  rw [show zeros.toList = List.replicate 4096 0 from rfl,
    show ones.toList = List.replicate 4096 1 from rfl, Ne, List.replicate_inj]
  decide

/-- A process that uploads the first page of its memory. -/
theorem reach_first : ∃ (s : State 4096) (shadow : UploadShadow), (uploads 4096).Reachable s ∧
    s.cp = .shadowReady [(0, 1)] ∧ s.shadow = some shadow ∧ shadow.pageBytes = 4096 ∧
    (∀ p, shadow.holds p = none) ∧ s.mem = (fun _ => zeros) ∧ s.requested = true ∧
    s.failed = false := by
  obtain ⟨shadow, hcreated⟩ : ∃ shadow, UploadShadow.initializeWith {} 4096 kDefaultCapacityBytes =
      (true, shadow) := ⟨_, rfl⟩
  have hinit : (uploads 4096).Reachable
      { mem := fun _ => zeros, valid := fun _ => false, gpuWritten := fun _ => false
        requested := false, failed := false, shadow := none, scratch := fun _ => zeros
        cp := .idle, queued := fun _ => none, buffer := fun _ => zeros
        captures := fun _ => none } := .of_init ⟨rfl, rfl, rfl, rfl, fun _ => ⟨rfl, rfl, rfl⟩⟩
  have hrequest := hinit.tail (Step.request [(0, 1)] rfl fun _ _ => rfl)
  have hmode := hrequest.tail (Step.setMode true rfl)
  have hready := hmode.tail (Step.modeCreated rfl rfl rfl hcreated)
  obtain ⟨hsize, hempty⟩ := initializeWith_spec hcreated
  exact ⟨_, shadow, hready, rfl, rfl, hsize, hempty, rfl, rfl, rfl⟩

/-- A process that has uploaded the first page of its memory: the shadow holds its bytes. -/
theorem reach_uploaded : ∃ (s : State 4096) (shadow : UploadShadow), (uploads 4096).Reachable s ∧
    s.cp = .idle ∧ s.shadow = some shadow ∧ shadow.pageBytes = 4096 ∧
    shadow.holds 0 = some zeros.toList ∧ s.mem = (fun _ => zeros) ∧ s.requested = true ∧
    s.failed = false ∧ s.gpuWritten 0 = false := by
  obtain ⟨s, shadow₀, hs, hready, hshadow₀, hsize, hempty, hmem, hrequested, hfailed⟩ := reach_first
  obtain ⟨t, ht, hcp, hshadow, hscratch, -, hrequested', hfailed', hgpu, hmem'⟩ :=
    reach_copied hs hready hshadow₀ hsize rfl (by rw [hempty]; exact (Option.some_ne_none _).symm)
  rw [hmem] at hscratch
  obtain ⟨hsize₁, hepoch, -⟩ := publish_page (Or.inl hsize) 0 zeros shadow₀.epoch
  have hholds : (shadow₀.publish (0 * 4096) zeros.toList shadow₀.epoch).2.holds 0 =
      some zeros.toList := by
    have hself : (shadow₀.publish (0 * shadow₀.pageBytes) zeros.toList shadow₀.epoch).2.holds 0 =
        some zeros.toList :=
      holds_publish_self (by omega) (by rw [hsize]; exact zeros.toList_length)
        (by rw [hsize]; decide)
    rwa [hsize] at hself
  have hshadow₁ : t.shadow.map (publishRun t · (firstPage shadow₀.epoch) shadow₀.epoch [0]) =
      some (shadow₀.publish (0 * 4096) zeros.toList shadow₀.epoch).2 := by
    rw [hshadow]
    exact congrArg (fun d : PageData 4096 =>
      some (shadow₀.publish (0 * 4096) d.toList shadow₀.epoch).2) hscratch
  generalize (shadow₀.publish (0 * 4096) zeros.toList shadow₀.epoch).2 = shadow₁ at *
  rw [← hepoch] at hcp hshadow₁
  obtain ⟨u, hu, hidle, hshadow₂, hrequested₂, hfailed₂, hgpu₂, hmem₂⟩ := reach_idle ht hcp rfl hshadow₁
  exact ⟨u, shadow₁, hu, hidle, hshadow₂, hsize₁.trans hsize, hholds, hmem₂.trans (hmem'.trans hmem),
    hrequested₂.trans (hrequested'.trans hrequested), hfailed₂.trans (hfailed'.trans hfailed),
    (congrFun hgpu₂ 0).trans hgpu⟩

/-- The window: the second upload of a page is recorded, and until it is
published the shadow holds the bytes of the first. -/
theorem uploadShadow_window :
    ∃ (s : State 4096) (shadow : UploadShadow), (uploads 4096).Reachable s ∧
      s.shadow = some shadow ∧ shadow.holds 0 = some zeros.toList ∧ s.queued 0 = some ones := by
  obtain ⟨u, shadow, hu, hidle, hshadow, hsize, hholds, -, hrequested, hfailed, hgpu⟩ := reach_uploaded
  -- the guest writes the page, and the next frame uploads it again
  have hwritten := (hu.tail (Step.cpuWrite _ 0 ones)).tail (Step.endFrame hidle)
  obtain ⟨v, hv, hready, hshadow', hmem⟩ := reach_ready hwritten hidle hshadow (by omega) hrequested
    hfailed hgpu
  have hpage : v.mem 0 = ones := by
    rw [hmem]
    exact Function.update_self 0 ones u.mem
  obtain ⟨w, hw, -, hshadow'', -, hqueued, -⟩ := reach_copied hv hready hshadow' hsize rfl (by
    rw [hholds, hpage]
    exact fun he => zeros_ne_ones (Option.some.inj he))
  exact ⟨w, shadow, hw, hshadow'', hholds, hqueued.trans (congrArg some hpage)⟩

/-- The hypothesis is satisfiable, and both conclusions speak of a page: its first upload was published, the
next request for it has found its bytes in the shadow, copied nothing and returned. -/
theorem uploadShadow_sound_skipped : ∃ (s : State 4096) (shadow : UploadShadow), (uploads 4096).Reachable s ∧
    s.cp = .returned true ∧ s.shadow = some shadow ∧ shadow.holds 0 = some zeros.toList ∧
    (∃ d, s.queued 0 = some d ∧ d.toList = zeros.toList) ∧ s.captures 0 = some zeros ∧ s.buffer 0 = zeros := by
  obtain ⟨u, shadow, hu, hidle, hshadow, hsize, hholds, hmem, hrequested, hfailed, hgpu⟩ := reach_uploaded
  obtain ⟨v, hv, hready, hshadow', hmem'⟩ := reach_ready (hu.tail (Step.endFrame hidle)) hidle hshadow
    (by omega) hrequested hfailed hgpu
  have hpage : v.mem 0 = zeros := congrFun (hmem'.trans hmem) 0
  have hmatches : shadow.matches? 0 (v.mem 0).toList = true := by
    rw [hpage]
    have hhit := matches?_of_holds (by rw [hsize]; decide) (zeros.toList_length.trans hsize.symm) hholds
    rwa [Nat.zero_mul] at hhit
  obtain ⟨w, hw, hcaptured, hshadow'', -, hcaptures, -⟩ := reach_captured hv hready hshadow' hsize rfl
  rw [hmatches, if_pos rfl] at hcaptured
  have hreturned := reach_returned hw hcaptured rfl hshadow'' rfl
  obtain ⟨hqueued, hbuffer⟩ := uploadShadow_sound hreturned
  have hcaptures' := hcaptures.trans (congrArg some hpage)
  exact ⟨_, shadow, hreturned, rfl, hshadow'', hholds, hqueued shadow hshadow'' 0 _ hholds List.not_mem_nil,
    hcaptures', hbuffer true rfl 0 zeros hcaptures'⟩

end Memory
end BoltsRebuilt
