/-
# The upload shadow

`src/gpu/native/native_upload_shadow.h` and `.cpp`: `NativeUploadShadow`.

The shadow keeps, for a bounded number of pages, the bytes of the last upload
queued for each.  Slots are handed out in turn, and a page that takes the slot
of another evicts it.  Every invalidation advances the epoch, and a publication
that carries an older epoch is refused: its bytes were captured before.

`holds` is what the shadow says about a page.  Each operation has one lemma for
it: `holds_reset`, `holds_invalidate`, `holds_publish`.
-/

import BoltsRebuilt.Lib.Spans
import Mathlib.Logic.Function.Basic

namespace BoltsRebuilt
namespace Memory

def kPhysicalBytes : ℕ := 2 ^ 29
def kSnapshotBytes : ℕ := 2 ^ 16
def kDefaultCapacityBytes : ℕ := 2 ^ 26

/-- The largest `uint64_t`, where the epoch stops. -/
def epochMax : ℕ := 2 ^ 64 - 1

/-- `NativeUploadShadow::Slot`; no page is `kAbsent`. -/
structure Slot where
  page : Option ℕ := none
  valid : Bool := false

/-- `NativeUploadShadow`.  The arrays are functions, `slotCount` is the size of
`slots_`, and `bytes k` is the part of `bytes_` that belongs to slot `k`. -/
structure UploadShadow where
  pageBytes : ℕ := 0
  nextSlot : ℕ := 0
  epoch : ℕ := 1
  evictions : ℕ := 0
  pageToSlot : ℕ → Option ℕ := fun _ => none
  slotCount : ℕ := 0
  slots : ℕ → Slot := fun _ => {}
  bytes : ℕ → List UInt8 := fun _ => []

namespace UploadShadow

/-- `AdvanceEpoch`: at the last epoch the shadow is switched off instead. -/
def advanceEpoch (s : UploadShadow) : UploadShadow :=
  if s.epoch = epochMax then { s with pageBytes := 0 } else { s with epoch := s.epoch + 1 }

/-- `Initialize`, when the allocations succeed. -/
def initializeWith (s : UploadShadow) (pageBytes capacityBytes : ℕ) : Bool × UploadShadow :=
  let cleared : UploadShadow :=
    { s.advanceEpoch with
      pageBytes := 0, pageToSlot := fun _ => none, slotCount := 0, slots := fun _ => {},
      bytes := fun _ => [] }
  if s.epoch = epochMax ∨ pageBytes < 4096 ∨ pageBytes &&& (pageBytes - 1) ≠ 0 ∨
      kSnapshotBytes < pageBytes ∨ kSnapshotBytes % pageBytes ≠ 0 ∨
      kPhysicalBytes % pageBytes ≠ 0 ∨ capacityBytes < pageBytes ∨
      capacityBytes % pageBytes ≠ 0 ∨ kPhysicalBytes < capacityBytes then (false, cleared)
  else
    (true, { cleared with
      pageBytes, slotCount := capacityBytes / pageBytes, nextSlot := 0, evictions := 0 })

/-- `Reset`. -/
def reset (s : UploadShadow) : UploadShadow :=
  { s.advanceEpoch with pageToSlot := fun _ => none, slots := fun _ => {}, nextSlot := 0 }

/-- `Invalidate` for one page. -/
def invalidatePage (s : UploadShadow) (page : ℕ) : UploadShadow :=
  match s.pageToSlot page with
  | none => s
  | some slot =>
      if (s.slots slot).page = some page then
        { s with slots := Function.update s.slots slot { s.slots slot with valid := false } }
      else s

/-- `Invalidate`, with inclusive byte addresses. -/
def invalidate (s : UploadShadow) (first last : ℕ) : UploadShadow :=
  let s := s.advanceEpoch
  if s.pageBytes = 0 ∨ last < first ∨ kPhysicalBytes ≤ first then s
  else
    (Span.cells (first / s.pageBytes, min last (kPhysicalBytes - 1) / s.pageBytes)).foldl
      invalidatePage s

/-- `GetPage`. -/
def getPage (s : UploadShadow) (address size : ℕ) : Option ℕ :=
  if s.pageBytes = 0 ∨ size ≠ s.pageBytes ∨ address % s.pageBytes ≠ 0 ∨
      kPhysicalBytes ≤ address ∨ kPhysicalBytes - address < size then none
  else some (address / s.pageBytes)

/-- `Matches`. -/
def matches? (s : UploadShadow) (address : ℕ) (bytes : List UInt8) : Bool :=
  match s.getPage address bytes.length with
  | none => false
  | some page =>
      match s.pageToSlot page with
      | none => false
      | some slot =>
          (s.slots slot).valid && (s.slots slot).page == some page && bytes == s.bytes slot

/-- `Publish` where the page has no slot: the next slot in turn, taken from the
page that has it. -/
def takeSlot (s : UploadShadow) (page : ℕ) : ℕ × UploadShadow :=
  let slot := s.nextSlot
  let s := { s with nextSlot := if slot + 1 = s.slotCount then 0 else slot + 1 }
  let s :=
    match (s.slots slot).page with
    | none => s
    | some previous =>
        if s.pageToSlot previous = some slot then
          { s with
            pageToSlot := Function.update s.pageToSlot previous none
            evictions := s.evictions + 1 }
        else s
  (slot, { s with
    pageToSlot := Function.update s.pageToSlot page (some slot)
    slots := Function.update s.slots slot { s.slots slot with page := some page } })

/-- `Publish`: the slot for a page. -/
def slotFor (s : UploadShadow) (page : ℕ) : ℕ × UploadShadow :=
  match s.pageToSlot page with
  | none => s.takeSlot page
  | some slot => if (s.slots slot).page = some page then (slot, s) else s.takeSlot page

/-- `Publish`: the bytes go into the slot and it becomes valid. -/
def fill (s : UploadShadow) (slot : ℕ) (bytes : List UInt8) : UploadShadow :=
  { s with
    bytes := Function.update s.bytes slot bytes
    slots := Function.update s.slots slot { s.slots slot with valid := true } }

/-- `Publish`. -/
def publish (s : UploadShadow) (address : ℕ) (bytes : List UInt8) (capturedEpoch : ℕ) :
    Bool × UploadShadow :=
  if capturedEpoch ≠ s.epoch then (false, s)
  else
    match s.getPage address bytes.length with
    | none => (false, s)
    | some page => (true, (s.slotFor page).2.fill (s.slotFor page).1 bytes)

/-! ### What the shadow says about a page -/

/-- The bytes the shadow would match for a page. -/
def holds (s : UploadShadow) (page : ℕ) : Option (List UInt8) :=
  if s.pageBytes = 0 then none
  else
    match s.pageToSlot page with
    | none => none
    | some slot =>
        if (s.slots slot).valid ∧ (s.slots slot).page = some page then some (s.bytes slot)
        else none

/-- A shadow holds bytes for a page exactly when it is on and the page's slot is valid, is this
page's and has these bytes. -/
theorem holds_eq_some {s : UploadShadow} {page : ℕ} {b : List UInt8} :
    s.holds page = some b ↔ s.pageBytes ≠ 0 ∧ ∃ slot, s.pageToSlot page = some slot ∧
      (s.slots slot).valid = true ∧ (s.slots slot).page = some page ∧ s.bytes slot = b := by
  rw [holds]
  split
  · rename_i h
    simp [h]
  · rename_i h
    cases hslot : s.pageToSlot page <;> simp [h, and_assoc]

/-- Nothing the shadow holds is new. -/
def Shrinks (s t : UploadShadow) : Prop := ∀ page b, t.holds page = some b → s.holds page = some b

/-- Losing pages twice is losing pages. -/
theorem Shrinks.trans {s t u : UploadShadow} (h₁ : Shrinks s t) (h₂ : Shrinks t u) : Shrinks s u :=
  fun page b h => h₁ page b (h₂ page b h)

/-- A page that was not held is not held after pages were lost. -/
theorem Shrinks.none {s t : UploadShadow} (h : Shrinks s t) {page : ℕ} (hs : s.holds page = none) :
    t.holds page = none := by
  by_contra hne
  obtain ⟨b, hb⟩ := Option.ne_none_iff_exists'.1 hne
  rw [h page b hb] at hs
  exact Option.some_ne_none _ hs

/-- Advancing the epoch gains no page; it loses all of them where it switches the shadow off. -/
theorem shrinks_advanceEpoch (s : UploadShadow) : Shrinks s s.advanceEpoch := by
  intro page b h
  rw [advanceEpoch] at h
  split at h
  · simp [holds] at h
  · exact h

/-- Nothing is held after a reset. -/
@[simp] theorem holds_reset (s : UploadShadow) (page : ℕ) : s.reset.holds page = none := by
  rw [holds]
  split <;> rfl

/-- Advancing the epoch leaves the page size or switches the shadow off. -/
theorem pageBytes_advanceEpoch (s : UploadShadow) :
    s.advanceEpoch.pageBytes = s.pageBytes ∨ s.advanceEpoch.pageBytes = 0 := by
  rw [advanceEpoch]
  split <;> simp

/-- Invalidating a page loses pages and gains none. -/
theorem shrinks_invalidatePage (s : UploadShadow) (page : ℕ) : Shrinks s (s.invalidatePage page) := by
  intro q b h
  rw [invalidatePage] at h
  split at h
  · exact h
  · rename_i slot hslot
    split at h
    · obtain ⟨hpb, slot', hs, hv, hp, hb⟩ := holds_eq_some.1 h
      rcases eq_or_ne slot' slot with rfl | hne
      · simp at hv
      · simp only [Function.update_of_ne hne] at hv hp
        exact holds_eq_some.2 ⟨hpb, slot', hs, hv, hp, hb⟩
    · exact h

/-- The page that was invalidated is not held. -/
theorem holds_invalidatePage (s : UploadShadow) (page : ℕ) :
    (s.invalidatePage page).holds page = none := by
  rw [invalidatePage]
  split
  · rename_i hslot
    simp [holds, hslot]
  · rename_i slot hslot
    split
    · simp [holds, hslot]
    · rename_i hpage
      simp [holds, hslot, hpage]

/-- Invalidating a page changes neither the page size nor the epoch. -/
theorem invalidatePage_fields (s : UploadShadow) (page : ℕ) :
    (s.invalidatePage page).pageBytes = s.pageBytes ∧ (s.invalidatePage page).epoch = s.epoch := by
  rw [invalidatePage]
  split
  · exact ⟨rfl, rfl⟩
  · split <;> exact ⟨rfl, rfl⟩

/-- Invalidating pages one by one loses each of them, by induction on the list. -/
theorem foldl_invalidatePage (pages : List ℕ) (s : UploadShadow) :
    Shrinks s (pages.foldl invalidatePage s) ∧
      (∀ page ∈ pages, (pages.foldl invalidatePage s).holds page = none) ∧
      (pages.foldl invalidatePage s).pageBytes = s.pageBytes ∧
      (pages.foldl invalidatePage s).epoch = s.epoch := by
  induction pages generalizing s with
  | nil => exact ⟨fun _ _ h => h, by simp, rfl, rfl⟩
  | cons page pages ih =>
      obtain ⟨hshrinks, hnone, hbytes, hepoch⟩ := ih (s.invalidatePage page)
      obtain ⟨hb, he⟩ := invalidatePage_fields s page
      refine ⟨(shrinks_invalidatePage s page).trans hshrinks, fun q hq => ?_,
        hbytes.trans hb, hepoch.trans he⟩
      rcases List.mem_cons.1 hq with rfl | hq
      · exact hshrinks.none (holds_invalidatePage s q)
      · exact hnone q hq

/-- Invalidating a range leaves the page size or switches the shadow off. -/
theorem pageBytes_invalidate (s : UploadShadow) (first last : ℕ) :
    (s.invalidate first last).pageBytes = s.pageBytes ∨ (s.invalidate first last).pageBytes = 0 := by
  rw [invalidate]
  split
  · exact pageBytes_advanceEpoch s
  · rw [(foldl_invalidatePage _ _).2.2.1]
    exact pageBytes_advanceEpoch s

/-- Invalidating a range loses pages and gains none. -/
theorem shrinks_invalidate (s : UploadShadow) (first last : ℕ) :
    Shrinks s (s.invalidate first last) := by
  rw [invalidate]
  split
  · exact shrinks_advanceEpoch s
  · exact (shrinks_advanceEpoch s).trans (foldl_invalidatePage _ _).1

/-- A shadow that is off holds nothing. -/
theorem holds_of_pageBytes_eq_zero {s : UploadShadow} (h : s.pageBytes = 0) (page : ℕ) :
    s.holds page = none := by
  rw [holds, if_pos h]

/-- `Invalidate` forgets the pages it is given, as long as they are physical. -/
theorem holds_invalidate (s : UploadShadow) {pageBytes : ℕ}
    (hbytes : s.pageBytes = pageBytes ∨ s.pageBytes = 0) {first last page : ℕ}
    (hfirst : first ≤ page) (hlast : page ≤ last) (hphysical : page * pageBytes < kPhysicalBytes) :
    (s.invalidate (first * pageBytes) (last * pageBytes + pageBytes - 1)).holds page = none := by
  rw [invalidate]
  have hadvance : s.advanceEpoch.pageBytes = pageBytes ∨ s.advanceEpoch.pageBytes = 0 := by
    have := pageBytes_advanceEpoch s
    omega
  rcases hadvance with hadvance | hadvance
  · rcases Nat.eq_zero_or_pos pageBytes with hzero | hpos
    · rw [if_pos (.inl (hadvance.trans hzero)), holds_of_pageBytes_eq_zero (hadvance.trans hzero)]
    · have hle : first * pageBytes ≤ page * pageBytes := Nat.mul_le_mul_right _ hfirst
      have hle' : page * pageBytes ≤ last * pageBytes := Nat.mul_le_mul_right _ hlast
      rw [hadvance, if_neg (by omega)]
      refine (foldl_invalidatePage _ _).2.1 page (Span.mem_cells.2 ⟨?_, ?_⟩)
      · rwa [Nat.mul_div_cancel _ hpos]
      · rw [Nat.le_div_iff_mul_le hpos]
        omega
  · rw [if_pos (.inl hadvance), holds_of_pageBytes_eq_zero hadvance]

/-- The page of a request is the one that starts at its address, inside physical memory. -/
theorem getPage_eq_some {s : UploadShadow} {address size page : ℕ}
    (h : s.getPage address size = some page) :
    s.pageBytes ≠ 0 ∧ address = page * s.pageBytes ∧ address + s.pageBytes ≤ kPhysicalBytes := by
  rw [getPage] at h
  split at h
  · exact absurd h (by simp)
  · obtain rfl : address / s.pageBytes = page := by simpa using h
    have hdvd : s.pageBytes ∣ address := Nat.dvd_of_mod_eq_zero (by omega)
    exact ⟨by omega, (Nat.div_mul_cancel hdvd).symm, by omega⟩

/-- A page of physical memory is one the shadow takes. -/
theorem getPage_page {s : UploadShadow} (hpb : s.pageBytes ≠ 0) {page : ℕ}
    (h : page * s.pageBytes + s.pageBytes ≤ kPhysicalBytes) :
    s.getPage (page * s.pageBytes) s.pageBytes = some page := by
  rw [getPage, if_neg, Nat.mul_div_cancel _ (Nat.pos_of_ne_zero hpb)]
  rw [Nat.mul_mod_left]
  omega

/-- A match is a match of what the shadow holds. -/
theorem holds_of_matches? {s : UploadShadow} {address : ℕ} {b : List UInt8}
    (h : s.matches? address b = true) :
    ∃ page, address = page * s.pageBytes ∧ s.holds page = some b := by
  rw [matches?] at h
  split at h
  · simp at h
  · rename_i page hpage
    obtain ⟨hpb, haddress, -⟩ := getPage_eq_some hpage
    split at h
    · simp at h
    · rename_i slot hslot
      simp only [Bool.and_eq_true, beq_iff_eq] at h
      exact ⟨page, haddress, holds_eq_some.2 ⟨hpb, slot, hslot, h.1.1, h.1.2, h.2.symm⟩⟩

/-- The bytes the shadow holds for a page match it. -/
theorem matches?_of_holds {s : UploadShadow} {page : ℕ} {b : List UInt8}
    (hpage : page * s.pageBytes + s.pageBytes ≤ kPhysicalBytes) (hb : b.length = s.pageBytes)
    (h : s.holds page = some b) : s.matches? (page * s.pageBytes) b = true := by
  obtain ⟨hpb, slot, hslot, hvalid, hof, rfl⟩ := holds_eq_some.1 h
  rw [matches?, hb, getPage_page hpb hpage]
  simp [hslot, hvalid, hof]

/-- Taking the slot of a page forgets at most the page that had it. -/
theorem forget_previous (s : UploadShadow) (slot : ℕ) :
    let t := match (s.slots slot).page with
      | none => s
      | some previous =>
          if s.pageToSlot previous = some slot then
            { s with
              pageToSlot := Function.update s.pageToSlot previous none
              evictions := s.evictions + 1 }
          else s
    t.slots = s.slots ∧ t.bytes = s.bytes ∧ t.pageBytes = s.pageBytes ∧ t.epoch = s.epoch ∧
      ∀ q k, t.pageToSlot q = some k → s.pageToSlot q = some k := by
  cases (s.slots slot).page with
  | none => exact ⟨rfl, rfl, rfl, rfl, fun _ _ h => h⟩
  | some previous =>
      simp only
      split
      · refine ⟨rfl, rfl, rfl, rfl, fun q k h => ?_⟩
        rcases eq_or_ne q previous with rfl | hne
        · simp at h
        · simpa only [Function.update_of_ne hne] using h
      · exact ⟨rfl, rfl, rfl, rfl, fun _ _ h => h⟩

/-- What the slot for a page leaves: it belongs to the page, and every other
page that still has a slot has its own as before. -/
structure SlotFor (s t : UploadShadow) (page slot : ℕ) : Prop where
  mapped : t.pageToSlot page = some slot
  owned : (t.slots slot).page = some page
  bytes : t.bytes = s.bytes
  pageBytes : t.pageBytes = s.pageBytes
  epoch : t.epoch = s.epoch
  others : ∀ q ≠ page, ∀ k, t.pageToSlot q = some k → (t.slots k).page = some q →
    k ≠ slot ∧ s.pageToSlot q = some k ∧ t.slots k = s.slots k

/-- Taking a slot for a page evicts at most one other page and keeps the bytes of all others. -/
theorem takeSlot_spec (s : UploadShadow) (page : ℕ) :
    SlotFor s (s.takeSlot page).2 page (s.takeSlot page).1 := by
  obtain ⟨hslots, hbytes, hpb, hepoch, hmap⟩ := forget_previous
    { s with nextSlot := if s.nextSlot + 1 = s.slotCount then 0 else s.nextSlot + 1 } s.nextSlot
  refine ⟨Function.update_self .., by simp [takeSlot], hbytes, hpb, hepoch, fun q hq k hk hown => ?_⟩
  have hne : k ≠ s.nextSlot := by
    rintro rfl
    refine hq ?_
    simpa [takeSlot] using hown.symm
  simp only [takeSlot, Function.update_of_ne hq] at hk
  refine ⟨hne, hmap q k hk, ?_⟩
  simp only [takeSlot, Function.update_of_ne hne]
  rw [hslots]

/-- The slot for a page is the one it has or one taken for it. -/
theorem slotFor_spec (s : UploadShadow) (page : ℕ) :
    SlotFor s (s.slotFor page).2 page (s.slotFor page).1 := by
  rw [slotFor]
  split
  · exact takeSlot_spec s page
  · rename_i slot hslot
    split
    · rename_i hown
      refine ⟨hslot, hown, rfl, rfl, rfl, fun q hq k hk hk' => ⟨?_, hk, rfl⟩⟩
      rintro rfl
      rw [hown] at hk'
      exact hq (Option.some.inj hk').symm
    · exact takeSlot_spec s page

/-- Filling its slot makes the shadow hold the page's bytes. -/
theorem SlotFor.holds_fill {s t : UploadShadow} {page slot : ℕ} (h : SlotFor s t page slot)
    (hpb : s.pageBytes ≠ 0) (b : List UInt8) : (t.fill slot b).holds page = some b := by
  refine holds_eq_some.2 ⟨h.pageBytes ▸ hpb, slot, h.mapped, ?_⟩
  simp [fill, h.owned]

/-- Filling the slot found for a page changes what is held for that page alone. -/
theorem SlotFor.holds_of_fill {s t : UploadShadow} {page slot : ℕ} (h : SlotFor s t page slot)
    {q : ℕ} (hq : q ≠ page) {b c : List UInt8} (hc : (t.fill slot b).holds q = some c) :
    s.holds q = some c := by
  obtain ⟨hpb, k, hk, hvalid, hown, hbytes⟩ := holds_eq_some.1 hc
  have hne : k ≠ slot := by
    rintro rfl
    refine hq ?_
    simpa [fill, h.owned] using hown.symm
  simp only [fill, Function.update_of_ne hne] at hvalid hown hbytes
  obtain ⟨-, hmap, hslot⟩ := h.others q hq k hk hown
  rw [hslot] at hvalid hown
  rw [h.bytes] at hbytes
  exact holds_eq_some.2 ⟨h.pageBytes ▸ hpb, k, hmap, hvalid, hown, hbytes⟩

/-- Publishing to a shadow that is off changes nothing. -/
theorem publish_off {s : UploadShadow} (h : s.pageBytes = 0) (address : ℕ) (b : List UInt8)
    (capturedEpoch : ℕ) : (s.publish address b capturedEpoch).2 = s := by
  have hpage : s.getPage address b.length = none := if_pos (.inl h)
  rw [publish, hpage]
  split <;> rfl

/-- **`Publish`.**  What the shadow holds afterwards is the new bytes, or was held
before; and a page it held before keeps old bytes only where it was refused, for
its epoch or because it is not physical memory. -/
theorem holds_publish {s : UploadShadow} {b : List UInt8} (hb : b.length = s.pageBytes)
    (page capturedEpoch : ℕ) {t : UploadShadow}
    (ht : (s.publish (page * s.pageBytes) b capturedEpoch).2 = t) :
    t.pageBytes = s.pageBytes ∧ t.epoch = s.epoch ∧
      ∀ q c, t.holds q = some c →
        q = page ∧ c = b ∧ capturedEpoch = s.epoch ∧
          page * s.pageBytes + s.pageBytes ≤ kPhysicalBytes ∨
        s.holds q = some c ∧ (q = page → capturedEpoch ≠ s.epoch ∨
          kPhysicalBytes < page * s.pageBytes + s.pageBytes) := by
  rw [publish] at ht
  split at ht
  · rename_i hepoch
    subst ht
    exact ⟨rfl, rfl, fun q c hc => .inr ⟨hc, fun _ => .inl hepoch⟩⟩
  · rename_i hepoch
    split at ht
    · rename_i hnone
      subst ht
      refine ⟨rfl, rfl, fun q c hc => .inr ⟨hc, fun _ => .inr ?_⟩⟩
      have hpb := (holds_eq_some.1 hc).1
      by_contra hle
      rw [hb, getPage_page hpb (not_lt.1 hle)] at hnone
      exact Option.some_ne_none _ hnone
    · rename_i found hfound
      subst ht
      obtain ⟨hpb, haddress, hphysical⟩ := getPage_eq_some hfound
      obtain rfl : page = found := Nat.eq_of_mul_eq_mul_right (Nat.pos_of_ne_zero hpb) haddress
      have hspec := slotFor_spec s page
      refine ⟨hspec.pageBytes, hspec.epoch, fun q c hc => ?_⟩
      rcases eq_or_ne q page with rfl | hq
      · have : some b = some c := (hspec.holds_fill hpb b).symm.trans hc
        exact .inl ⟨rfl, (Option.some.inj this).symm, not_not.1 hepoch, hphysical⟩
      · exact .inr ⟨hspec.holds_of_fill hq hc, fun h => absurd h hq⟩

/-- A publication of a page of physical memory in the current epoch. -/
theorem holds_publish_self {s : UploadShadow} (hpb : s.pageBytes ≠ 0) {b : List UInt8}
    (hb : b.length = s.pageBytes) {page : ℕ}
    (hphysical : page * s.pageBytes + s.pageBytes ≤ kPhysicalBytes) :
    (s.publish (page * s.pageBytes) b s.epoch).2.holds page = some b := by
  rw [publish, if_neg (not_not.2 rfl), hb, getPage_page hpb hphysical]
  exact (slotFor_spec s page).holds_fill hpb b

/-- A new shadow that is on has the page size it was given, and holds nothing. -/
theorem initializeWith_spec {s t : UploadShadow} {pageBytes capacityBytes : ℕ}
    (h : s.initializeWith pageBytes capacityBytes = (true, t)) :
    t.pageBytes = pageBytes ∧ ∀ page, t.holds page = none := by
  rw [initializeWith] at h
  split at h
  · simp at h
  · obtain rfl := (Prod.mk.inj h).2
    refine ⟨rfl, fun page => ?_⟩
    rw [holds]
    split <;> rfl

end UploadShadow
end Memory
end BoltsRebuilt
