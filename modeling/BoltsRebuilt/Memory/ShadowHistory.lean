/-
# The history law of the upload shadow

`src/gpu/native/native_upload_shadow.h` and `.cpp`: `NativeUploadShadow` under any
sequence of calls.

`Represents` is the invariant of the two arrays: the slot of a page and the page
of a slot are inverse to each other.  A page leaves its slot only when another
page takes it, in turn.

`step_holds` says which calls make the shadow hold bytes for a page and which let
it keep them, and `History.made_and_kept` turns it into a law about histories.
The epoch never comes back: a call that advances it makes every older token stale,
and at its last value switches the shadow off for good (`Exhausted`).
-/

import BoltsRebuilt.Lib.History
import BoltsRebuilt.Memory.Shadow

namespace BoltsRebuilt
namespace Memory

/-- The calls of the interface; `allocated` says whether the vectors of `Initialize`
got their memory. -/
inductive ShadowCall where
  | initializeWith (pageBytes capacityBytes : ℕ) (allocated : Bool)
  | reset
  | invalidate (first last : ℕ)
  | epoch
  | matches? (address : ℕ) (bytes : List UInt8)
  | publish (address : ℕ) (bytes : List UInt8) (capturedEpoch : ℕ)

/-- The calls that advance the epoch. -/
def ShadowCall.Advances : ShadowCall → Prop
  | .initializeWith _ _ _ | .reset | .invalidate _ _ => True
  | .epoch | .matches? _ _ | .publish _ _ _ => False

namespace UploadShadow

/-- `Initialize`, where it fails. -/
def cleared (s : UploadShadow) : UploadShadow :=
  { s.advanceEpoch with
    pageBytes := 0, pageToSlot := fun _ => none, slotCount := 0, slots := fun _ => {},
    bytes := fun _ => [] }

def step (s : UploadShadow) : ShadowCall → UploadShadow
  | .initializeWith pageBytes capacityBytes true => (s.initializeWith pageBytes capacityBytes).2
  | .initializeWith _ _ false => s.cleared
  | .reset => s.reset
  | .invalidate first last => s.invalidate first last
  | .epoch => s
  | .matches? _ _ => s
  | .publish address bytes capturedEpoch => (s.publish address bytes capturedEpoch).2

/-- The shadow after a history of calls. -/
def run (calls : List ShadowCall) : UploadShadow := calls.foldl step {}

/-- `Initialize` fails and leaves the shadow off, or leaves an empty one of at least one slot. -/
theorem initializeWith_cases (s : UploadShadow) (pageBytes capacityBytes : ℕ) :
    (s.initializeWith pageBytes capacityBytes).2 = s.cleared ∨
      s.epoch ≠ epochMax ∧ 4096 ≤ pageBytes ∧ pageBytes ≤ capacityBytes ∧
        (s.initializeWith pageBytes capacityBytes).2 =
          { s.cleared with
            pageBytes, slotCount := capacityBytes / pageBytes, nextSlot := 0, evictions := 0 } := by
  rw [initializeWith]
  split
  · exact .inl rfl
  · rename_i h
    exact .inr ⟨by omega, by omega, by omega, rfl⟩

/-! ### The arrays -/

/-- The slot of a page and the page of a slot are inverse to each other, both are
within their arrays, and a shadow that is on has a next slot. -/
structure Represents (s : UploadShadow) : Prop where
  inverse : ∀ page slot, s.pageToSlot page = some slot ↔ (s.slots slot).page = some page
  bound : ∀ page slot, s.pageToSlot page = some slot → slot < s.slotCount
  physical : ∀ page slot, s.pageToSlot page = some slot →
    page * s.pageBytes + s.pageBytes ≤ kPhysicalBytes
  next : s.pageBytes ≠ 0 → s.nextSlot < s.slotCount

variable {s : UploadShadow}

/-- A shadow with no page in any slot represents the empty map. -/
theorem Represents.of_empty (hmap : ∀ page, s.pageToSlot page = none)
    (hslots : ∀ slot, (s.slots slot).page = none) (hnext : s.pageBytes ≠ 0 → s.nextSlot < s.slotCount) :
    Represents s where
  inverse page slot := by rw [hmap, hslots]; exact iff_of_false nofun nofun
  bound page slot h := absurd ((hmap page).symm.trans h) nofun
  physical page slot h := absurd ((hmap page).symm.trans h) nofun
  next := hnext

/-- Advancing the epoch, or switching off at the last one, keeps the slots a map. -/
theorem Represents.advanceEpoch (h : Represents s) : Represents s.advanceEpoch := by
  rw [UploadShadow.advanceEpoch]
  split
  · exact { h with physical := fun _ _ _ => Nat.zero_le _, next := fun hoff => absurd rfl hoff }
  · exact { h with }

/-- Resetting empties the map. -/
theorem Represents.reset (h : Represents s) : Represents s.reset := by
  refine .of_empty (fun _ => rfl) (fun _ => rfl) fun hon => ?_
  exact Nat.lt_of_le_of_lt (Nat.zero_le _) (h.advanceEpoch.next hon)

/-- Initialising starts from the empty map, or from a shadow that is off. -/
theorem Represents.initializeWith (s : UploadShadow) (pageBytes capacityBytes : ℕ) :
    Represents (s.initializeWith pageBytes capacityBytes).2 := by
  rcases initializeWith_cases s pageBytes capacityBytes with heq | ⟨-, hpage, hcapacity, heq⟩
  · rw [heq]
    exact .of_empty (fun _ => rfl) (fun _ => rfl) fun hoff => absurd rfl hoff
  · rw [heq]
    exact .of_empty (fun _ => rfl) (fun _ => rfl) fun _ => Nat.div_pos hcapacity (by omega)

/-- Invalidating a page keeps the slots a map. -/
theorem Represents.invalidatePage (h : Represents s) (page : ℕ) : Represents (s.invalidatePage page) := by
  rw [UploadShadow.invalidatePage]
  split
  · exact h
  · rename_i slot hslot
    split
    · refine ⟨fun q k => (h.inverse q k).trans ?_, h.bound, h.physical, h.next⟩
      dsimp only
      rcases eq_or_ne k slot with rfl | hne
      · rw [Function.update_self]
      · rw [Function.update_of_ne hne]
    · exact h

/-- Invalidating a range of pages keeps them one. -/
theorem Represents.invalidate (h : Represents s) (first last : ℕ) :
    Represents (s.invalidate first last) := by
  rw [UploadShadow.invalidate]
  split
  · exact h.advanceEpoch
  · exact History.invariant (fun _ page h => h.invalidatePage page) h.advanceEpoch _

/-- A page without a slot takes the next one, whoever had it. -/
structure Takes (s t : UploadShadow) (page : ℕ) : Prop where
  map : ∀ q, t.pageToSlot q = if q = page then some s.nextSlot
    else if s.pageToSlot q = some s.nextSlot then none else s.pageToSlot q
  page : ∀ k, (t.slots k).page = if k = s.nextSlot then some page else (s.slots k).page
  pageBytes : t.pageBytes = s.pageBytes
  slotCount : t.slotCount = s.slotCount
  next : t.nextSlot = if s.nextSlot + 1 = s.slotCount then 0 else s.nextSlot + 1

/-- Taking a slot for a page gives it to that page and takes it from no page but the one evicted. -/
theorem Represents.takeSlot_takes (h : Represents s) (page : ℕ) : Takes s (s.takeSlot page).2 page := by
  have hpage : ∀ k, (Function.update s.slots s.nextSlot
      { s.slots s.nextSlot with page := some page } k).page =
        if k = s.nextSlot then some page else (s.slots k).page := by
    intro k
    rcases eq_or_ne k s.nextSlot with rfl | hne
    · rw [Function.update_self, if_pos rfl]
    · rw [Function.update_of_ne hne, if_neg hne]
  rw [UploadShadow.takeSlot]
  dsimp only
  cases hprevious : (s.slots s.nextSlot).page with
  | none =>
      refine ⟨fun q => ?_, by simpa only [hprevious] using hpage, rfl, rfl, rfl⟩
      have hfree : s.pageToSlot q ≠ some s.nextSlot := fun hq =>
        Option.some_ne_none q (((h.inverse q _).1 hq).symm.trans hprevious)
      rw [if_neg hfree]
      rcases eq_or_ne q page with rfl | hne
      · rw [if_pos rfl]
        exact Function.update_self ..
      · rw [if_neg hne]
        exact Function.update_of_ne hne ..
  | some previous =>
      have hmapped : s.pageToSlot previous = some s.nextSlot := (h.inverse _ _).2 hprevious
      dsimp only
      rw [if_pos hmapped]
      refine ⟨fun q => ?_, by simpa only [hprevious] using hpage, rfl, rfl, rfl⟩
      dsimp only
      rcases eq_or_ne q page with rfl | hne
      · rw [if_pos rfl, Function.update_self]
      · rw [if_neg hne, Function.update_of_ne hne]
        rcases eq_or_ne q previous with rfl | hne'
        · rw [Function.update_self, if_pos hmapped]
        · rw [Function.update_of_ne hne', if_neg]
          intro hq
          exact hne' (Option.some.inj (((h.inverse q _).1 hq).symm.trans hprevious))

/-- So the slots stay a map: each page has one slot at most, and each slot one page. -/
theorem Represents.takeSlot (h : Represents s) (hon : s.pageBytes ≠ 0) {page : ℕ}
    (hphysical : page * s.pageBytes + s.pageBytes ≤ kPhysicalBytes)
    (hnone : s.pageToSlot page = none) : Represents (s.takeSlot page).2 := by
  have ht := h.takeSlot_takes page
  have hnext := h.next hon
  refine ⟨fun q k => ?_, fun q k hk => ?_, fun q k hk => ?_, fun _ => ?_⟩
  · rw [ht.map, ht.page]
    have hold := h.inverse q k
    by_cases hk : k = s.nextSlot
    · rw [if_pos hk]
      by_cases hq : q = page
      · rw [if_pos hq, hk, hq]
        exact iff_of_true rfl rfl
      · rw [if_neg hq]
        refine iff_of_false ?_ fun he => hq (Option.some.inj he).symm
        split
        · exact nofun
        · rwa [hk]
    · rw [if_neg hk, ← hold]
      by_cases hq : q = page
      · rw [if_pos hq, hq, hnone]
        exact iff_of_false (fun he => hk (Option.some.inj he).symm) nofun
      · rw [if_neg hq]
        split
        · rename_i he
          exact iff_of_false nofun fun he' => hk (Option.some.inj (he'.symm.trans he))
        · exact Iff.rfl
  · rw [ht.map] at hk
    rw [ht.slotCount]
    split at hk
    · exact Option.some.inj hk ▸ hnext
    · split at hk
      · exact absurd hk nofun
      · exact h.bound q k hk
  · rw [ht.map] at hk
    rw [ht.pageBytes]
    split at hk
    · rename_i hq
      exact hq ▸ hphysical
    · split at hk
      · exact absurd hk nofun
      · exact h.physical q k hk
  · rw [ht.next, ht.slotCount]
    split <;> omega

/-- With inverse arrays, the slot of a page is its own or the next one. -/
theorem Represents.slotFor_eq (h : Represents s) (page : ℕ) :
    s.slotFor page = match s.pageToSlot page with
      | none => s.takeSlot page
      | some slot => (slot, s) := by
  rw [UploadShadow.slotFor]
  cases hslot : s.pageToSlot page with
  | none => rfl
  | some slot => exact if_pos ((h.inverse page slot).1 hslot)

/-- A page that has a slot keeps it, and one that has none takes one; either way the slots stay a
map. -/
theorem Represents.slotFor (h : Represents s) (hon : s.pageBytes ≠ 0) {page : ℕ}
    (hphysical : page * s.pageBytes + s.pageBytes ≤ kPhysicalBytes) :
    Represents (s.slotFor page).2 := by
  rw [h.slotFor_eq]
  cases hslot : s.pageToSlot page with
  | none => exact h.takeSlot hon hphysical hslot
  | some slot => exact h

/-- Filling a slot changes the page of none. -/
theorem page_fill (s : UploadShadow) (slot : ℕ) (bytes : List UInt8) (k : ℕ) :
    ((s.fill slot bytes).slots k).page = (s.slots k).page := by
  rw [fill]
  dsimp only
  rcases eq_or_ne k slot with rfl | hne
  · rw [Function.update_self]
  · rw [Function.update_of_ne hne]

/-- Filling a slot with bytes keeps the slots a map. -/
theorem Represents.fill (h : Represents s) (slot : ℕ) (bytes : List UInt8) :
    Represents (s.fill slot bytes) := by
  refine ⟨fun q k => (h.inverse q k).trans ?_, h.bound, h.physical, h.next⟩
  rw [page_fill]

/-- `Publish` refuses and changes nothing, or stores the bytes in the slot of the page. -/
theorem publish_cases (s : UploadShadow) (address : ℕ) (bytes : List UInt8) (capturedEpoch : ℕ) :
    s.publish address bytes capturedEpoch = (false, s) ∨
      ∃ page, capturedEpoch = s.epoch ∧ s.getPage address bytes.length = some page ∧
        s.publish address bytes capturedEpoch =
          (true, (s.slotFor page).2.fill (s.slotFor page).1 bytes) := by
  rw [publish]
  split
  · exact .inl rfl
  · rename_i hepoch
    cases hpage : s.getPage address bytes.length with
    | none => exact .inl rfl
    | some page => exact .inr ⟨page, not_not.1 hepoch, rfl, rfl⟩

/-- **Every call keeps the arrays inverse**: a page's slot is that page's, and a slot's page has
that slot. -/
theorem Represents.step (h : Represents s) (call : ShadowCall) : Represents (s.step call) := by
  cases call with
  | initializeWith pageBytes capacityBytes allocated =>
      cases allocated with
      | true => exact Represents.initializeWith s pageBytes capacityBytes
      | false => exact .of_empty (fun _ => rfl) (fun _ => rfl) fun hoff => absurd rfl hoff
  | reset => exact h.reset
  | invalidate first last => exact h.invalidate first last
  | epoch => exact h
  | matches? address bytes => exact h
  | publish address bytes capturedEpoch =>
      rw [UploadShadow.step]
      rcases publish_cases s address bytes capturedEpoch with heq | ⟨page, -, hpage, heq⟩
      · rwa [heq]
      · obtain ⟨hon, haddress, hphysical⟩ := getPage_eq_some hpage
        rw [heq]
        exact (h.slotFor hon (haddress ▸ hphysical)).fill _ bytes

/-- **After any history of calls the slots and the pages are inverse to each other.** -/
theorem represents_run (calls : List ShadowCall) : Represents (run calls) :=
  History.invariant (fun _ call h => h.step call)
    (.of_empty (fun _ => rfl) (fun _ => rfl) fun hoff => absurd rfl hoff) calls

/-! ### What a match says -/

/-- What ends the life of a publication of a page: another successful one of the
page, an invalidation of one of its bytes, a new start, or the loss of its slot. -/
def Disturbs (page : ℕ) (s : UploadShadow) : ShadowCall → Prop
  | .initializeWith _ _ _ | .reset => True
  | .invalidate first last => ∃ address, first ≤ address ∧ address ≤ last ∧
      address / s.pageBytes = page
  | .epoch | .matches? _ _ => False
  | .publish address bytes capturedEpoch =>
      (s.publish address bytes capturedEpoch).1 = true ∧ (address / s.pageBytes = page ∨
        ∃ slot, s.pageToSlot page = some slot ∧
          ((s.publish address bytes capturedEpoch).2.slots slot).page ≠ some page)

/-- A successful publication of a page. -/
def Publishes (address : ℕ) (bytes : List UInt8) (s : UploadShadow) (call : ShadowCall) : Prop :=
  ∃ capturedEpoch, call = .publish address bytes capturedEpoch ∧
    (s.publish address bytes capturedEpoch).1 = true

/-- The shadow has pages of a size and holds bytes for one. -/
def HoldsAt (pageBytes page : ℕ) (bytes : List UInt8) (s : UploadShadow) : Prop :=
  s.pageBytes = pageBytes ∧ s.holds page = some bytes

variable {pageBytes page : ℕ} {bytes : List UInt8}

/-- An initialised shadow holds no page. -/
theorem holds_initializeWith (s : UploadShadow) (pageBytes capacityBytes page : ℕ) :
    (s.initializeWith pageBytes capacityBytes).2.holds page = none := by
  rcases initializeWith_cases s pageBytes capacityBytes with heq | ⟨-, -, -, heq⟩
  · rw [heq]
    exact holds_of_pageBytes_eq_zero rfl page
  · rw [heq, holds]
    split <;> rfl

/-- An invalidation forgets every page it has a byte of. -/
theorem holds_invalidate_of_covers (s : UploadShadow) {first last address : ℕ} (hfirst : first ≤ address)
    (hlast : address ≤ last) (hphysical : page * s.pageBytes + s.pageBytes ≤ kPhysicalBytes)
    (hcovers : address / s.pageBytes = page) : (s.invalidate first last).holds page = none := by
  rw [invalidate]
  rcases pageBytes_advanceEpoch s with hadvance | hadvance
  · rcases Nat.eq_zero_or_pos s.pageBytes with hzero | hpos
    · rw [if_pos (.inl (hadvance.trans hzero)), holds_of_pageBytes_eq_zero (hadvance.trans hzero)]
    · have hle : page * s.pageBytes ≤ address := hcovers ▸ Nat.div_mul_le_self address s.pageBytes
      have hlt : address < page * s.pageBytes + s.pageBytes := hcovers ▸ Nat.lt_div_mul_add hpos
      rw [hadvance, if_neg (by omega)]
      refine (foldl_invalidatePage _ _).2.1 page (Span.mem_cells.2 ⟨?_, ?_⟩)
      · exact hcovers ▸ Nat.div_le_div_right hfirst
      · rw [Nat.le_div_iff_mul_le hpos]
        omega
  · rw [if_pos (.inl hadvance), holds_of_pageBytes_eq_zero hadvance]

/-- The publication of a page: it is made, or held before and left its slot. -/
theorem holdsAt_publish {address capturedEpoch : ℕ} {stored : List UInt8}
    (h : HoldsAt pageBytes page bytes (s.publish address stored capturedEpoch).2) :
    Publishes (page * pageBytes) bytes s (.publish address stored capturedEpoch) ∨
      HoldsAt pageBytes page bytes s ∧ ¬Disturbs page s (.publish address stored capturedEpoch) := by
  obtain ⟨hbytes, hholds⟩ := h
  rcases publish_cases s address stored capturedEpoch with heq | ⟨q, -, hq, heq⟩
  · rw [heq] at hbytes hholds
    refine .inr ⟨⟨hbytes, hholds⟩, fun hdisturbs => ?_⟩
    exact absurd ((congrArg Prod.fst heq).symm.trans hdisturbs.1) Bool.false_ne_true
  · obtain ⟨hon', haddress, -⟩ := getPage_eq_some hq
    have hspec := slotFor_spec s q
    rw [heq] at hbytes hholds
    have hsize : s.pageBytes = pageBytes := hspec.pageBytes.symm.trans hbytes
    rcases eq_or_ne page q with rfl | hne
    · left
      have hstored := Option.some.inj ((hspec.holds_fill hon' stored).symm.trans hholds)
      refine ⟨capturedEpoch, ?_, ?_⟩
      · rw [← hsize, ← haddress, hstored]
      · rw [← hsize, ← haddress, ← hstored, heq]
    · right
      have hbefore := hspec.holds_of_fill hne hholds
      refine ⟨⟨hsize, hbefore⟩, fun hdisturbs => ?_⟩
      rcases hdisturbs.2 with hpage | ⟨slot, hslot, hlost⟩
      · rw [haddress, Nat.mul_div_cancel _ (Nat.pos_of_ne_zero hon')] at hpage
        exact hne hpage.symm
      · -- the slot that is held afterwards is the one the page had
        obtain ⟨-, k, hk, -, hown, -⟩ := holds_eq_some.1 hholds
        rw [page_fill] at hown
        obtain ⟨-, hkeep, -⟩ := hspec.others page hne k hk hown
        rw [heq, page_fill, Option.some.inj (hslot.symm.trans hkeep)] at hlost
        exact hlost hown

/-- **What a call makes the shadow hold, and what it leaves.** -/
theorem holdsAt_step (hs : Represents s) (hon : pageBytes ≠ 0) {call : ShadowCall}
    (h : HoldsAt pageBytes page bytes (s.step call)) :
    Publishes (page * pageBytes) bytes s call ∨
      HoldsAt pageBytes page bytes s ∧ ¬Disturbs page s call := by
  have hnone : (s.step call).holds page ≠ none := fun hnone => absurd (hnone.symm.trans h.2) nofun
  cases call with
  | initializeWith pageBytes capacityBytes allocated =>
      refine absurd ?_ hnone
      cases allocated with
      | true => exact holds_initializeWith s pageBytes capacityBytes page
      | false => exact holds_of_pageBytes_eq_zero rfl page
  | reset => exact absurd (holds_reset s page) hnone
  | invalidate first last =>
      obtain ⟨hbytes, hholds⟩ := h
      have hbefore := shrinks_invalidate s first last page bytes hholds
      refine .inr ⟨⟨?_, hbefore⟩, ?_⟩
      · rcases pageBytes_invalidate s first last with hkeep | hoff
        · exact hkeep.symm.trans hbytes
        · exact absurd (hbytes.symm.trans hoff) hon
      · rintro ⟨address, hfirst, hlast, hcovers⟩
        obtain ⟨-, slot, hslot, -⟩ := holds_eq_some.1 hbefore
        exact hnone (holds_invalidate_of_covers s hfirst hlast (hs.physical page slot hslot) hcovers)
  | epoch => exact .inr ⟨h, id⟩
  | matches? address stored => exact .inr ⟨h, id⟩
  | publish address stored capturedEpoch => exact holdsAt_publish h

/-- A match was made by a publication that nothing has disturbed since. -/
theorem history_of_matches {calls : List ShadowCall} {address : ℕ}
    (h : (run calls).matches? address bytes = true) :
    ∃ page before call after, calls = before ++ call :: after ∧
      address = page * (run calls).pageBytes ∧ Publishes address bytes (run before) call ∧
      History.Along step (fun s call => ¬Disturbs page s call) ((run before).step call) after := by
  obtain ⟨page, haddress, hholds⟩ := holds_of_matches? h
  have hon : (run calls).pageBytes ≠ 0 := (holds_eq_some.1 hholds).1
  have hempty : ¬HoldsAt (run calls).pageBytes page bytes {} := fun h =>
    absurd ((holds_of_pageBytes_eq_zero rfl page).symm.trans h.2) nofun
  have hmade := History.made_and_kept (fun _ call hs => Represents.step hs call)
    (fun _ _ hs => holdsAt_step hs hon) (represents_run [])
    (show HoldsAt (run calls).pageBytes page bytes (calls.foldl step {}) from ⟨rfl, hholds⟩)
  rcases hmade with ⟨hstart, -⟩ | ⟨before, call, after, hcalls, hpublishes, hkept⟩
  · exact absurd hstart hempty
  · exact ⟨page, before, call, after, hcalls, haddress, haddress ▸ hpublishes, hkept⟩

/-! ### The epoch -/

/-- The shadow is off for good. -/
def Exhausted (s : UploadShadow) : Prop := s.epoch = epochMax ∧ s.pageBytes = 0

/-- The epoch goes up by one, or has reached its last value and the shadow is switched off. -/
theorem advanceEpoch_cases (s : UploadShadow) :
    s.epoch ≠ epochMax ∧ s.advanceEpoch = { s with epoch := s.epoch + 1 } ∨
      s.epoch = epochMax ∧ s.advanceEpoch = { s with pageBytes := 0 } := by
  rw [advanceEpoch]
  split
  · exact .inr ⟨‹_›, rfl⟩
  · exact .inl ⟨‹_›, rfl⟩

/-- A call that advances the epoch does nothing else to it, and switches the
shadow off at the last one. -/
theorem epoch_step_of_advances (s : UploadShadow) {call : ShadowCall} (hcall : call.Advances) :
    (s.step call).epoch = s.advanceEpoch.epoch ∧
      (s.epoch = epochMax → (s.step call).pageBytes = 0) := by
  have hoff : s.epoch = epochMax → s.advanceEpoch.pageBytes = 0 := by
    intro h
    rw [advanceEpoch, if_pos h]
  cases call with
  | initializeWith pageBytes capacityBytes allocated =>
      cases allocated with
      | false => exact ⟨rfl, fun _ => rfl⟩
      | true =>
          rw [step]
          rcases initializeWith_cases s pageBytes capacityBytes with heq | ⟨hepoch, -, -, heq⟩
          · rw [heq]
            exact ⟨rfl, fun _ => rfl⟩
          · rw [heq]
            exact ⟨rfl, fun h => absurd h hepoch⟩
  | reset => exact ⟨rfl, hoff⟩
  | invalidate first last =>
      rw [step, invalidate]
      split
      · exact ⟨rfl, hoff⟩
      · obtain ⟨-, -, hbytes, hepoch⟩ := foldl_invalidatePage (Span.cells (first / s.advanceEpoch.pageBytes,
          min last (kPhysicalBytes - 1) / s.advanceEpoch.pageBytes)) s.advanceEpoch
        exact ⟨hepoch, fun h => hbytes.trans (hoff h)⟩
  | epoch | matches? _ _ | publish _ _ _ => exact hcall.elim

/-- The calls that do not advance the epoch leave it, and the page size with it. -/
theorem epoch_step_of_not_advances (s : UploadShadow) {call : ShadowCall} (hcall : ¬call.Advances) :
    (s.step call).epoch = s.epoch ∧ (s.step call).pageBytes = s.pageBytes := by
  cases call with
  | initializeWith _ _ _ | reset | invalidate _ _ => exact absurd trivial hcall
  | epoch | matches? _ _ => exact ⟨rfl, rfl⟩
  | publish address bytes capturedEpoch =>
      rw [step]
      rcases publish_cases s address bytes capturedEpoch with heq | ⟨page, -, -, heq⟩
      · rw [heq]
        exact ⟨rfl, rfl⟩
      · rw [heq]
        exact ⟨(slotFor_spec s page).epoch, (slotFor_spec s page).pageBytes⟩

/-- An exhausted shadow stays exhausted through every call. -/
theorem Exhausted.step (h : Exhausted s) (call : ShadowCall) : Exhausted (s.step call) := by
  by_cases hcall : call.Advances
  · obtain ⟨hepoch, hoff⟩ := epoch_step_of_advances s hcall
    refine ⟨hepoch.trans ?_, hoff h.1⟩
    rw [advanceEpoch, if_pos h.1]
    exact h.1
  · obtain ⟨hepoch, hbytes⟩ := epoch_step_of_not_advances s hcall
    exact ⟨hepoch.trans h.1, hbytes.trans h.2⟩

/-- An epoch is over: the counter is past it, or stopped. -/
def Over (epoch : ℕ) (s : UploadShadow) : Prop := epoch < s.epoch ∨ Exhausted s

/-- A call that advances ends the epoch it began in. -/
theorem over_step_of_advances (s : UploadShadow) {call : ShadowCall} (hcall : call.Advances) :
    Over s.epoch (s.step call) := by
  obtain ⟨hepoch, hoff⟩ := epoch_step_of_advances s hcall
  rcases advanceEpoch_cases s with ⟨-, heq⟩ | ⟨hlast, heq⟩
  · rw [heq] at hepoch
    exact .inl (hepoch ▸ Nat.lt_succ_self s.epoch)
  · rw [heq] at hepoch
    exact .inr ⟨hepoch.trans hlast, hoff hlast⟩

/-- The epoch never goes back, whichever call is made. -/
theorem epoch_le_step (s : UploadShadow) (call : ShadowCall) : s.epoch ≤ (s.step call).epoch := by
  by_cases hcall : call.Advances
  · rw [(epoch_step_of_advances s hcall).1]
    rcases advanceEpoch_cases s with ⟨-, heq⟩ | ⟨-, heq⟩
    · rw [heq]
      exact Nat.le_succ _
    · rw [heq]
  · rw [(epoch_step_of_not_advances s hcall).1]

/-- An epoch that has ended never comes back. -/
theorem Over.step {epoch : ℕ} (h : Over epoch s) (call : ShadowCall) : Over epoch (s.step call) :=
  h.imp (fun hlt => Nat.lt_of_lt_of_le hlt (epoch_le_step s call)) fun hoff => hoff.step call

/-- An epoch is over after any call that advances it. -/
theorem over_of_advances {later : List ShadowCall} (h : ∃ call ∈ later, call.Advances) (s : UploadShadow) :
    Over s.epoch (later.foldl step s) := by
  obtain ⟨call, hmem, hcall⟩ := h
  obtain ⟨first, last, rfl⟩ := List.append_of_mem hmem
  rw [List.foldl_append, List.foldl_cons]
  have hle : s.epoch ≤ (first.foldl step s).epoch :=
    @History.invariant _ _ step (fun t => s.epoch ≤ t.epoch)
      (fun t call hle => Nat.le_trans hle (epoch_le_step t call)) s (Nat.le_refl _) first
  refine @History.invariant _ _ step (Over s.epoch) (fun _ call hover => hover.step call) _ ?_ last
  exact (over_step_of_advances _ hcall).imp_left fun hlt => Nat.lt_of_le_of_lt hle hlt

/-- No history gets past the last epoch. -/
theorem epoch_run_le (calls : List ShadowCall) : (run calls).epoch ≤ epochMax := by
  refine @History.invariant _ _ step (fun t => t.epoch ≤ epochMax) (fun t call hle => ?_) {} (by decide) calls
  by_cases hcall : call.Advances
  · rw [(epoch_step_of_advances t hcall).1]
    rcases advanceEpoch_cases t with ⟨hne, heq⟩ | ⟨-, heq⟩
    · rw [heq]
      exact Nat.lt_of_le_of_ne hle hne
    · rwa [heq]
  · rwa [(epoch_step_of_not_advances t hcall).1]

/-- A token from an epoch that is over publishes nothing. -/
theorem Over.publish {epoch : ℕ} (h : Over epoch s) (address : ℕ) (bytes : List UInt8) :
    s.publish address bytes epoch = (false, s) := by
  rcases publish_cases s address bytes epoch with heq | ⟨page, hepoch, hpage, -⟩
  · exact heq
  · rcases h with hlt | hoff
    · exact absurd hepoch hlt.ne
    · exact absurd hoff.2 (getPage_eq_some hpage).1

/-- An exhausted shadow matches nothing and refuses every publish, at whatever epoch it was
captured. -/
theorem Exhausted.refuses (h : Exhausted s) (address : ℕ) (bytes : List UInt8) :
    s.matches? address bytes = false ∧ ∀ epoch, s.publish address bytes epoch = (false, s) := by
  refine ⟨?_, fun epoch => (Over.publish (.inr h) address bytes : s.publish address bytes epoch = _)⟩
  rw [← Bool.not_eq_true]
  intro hmatches
  obtain ⟨page, -, hholds⟩ := holds_of_matches? hmatches
  exact absurd ((holds_of_pageBytes_eq_zero h.2 page).symm.trans hholds) nofun

/-- **The law of the upload shadow.**  After any history of calls its arrays are
inverse; a match comes from the last successful publication of the page, with the
same bytes, not disturbed since; and a token from before an advance of the epoch
is refused, after the last epoch together with everything else. -/
theorem uploadShadow_history (calls : List ShadowCall) :
    Represents (run calls) ∧
    (∀ address bytes, (run calls).matches? address bytes = true →
      ∃ page before call after, calls = before ++ call :: after ∧
        address = page * (run calls).pageBytes ∧ Publishes address bytes (run before) call ∧
        History.Along step (fun s call => ¬Disturbs page s call) ((run before).step call) after) ∧
    ∀ before later, calls = before ++ later → (∃ call ∈ later, call.Advances) →
      (∀ address bytes,
        (run calls).publish address bytes (run before).epoch = (false, run calls)) ∧
      ((run before).epoch = epochMax → ∀ address bytes,
        (run calls).matches? address bytes = false ∧
          ∀ epoch, (run calls).publish address bytes epoch = (false, run calls)) := by
  refine ⟨represents_run calls, fun address bytes => history_of_matches, ?_⟩
  rintro before later rfl hadvances
  have hover : Over (run before).epoch (run (before ++ later)) := by
    have hrun : run (before ++ later) = later.foldl step (run before) := List.foldl_append ..
    rw [hrun]
    exact over_of_advances hadvances (run before)
  refine ⟨hover.publish, fun hlast => ?_⟩
  rw [hlast] at hover
  exact (hover.resolve_left (epoch_run_le _).not_gt).refuses

end UploadShadow
end Memory
end BoltsRebuilt
