/-
# What the geometry pass remembers about residency

`src/gpu/native/native_geometry_pass.cpp`: `ResidencyInvalidated`,
`DrainResidencyInvalidations` and their use in `Record`;
`src/gpu/vendored/src/graphics/shared_memory.cpp`: the valid flags, `FireWatches`,
`SetSystemPageBlocksValidWithGpuDataWritten`, `ClearCache`;
`src/gpu/vendored/src/graphics/d3d12/command_processor.cpp`: the end of a frame.

A draw skips the residency request of a range whose pages the bitmap marks.  Only
the command processor thread touches the bitmap: an invalidation of another
thread goes through a queue of 256 spans, and a queue that overflows drops the
whole bitmap at the next drain.  The sweep at the end of a frame invalidates pages
without telling anybody, so the first draw of a frame drops the bitmap itself.

The 64-bit number of a frame is taken not to wrap.

A step is one hold of the global lock, one hold of the queue's mutex, or something
that only the command processor sees.  Pages of shared memory have `2 ^ k` pages
of the bitmap.  `RequestRanges` is followed as far as the flags go: the scan, and
the pages its uploads make valid one after the other; its lock-free mirror answers
for pages that were valid at one instant of the call
(`Residency.residencyMirror_sound`).
-/

import BoltsRebuilt.Geometry.ResidencyBitmap
import BoltsRebuilt.Lib.System

namespace BoltsRebuilt
namespace GeometryPass

/-- `PendingInvalidation`: the first and the last address. -/
abbrev PendingInvalidation := ℕ × ℕ

def kMaxPendingInvalidations : ℕ := 256

/-- A range of bytes: its start and its length. -/
abbrev Range := ℕ × ℕ

/-- What follows a drain: the first of a draw is before `Covers`, the second ends
the part of `Record` that matters. -/
inductive After where
  | consult
  | done

/-- Where the command processor thread stands. -/
inductive Point where
  | idle
  /-- The frame is swept, its number is about to advance. -/
  | swept
  /-- `ClearCache` has fired the watches and not swept yet. -/
  | cacheCleared
  /-- `Record`, with the watch registered. -/
  | drawing
  /-- `DrainResidencyInvalidations` loads the signal. -/
  | draining (next : After)
  /-- The signal was set. -/
  | taking (next : After)
  /-- The queue is copied, the spans are not folded in. -/
  | folding (drained : List PendingInvalidation) (overflow : Bool) (next : After)
  | consulting
  /-- `RequestRanges` is called. -/
  | requesting (ranges : List Range)
  /-- The pages of shared memory still to upload. -/
  | uploading (ranges : List Range) (todo : List ℕ)
  /-- `RequestRanges` returned true. -/
  | granted (ranges : List Range)

def After.point : After → Point
  | consult => .consulting
  | done => .idle

/-- The flags of shared memory, the queue and the cache.  Two ghost fields:
`arrived`, what the watch has reported since the last drain, and `validAtDrain`,
the valid pages at it. -/
structure State where
  valid : ℕ → Bool
  gpuWritten : ℕ → Bool
  frameCurrent : ℕ
  watching : Bool
  pending : List PendingInvalidation
  overflow : Bool
  signal : Bool
  residency : ResidencyCache
  residencyFrame : ℕ
  cp : Point
  arrived : List PendingInvalidation
  validAtDrain : ℕ → Bool

/-- `ResidencyInvalidated`. -/
def residencyInvalidated (s : State) (addressFirst addressLast : ℕ) : State :=
  { s with
    pending := if s.pending.length < kMaxPendingInvalidations then
      s.pending ++ [(addressFirst, addressLast)] else s.pending
    overflow := if s.pending.length < kMaxPendingInvalidations then s.overflow else true
    signal := true
    arrived := s.arrived ++ [(addressFirst, addressLast)] }

section SharedMemory

variable (k : ℕ)

/-- `page_size_log2_`. -/
def pageSizeLog2 : ℕ := kPageBytesLog2 + k

/-- `FireWatches`, as far as the bitmap is concerned. -/
def fireWatches (s : State) (pageFirst pageLast : ℕ) : State :=
  if s.watching then
    residencyInvalidated s (pageFirst <<< pageSizeLog2 k)
      ((pageLast <<< pageSizeLog2 k) + ((1 <<< pageSizeLog2 k) - 1))
  else s

/-- `MemoryInvalidationCallback` with the pages it selects, and
`InvalidateAllPages` with all of them. -/
def memoryInvalidationCallback (s : State) (pageFirst pageLast : ℕ) : State :=
  fireWatches k
    { s with
      valid := fun p => !(p ∈ Span.cells (pageFirst, pageLast)) && s.valid p
      gpuWritten := fun p => !(p ∈ Span.cells (pageFirst, pageLast)) && s.gpuWritten p }
    pageFirst pageLast

/-- `MakeRangeValid`. -/
def makeRangeValid (s : State) (pages : List ℕ) (writtenByGpu : Bool) : State :=
  { s with
    valid := fun p => p ∈ pages || s.valid p
    gpuWritten := fun p => if p ∈ pages then writtenByGpu else s.gpuWritten p }

/-- `SetSystemPageBlocksValidWithGpuDataWritten`. -/
def setSystemPageBlocksValidWithGpuDataWritten (s : State) : State := { s with valid := s.gpuWritten }

/-- `SharedMemory::kBufferSize`. -/
def kBufferSize : ℕ := 512 * 1024 * 1024

/-- What the request accepts. -/
def Range.Fits (r : Range) : Prop := r.2 ≠ 0 → r.1 + r.2 ≤ kBufferSize

/-- The pages of shared memory of a range. -/
def sharedPages (r : Range) : List ℕ :=
  if r.2 = 0 then [] else Span.cells (r.1 >>> pageSizeLog2 k, (r.1 + r.2 - 1) >>> pageSizeLog2 k)

end SharedMemory

/-- The loop of `DrainResidencyInvalidations`. -/
def foldIn (c : ResidencyCache) (drained : List PendingInvalidation) (overflow : Bool) :
    ResidencyCache :=
  if overflow then .reset else drained.foldl (fun c r => c.clearAddressRange r.1 r.2) c

/-- The test at the first draw of a frame, with `clear_memory_page_state`. -/
def checkFrame (clearMemoryPageState : Bool) (s : State) : State :=
  if s.frameCurrent ≠ s.residencyFrame ∧ clearMemoryPageState = true then
    { s with residency := .reset, residencyFrame := s.frameCurrent }
  else s

/-- One step of the command processor or of another thread. -/
inductive Step (clearMemoryPageState : Bool) (k : ℕ) : State → State → Prop
  | invalidated {s} (first last) : first ≤ last → (last + 1) <<< pageSizeLog2 k ≤ 2 ^ 32 →
      Step _ k s (memoryInvalidationCallback k s first last)
  /-- `RangeWrittenByGpu` fires the watches before it marks the pages. -/
  | fired {s} (first last) : first ≤ last → (last + 1) <<< pageSizeLog2 k ≤ 2 ^ 32 →
      Step _ k s (fireWatches k s first last)
  | madeValid {s} (pages writtenByGpu) : Step _ k s (makeRangeValid s pages writtenByGpu)
  | sweep {s} : s.cp = .idle → clearMemoryPageState = true →
      Step _ k s { setSystemPageBlocksValidWithGpuDataWritten s with cp := .swept }
  | closeFrame {s} : s.cp = .swept ∨ s.cp = .idle ∧ clearMemoryPageState = false →
      Step _ k s { s with frameCurrent := s.frameCurrent + 1, cp := .idle }
  | clearCache {s} : s.cp = .idle →
      Step _ k s { fireWatches k s 0 ((kBufferSize - 1) >>> pageSizeLog2 k) with cp := .cacheCleared }
  | clearCacheSweep {s} : s.cp = .cacheCleared →
      Step _ k s { setSystemPageBlocksValidWithGpuDataWritten s with cp := .idle }
  | draw {s} : s.cp = .idle → Step _ k s { s with watching := true, cp := .drawing }
  | frame {s} : s.cp = .drawing →
      Step _ k s { checkFrame clearMemoryPageState s with cp := .draining .consult }
  | drainNothing {s next} : s.cp = .draining next → s.signal = false →
      Step _ k s { s with cp := next.point, validAtDrain := s.valid }
  | drain {s next} : s.cp = .draining next → s.signal = true →
      Step _ k s { s with cp := .taking next }
  | take {s next} : s.cp = .taking next →
      Step _ k s { s with
        cp := .folding s.pending s.overflow next
        pending := [], overflow := false, signal := false
        arrived := [], validAtDrain := s.valid }
  | fold {s drained overflow next} : s.cp = .folding drained overflow next →
      Step _ k s { s with residency := foldIn s.residency drained overflow, cp := next.point }
  | consult {s} (wanted : List Range) : s.cp = .consulting →
      Step _ k s { s with
        cp := match wanted.filter fun r => !s.residency.covers r.1 r.2 with
          | [] => .idle
          | ranges => .requesting ranges }
  /-- A range outside the buffer, or no memory to back one. -/
  | rejected {s ranges} : s.cp = .requesting ranges → Step _ k s { s with cp := .idle }
  /-- The mirror has all pages. -/
  | mirrored {s ranges} : s.cp = .requesting ranges → (∀ r ∈ ranges, Range.Fits r) →
      (∀ r ∈ ranges, ∀ p ∈ sharedPages k r, s.valid p = true) →
      Step _ k s { s with cp := .granted ranges }
  | scan {s ranges} : s.cp = .requesting ranges → (∀ r ∈ ranges, Range.Fits r) →
      Step _ k s { s with
        cp := .uploading ranges ((ranges.flatMap (sharedPages k)).filter fun p => !s.valid p) }
  | upload {s ranges todo} (n) : s.cp = .uploading ranges todo →
      Step _ k s { makeRangeValid s (todo.take n) false with cp := .uploading ranges (todo.drop n) }
  | uploadFailed {s ranges todo} : s.cp = .uploading ranges todo → Step _ k s { s with cp := .idle }
  | uploaded {s ranges} : s.cp = .uploading ranges [] → Step _ k s { s with cp := .granted ranges }
  | add {s ranges} : s.cp = .granted ranges →
      Step _ k s { s with
        residency := ranges.foldl (fun c r => c.add r.1 r.2) s.residency, cp := .draining .done }

/-- Nothing is valid, watched or remembered at the start. -/
def residencyCached (clearMemoryPageState : Bool) (k : ℕ) : System State where
  init s := s.cp = .idle ∧ s.watching = false ∧ s.pending = [] ∧ s.overflow = false ∧
    s.signal = false ∧ s.residency = .reset ∧ s.residencyFrame = 2 ^ 64 - 1 ∧ s.frameCurrent = 1 ∧
    s.arrived = [] ∧ ∀ p, s.valid p = false ∧ s.gpuWritten p = false
  step := Step clearMemoryPageState k

/-! ### The invariant -/

/-- A span of addresses reaches into a page of the bitmap. -/
def PendingInvalidation.Covers (r : PendingInvalidation) (page : ℕ) : Prop :=
  r.1 ≤ r.2 ∧ r.1 / 2 ^ 12 ≤ page ∧ page ≤ r.2 / 2 ^ 12

/-- The watch has reported the page since the last drain. -/
def State.Arrived (s : State) (page : ℕ) : Prop := ∃ r ∈ s.arrived, PendingInvalidation.Covers r page

/-- The fold to come drops the page. -/
def Point.Taken (page : ℕ) : Point → Prop
  | folding drained overflow _ =>
      overflow = true ∨ ∃ r ∈ drained, PendingInvalidation.Covers r page
  | _ => False

/-- The draw has compared the frame numbers. -/
def Point.checked : Point → Bool
  | idle | swept | cacheCleared | drawing => false
  | _ => true

/-- The first drain of the draw has emptied the queue. -/
def Point.drained : Point → Bool
  | folding _ _ .consult | consulting => true
  | _ => false

/-- The ranges of the request under way. -/
def Point.ranges : Point → List Range
  | uploading ranges _ => ranges
  | granted ranges => ranges
  | _ => []

/-- Their pages still to upload. -/
def Point.todo : Point → List ℕ
  | uploading _ todo => todo
  | _ => []

/-- The bitmap is of an earlier frame, and the next draw drops it. -/
def State.Stale (clearMemoryPageState : Bool) (s : State) : Prop :=
  clearMemoryPageState = true ∧ s.cp.checked = false ∧
    (s.cp = .swept ∨ s.residencyFrame ≠ s.frameCurrent)

/-- A page of a range. -/
def Range.Has (r : Range) (page : ℕ) : Prop :=
  r.2 ≠ 0 ∧ r.1 / 2 ^ 12 ≤ page ∧ page ≤ (r.1 + r.2 - 1) / 2 ^ 12

/-- The invariant. -/
structure Inv (clearMemoryPageState : Bool) (k : ℕ) (s : State) : Prop where
  queue : ∀ r ∈ s.arrived, r ∈ s.pending ∨ s.overflow = true
  signal : s.arrived ≠ [] → s.signal = true
  watching : s.watching = false → s.cp.checked = false ∧ s.cp ≠ .drawing ∧
    ∀ page, s.residency.resident page = false
  bounded : ∀ page, s.residency.resident page = true → page < kPages
  frame : ∀ page, s.residency.resident page = true → clearMemoryPageState = true →
    s.residencyFrame ≤ s.frameCurrent
  checked : s.cp.checked = true → clearMemoryPageState = true → s.residencyFrame = s.frameCurrent
  sound : s.Stale clearMemoryPageState ∨ ∀ page, s.residency.resident page = true →
    s.cp.Taken page ∨ s.valid (page / 2 ^ k) = true ∨ s.Arrived page
  cleared : s.cp = .cacheCleared → ∀ page, s.residency.resident page = true → s.Arrived page
  drained : s.cp.drained = true → ∀ page, s.residency.resident page = true →
    s.cp.Taken page ∨ s.validAtDrain (page / 2 ^ k) = true
  requested : ∀ r ∈ s.cp.ranges, ∀ page, Range.Has r page →
    page / 2 ^ k ∈ s.cp.todo ∨ s.valid (page / 2 ^ k) = true ∨ s.Arrived page

variable {clearMemoryPageState : Bool} {k : ℕ} {s s' : State}

/-! ### What the watch reports -/

/-- Pages of the bitmap and the addresses of pages of shared memory. -/
theorem covers_addresses {first last page : ℕ} (h : first ≤ last) (hfirst : first ≤ page / 2 ^ k)
    (hlast : page / 2 ^ k ≤ last) :
    PendingInvalidation.Covers (first <<< pageSizeLog2 k,
      (last <<< pageSizeLog2 k) + ((1 <<< pageSizeLog2 k) - 1)) page := by
  have hk : 0 < 2 ^ k := Nat.two_pow_pos k
  have hbytes : 0 < 2 ^ k * 2 ^ 12 := by omega
  have hle : first * 2 ^ k ≤ page := (Nat.le_div_iff_mul_le hk).1 hfirst
  have hlt : page < (last + 1) * 2 ^ k := (Nat.div_lt_iff_lt_mul hk).1 (by omega)
  have hmul := Nat.mul_le_mul_right (2 ^ k * 2 ^ 12) h
  rw [Nat.add_mul, Nat.one_mul] at hlt
  have hshift : ∀ n, n <<< pageSizeLog2 k = n * 2 ^ k * 2 ^ 12 := fun n => by
    rw [Nat.shiftLeft_eq, pageSizeLog2, kPageBytesLog2, Nat.add_comm, Nat.pow_add, Nat.mul_assoc]
  rw [PendingInvalidation.Covers, hshift, hshift, hshift, Nat.one_mul]
  rw [← Nat.mul_assoc, ← Nat.mul_assoc] at hmul
  dsimp only
  omega

/-- A fired watch only adds to the queue. -/
structure Fires (k : ℕ) (first last : ℕ) (s s' : State) : Prop where
  watching : s'.watching = s.watching
  residency : s'.residency = s.residency
  residencyFrame : s'.residencyFrame = s.residencyFrame
  frameCurrent : s'.frameCurrent = s.frameCurrent
  cp : s'.cp = s.cp
  validAtDrain : s'.validAtDrain = s.validAtDrain
  queue : (∀ r ∈ s.arrived, r ∈ s.pending ∨ s.overflow = true) →
    ∀ r ∈ s'.arrived, r ∈ s'.pending ∨ s'.overflow = true
  signal : (s.arrived ≠ [] → s.signal = true) → s'.arrived ≠ [] → s'.signal = true
  arrived : ∀ page, s.Arrived page → s'.Arrived page
  reported : s.watching = true → ∀ page, first ≤ page / 2 ^ k → page / 2 ^ k ≤ last →
    s'.Arrived page

/-- Firing the watches of a range queues invalidations for the watched pages among it, and changes
no page's validity. -/
theorem fires_fireWatches {first last : ℕ} (h : first ≤ last) (s : State) :
    Fires k first last s (fireWatches k s first last) ∧
      (fireWatches k s first last).valid = s.valid := by
  unfold fireWatches
  by_cases hw : s.watching = true
  · rw [if_pos hw]
    refine ⟨?_, rfl⟩
    constructor
    case queue =>
      intro hq r hr
      rw [residencyInvalidated, List.mem_append, List.mem_singleton] at hr
      rw [residencyInvalidated]
      dsimp only
      by_cases hroom : s.pending.length < kMaxPendingInvalidations
      · rw [if_pos hroom, if_pos hroom, List.mem_append, List.mem_singleton]
        rcases hr with hr | rfl
        · exact (hq r hr).imp_left .inl
        · exact .inl (.inr rfl)
      · rw [if_neg hroom, if_neg hroom]
        exact .inr rfl
    case signal => exact fun _ _ => rfl
    case arrived => exact fun page ⟨r, hr, hpage⟩ => ⟨r, List.mem_append_left _ hr, hpage⟩
    case reported =>
      intro _ page hfirst hlast
      exact ⟨_, List.mem_append_right _ (List.mem_singleton.2 rfl), covers_addresses h hfirst hlast⟩
    all_goals rfl
  · rw [if_neg hw]
    refine ⟨?_, rfl⟩
    constructor
    case queue => exact fun hq => hq
    case signal => exact fun hs => hs
    case arrived => exact fun _ h => h
    case reported => exact fun hw' => absurd hw' hw
    all_goals rfl

/-! ### Steps -/

/-- Ranges are only under way once the cache has been checked. -/
theorem checked_of_mem_ranges {cp : Point} {r : Range} (h : r ∈ cp.ranges) : cp.checked = true := by
  cases cp with
  | uploading | granted => rfl
  | _ => exact absurd h List.not_mem_nil

/-- Whether the frames differ does not depend on the flags. -/
theorem State.Stale.congr (h : s.Stale clearMemoryPageState) (hcp : s'.cp = s.cp)
    (hframe : s'.residencyFrame = s.residencyFrame) (hcurrent : s'.frameCurrent = s.frameCurrent) :
    s'.Stale clearMemoryPageState := by
  rw [State.Stale, hcp, hframe, hcurrent]
  exact h

/-- Watches fire, and the pages they name may become invalid. -/
theorem Inv.fires (h : Inv clearMemoryPageState k s) {first last : ℕ}
    (hs : Fires k first last s s')
    (hvalid : ∀ p, s.valid p = true → s'.valid p = true ∨ first ≤ p ∧ p ≤ last) :
    Inv clearMemoryPageState k s' := by
  have hkeep : s.watching = true → ∀ page, s.valid (page / 2 ^ k) = true ∨ s.Arrived page →
      s'.valid (page / 2 ^ k) = true ∨ s'.Arrived page := by
    rintro hw page (hp | hp)
    · exact (hvalid _ hp).imp_right fun hspan => hs.reported hw page hspan.1 hspan.2
    · exact .inr (hs.arrived page hp)
  have hwatching : s.watching = true ∨ s.cp.checked = false ∧ s.cp ≠ .drawing ∧
      ∀ page, s.residency.resident page = false := by
    cases hw : s.watching with
    | true => exact .inl rfl
    | false => exact .inr (h.watching hw)
  constructor
  case queue => exact hs.queue h.queue
  case signal => exact hs.signal h.signal
  case watching =>
    rw [hs.watching, hs.cp, hs.residency]
    exact h.watching
  case bounded =>
    rw [hs.residency]
    exact h.bounded
  case frame =>
    rw [hs.residency, hs.residencyFrame, hs.frameCurrent]
    exact h.frame
  case checked =>
    rw [hs.cp, hs.residencyFrame, hs.frameCurrent]
    exact h.checked
  case sound =>
    rw [hs.residency, hs.cp]
    refine h.sound.imp (fun hstale => hstale.congr hs.cp hs.residencyFrame hs.frameCurrent)
      fun hsound page hpage => (hsound page hpage).imp_right fun hp => ?_
    rcases hwatching with hw | ⟨-, -, hempty⟩
    · exact hkeep hw page hp
    · rw [hempty page] at hpage
      exact absurd hpage Bool.false_ne_true
  case cleared =>
    rw [hs.cp, hs.residency]
    exact fun hcp page hpage => hs.arrived page (h.cleared hcp page hpage)
  case drained =>
    rw [hs.cp, hs.residency, hs.validAtDrain]
    exact h.drained
  case requested =>
    rw [hs.cp]
    intro r hr page hpage
    refine (h.requested r hr page hpage).imp_right fun hp => ?_
    rcases hwatching with hw | ⟨hchecked, -, -⟩
    · exact hkeep hw page hp
    · rw [checked_of_mem_ranges hr] at hchecked
      cases hchecked

/-- Pages made valid are valid, and others are as before. -/
theorem valid_makeRangeValid (s : State) (pages : List ℕ) (gpu : Bool) (p : ℕ) :
    (makeRangeValid s pages gpu).valid p = (decide (p ∈ pages) || s.valid p) := rfl

/-- More pages may become valid at any time: validity is what residency has to be backed by. -/
theorem Inv.makeRangeValid (h : Inv clearMemoryPageState k s) (pages : List ℕ) (gpu : Bool) :
    Inv clearMemoryPageState k (makeRangeValid s pages gpu) := by
  have hkeep : ∀ p, s.valid p = true → (GeometryPass.makeRangeValid s pages gpu).valid p = true :=
    fun p hp => by rw [valid_makeRangeValid, hp, Bool.or_true]
  exact { h with
    sound := h.sound.imp_right fun hsound page hpage =>
      (hsound page hpage).imp_right (.imp_left (hkeep _))
    requested := fun r hr page hpage =>
      (h.requested r hr page hpage).imp_right (.imp_left (hkeep _)) }

/-- The command processor moves between points of which none is in a drain or a
request. -/
theorem Inv.idle (h : Inv clearMemoryPageState k s) {cp : Point}
    (hcp : cp = .idle ∨ cp = .swept ∨ cp = .cacheCleared)
    (hsound : ({ s with cp } : State).Stale clearMemoryPageState ∨
      ∀ page, s.residency.resident page = true → s.valid (page / 2 ^ k) = true ∨ s.Arrived page)
    (hcleared : cp = .cacheCleared → ∀ page, s.residency.resident page = true → s.Arrived page) :
    Inv clearMemoryPageState k { s with cp } := by
  have hchecked : cp.checked = false := by rcases hcp with rfl | rfl | rfl <;> rfl
  have hdrained : cp.drained = false := by rcases hcp with rfl | rfl | rfl <;> rfl
  have hdrawing : cp ≠ .drawing := by rcases hcp with rfl | rfl | rfl <;> simp
  exact { h with
    watching := fun hw => ⟨hchecked, hdrawing, (h.watching hw).2.2⟩
    checked := fun h' => absurd (hchecked.symm.trans h') Bool.false_ne_true
    sound := hsound.imp_right fun hs page hpage => .inr (hs page hpage)
    cleared := hcleared
    drained := fun h' => absurd (hdrained.symm.trans h') Bool.false_ne_true
    requested := fun r hr =>
      absurd (hchecked.symm.trans (checked_of_mem_ranges hr)) Bool.false_ne_true }

/-- Once the frame numbers are compared, the bitmap is not stale. -/
theorem Inv.fresh (h : Inv clearMemoryPageState k s) (hcp : s.cp.checked = true) {page : ℕ}
    (hpage : s.residency.resident page = true) :
    s.cp.Taken page ∨ s.valid (page / 2 ^ k) = true ∨ s.Arrived page := by
  rcases h.sound with ⟨-, hchecked, -⟩ | hsound
  · rw [hcp] at hchecked
    cases hchecked
  · exact hsound page hpage

/-- A bitmap that was fresh stays so on the way out of a draw. -/
theorem Inv.leave (h : Inv clearMemoryPageState k s) (hcp : s.cp.checked = true)
    (htaken : ∀ page, ¬s.cp.Taken page) : Inv clearMemoryPageState k { s with cp := .idle } :=
  h.idle (.inl rfl) (.inr fun _ hpage => (h.fresh hcp hpage).resolve_left (htaken _))
    fun h' => by cases h'

/-! ### Folding the queue in -/

/-- A page resident after the drained invalidations were folded in was resident before and is
covered by none of them. -/
theorem resident_foldl_clear {drained : List PendingInvalidation} {c : ResidencyCache} {page : ℕ}
    (hbounded : page < kPages)
    (h : (drained.foldl (fun c r => c.clearAddressRange r.1 r.2) c).resident page = true) :
    c.resident page = true ∧ ∀ r ∈ drained, ¬PendingInvalidation.Covers r page := by
  induction drained generalizing c with
  | nil => exact ⟨h, by simp⟩
  | cons r rest ih =>
      obtain ⟨hclear, hrest⟩ := ih h
      obtain ⟨hresident, hcovers⟩ := ResidencyCache.resident_clearAddressRange hclear
      refine ⟨hresident, ?_⟩
      rw [List.forall_mem_cons]
      exact ⟨fun hr => hcovers hbounded hr.1 hr.2, hrest⟩

/-- What the fold leaves was resident and is not taken. -/
theorem resident_foldIn {c : ResidencyCache} {drained : List PendingInvalidation} {overflow : Bool}
    (hbounded : ∀ page, c.resident page = true → page < kPages) {page : ℕ}
    (h : (foldIn c drained overflow).resident page = true) (next : After) :
    c.resident page = true ∧ ¬(Point.folding drained overflow next).Taken page := by
  unfold foldIn at h
  cases overflow with
  | true =>
      rw [if_pos rfl, ResidencyCache.resident_reset] at h
      cases h
  | false =>
      rw [if_neg Bool.false_ne_true] at h
      have hresident : c.resident page = true := by
        clear hbounded
        induction drained generalizing c with
        | nil => exact h
        | cons r rest ih => exact (ResidencyCache.resident_clearAddressRange (ih h)).1
      obtain ⟨-, hcovers⟩ := resident_foldl_clear (hbounded page hresident) h
      refine ⟨hresident, ?_⟩
      rintro (hoverflow | ⟨r, hr, hpage⟩)
      · cases hoverflow
      · exact hcovers r hr hpage

/-- A page resident after ranges were added was resident before or is one of theirs. -/
theorem resident_foldl_add {ranges : List Range} {c : ResidencyCache} {page : ℕ}
    (h : (ranges.foldl (fun c r => c.add r.1 r.2) c).resident page = true) :
    c.resident page = true ∨ page < kPages ∧ ∃ r ∈ ranges, Range.Has r page := by
  induction ranges generalizing c with
  | nil => exact .inl h
  | cons r rest ih =>
      rcases ih h with hadd | ⟨hlt, t, ht, hpage⟩
      · rcases ResidencyCache.resident_add hadd with hpage | ⟨hlength, hlt, hpage⟩
        · exact .inl hpage
        · exact .inr ⟨hlt, r, List.mem_cons_self .., hlength, hpage⟩
      · exact .inr ⟨hlt, t, List.mem_cons_of_mem _ ht, hpage⟩

/-- A page of a range lies in one of the shared memory's pages of that range. -/
theorem mem_sharedPages {r : Range} {page : ℕ} (h : Range.Has r page) :
    page / 2 ^ k ∈ sharedPages k r := by
  obtain ⟨hlength, hfirst, hlast⟩ := h
  rw [sharedPages, if_neg hlength, Span.mem_cells, Nat.shiftRight_eq_div_pow,
    Nat.shiftRight_eq_div_pow, pageSizeLog2, kPageBytesLog2, Nat.pow_add, ← Nat.div_div_eq_div_mul,
    ← Nat.div_div_eq_div_mul]
  exact ⟨Nat.div_le_div_right hfirst, Nat.div_le_div_right hlast⟩

/-! ### The invariant is inductive -/

/-- Checking the frame keeps the invariant: with the page state cleared, so is the bitmap. -/
theorem Inv.checkFrame (h : Inv clearMemoryPageState k s) (hcp : s.cp = .drawing)
    (hw : s.watching = true) :
    Inv clearMemoryPageState k
      { checkFrame clearMemoryPageState s with cp := .draining .consult } := by
  unfold GeometryPass.checkFrame
  by_cases hframe : s.frameCurrent ≠ s.residencyFrame ∧ clearMemoryPageState = true
  · rw [if_pos hframe]
    have hempty : ∀ page, ResidencyCache.reset.resident page = true → False := fun page hpage => by
      rw [ResidencyCache.resident_reset] at hpage
      cases hpage
    exact { h with
      watching := fun hw' => absurd (hw.symm.trans hw') (by decide)
      bounded := fun page hpage => (hempty page hpage).elim
      frame := fun page hpage => (hempty page hpage).elim
      checked := fun _ _ => rfl
      sound := .inr fun page hpage => (hempty page hpage).elim
      cleared := nofun
      drained := nofun
      requested := fun r hr => absurd hr List.not_mem_nil }
  · rw [if_neg hframe]
    have heq : clearMemoryPageState = true → s.residencyFrame = s.frameCurrent := fun hclear => by
      by_contra hne
      exact hframe ⟨fun h' => hne h'.symm, hclear⟩
    refine { h with
      watching := fun hw' => absurd (hw.symm.trans hw') (by decide)
      checked := fun _ => heq
      sound := .inr fun page hpage => ?_
      cleared := nofun
      drained := nofun
      requested := fun r hr => absurd hr List.not_mem_nil }
    rcases h.sound with ⟨hclear, -, hstale⟩ | hsound
    · rcases hstale with hswept | hne
      · rw [hcp] at hswept
        cases hswept
      · exact absurd (heq hclear) hne
    · have hp := hsound page hpage
      rw [hcp] at hp
      exact hp

/-- While a draw is at a point where the cache was checked, invalidations are watched for. -/
theorem Inv.watched (h : Inv clearMemoryPageState k s)
    (hcp : s.cp.checked = true ∨ s.cp = .drawing) : s.watching = true := by
  cases hw : s.watching with
  | true => rfl
  | false =>
      obtain ⟨hchecked, hdrawing, -⟩ := h.watching hw
      rcases hcp with hcp | hcp
      · exact absurd (hchecked.symm.trans hcp) Bool.false_ne_true
      · exact absurd hcp hdrawing

/-- The command processor moves on inside a draw, between points outside a fold
and before or after the point where `Covers` is asked. -/
theorem Inv.walk (h : Inv clearMemoryPageState k s) (hcp : s.cp.checked = true)
    (htaken : ∀ page, ¬s.cp.Taken page) {cp : Point} (hchecked : cp.checked = true)
    (hdrained : cp.drained = false)
    (hrequested : ∀ r ∈ cp.ranges, ∀ page, Range.Has r page →
      page / 2 ^ k ∈ cp.todo ∨ s.valid (page / 2 ^ k) = true ∨ s.Arrived page) :
    Inv clearMemoryPageState k { s with cp } := by
  have hcleared : cp ≠ .cacheCleared := by
    rintro rfl
    cases hchecked
  exact { h with
    watching := fun hw => absurd ((h.watched (.inl hcp)).symm.trans hw) (by decide)
    checked := fun _ => h.checked hcp
    sound := .inr fun page hpage => .inr ((h.fresh hcp hpage).resolve_left (htaken page))
    cleared := fun h' => absurd h' hcleared
    drained := fun h' => absurd (hdrained.symm.trans h') Bool.false_ne_true
    requested := hrequested }

/-- With no signal the queue is empty, and what is resident is valid. -/
theorem Inv.drainNothing (h : Inv clearMemoryPageState k s) {next : After}
    (hcp : s.cp = .draining next) (hsignal : s.signal = false) :
    Inv clearMemoryPageState k { s with cp := next.point, validAtDrain := s.valid } := by
  have hchecked : s.cp.checked = true := by rw [hcp]; rfl
  have harrived : s.arrived = [] := by
    by_contra hne
    exact absurd (hsignal.symm.trans (h.signal hne)) Bool.false_ne_true
  have hvalid : ∀ page, s.residency.resident page = true → s.valid (page / 2 ^ k) = true := by
    intro page hpage
    have hp := h.fresh hchecked hpage
    rw [hcp] at hp
    rcases hp with hp | hp | ⟨r, hr, -⟩
    · exact hp.elim
    · exact hp
    · rw [harrived] at hr
      exact absurd hr List.not_mem_nil
  exact { h with
    watching := fun hw => absurd ((h.watched (.inl hchecked)).symm.trans hw) (by decide)
    checked := fun _ => h.checked hchecked
    sound := .inr fun page hpage => .inr (.inl (hvalid page hpage))
    cleared := fun h' => by cases next <;> cases h'
    drained := fun _ page hpage => .inr (hvalid page hpage)
    requested := fun r hr => by cases next <;> exact absurd hr List.not_mem_nil }

/-- Taking the queue away under the lock keeps it: what was pending is now being folded in. -/
theorem Inv.take (h : Inv clearMemoryPageState k s) {next : After} (hcp : s.cp = .taking next) :
    Inv clearMemoryPageState k
      { s with
        cp := .folding s.pending s.overflow next
        pending := [], overflow := false, signal := false
        arrived := [], validAtDrain := s.valid } := by
  have hchecked : s.cp.checked = true := by rw [hcp]; rfl
  -- what had arrived was in the queue, or the queue had overflowed
  have htaken : ∀ page, s.residency.resident page = true →
      (Point.folding s.pending s.overflow next).Taken page ∨ s.valid (page / 2 ^ k) = true := by
    intro page hpage
    have hp := h.fresh hchecked hpage
    rw [hcp] at hp
    rcases hp with hp | hp | ⟨r, hr, hcovers⟩
    · exact hp.elim
    · exact .inr hp
    · rcases h.queue r hr with hr | hoverflow
      · exact .inl (.inr ⟨r, hr, hcovers⟩)
      · exact .inl (.inl hoverflow)
  exact { h with
    queue := fun r hr => absurd hr List.not_mem_nil
    signal := fun hne => absurd rfl hne
    watching := fun hw => absurd ((h.watched (.inl hchecked)).symm.trans hw) (by decide)
    checked := fun _ => h.checked hchecked
    sound := .inr fun page hpage => (htaken page hpage).imp_right .inl
    cleared := nofun
    drained := fun _ page hpage => htaken page hpage
    requested := fun r hr => absurd hr List.not_mem_nil }

/-- Folding the drained invalidations in keeps it: their pages are no longer resident. -/
theorem Inv.fold (h : Inv clearMemoryPageState k s) {drained : List PendingInvalidation}
    {overflow : Bool} {next : After} (hcp : s.cp = .folding drained overflow next) :
    Inv clearMemoryPageState k
      { s with residency := foldIn s.residency drained overflow, cp := next.point } := by
  have hchecked : s.cp.checked = true := by rw [hcp]; rfl
  have hleft : ∀ page, (foldIn s.residency drained overflow).resident page = true →
      s.residency.resident page = true ∧ ¬s.cp.Taken page := fun page hpage => by
    rw [hcp]
    exact resident_foldIn h.bounded hpage next
  constructor
  case queue => exact h.queue
  case signal => exact h.signal
  case watching =>
    exact fun hw => absurd ((h.watched (.inl hchecked)).symm.trans hw) (by decide)
  case bounded => exact fun page hpage => h.bounded page (hleft page hpage).1
  case frame => exact fun page hpage => h.frame page (hleft page hpage).1
  case checked => exact fun _ => h.checked hchecked
  case sound =>
    refine .inr fun page hpage => ?_
    obtain ⟨hresident, hnot⟩ := hleft page hpage
    exact .inr ((h.fresh hchecked hresident).resolve_left hnot)
  case cleared =>
    intro h'
    cases next <;> cases h'
  case drained =>
    intro h' page hpage
    obtain ⟨hresident, hnot⟩ := hleft page hpage
    cases next with
    | consult =>
        have hdrained : s.cp.drained = true := by rw [hcp]; rfl
        exact .inr ((h.drained hdrained page hresident).resolve_left hnot)
    | done => cases h'
  case requested =>
    intro r hr
    cases next <;> exact absurd hr List.not_mem_nil

/-- Adding granted ranges keeps it: they were requested and uploaded before. -/
theorem Inv.add (h : Inv clearMemoryPageState k s) {ranges : List Range}
    (hcp : s.cp = .granted ranges) :
    Inv clearMemoryPageState k
      { s with
        residency := ranges.foldl (fun c r => c.add r.1 r.2) s.residency, cp := .draining .done } := by
  have hchecked : s.cp.checked = true := by rw [hcp]; rfl
  have hclear := h.checked hchecked
  constructor
  case queue => exact h.queue
  case signal => exact h.signal
  case watching =>
    exact fun hw => absurd ((h.watched (.inl hchecked)).symm.trans hw) (by decide)
  case bounded => exact fun page hpage => (resident_foldl_add hpage).elim (h.bounded page) And.left
  case frame => exact fun _ _ hclear' => (hclear hclear').le
  case checked => exact fun _ => hclear
  case cleared => nofun
  case drained => nofun
  case requested => exact fun r hr => absurd hr List.not_mem_nil
  case sound =>
    refine .inr fun page hpage => ?_
    rcases resident_foldl_add hpage with hold | ⟨-, r, hr, hpage⟩
    · have hp := h.fresh hchecked hold
      rw [hcp] at hp
      exact hp
    · -- a page of the request: nothing of it is left to upload
      have hp := h.requested r (by rw [hcp]; exact hr) page hpage
      rw [hcp] at hp
      exact .inr (hp.resolve_left List.not_mem_nil)

/-- Looking through the ranges for pages that are not valid keeps it. -/
theorem Inv.scan (h : Inv clearMemoryPageState k s) {ranges : List Range}
    (hcp : s.cp = .requesting ranges) :
    Inv clearMemoryPageState k
      { s with
        cp := .uploading ranges ((ranges.flatMap (sharedPages k)).filter fun p => !s.valid p) } := by
  refine h.walk (by rw [hcp]; rfl) (fun page hp => ?_) rfl rfl fun r hr page hpage => ?_
  · rw [hcp] at hp
    exact hp
  · cases hvalid : s.valid (page / 2 ^ k) with
    | true => exact .inr (.inl rfl)
    | false =>
        refine .inl (List.mem_filter.2 ⟨List.mem_flatMap.2 ⟨r, hr, mem_sharedPages hpage⟩, ?_⟩)
        rw [hvalid]
        rfl

/-- Uploading some of these pages keeps it, the rest being still to do. -/
theorem Inv.upload (h : Inv clearMemoryPageState k s) {ranges : List Range} {todo : List ℕ} (n : ℕ)
    (hcp : s.cp = .uploading ranges todo) :
    Inv clearMemoryPageState k
      { GeometryPass.makeRangeValid s (todo.take n) false with
        cp := .uploading ranges (todo.drop n) } := by
  have hmade := h.makeRangeValid (todo.take n) false
  have hcp' : (GeometryPass.makeRangeValid s (todo.take n) false).cp = .uploading ranges todo := hcp
  refine hmade.walk (by rw [hcp']; rfl) (fun page hp => ?_) rfl rfl fun r hr page hpage => ?_
  · rw [hcp'] at hp
    exact hp
  · rcases h.requested r (by rw [hcp]; exact hr) page hpage with htodo | hp
    · rw [hcp] at htodo
      rw [Point.todo, ← List.take_append_drop n todo, List.mem_append] at htodo
      rcases htodo with hnow | hlater
      · refine .inr (.inl ?_)
        rw [valid_makeRangeValid, decide_eq_true hnow, Bool.true_or]
      · exact .inl hlater
    · refine .inr (hp.imp_left fun hvalid => ?_)
      rw [valid_makeRangeValid, hvalid, Bool.or_true]

/-- Beginning a draw keeps the invariant, the callback being registered from here on. -/
theorem Inv.draw (h : Inv clearMemoryPageState k s) (hcp : s.cp = .idle) :
    Inv clearMemoryPageState k { s with watching := true, cp := .drawing } := by
  refine { h with
    watching := nofun
    checked := nofun
    sound := ?_
    cleared := nofun
    drained := nofun
    requested := fun r hr => absurd hr List.not_mem_nil }
  have hsound := h.sound
  rw [State.Stale, hcp] at hsound
  refine hsound.imp (fun hstale => ⟨hstale.1, rfl, ?_⟩) fun hs page hpage => hs page hpage
  exact hstale.2.2.imp_left nofun

/-- Closing a frame keeps it, the pages being swept before where they have to be. -/
theorem Inv.closeFrame (h : Inv clearMemoryPageState k s)
    (hcp : s.cp = .swept ∨ s.cp = .idle ∧ clearMemoryPageState = false) :
    Inv clearMemoryPageState k { s with frameCurrent := s.frameCurrent + 1, cp := .idle } := by
  have hchecked : s.cp.checked = false := by rcases hcp with hcp | ⟨hcp, -⟩ <;> rw [hcp] <;> rfl
  refine { h with
    watching := fun hw => ⟨rfl, nofun, (h.watching hw).2.2⟩
    frame := fun page hpage hclear => (h.frame page hpage hclear).trans (Nat.le_succ _)
    checked := nofun
    sound := ?_
    cleared := nofun
    drained := nofun
    requested := fun r hr => absurd hr List.not_mem_nil }
  by_cases hclear : clearMemoryPageState = true
  · by_cases hempty : ∃ page, s.residency.resident page = true
    · -- the frame the bitmap is of has ended
      obtain ⟨page, hpage⟩ := hempty
      have hle := h.frame page hpage hclear
      exact .inl ⟨hclear, rfl, .inr (by dsimp only; omega)⟩
    · exact .inr fun page hpage => absurd ⟨page, hpage⟩ hempty
  · rcases hcp with hcp | ⟨hcp, -⟩
    all_goals
      have hsound := h.sound
      rw [hcp] at hsound
      exact .inr ((hsound.resolve_left fun hstale => hclear hstale.1))

/-- Clearing the cache fires every watch and keeps it. -/
theorem Inv.clearCache (h : Inv clearMemoryPageState k s) :
    Inv clearMemoryPageState k
      { fireWatches k s 0 ((kBufferSize - 1) >>> pageSizeLog2 k) with cp := .cacheCleared } := by
  obtain ⟨hfires, hvalid⟩ := fires_fireWatches (k := k) (Nat.zero_le _) s
  have hinv : Inv clearMemoryPageState k
      (fireWatches k s 0 ((kBufferSize - 1) >>> pageSizeLog2 k)) :=
    h.fires hfires fun p hp => by
      rw [hvalid]
      exact .inl hp
  have hall : ∀ page, s.residency.resident page = true →
      (fireWatches k s 0 ((kBufferSize - 1) >>> pageSizeLog2 k)).Arrived page := by
    intro page hpage
    cases hw : s.watching with
    | false =>
        rw [(h.watching hw).2.2 page] at hpage
        cases hpage
    | true =>
        refine hfires.reported hw page (Nat.zero_le _) ?_
        have hlt := h.bounded page hpage
        rw [Nat.shiftRight_eq_div_pow, pageSizeLog2, Nat.pow_add, ← Nat.div_div_eq_div_mul]
        refine Nat.div_le_div_right ?_
        rw [kPages, kPageBytesLog2, Nat.shiftRight_eq_div_pow] at hlt
        rw [kBufferSize, kPageBytesLog2]
        omega
  have hresidency : (fireWatches k s 0 ((kBufferSize - 1) >>> pageSizeLog2 k)).residency = s.residency :=
    hfires.residency
  refine hinv.idle (.inr (.inr rfl)) (.inr fun page hpage => .inr ?_) fun _ page hpage => ?_
  all_goals
    rw [hresidency] at hpage
    exact hall page hpage

/-- **One step keeps the invariant**, one case for each constructor of `Step`. -/
theorem Inv.step (h : Inv clearMemoryPageState k s) (hstep : Step clearMemoryPageState k s s') :
    Inv clearMemoryPageState k s' := by
  cases hstep with
  | invalidated first last hle =>
      obtain ⟨hfires, hvalid⟩ := fires_fireWatches (k := k) hle
        { s with
          valid := fun p => !(p ∈ Span.cells (first, last)) && s.valid p
          gpuWritten := fun p => !(p ∈ Span.cells (first, last)) && s.gpuWritten p }
      refine h.fires { hfires with } fun p hp => ?_
      rw [memoryInvalidationCallback, hvalid]
      dsimp only
      by_cases hmem : p ∈ Span.cells (first, last)
      · exact .inr (Span.mem_cells.1 hmem)
      · rw [decide_eq_false hmem, hp]
        exact .inl rfl
  | fired first last hle =>
      obtain ⟨hfires, hvalid⟩ := fires_fireWatches (k := k) hle s
      exact h.fires hfires fun p hp => by
        rw [hvalid]
        exact .inl hp
  | madeValid pages gpu => exact h.makeRangeValid pages gpu
  | sweep hcp hclear =>
      have hswept : Inv clearMemoryPageState k { s with cp := .swept } :=
        h.idle (.inr (.inl rfl)) (.inl ⟨hclear, rfl, .inl rfl⟩) nofun
      exact { hswept with
        sound := .inl ⟨hclear, rfl, .inl rfl⟩
        requested := fun r hr => absurd hr List.not_mem_nil }
  | closeFrame hcp => exact h.closeFrame hcp
  | clearCache => exact h.clearCache
  | clearCacheSweep hcp =>
      have hidle : Inv clearMemoryPageState k { s with cp := .idle } :=
        h.idle (.inl rfl) (.inr fun page hpage => .inr (h.cleared hcp page hpage)) nofun
      exact { hidle with
        sound := .inr fun page hpage => .inr (.inr (h.cleared hcp page hpage))
        requested := fun r hr => absurd hr List.not_mem_nil }
  | draw hcp => exact h.draw hcp
  | frame hcp => exact h.checkFrame hcp (h.watched (.inr hcp))
  | drainNothing hcp hsignal => exact h.drainNothing hcp hsignal
  | drain hcp =>
      exact h.walk (by rw [hcp]; rfl) (fun page hp => by rw [hcp] at hp; exact hp) rfl rfl
        fun r hr => absurd hr List.not_mem_nil
  | take hcp => exact h.take hcp
  | fold hcp => exact h.fold hcp
  | consult wanted hcp =>
      have hchecked : s.cp.checked = true := by rw [hcp]; rfl
      have htaken : ∀ page, ¬s.cp.Taken page := fun page hp => by rw [hcp] at hp; exact hp
      split
      · exact h.leave hchecked htaken
      · exact h.walk hchecked htaken rfl rfl fun r hr => absurd hr List.not_mem_nil
  | rejected hcp =>
      exact h.leave (by rw [hcp]; rfl) fun page hp => by rw [hcp] at hp; exact hp
  | mirrored hcp _ hvalid =>
      exact h.walk (by rw [hcp]; rfl) (fun page hp => by rw [hcp] at hp; exact hp) rfl rfl
        fun r hr page hpage => .inr (.inl (hvalid r hr _ (mem_sharedPages hpage)))
  | scan hcp => exact h.scan hcp
  | upload n hcp => exact h.upload n hcp
  | uploadFailed hcp =>
      exact h.leave (by rw [hcp]; rfl) fun page hp => by rw [hcp] at hp; exact hp
  | uploaded hcp =>
      refine h.walk (by rw [hcp]; rfl) (fun page hp => by rw [hcp] at hp; exact hp) rfl rfl
        fun r hr page hpage => ?_
      have hp := h.requested r (by rw [hcp]; exact hr) page hpage
      rw [hcp] at hp
      exact hp
  | add hcp => exact h.add hcp

/-- **The invariant holds initially and is kept by every step.** -/
theorem inductive_inv (clearMemoryPageState : Bool) (k : ℕ) :
    (residencyCached clearMemoryPageState k).Inductive (Inv clearMemoryPageState k) where
  init := by
    rintro s ⟨hcp, -, -, -, -, hresidency, -, -, harrived, -⟩
    have hempty : ∀ page, s.residency.resident page = true → False := fun page hpage => by
      rw [hresidency, ResidencyCache.resident_reset] at hpage
      cases hpage
    have hwatching : s.cp.checked = false ∧ s.cp ≠ .drawing ∧
        ∀ page, s.residency.resident page = false := by
      refine ⟨by rw [hcp]; rfl, by simp [hcp], fun page => ?_⟩
      rw [hresidency, ResidencyCache.resident_reset]
    exact
      { queue := by simp [harrived]
        signal := by simp [harrived]
        watching := fun _ => hwatching
        bounded := fun page hpage => (hempty page hpage).elim
        frame := fun page hpage => (hempty page hpage).elim
        checked := by simp [hcp, Point.checked]
        sound := .inr fun page hpage => (hempty page hpage).elim
        cleared := fun _ page hpage => (hempty page hpage).elim
        drained := fun _ page hpage => (hempty page hpage).elim
        requested := by simp [hcp, Point.ranges] }
  step := fun _ _ h hstep => h.step hstep

/-- **The bitmap never claims too much.**  When a draw asks it, after the drain,
each page it marks is valid in shared memory, or an invalidation names it that
has arrived since that drain and is still in the queue or has overflowed it.  So
the pages of a range it covers were all valid at the drain. -/
theorem residencyCache_sound (clearMemoryPageState : Bool) (k : ℕ) {s : State}
    (h : (residencyCached clearMemoryPageState k).Reachable s) (hcp : s.cp = .consulting) :
    (∀ page, s.residency.resident page = true → s.valid (page / 2 ^ k) = true ∨
      ∃ r ∈ s.arrived, PendingInvalidation.Covers r page ∧ (r ∈ s.pending ∨ s.overflow = true)) ∧
    ∀ r : Range, s.residency.covers r.1 r.2 = true →
      ∀ p ∈ sharedPages k r, s.validAtDrain p = true := by
  have hinv := h.invariant (inductive_inv clearMemoryPageState k)
  have hchecked : s.cp.checked = true := by rw [hcp]; rfl
  have hdrained : s.cp.drained = true := by rw [hcp]; rfl
  constructor
  · intro page hpage
    have hp := hinv.fresh hchecked hpage
    rw [hcp] at hp
    rcases hp with hp | hp | ⟨r, hr, hcovers⟩
    · exact hp.elim
    · exact .inl hp
    · exact .inr ⟨r, hr, hcovers, hinv.queue r hr⟩
  · intro r hcovers p hp
    rw [sharedPages] at hp
    split_ifs at hp with hlength
    · exact absurd hp List.not_mem_nil
    -- a page of the bitmap inside `p` and the range
    rw [Span.mem_cells, Nat.shiftRight_eq_div_pow, Nat.shiftRight_eq_div_pow, pageSizeLog2,
      kPageBytesLog2, Nat.pow_add, ← Nat.div_div_eq_div_mul, ← Nat.div_div_eq_div_mul] at hp
    have hk : 0 < 2 ^ k := Nat.two_pow_pos k
    have hlast : p * 2 ^ k ≤ (r.1 + r.2 - 1) / 2 ^ 12 := (Nat.le_div_iff_mul_le hk).1 hp.2
    have hfirst : r.1 / 2 ^ 12 < (p + 1) * 2 ^ k := (Nat.div_lt_iff_lt_mul hk).1 (by omega)
    obtain ⟨page, hpage⟩ : ∃ page, page = max (r.1 / 2 ^ 12) (p * 2 ^ k) := ⟨_, rfl⟩
    have hle : r.1 / 2 ^ 12 ≤ (r.1 + r.2 - 1) / 2 ^ 12 := Nat.div_le_div_right (by omega)
    have hresident : s.residency.resident page = true :=
      ResidencyCache.resident_of_covers hcovers (by omega) (by omega)
    have hdiv : page / 2 ^ k = p := by
      refine Nat.div_eq_of_lt_le (by omega) ?_
      rw [Nat.add_mul, Nat.one_mul] at hfirst ⊢
      omega
    have hv := hinv.drained hdrained page hresident
    rw [hcp, hdiv] at hv
    exact hv.resolve_left id

/-- Nothing has happened. -/
def start : State where
  valid _ := false
  gpuWritten _ := false
  frameCurrent := 1
  watching := false
  pending := []
  overflow := false
  signal := false
  residency := .reset
  residencyFrame := 2 ^ 64 - 1
  cp := .idle
  arrived := []
  validAtDrain _ := false

/-- A draw uploads the first page, the next draw drains, the page is invalidated,
and then the draw asks the bitmap. -/
theorem exists_invalidated : ∃ s, (residencyCached true 0).Reachable s ∧ s.cp = .consulting ∧
    s.residency.resident 0 = true ∧ s.valid 0 = false := by
  have h := System.Reachable.of_init (S := residencyCached true 0) (s := start)
    ⟨rfl, rfl, rfl, rfl, rfl, rfl, rfl, rfl, rfl, fun _ => ⟨rfl, rfl⟩⟩
  have h := h.tail (.draw rfl)
  have h := h.tail (.frame rfl)
  have h := h.tail (.drainNothing rfl rfl)
  have h := h.tail (.consult [(0, 4096)] rfl)
  have h := h.tail (.scan rfl (by simp [Range.Fits, kBufferSize]))
  have h := h.tail (.upload 1 rfl)
  have h := h.tail (.uploaded rfl)
  have h := h.tail (.add rfl)
  have h := h.tail (.drainNothing rfl rfl)
  have h := h.tail (.draw rfl)
  have h := h.tail (.frame rfl)
  have h := h.tail (.drainNothing rfl rfl)
  have h := h.tail (.invalidated 0 0 (Nat.le_refl 0) (by decide))
  exact ⟨_, h, rfl, rfl, rfl⟩

/-- The hypotheses are satisfiable: a page that the bitmap has as resident, invalidated meanwhile,
with its invalidation still in the queue. -/
theorem residencyCache_sound_invalidated : ∃ s, (residencyCached true 0).Reachable s ∧
    s.residency.resident 0 = true ∧ s.valid (0 / 2 ^ 0) = false ∧
    ∃ r ∈ s.arrived, PendingInvalidation.Covers r 0 ∧ (r ∈ s.pending ∨ s.overflow = true) := by
  obtain ⟨s, hs, hcp, hresident, hvalid⟩ := exists_invalidated
  refine ⟨s, hs, hresident, hvalid, ((residencyCache_sound true 0 hs hcp).1 0 hresident).resolve_left ?_⟩
  rw [show 0 / 2 ^ 0 = 0 from rfl, hvalid]
  exact Bool.false_ne_true

end GeometryPass
end BoltsRebuilt
