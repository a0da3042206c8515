/-
# The lock-free mirror of the valid pages

`src/gpu/native/native_shared_residency_mirror.h`: `NativeSharedResidencyMirror`;
`src/gpu/vendored/src/graphics/shared_memory.cpp`: its uses in
`InvalidateAllPages`, `SetSystemPageBlocksValidWithGpuDataWritten`, `ClearCache`,
`MakeRangeValid`, `PrepareNativeResidencyRequest`, `RequestRanges` and
`MemoryInvalidationCallback`.

The valid bits of all pages are read and written under the global lock.  The
mirror repeats some of them, and the command processor thread reads it without
the lock, a word at a time.  Everything else touches a word of the mirror or of
the bitmaps in one `Action`, inside an operation that holds the lock: `Op` lists
the call sites, and the actions of two operations never mix.  A call of
`Contains` may fall between any two actions of another thread.

`residencyMirror_sound`: the mirror never has a bit the valid bitmap lacks, and
the pages of a successful `Contains` were all valid at one instant of the call.
The command processor is the only one to set bits, and it is busy reading; so a
bit it sees at the end of the call was there when the call began.
-/

import BoltsRebuilt.Lib.Spans
import BoltsRebuilt.Lib.System
import Mathlib.Logic.Function.Basic

namespace BoltsRebuilt
namespace Residency

def kPageBytes : ℕ := 2 ^ 12
def kBufferBytes : ℕ := 2 ^ 29
def kPageCount : ℕ := kBufferBytes / kPageBytes
@[irreducible] def kWordCount : ℕ := kPageCount / 64

abbrev Word := BitVec 64

/-- A range of bytes: its start and its length. -/
abbrev Range := ℕ × ℕ

/-- The mirror (`words`, `disabled`) and the bitmaps behind the lock. -/
structure Bits where
  words : ℕ → Word
  disabled : Bool
  valid : ℕ → Word
  gpuWritten : ℕ → Word

/-- One access under the lock to a word of the mirror or of the bitmaps. -/
inductive Action where
  /-- `ClearWord`. -/
  | clearWord (word : ℕ) (mask : Word)
  /-- One store of `Reset`. -/
  | zeroWord (word : ℕ)
  /-- `PromoteValidWord` with the valid word of the scan. -/
  | promoteValidWord (word : ℕ) (requestedMask : Word)
  /-- The store of `Disable`. -/
  | disable
  | markValid (word : ℕ) (bits : Word) (writtenByGpu : Bool)
  | markInvalid (word : ℕ) (bits : Word)
  | zeroValid (word : ℕ)
  | zeroGpuWritten (word : ℕ)
  /-- `system_page_flags_valid_ = system_page_flags_valid_and_gpu_written_`. -/
  | keepGpuWritten (word : ℕ)

open Function in
/-- What an access does. -/
def Action.apply (b : Bits) : Action → Bits
  | clearWord word mask =>
      if word < kWordCount then { b with words := update b.words word (b.words word &&& ~~~mask) }
      else b
  | zeroWord word => { b with words := update b.words word 0 }
  | promoteValidWord word requestedMask =>
      if word < kWordCount ∧ b.disabled = false then
        { b with words := update b.words word (b.words word ||| (b.valid word &&& requestedMask)) }
      else b
  | disable => { b with disabled := true }
  | markValid word bits writtenByGpu =>
      { b with
        valid := update b.valid word (b.valid word ||| bits)
        gpuWritten := update b.gpuWritten word
          (if writtenByGpu then b.gpuWritten word ||| bits else b.gpuWritten word &&& ~~~bits) }
  | markInvalid word bits =>
      { b with
        valid := update b.valid word (b.valid word &&& ~~~bits)
        gpuWritten := update b.gpuWritten word (b.gpuWritten word &&& ~~~bits) }
  | zeroValid word => { b with valid := update b.valid word 0 }
  | zeroGpuWritten word => { b with gpuWritten := update b.gpuWritten word 0 }
  | keepGpuWritten word => { b with valid := update b.valid word (b.gpuWritten word) }

/-- The pages `pageFirst` to `pageLast` in a word, as the scans under the lock
compute them: the blocks are those of the range, whatever the pages are. -/
def blockMask (blockFirst blockLast pageFirst pageLast word : ℕ) : Word :=
  (if word = blockFirst then ~~~(((1 : Word) <<< (pageFirst % 64)) - 1) else BitVec.allOnes 64) &&&
    (if word = blockLast ∧ pageLast % 64 ≠ 63 then ((1 : Word) <<< (pageLast % 64 + 1)) - 1
     else BitVec.allOnes 64)

/-- `PageMask`. -/
def pageMask (word first last : ℕ) : Word :=
  (if word = first / 64 then BitVec.allOnes 64 <<< (first % 64) else BitVec.allOnes 64) &&&
    (if word = last / 64 then BitVec.allOnes 64 >>> (63 - last % 64) else BitVec.allOnes 64)

/-- The first and last page of a range of bytes that is not empty. -/
def pageSpan (r : Range) : Span := (r.1 / kPageBytes, (r.1 + r.2 - 1) / kPageBytes)

/-- The blocks of 64 pages of a span of pages. -/
def blockSpan (pages : Span) : Span := (pages.1 / 64, pages.2 / 64)

/-- `Reset`. -/
def resetMirror : List Action := (List.range kWordCount).map .zeroWord

/-- What a thread does under the global lock. -/
inductive Op where
  | makeRangeValid (start length : ℕ) (writtenByGpu : Bool)
  /-- `MemoryInvalidationCallback`, with the pages it selects in the blocks of
  the range. -/
  | memoryInvalidationCallback (start length pageFirst pageLast : ℕ)
  | invalidateAllPages
  | setSystemPageBlocksValidWithGpuDataWritten
  /-- The `Reset` of `ClearCache` and of a changed setting. -/
  | reset
  | clearPages (first last : ℕ)
  /-- The `Disable` for a caller that is not the command processor. -/
  | disable
  /-- The scan of an outermost `RequestRanges`, which promotes. -/
  | scan (ranges : List Range)

/-- The accesses of an operation, in order. -/
def Op.actions : Op → List Action
  | makeRangeValid start length writtenByGpu =>
      if length = 0 ∨ kBufferBytes ≤ start then []
      else
        let pages := pageSpan (start, min length (kBufferBytes - start))
        let blocks := blockSpan pages
        (Span.cells blocks).flatMap fun word =>
          let bits := blockMask blocks.1 blocks.2 pages.1 pages.2 word
          [.clearWord word bits, .markValid word bits writtenByGpu]
  | memoryInvalidationCallback start length pageFirst pageLast =>
      if length = 0 ∨ kBufferBytes ≤ start then []
      else
        let blocks := blockSpan (pageSpan (start, min length (kBufferBytes - start)))
        (Span.cells blocks).flatMap fun word =>
          let bits := blockMask blocks.1 blocks.2 pageFirst pageLast word
          [.clearWord word bits, .markInvalid word bits]
  | invalidateAllPages =>
      resetMirror ++ (List.range kWordCount).map .zeroValid ++
        (List.range kWordCount).map .zeroGpuWritten
  | setSystemPageBlocksValidWithGpuDataWritten =>
      resetMirror ++ (List.range kWordCount).map .keepGpuWritten
  | reset => resetMirror
  | clearPages first last =>
      if last < first ∨ kPageCount ≤ first then []
      else
        let pages : Span := (first, if kPageCount ≤ last then kPageCount - 1 else last)
        (Span.cells (blockSpan pages)).map fun word => .clearWord word (pageMask word pages.1 pages.2)
  | disable => .disable :: resetMirror
  | scan ranges =>
      ranges.flatMap fun r =>
        let pages := pageSpan r
        let blocks := blockSpan pages
        (Span.cells blocks).map fun word =>
          .promoteValidWord word (blockMask blocks.1 blocks.2 pages.1 pages.2 word)

/-- Only the command processor scans with the mirror. -/
def Op.promotes : Op → Bool
  | scan _ => true
  | _ => false

/-- The loads of `Contains`, in order, each with the bits it wants. -/
def loads (ranges : List Range) : List (ℕ × Word) :=
  ranges.flatMap fun r =>
    let pages := pageSpan r
    (Span.cells (blockSpan pages)).map fun word => (word, pageMask word pages.1 pages.2)

/-- The ranges `Contains` accepts. -/
def wellFormed (ranges : List Range) : Bool :=
  ranges.all fun r => r.2 ≠ 0 && r.1 < kBufferBytes && r.2 ≤ kBufferBytes - r.1

/-- Where the command processor thread stands. -/
inductive Point where
  | idle
  /-- It holds the lock; the accesses left. -/
  | locked (todo : List Action)
  /-- `Contains` is called. -/
  | entered (ranges : List Range)
  /-- The loads left. -/
  | loading (ranges : List Range) (todo : List (ℕ × Word))
  /-- `Contains` returns. -/
  | answered (ranges : List Range) (result : Bool)

/-- The command processor is inside `Contains`. -/
def Point.inContains : Point → Bool
  | entered _ | loading _ _ => true
  | _ => false

structure State where
  bits : Bits
  cp : Point
  /-- Another thread holds the lock; the accesses left. -/
  other : Option (List Action)

/-- One step of the command processor or of the thread that holds the lock. -/
inductive Step : State → State → Prop
  | acquire {s} (op : Op) : s.cp = .idle → s.other = none →
      Step s { s with cp := .locked op.actions }
  | act {s a todo} : s.cp = .locked (a :: todo) →
      Step s { s with bits := a.apply s.bits, cp := .locked todo }
  | release {s} : s.cp = .locked [] → Step s { s with cp := .idle }
  | otherAcquire {s} (op : Op) : op.promotes = false → s.other = none →
      (∀ todo, s.cp ≠ .locked todo) → Step s { s with other := some op.actions }
  | otherAct {s a todo} : s.other = some (a :: todo) →
      Step s { s with bits := a.apply s.bits, other := some todo }
  | otherRelease {s} : s.other = some [] → Step s { s with other := none }
  | call {s} (ranges) : s.cp = .idle → Step s { s with cp := .entered ranges }
  | check {s ranges} : s.cp = .entered ranges →
      Step s { s with
        cp := if ranges = [] ∨ s.bits.disabled ∨ wellFormed ranges = false then
          .answered ranges false else .loading ranges (loads ranges) }
  | load {s ranges word mask todo} : s.cp = .loading ranges ((word, mask) :: todo) →
      Step s { s with
        cp := if s.bits.words word &&& mask = mask then .loading ranges todo
          else .answered ranges false }
  | loaded {s ranges} : s.cp = .loading ranges [] → Step s { s with cp := .answered ranges true }
  | leave {s ranges result} : s.cp = .answered ranges result → Step s { s with cp := .idle }

/-- Nothing is valid at the start, and the mirror is empty. -/
def mirrored : System State where
  init s := s.cp = .idle ∧ s.other = none ∧ s.bits.disabled = false ∧
    ∀ word, s.bits.words word = 0 ∧ s.bits.valid word = 0 ∧ s.bits.gpuWritten word = 0
  step := Step

/-! ### Operations -/

/-- (a) of the contract: no bit of the mirror without the page being valid. -/
def Bits.Covered (b : Bits) : Prop :=
  ∀ word bit, (b.words word).getLsbD bit = true → (b.valid word).getLsbD bit = true

/-- The access does not take a valid bit the mirror still has. -/
def Action.Safe (b : Bits) : Action → Prop
  | markInvalid word bits =>
      ∀ bit, (b.words word).getLsbD bit = true → bits.getLsbD bit = false
  | zeroValid word | keepGpuWritten word => b.words word = 0
  | _ => True

/-- Each access of a sequence is safe when its turn comes. -/
def SafeRun : Bits → List Action → Prop
  | _, [] => True
  | b, a :: as => a.Safe b ∧ SafeRun (a.apply b) as

/-- A safe action keeps the mirror inside the bits it mirrors. -/
theorem Bits.Covered.apply {b : Bits} (h : b.Covered) {a : Action} (ha : a.Safe b) :
    (a.apply b).Covered := by
  intro word bit
  have hword := h word bit
  cases a with
  | clearWord w mask =>
      simp only [Action.apply]
      split
      · rcases eq_or_ne word w with rfl | hne
        · simp only [Function.update_self, BitVec.getLsbD_and, Bool.and_eq_true]
          exact fun hbit => hword hbit.1
        · simpa only [Function.update_of_ne hne] using hword
      · exact hword
  | zeroWord w =>
      simp only [Action.apply]
      rcases eq_or_ne word w with rfl | hne
      · simp
      · simpa only [Function.update_of_ne hne] using hword
  | promoteValidWord w mask =>
      simp only [Action.apply]
      split
      · rcases eq_or_ne word w with rfl | hne
        · simp only [Function.update_self, BitVec.getLsbD_or, BitVec.getLsbD_and, Bool.or_eq_true,
            Bool.and_eq_true]
          rintro (hbit | ⟨hbit, -⟩)
          · exact hword hbit
          · exact hbit
        · simpa only [Function.update_of_ne hne] using hword
      · exact hword
  | disable => exact hword
  | markValid w bits gpu =>
      simp only [Action.apply]
      rcases eq_or_ne word w with rfl | hne
      · simp only [Function.update_self, BitVec.getLsbD_or, Bool.or_eq_true]
        exact fun hbit => .inl (hword hbit)
      · simpa only [Function.update_of_ne hne] using hword
  | markInvalid w bits =>
      simp only [Action.apply]
      rcases eq_or_ne word w with rfl | hne
      · intro hbit
        rw [Function.update_self, BitVec.getLsbD_and, BitVec.getLsbD_not, hword hbit, ha bit hbit]
        simpa using BitVec.lt_of_getLsbD hbit
      · simpa only [Function.update_of_ne hne] using hword
  | zeroValid w =>
      simp only [Action.apply]
      rcases eq_or_ne word w with rfl | hne
      · intro hbit
        simp [show b.words word = 0 from ha] at hbit
      · simpa only [Function.update_of_ne hne] using hword
  | zeroGpuWritten w => exact hword
  | keepGpuWritten w =>
      simp only [Action.apply]
      rcases eq_or_ne word w with rfl | hne
      · intro hbit
        simp [show b.words word = 0 from ha] at hbit
      · simpa only [Function.update_of_ne hne] using hword

/-- A sequence of two parts is safe when the first is, and the second from where the first ends. -/
theorem safeRun_append {b : Bits} {as cs : List Action} :
    SafeRun b (as ++ cs) ↔ SafeRun b as ∧ SafeRun (as.foldl Action.apply b) cs := by
  induction as generalizing b with
  | nil => simp [SafeRun]
  | cons a as ih => simp only [List.cons_append, SafeRun, List.foldl_cons, ih, and_assoc]

/-- The accesses that are safe whatever the mirror has. -/
def Action.AlwaysSafe (a : Action) : Prop := ∀ b, a.Safe b

/-- Actions that are always safe are safe in sequence. -/
theorem safeRun_of_alwaysSafe {as : List Action} (h : ∀ a ∈ as, a.AlwaysSafe) (b : Bits) :
    SafeRun b as := by
  induction as generalizing b with
  | nil => trivial
  | cons a as ih =>
      rw [List.forall_mem_cons] at h
      exact ⟨h.1 b, ih h.2 _⟩

/-- Clearing the mirror's bits of each word first makes invalidating safe. -/
theorem safeRun_clear_invalidate (blocks : List ℕ) (hblocks : ∀ word ∈ blocks, word < kWordCount)
    (mask : ℕ → Word) (b : Bits) :
    SafeRun b (blocks.flatMap fun word => [.clearWord word (mask word), .markInvalid word (mask word)]) := by
  induction blocks generalizing b with
  | nil => trivial
  | cons word blocks ih =>
      rw [List.forall_mem_cons] at hblocks
      rw [List.flatMap_cons]
      refine ⟨trivial, ?_, ih hblocks.2 _⟩
      intro bit hbit
      simp only [Action.apply, if_pos hblocks.1, Function.update_self, BitVec.getLsbD_and,
        BitVec.getLsbD_not, Bool.and_eq_true, Bool.not_eq_true'] at hbit
      exact hbit.2.2

/-- After `Reset` every word of the mirror is zero. -/
theorem words_resetMirror (b : Bits) {word : ℕ} (h : word < kWordCount) :
    (resetMirror.foldl Action.apply b).words word = 0 := by
  have hfold : ∀ (l : List ℕ) (b : Bits), word ∈ l ∨ b.words word = 0 →
      ((l.map Action.zeroWord).foldl Action.apply b).words word = 0 := by
    intro l
    induction l with
    | nil => exact fun b hb => hb.resolve_left List.not_mem_nil
    | cons w l ih =>
        intro b hb
        rw [List.map_cons, List.foldl_cons]
        refine ih _ ?_
        rcases eq_or_ne word w with rfl | hne
        · exact .inr (Function.update_self ..)
        · refine hb.imp (fun hmem => (List.mem_cons.1 hmem).resolve_left hne) fun hzero => ?_
          simpa only [Action.apply, Function.update_of_ne hne] using hzero
  rw [resetMirror]
  exact hfold _ b (.inl (List.mem_range.2 h))

/-- Accesses to the bitmaps of words the mirror has nothing for. -/
theorem safeRun_of_zero (f : ℕ → Action) (hwords : ∀ b word, ((f word).apply b).words = b.words)
    (hsafe : ∀ b word, b.words word = 0 → (f word).Safe b) {l : List ℕ} {b : Bits}
    (h : ∀ word ∈ l, b.words word = 0) : SafeRun b (l.map f) := by
  induction l generalizing b with
  | nil => trivial
  | cons word l ih =>
      rw [List.forall_mem_cons] at h
      exact ⟨hsafe b word h.1, ih fun w hw => by rw [hwords]; exact h.2 w hw⟩

/-- Resetting the mirror is made of actions that are always safe. -/
theorem alwaysSafe_resetMirror {a : Action} (h : a ∈ resetMirror) : a.AlwaysSafe := by
  obtain ⟨word, -, rfl⟩ := List.mem_map.1 h
  exact fun _ => trivial

/-- So resetting the mirror is safe from any state, in the middle of a request as well. -/
theorem safeRun_resetMirror (b : Bits) : SafeRun b resetMirror := by
  refine safeRun_of_alwaysSafe (fun a ha => ?_) b
  exact alwaysSafe_resetMirror ha

/-- The blocks of a range of the buffer are words of the mirror. -/
theorem lt_of_mem_blockSpan {start length word : ℕ} (hstart : start < kBufferBytes)
    (h : word ∈ Span.cells (blockSpan (pageSpan (start, min length (kBufferBytes - start))))) :
    word < kWordCount := by
  have hle := (Span.mem_cells.1 h).2
  simp only [blockSpan, pageSpan, kBufferBytes, kPageBytes, kWordCount, kPageCount] at hle hstart ⊢
  omega

/-- **Every operation is safe.**  Each clears the mirror's bits before it takes
the valid bits. -/
theorem Op.safeRun (op : Op) (b : Bits) : SafeRun b op.actions := by
  cases op with
  | makeRangeValid start length gpu =>
      rw [Op.actions]
      split
      · trivial
      · refine safeRun_of_alwaysSafe (fun a ha => ?_) b
        obtain ⟨word, -, hmem⟩ := List.mem_flatMap.1 ha
        simp only [List.mem_cons, List.not_mem_nil, or_false] at hmem
        rcases hmem with rfl | rfl <;> exact fun _ => trivial
  | memoryInvalidationCallback start length pageFirst pageLast =>
      rw [Op.actions]
      split
      · trivial
      · rename_i hrange
        rw [not_or] at hrange
        exact safeRun_clear_invalidate _
          (fun word hword => lt_of_mem_blockSpan (not_le.1 hrange.2) hword) _ b
  | invalidateAllPages =>
      rw [Op.actions, List.append_assoc, safeRun_append, safeRun_append]
      refine ⟨safeRun_resetMirror b, ?_, ?_⟩
      · exact safeRun_of_zero .zeroValid (fun _ _ => rfl) (fun _ _ h => h) fun word hword =>
          words_resetMirror b (List.mem_range.1 hword)
      · refine safeRun_of_alwaysSafe (fun a ha => ?_) _
        obtain ⟨word, -, rfl⟩ := List.mem_map.1 ha
        exact fun _ => trivial
  | setSystemPageBlocksValidWithGpuDataWritten =>
      rw [Op.actions, safeRun_append]
      exact ⟨safeRun_resetMirror b,
        safeRun_of_zero .keepGpuWritten (fun _ _ => rfl) (fun _ _ h => h) fun word hword =>
          words_resetMirror b (List.mem_range.1 hword)⟩
  | reset => exact safeRun_resetMirror b
  | clearPages first last =>
      rw [Op.actions]
      split
      · trivial
      · refine safeRun_of_alwaysSafe (fun a ha => ?_) b
        obtain ⟨word, -, rfl⟩ := List.mem_map.1 ha
        exact fun _ => trivial
  | disable => exact ⟨trivial, safeRun_resetMirror _⟩
  | scan ranges =>
      refine safeRun_of_alwaysSafe (fun a ha => ?_) b
      obtain ⟨r, -, hmem⟩ := List.mem_flatMap.1 ha
      obtain ⟨word, -, rfl⟩ := List.mem_map.1 hmem
      exact fun _ => trivial

/-! ### The invariant -/

/-- The access sets no bit of the mirror. -/
def Action.Clears (a : Action) : Prop :=
  ∀ b word bit, ((a.apply b).words word).getLsbD bit = true → (b.words word).getLsbD bit = true

/-- An action that leaves the words alone sets none. -/
theorem Action.clears_of_words {a : Action} (h : ∀ b, (a.apply b).words = b.words) : a.Clears :=
  fun b word bit hbit => by rwa [h b] at hbit

/-- Clearing a word sets no bit of it. -/
theorem Action.clears_clearWord (w : ℕ) (mask : Word) : (clearWord w mask).Clears := by
  intro b word bit hbit
  simp only [Action.apply] at hbit
  split at hbit
  · rcases eq_or_ne word w with rfl | hne
    · simp only [Function.update_self, BitVec.getLsbD_and, Bool.and_eq_true] at hbit
      exact hbit.1
    · simpa only [Function.update_of_ne hne] using hbit
  · exact hbit

/-- Nor does resetting the mirror. -/
theorem clears_resetMirror {a : Action} (h : a ∈ resetMirror) : a.Clears := by
  obtain ⟨w, -, rfl⟩ := List.mem_map.1 h
  intro b word bit hbit
  simp only [Action.apply] at hbit
  rcases eq_or_ne word w with rfl | hne
  · simp at hbit
  · simpa only [Function.update_of_ne hne] using hbit

/-- Only the scan sets bits of the mirror; every other operation clears some or leaves them. -/
theorem Op.clears {op : Op} (h : op.promotes = false) {a : Action} (ha : a ∈ op.actions) :
    a.Clears := by
  cases op with
  | makeRangeValid start length gpu =>
      rw [Op.actions] at ha
      split at ha
      · exact absurd ha List.not_mem_nil
      · obtain ⟨word, -, hmem⟩ := List.mem_flatMap.1 ha
        simp only [List.mem_cons, List.not_mem_nil, or_false] at hmem
        rcases hmem with rfl | rfl
        · exact Action.clears_clearWord _ _
        · exact Action.clears_of_words fun _ => rfl
  | memoryInvalidationCallback start length pageFirst pageLast =>
      rw [Op.actions] at ha
      split at ha
      · exact absurd ha List.not_mem_nil
      · obtain ⟨word, -, hmem⟩ := List.mem_flatMap.1 ha
        simp only [List.mem_cons, List.not_mem_nil, or_false] at hmem
        rcases hmem with rfl | rfl
        · exact Action.clears_clearWord _ _
        · exact Action.clears_of_words fun _ => rfl
  | invalidateAllPages =>
      rw [Op.actions, List.mem_append, List.mem_append] at ha
      rcases ha with (ha | ha) | ha
      · exact clears_resetMirror ha
      · obtain ⟨word, -, rfl⟩ := List.mem_map.1 ha
        exact Action.clears_of_words fun _ => rfl
      · obtain ⟨word, -, rfl⟩ := List.mem_map.1 ha
        exact Action.clears_of_words fun _ => rfl
  | setSystemPageBlocksValidWithGpuDataWritten =>
      rw [Op.actions, List.mem_append] at ha
      rcases ha with ha | ha
      · exact clears_resetMirror ha
      · obtain ⟨word, -, rfl⟩ := List.mem_map.1 ha
        exact Action.clears_of_words fun _ => rfl
  | reset => exact clears_resetMirror ha
  | clearPages first last =>
      rw [Op.actions] at ha
      split at ha
      · exact absurd ha List.not_mem_nil
      · obtain ⟨word, -, rfl⟩ := List.mem_map.1 ha
        exact Action.clears_clearWord _ _
  | disable =>
      rcases List.mem_cons.1 ha with rfl | ha
      · exact Action.clears_of_words fun _ => rfl
      · exact clears_resetMirror ha
  | scan ranges => cases h

/-- What holds in every reachable state. -/
structure Inv (s : State) : Prop where
  covered : s.bits.Covered
  locked : ∀ todo, s.cp = .locked todo → SafeRun s.bits todo ∧ s.other = none
  other : ∀ todo, s.other = some todo → SafeRun s.bits todo ∧ ∀ a ∈ todo, a.Clears

/-- Every step keeps the invariant: an action is safe where its caller makes it. -/
theorem Inv.step {s t : State} (h : Inv s) (hstep : Step s t) : Inv t := by
  cases hstep with
  | acquire op hcp hfree =>
      refine ⟨h.covered, fun todo he => ?_, h.other⟩
      obtain rfl : op.actions = todo := Point.locked.inj he
      exact ⟨op.safeRun _, hfree⟩
  | @act a todo hcp =>
      obtain ⟨hsafe, hfree⟩ := h.locked _ hcp
      refine ⟨h.covered.apply hsafe.1, fun todo' he => ?_, fun todo' he => ?_⟩
      · obtain rfl : todo = todo' := Point.locked.inj he
        exact ⟨hsafe.2, hfree⟩
      · simp [hfree] at he
  | release hcp => exact ⟨h.covered, nofun, h.other⟩
  | otherAcquire op hop hfree hcp =>
      refine ⟨h.covered, fun todo he => absurd he (hcp todo), fun todo he => ?_⟩
      obtain rfl : op.actions = todo := Option.some.inj he
      exact ⟨op.safeRun _, fun a ha => op.clears hop ha⟩
  | @otherAct a todo hother =>
      obtain ⟨hsafe, hclears⟩ := h.other _ hother
      refine ⟨h.covered.apply hsafe.1, fun todo' he => ?_, fun todo' he => ?_⟩
      · simp [(h.locked _ he).2] at hother
      · obtain rfl : todo = todo' := Option.some.inj he
        exact ⟨hsafe.2, fun a' ha' => hclears a' (List.mem_cons_of_mem _ ha')⟩
  | otherRelease hother =>
      exact ⟨h.covered, fun todo he => ⟨(h.locked todo he).1, rfl⟩, nofun⟩
  | call ranges hcp => exact ⟨h.covered, nofun, h.other⟩
  | check hcp =>
      refine ⟨h.covered, fun todo he => ?_, h.other⟩
      simp only at he
      split at he <;> cases he
  | load hcp =>
      refine ⟨h.covered, fun todo he => ?_, h.other⟩
      simp only at he
      split at he <;> cases he
  | loaded hcp => exact ⟨h.covered, nofun, h.other⟩
  | leave hcp => exact ⟨h.covered, nofun, h.other⟩

/-- The invariant holds initially and is kept by every step. -/
theorem inductive_inv : mirrored.Inductive Inv where
  init s := by
    rintro ⟨hcp, hother, -, hzero⟩
    refine ⟨fun word bit hbit => ?_, fun todo he => ?_, fun todo he => ?_⟩
    · simp [(hzero word).1] at hbit
    · rw [hcp] at he
      cases he
    · simp [hother] at he
  step _ _ h hstep := h.step hstep

/-! ### A successful check -/

/-- A load that finds its bits. -/
def Load (words : ℕ → Word) (l : ℕ × Word) : Prop :=
  ∀ bit, l.2.getLsbD bit = true → (words l.1).getLsbD bit = true

/-- A word that has all bits of a mask is a load that may have been made. -/
theorem load_of_eq {words : ℕ → Word} {word : ℕ} {mask : Word} (h : words word &&& mask = mask) :
    Load words (word, mask) := by
  intro bit hbit
  have hand : (words word &&& mask).getLsbD bit = true := by
    rw [h]
    exact hbit
  rw [BitVec.getLsbD_and, Bool.and_eq_true] at hand
  exact hand.1

/-- `PageMask` has the bits of the pages of a range that lie in the word. -/
theorem pageMask_getLsbD {first last page : ℕ} (hfirst : first ≤ page) (hlast : page ≤ last) :
    (pageMask (page / 64) first last).getLsbD (page % 64) = true := by
  have hbit : page % 64 < 64 := Nat.mod_lt _ (by omega)
  rw [pageMask, BitVec.getLsbD_and, Bool.and_eq_true]
  constructor
  · split
    · rename_i hword
      rw [BitVec.getLsbD_shiftLeft, BitVec.getLsbD_allOnes]
      have : first % 64 ≤ page % 64 := by omega
      simp only [Bool.and_eq_true, Bool.not_eq_true', decide_eq_true_eq, decide_eq_false_iff_not]
      omega
    · rw [BitVec.getLsbD_allOnes]
      exact decide_eq_true hbit
  · split
    · rename_i hword
      rw [BitVec.getLsbD_ushiftRight, BitVec.getLsbD_allOnes]
      have : page % 64 ≤ last % 64 := by omega
      exact decide_eq_true (by omega)
    · rw [BitVec.getLsbD_allOnes]
      exact decide_eq_true hbit

/-- A page is valid. -/
def Bits.pageValid (b : Bits) (page : ℕ) : Bool := (b.valid (page / 64)).getLsbD (page % 64)

/-- When every load finds its bits in a covered mirror, every page is valid. -/
theorem pageValid_of_loads {b : Bits} (hcovered : b.Covered) {ranges : List Range}
    (hloads : ∀ l ∈ loads ranges, Load b.words l) {r : Range} (hr : r ∈ ranges) {page : ℕ}
    (hpage : page ∈ Span.cells (pageSpan r)) : b.pageValid page = true := by
  obtain ⟨hfirst, hlast⟩ := Span.mem_cells.1 hpage
  refine hcovered _ _ (hloads (page / 64, pageMask (page / 64) _ _) ?_ _
    (pageMask_getLsbD hfirst hlast))
  refine List.mem_flatMap.2 ⟨r, hr, List.mem_map.2 ⟨page / 64, Span.mem_cells.2 ?_, rfl⟩⟩
  exact ⟨Nat.div_le_div_right hfirst, Nat.div_le_div_right hlast⟩

/-- Since `Contains` was called on `ranges` with the mirror `words`: the mirror
has only lost bits, and the loads done found theirs. -/
structure Since (words : ℕ → Word) (ranges : List Range) (s : State) : Prop where
  shrunk : ∀ word bit, (s.bits.words word).getLsbD bit = true → (words word).getLsbD bit = true
  entered : ∀ rs, s.cp = .entered rs → rs = ranges
  loading : ∀ rs todo, s.cp = .loading rs todo →
    ∃ done, loads ranges = done ++ todo ∧ ∀ l ∈ done, Load words l
  answered : ∀ rs, s.cp = .answered rs true → ∀ l ∈ loads ranges, Load words l

/-- While the command processor is in `Contains`, nobody sets a bit. -/
theorem Since.step {words : ℕ → Word} {ranges : List Range} {s t : State} (h : Since words ranges s)
    (hinv : Inv s) (hin : s.cp.inContains = true) (hstep : Step s t) : Since words ranges t := by
  cases hstep with
  | acquire op hcp hfree => simp [hcp, Point.inContains] at hin
  | act hcp => simp [hcp, Point.inContains] at hin
  | release hcp => simp [hcp, Point.inContains] at hin
  | otherAcquire op hop hfree hcp => exact { h with }
  | @otherAct a todo hother =>
      have hclears := (hinv.other _ hother).2 a (List.mem_cons_self ..)
      exact ⟨fun word bit hbit => h.shrunk word bit (hclears _ _ _ hbit), h.entered, h.loading,
        h.answered⟩
  | otherRelease hother => exact { h with }
  | call rs hcp => simp [hcp, Point.inContains] at hin
  | @check rs hcp =>
      obtain rfl := h.entered rs hcp
      refine ⟨h.shrunk, fun rs' he => ?_, fun rs' todo he => ?_, fun rs' he => ?_⟩
      · simp only at he
        split at he <;> cases he
      · simp only at he
        split at he
        · cases he
        · obtain ⟨rfl, rfl⟩ := Point.loading.inj he
          exact ⟨[], rfl, by simp⟩
      · simp only at he
        split at he <;> cases he
  | @load rs word mask todo hcp =>
      obtain ⟨done, hdone, hfound⟩ := h.loading rs _ hcp
      refine ⟨h.shrunk, fun rs' he => ?_, fun rs' todo' he => ?_, fun rs' he => ?_⟩
      · simp only at he
        split at he <;> cases he
      · simp only at he
        split at he
        · rename_i hmask
          obtain ⟨rfl, rfl⟩ := Point.loading.inj he
          refine ⟨done ++ [(word, mask)], by simp [hdone], fun l hl => ?_⟩
          rcases List.mem_append.1 hl with hl | hl
          · exact hfound l hl
          · obtain rfl := List.mem_singleton.1 hl
            exact fun bit hbit => h.shrunk word bit (load_of_eq hmask bit hbit)
        · cases he
      · simp only at he
        split at he <;> cases he
  | @loaded rs hcp =>
      obtain ⟨done, hdone, hfound⟩ := h.loading rs _ hcp
      refine ⟨h.shrunk, nofun, nofun, fun rs' _ l hl => ?_⟩
      rw [hdone, List.append_nil] at hl
      exact hfound l hl
  | leave hcp => simp [hcp, Point.inContains] at hin

/-- **The mirror is sound.**  Along every run, (a) at each instant every bit of
the mirror is set in the valid bitmap, and (b) when a call of `Contains` that was
entered at instant `i` answers true at instant `j`, then at some instant between
all pages of all its ranges were valid. -/
theorem residencyMirror_sound (r : mirrored.Run) :
    (∀ i, (r.state i).bits.Covered) ∧
    ∀ i j ranges, i ≤ j → (r.state i).cp = .entered ranges →
      (∀ k, i ≤ k → k < j → (r.state k).cp.inContains = true) →
      (r.state j).cp = .answered ranges true →
      ∃ k, i ≤ k ∧ k ≤ j ∧ ∀ range ∈ ranges, ∀ page ∈ Span.cells (pageSpan range),
        (r.state k).bits.pageValid page = true := by
  have hinv : ∀ i, Inv (r.state i) := fun i => (r.reachable i).invariant inductive_inv
  refine ⟨fun i => (hinv i).covered, fun i j ranges hij hcall hin hanswer => ?_⟩
  have hstart : Since (r.state i).bits.words ranges (r.state i) := by
    refine ⟨fun _ _ h => h, fun rs he => ?_, fun rs todo he => ?_, fun rs he => ?_⟩
    · exact (Point.entered.inj (hcall.symm.trans he)).symm
    · cases hcall.symm.trans he
    · cases hcall.symm.trans he
  have hend : Since (r.state i).bits.words ranges (r.state j) :=
    r.between hij hstart fun k hik hkj hk hstep => hk.step (hinv k) (hin k hik hkj) hstep
  exact ⟨i, le_rfl, hij, fun range hr page hpage =>
    pageValid_of_loads (hinv i).covered (hend.answered ranges hanswer) hr hpage⟩

/-! ### A run with a hit -/

/-- The first page after some of the accesses that make it valid and promote
it. -/
def firstPageBits (as : List Action) : Bits :=
  as.foldl Action.apply ⟨fun _ => 0, false, fun _ => 0, fun _ => 0⟩

/-- The page becomes valid, is promoted, and `Contains` finds it. -/
def firstPageState : ℕ → State
  | 0 => ⟨firstPageBits [], .idle, none⟩
  | 1 => ⟨firstPageBits [], .locked [.clearWord 0 1, .markValid 0 1 false], none⟩
  | 2 => ⟨firstPageBits [.clearWord 0 1], .locked [.markValid 0 1 false], none⟩
  | 3 => ⟨firstPageBits [.clearWord 0 1, .markValid 0 1 false], .locked [], none⟩
  | 4 => ⟨firstPageBits [.clearWord 0 1, .markValid 0 1 false], .idle, none⟩
  | 5 => ⟨firstPageBits [.clearWord 0 1, .markValid 0 1 false], .locked [.promoteValidWord 0 1], none⟩
  | n + 6 => ⟨firstPageBits [.clearWord 0 1, .markValid 0 1 false, .promoteValidWord 0 1],
      match n with
      | 0 => .locked []
      | 1 => .idle
      | 2 => .entered [(0, 1)]
      | 3 => .loading [(0, 1)] [(0, 1)]
      | 4 => .loading [(0, 1)] []
      | _ => .answered [(0, 1)] true, none⟩

/-- In the example the first page is valid, promoted and answered. -/
theorem firstPageBits_promoted :
    let b := firstPageBits [.clearWord 0 1, .markValid 0 1 false, .promoteValidWord 0 1]
    b.disabled = false ∧ b.words 0 = 1 := by
  have hword : 0 < kWordCount := by
    unfold kWordCount
    decide
  simp [firstPageBits, Action.apply, hword]

def firstPageRun : mirrored.Run where
  state := firstPageState
  init := ⟨rfl, rfl, rfl, fun _ => ⟨rfl, rfl, rfl⟩⟩
  step
    | 0 => .inr (Step.acquire (.makeRangeValid 0 1 false) rfl rfl)
    | 1 => .inr (Step.act (s := firstPageState 1) rfl)
    | 2 => .inr (Step.act (s := firstPageState 2) rfl)
    | 3 => .inr (Step.release rfl)
    | 4 => .inr (Step.acquire (.scan [(0, 1)]) rfl rfl)
    | 5 => .inr (Step.act (s := firstPageState 5) rfl)
    | 6 => .inr (Step.release rfl)
    | 7 => .inr (Step.call [(0, 1)] rfl)
    | 8 => .inr <| by
        have hcheck := Step.check (s := firstPageState 8) rfl
        rw [if_neg] at hcheck
        · exact hcheck
        · simp only [firstPageState, firstPageBits_promoted.1]
          decide
    | 9 => .inr <| by
        have hload := Step.load (s := firstPageState 9) rfl
        rw [if_pos] at hload
        · exact hload
        · simp only [firstPageState, firstPageBits_promoted.2]
          decide
    | 10 => .inr (Step.loaded rfl)
    | _ + 11 => .inl rfl

/-- The hypotheses are satisfiable: in a run the first page is found by a call that begins at
instant 8. -/
theorem residencyMirror_sound_firstPage : ∃ k, 8 ≤ k ∧ k ≤ 11 ∧
    (firstPageRun.state k).bits.pageValid 0 = true := by
  obtain ⟨k, hk, hk', hpages⟩ := (residencyMirror_sound firstPageRun).2 8 11 [(0, 1)] (by omega) rfl
    (fun k hk hk' => by
      obtain rfl | rfl | rfl : k = 8 ∨ k = 9 ∨ k = 10 := by omega
      all_goals rfl) rfl
  exact ⟨k, hk, hk', hpages (0, 1) (List.mem_singleton.2 rfl) 0 (Span.mem_cells.2 (by decide))⟩

end Residency
end BoltsRebuilt
