/-
# The bindless sampler heaps

`src/gpu/vendored/src/graphics/d3d12/command_processor.cpp`:
`RequestSamplerBindlessIndices` for the native geometry pass, the sampler part of
`UpdateBindings` for emulated draws, and `RotateSamplerBindlessHeap`, which both of
them call when the heap is full.

Descriptors are only ever added to the current heap, at the next index.  A full heap
is put away with the submission that may still use it and comes back, empty, when
that submission has completed.  A batch that does not fit starts over in the new
heap.

The 64-bit numbers of the submissions are taken not to wrap.

A recorded draw keeps what the heap held when it was recorded (`RecordedDraw`); the
invariant `Sound` says that the heap of an unfinished draw is still the current one
or put away, with all of that in place.
-/

import BoltsRebuilt.Lib.System
import Mathlib.Data.List.Nodup
import Mathlib.Data.Nat.Basic
import Mathlib.Logic.Function.Basic

namespace BoltsRebuilt
namespace D3D12

def kSamplerHeapSize : ℕ := 2000

/-- `D3D12TextureCache::SamplerParameters`, by its `value`. -/
abbrev SamplerParameters := UInt32

/-- A draw in a command list: its submission and heap, and the descriptors the heap
held. -/
structure RecordedDraw where
  submission : ℕ
  heap : ℕ
  allocated : ℕ
  descriptors : ℕ → Option SamplerParameters

/-- The sampler heaps with the submissions.  Heaps are numbered as they are created;
`fence` is the last submission the GPU has completed, `submissionCompleted` the last
one seen. -/
structure SamplerHeaps where
  heaps : ℕ → ℕ → Option SamplerParameters
  created : ℕ
  /-- `sampler_bindless_heap_current_`. -/
  current : ℕ
  /-- `sampler_bindless_heap_allocated_`. -/
  allocated : ℕ
  /-- `texture_cache_bindless_sampler_map_`. -/
  map : SamplerParameters → Option ℕ
  /-- `sampler_bindless_heaps_overflowed_`, front first. -/
  overflowed : List (ℕ × ℕ)
  submissionOpen : Bool
  submissionCurrent : ℕ
  submissionCompleted : ℕ
  fence : ℕ
  draws : List RecordedDraw

namespace SamplerHeaps

/-- `RotateSamplerBindlessHeap`: whether it succeeds, `creates` saying whether a heap
can be created. -/
def rotate (s : SamplerHeaps) (creates : Bool) : Bool × SamplerHeaps :=
  match s.overflowed with
  | (heap, submission) :: rest =>
      if submission ≤ s.submissionCompleted then
        (true, { s with
          overflowed := rest ++ [(s.current, s.submissionCurrent)]
          current := heap
          allocated := 0
          map := fun _ => none })
      else if creates then
        (true, { s with
          overflowed := s.overflowed ++ [(s.current, s.submissionCurrent)]
          created := s.created + 1
          current := s.created
          allocated := 0
          map := fun _ => none })
      else (false, s)
  | [] =>
      if creates then
        (true, { s with
          overflowed := [(s.current, s.submissionCurrent)]
          created := s.created + 1
          current := s.created
          allocated := 0
          map := fun _ => none })
      else (false, s)

/-- A descriptor is written at the next index. -/
def writeSampler (s : SamplerHeaps) (parameters : SamplerParameters) : SamplerHeaps :=
  { s with
    heaps := Function.update s.heaps s.current
      (Function.update (s.heaps s.current) s.allocated (some parameters))
    allocated := s.allocated + 1
    map := Function.update s.map parameters (some s.allocated) }

/-- The loop over the parameters; no indices where the heap is full. -/
def requestAll (s : SamplerHeaps) : List SamplerParameters → Option (List ℕ) × SamplerHeaps
  | [] => (some [], s)
  | parameters :: rest =>
      match s.map parameters with
      | some index => ((s.requestAll rest).1.map (index :: ·), (s.requestAll rest).2)
      | none =>
          if kSamplerHeapSize ≤ s.allocated then (none, s)
          else
            (((s.writeSampler parameters).requestAll rest).1.map (s.allocated :: ·),
              ((s.writeSampler parameters).requestAll rest).2)

/-- `RequestSamplerBindlessIndices`; no indices where it returns false. -/
def requestSamplerBindlessIndices (s : SamplerHeaps) (parameters : List SamplerParameters)
    (creates : Bool) : Option (List ℕ) × SamplerHeaps :=
  if kSamplerHeapSize < parameters.length then (none, s)
  else
    match s.requestAll parameters with
    | (some indices, s) => (some indices, s)
    | (none, s) =>
        match s.rotate creates with
        | (false, s) => (none, s)
        | (true, s) => s.requestAll parameters

/-- A stage of `UpdateBindings`: no list where its indices are left. -/
def requestStage (s : SamplerHeaps) (samplers : List SamplerParameters) (upToDate : Bool) :
    Option (Option (List ℕ)) × SamplerHeaps :=
  if samplers.isEmpty || upToDate then (some none, s)
  else ((s.requestAll samplers).1.map some, (s.requestAll samplers).2)

/-- An iteration of the loop of `UpdateBindings`. -/
def requestStages (s : SamplerHeaps) (vertex pixel : List SamplerParameters)
    (vertexUpToDate pixelUpToDate : Bool) :
    Option (Option (List ℕ) × Option (List ℕ)) × SamplerHeaps :=
  match s.requestStage vertex vertexUpToDate with
  | (none, s) => (none, s)
  | (some vertexIndices, s) =>
      ((s.requestStage pixel pixelUpToDate).1.map (vertexIndices, ·),
        (s.requestStage pixel pixelUpToDate).2)

/-- The sampler part of `UpdateBindings`.  A rotation leaves neither stage up to
date. -/
def updateBindings (s : SamplerHeaps) (vertex pixel : List SamplerParameters)
    (vertexUpToDate pixelUpToDate creates : Bool) :
    Option (Option (List ℕ) × Option (List ℕ)) × SamplerHeaps :=
  match s.requestStages vertex pixel vertexUpToDate pixelUpToDate with
  | (some indices, s) => (some indices, s)
  | (none, s) =>
      match s.rotate creates with
      | (false, s) => (none, s)
      | (true, s) => s.requestStages vertex pixel false false

/-- A draw is recorded with the current heap. -/
def draw (s : SamplerHeaps) : SamplerHeaps :=
  { s with draws := ⟨s.submissionCurrent, s.current, s.allocated, s.heaps s.current⟩ :: s.draws }

/-- The clearing of the caches at the end of a frame. -/
def clearCache (s : SamplerHeaps) : SamplerHeaps :=
  { s with map := fun _ => none, overflowed := [], allocated := 0 }

/-- The start, before the first submission. -/
def initial : SamplerHeaps where
  heaps := fun _ _ => none
  created := 1
  current := 0
  allocated := 0
  map := fun _ => none
  overflowed := []
  submissionOpen := false
  submissionCurrent := 1
  submissionCompleted := 0
  fence := 0
  draws := []

/-- What happens to the heaps. -/
inductive Step : SamplerHeaps → SamplerHeaps → Prop
  | beginSubmission {s : SamplerHeaps} : Step s { s with submissionOpen := true }
  | request {s : SamplerHeaps} (parameters : List SamplerParameters) (creates : Bool) :
      Step s (s.requestSamplerBindlessIndices parameters creates).2
  /-- `UpdateBindings` asserts that both stages fit into a heap. -/
  | updateBindings {s : SamplerHeaps} (vertex pixel : List SamplerParameters)
      (vertexUpToDate pixelUpToDate creates : Bool)
      (hcount : vertex.length + pixel.length ≤ kSamplerHeapSize) :
      Step s (s.updateBindings vertex pixel vertexUpToDate pixelUpToDate creates).2
  | rotate {s : SamplerHeaps} (creates : Bool) : Step s (s.rotate creates).2
  | draw {s : SamplerHeaps} (hopen : s.submissionOpen = true) : Step s s.draw
  | endSubmission {s : SamplerHeaps} (hopen : s.submissionOpen = true) :
      Step s { s with submissionOpen := false, submissionCurrent := s.submissionCurrent + 1 }
  /-- The GPU completes submissions that have ended. -/
  | complete {s : SamplerHeaps} (fence : ℕ) (hle : s.fence ≤ fence) (hlt : fence < s.submissionCurrent) :
      Step s { s with fence }
  | checkSubmissionFence {s : SamplerHeaps} : Step s { s with submissionCompleted := s.fence }
  | clearCache {s : SamplerHeaps} (hclosed : s.submissionOpen = false)
      (hcompleted : s.submissionCurrent ≤ s.submissionCompleted + 1) : Step s s.clearCache

def system : System SamplerHeaps where
  init s := s = initial
  step := Step

/-! ### The map and the current heap -/

/-- The map and the current heap say the same, and the heap holds nothing else. -/
structure Agrees (s : SamplerHeaps) : Prop where
  bound : s.allocated ≤ kSamplerHeapSize
  mapped : ∀ p i, s.map p = some i → i < s.allocated ∧ s.heaps s.current i = some p
  held : ∀ i, i < s.allocated → ∃ p, s.map p = some i ∧ s.heaps s.current i = some p

/-- A request only adds to the current heap. -/
structure Grows (s t : SamplerHeaps) : Prop where
  current : t.current = s.current
  allocated : s.allocated ≤ t.allocated
  map : ∀ p i, s.map p = some i → t.map p = some i
  heaps : ∀ h i, h ≠ s.current ∨ i < s.allocated → t.heaps h i = s.heaps h i
  created : t.created = s.created
  overflowed : t.overflowed = s.overflowed
  submissionOpen : t.submissionOpen = s.submissionOpen
  submissionCurrent : t.submissionCurrent = s.submissionCurrent
  submissionCompleted : t.submissionCompleted = s.submissionCompleted
  fence : t.fence = s.fence
  draws : t.draws = s.draws

/-- A heap that is left alone has grown by nothing. -/
theorem Grows.refl (s : SamplerHeaps) : Grows s s where
  current := rfl
  allocated := Nat.le_refl _
  map _ _ h := h
  heaps _ _ _ := rfl
  created := rfl
  overflowed := rfl
  submissionOpen := rfl
  submissionCurrent := rfl
  submissionCompleted := rfl
  fence := rfl
  draws := rfl

/-- Growing twice is growing. -/
theorem Grows.trans {s t u : SamplerHeaps} (h : Grows s t) (h' : Grows t u) : Grows s u where
  current := h'.current.trans h.current
  allocated := h.allocated.trans h'.allocated
  map p i hp := h'.map p i (h.map p i hp)
  heaps a i hi := by
    refine (h'.heaps a i ?_).trans (h.heaps a i hi)
    exact hi.imp (fun hne => h.current ▸ hne) fun hlt => Nat.lt_of_lt_of_le hlt h.allocated
  created := h'.created.trans h.created
  overflowed := h'.overflowed.trans h.overflowed
  submissionOpen := h'.submissionOpen.trans h.submissionOpen
  submissionCurrent := h'.submissionCurrent.trans h.submissionCurrent
  submissionCompleted := h'.submissionCompleted.trans h.submissionCompleted
  fence := h'.fence.trans h.fence
  draws := h'.draws.trans h.draws

variable {s t : SamplerHeaps} {parameters : List SamplerParameters} {indices : List ℕ}

/-- A sampler not yet in the heap is written behind those that are, and is found there from then on. -/
theorem writeSampler_spec (h : Agrees s) {p : SamplerParameters} (hp : s.map p = none)
    (hfull : ¬kSamplerHeapSize ≤ s.allocated) : Agrees (s.writeSampler p) ∧ Grows s (s.writeSampler p) := by
  have hslot : ∀ i, i ≠ s.allocated → (s.writeSampler p).heaps s.current i = s.heaps s.current i := by
    intro i hi
    rw [writeSampler]
    dsimp only
    rw [Function.update_self, Function.update_of_ne hi]
  have hnew : (s.writeSampler p).heaps s.current s.allocated = some p := by
    rw [writeSampler]
    dsimp only
    rw [Function.update_self, Function.update_self]
  have hmap : ∀ q, q ≠ p → (s.writeSampler p).map q = s.map q := fun q hq => Function.update_of_ne hq ..
  have hmapped : (s.writeSampler p).map p = some s.allocated := Function.update_self ..
  have hother : ∀ q i, s.map q = some i → (s.writeSampler p).map q = some i := by
    intro q i hq
    have hqp : q ≠ p := by
      rintro rfl
      exact absurd (hp.symm.trans hq) nofun
    exact (hmap q hqp).trans hq
  have hagrees : Agrees (s.writeSampler p) := by
    constructor
    case bound => exact Nat.lt_of_not_le hfull
    case mapped =>
      intro q i hq
      rcases eq_or_ne q p with rfl | hne
      · obtain rfl := Option.some.inj (hmapped.symm.trans hq)
        exact ⟨Nat.lt_succ_self _, hnew⟩
      · rw [hmap q hne] at hq
        obtain ⟨hlt, hheap⟩ := h.mapped q i hq
        exact ⟨Nat.lt_succ_of_lt hlt, (hslot i hlt.ne).trans hheap⟩
    case held =>
      intro i hi
      rcases eq_or_ne i s.allocated with rfl | hne
      · exact ⟨p, hmapped, hnew⟩
      · have hlt : i < s.allocated + 1 := hi
        obtain ⟨q, hq, hheap⟩ := h.held i (by omega)
        exact ⟨q, hother q i hq, (hslot i hne).trans hheap⟩
  have hheaps : ∀ a i, a ≠ s.current ∨ i < s.allocated →
      (s.writeSampler p).heaps a i = s.heaps a i := by
    intro a i hi
    rcases eq_or_ne a s.current with rfl | hne
    · exact hslot i (hi.resolve_left fun hne => hne rfl).ne
    · exact congrFun (Function.update_of_ne hne ..) i
  exact ⟨hagrees, { Grows.refl s with allocated := Nat.le_succ _, map := hother, heaps := hheaps }⟩

/-- **The loop over the parameters.**  It adds to the heap, and its indices are
those of the map it leaves. -/
theorem requestAll_spec (h : Agrees s) (ps : List SamplerParameters) :
    Agrees (s.requestAll ps).2 ∧ Grows s (s.requestAll ps).2 ∧
      ∀ indices, (s.requestAll ps).1 = some indices →
        List.Forall₂ (fun p i => (s.requestAll ps).2.map p = some i) ps indices := by
  induction ps generalizing s with
  | nil =>
      refine ⟨h, .refl s, ?_⟩
      rintro indices ⟨⟩
      exact .nil
  | cons p ps ih =>
      rw [requestAll]
      cases hp : s.map p with
      | some i =>
          obtain ⟨hagrees, hgrows, hindices⟩ := ih h
          refine ⟨hagrees, hgrows, fun indices hsome => ?_⟩
          obtain ⟨rest, hrest, rfl⟩ := Option.map_eq_some_iff.1 hsome
          exact .cons (hgrows.map p i hp) (hindices rest hrest)
      | none =>
          dsimp only
          by_cases hfull : kSamplerHeapSize ≤ s.allocated
          · rw [if_pos hfull]
            exact ⟨h, .refl s, nofun⟩
          · rw [if_neg hfull]
            obtain ⟨hwritten, hgrew⟩ := writeSampler_spec h hp hfull
            obtain ⟨hagrees, hgrows, hindices⟩ := ih hwritten
            refine ⟨hagrees, hgrew.trans hgrows, fun indices hsome => ?_⟩
            obtain ⟨rest, hrest, rfl⟩ := Option.map_eq_some_iff.1 hsome
            exact .cons (hgrows.map p _ (Function.update_self ..)) (hindices rest hrest)

/-! ### The stages of an emulated draw -/

/-- The indices of a stage are those of the map, where it asked for any. -/
def StageIndices (t : SamplerHeaps) (samplers : List SamplerParameters) (indices : Option (List ℕ)) : Prop :=
  ∀ is, indices = some is → List.Forall₂ (fun p i => t.map p = some i) samplers is

/-- Indices that were answered stay right while the heap grows. -/
theorem StageIndices.grows {samplers : List SamplerParameters} {indices : Option (List ℕ)}
    (h : StageIndices s samplers indices) (hgrows : Grows s t) : StageIndices t samplers indices :=
  fun is his => (h is his).imp fun p i hp => hgrows.map p i hp

/-- **A stage's request** answers with one index for each of its samplers, or finds the heap full. -/
theorem requestStage_spec (h : Agrees s) (samplers : List SamplerParameters) (upToDate : Bool) :
    Agrees (s.requestStage samplers upToDate).2 ∧ Grows s (s.requestStage samplers upToDate).2 ∧
      ∀ indices, (s.requestStage samplers upToDate).1 = some indices →
        StageIndices (s.requestStage samplers upToDate).2 samplers indices := by
  rw [requestStage]
  split
  · refine ⟨h, .refl s, ?_⟩
    rintro indices ⟨⟩
    exact nofun
  · obtain ⟨hagrees, hgrows, hindices⟩ := requestAll_spec h samplers
    refine ⟨hagrees, hgrows, fun indices hsome => ?_⟩
    obtain ⟨is, his, rfl⟩ := Option.map_eq_some_iff.1 hsome
    rintro is' ⟨⟩
    exact hindices is his

/-- A request for both stages answers for both from one heap. -/
theorem requestStages_spec (h : Agrees s) (vertex pixel : List SamplerParameters)
    (vertexUpToDate pixelUpToDate : Bool) {r : Option (Option (List ℕ) × Option (List ℕ))}
    (hr : s.requestStages vertex pixel vertexUpToDate pixelUpToDate = (r, t)) :
    Agrees t ∧ Grows s t ∧ ∀ v p, r = some (v, p) → StageIndices t vertex v ∧ StageIndices t pixel p := by
  obtain ⟨hagrees, hgrows, hindices⟩ := requestStage_spec h vertex vertexUpToDate
  rw [requestStages] at hr
  generalize s.requestStage vertex vertexUpToDate = first at hagrees hgrows hindices hr
  obtain ⟨found, u⟩ := first
  cases found with
  | none =>
      cases hr
      exact ⟨hagrees, hgrows, nofun⟩
  | some vertexIndices =>
      obtain ⟨hagrees', hgrows', hindices'⟩ := requestStage_spec hagrees pixel pixelUpToDate
      cases hr
      refine ⟨hagrees', hgrows.trans hgrows', fun v p hsome => ?_⟩
      obtain ⟨is, his, heq⟩ := Option.map_eq_some_iff.1 hsome
      obtain ⟨rfl, rfl⟩ := Prod.mk.inj heq
      exact ⟨(hindices vertexIndices rfl).grows hgrows', hindices' is his⟩

/-! ### Heaps put away -/

/-- What is put away, and what the draws that may still run rely on. -/
structure Retired (s : SamplerHeaps) : Prop where
  exist : ∀ h ∈ s.current :: s.overflowed.map Prod.fst, h < s.created
  nodup : (s.current :: s.overflowed.map Prod.fst).Nodup
  seen : s.submissionCompleted ≤ s.fence
  fence : s.fence < s.submissionCurrent
  ended : ∀ d ∈ s.draws, d.submission ≤ s.submissionCurrent ∧
    (s.submissionOpen = false → d.submission < s.submissionCurrent)
  kept : ∀ d ∈ s.draws, s.fence < d.submission →
    (d.heap = s.current ∧ d.allocated ≤ s.allocated ∨
      ∃ submission, (d.heap, submission) ∈ s.overflowed ∧ d.submission ≤ submission) ∧
    ∀ i, i < d.allocated → s.heaps d.heap i = d.descriptors i

/-- The invariant. -/
structure Sound (s : SamplerHeaps) : Prop where
  agrees : Agrees s
  retired : Retired s

/-- A heap that was put away is not the current one. -/
theorem Retired.ne_current (h : Retired s) {heap submission : ℕ}
    (hmem : (heap, submission) ∈ s.overflowed) : heap ≠ s.current := by
  rintro rfl
  exact (List.nodup_cons.1 h.nodup).1 (List.mem_map.2 ⟨_, hmem, rfl⟩)

/-- Adding to the current heap disturbs no draw: the heaps that are retired, and the fences they
wait for, stay as they are. -/
theorem Retired.grows (h : Retired s) (hgrows : Grows s t) : Retired t where
  exist := by
    rw [hgrows.current, hgrows.overflowed, hgrows.created]
    exact h.exist
  nodup := by
    rw [hgrows.current, hgrows.overflowed]
    exact h.nodup
  seen := by
    rw [hgrows.submissionCompleted, hgrows.fence]
    exact h.seen
  fence := by
    rw [hgrows.submissionCurrent, hgrows.fence]
    exact h.fence
  ended := by
    rw [hgrows.draws, hgrows.submissionCurrent, hgrows.submissionOpen]
    exact h.ended
  kept d hd hfence := by
    rw [hgrows.draws] at hd
    rw [hgrows.fence] at hfence
    obtain ⟨hwhere, hdescriptors⟩ := h.kept d hd hfence
    rw [hgrows.current, hgrows.overflowed]
    refine ⟨hwhere.imp_left fun hcurrent => ⟨hcurrent.1, hcurrent.2.trans hgrows.allocated⟩,
      fun i hi => (hgrows.heaps d.heap i ?_).trans (hdescriptors i hi)⟩
    rcases hwhere with ⟨-, hle⟩ | ⟨submission, hmem, -⟩
    · exact .inr (Nat.lt_of_lt_of_le hi hle)
    · exact .inl (h.ne_current hmem)

/-- An empty map and an empty heap agree, whatever the heap's descriptors hold from before. -/
theorem agrees_empty (hmap : s.map = fun _ => none) (hallocated : s.allocated = 0) : Agrees s := by
  refine ⟨hallocated ▸ Nat.zero_le _, fun p i hp => ?_, fun i hi => ?_⟩
  · rw [hmap] at hp
    exact absurd hp nofun
  · exact absurd (hallocated ▸ hi) (Nat.not_lt_zero i)

/-- No descriptor of a heap that an unfinished draw was recorded with is rewritten.
The descriptors of the current heap are those below `allocated`. -/
def Preserves (s t : SamplerHeaps) : Prop :=
  ∀ d ∈ s.draws, s.fence < d.submission → ∀ i, (d.heap = s.current → i < s.allocated) →
    t.heaps d.heap i = s.heaps d.heap i

/-- A heap that grows keeps every sampler where it was. -/
theorem Grows.preserves (h : Grows s t) : Preserves s t := by
  intro d _ _ i hi
  refine h.heaps d.heap i ?_
  by_cases hcurrent : d.heap = s.current
  · exact .inr (hi hcurrent)
  · exact .inl hcurrent

/-- So what is preserved after growing was preserved from before. -/
theorem Preserves.of_grows {u : SamplerHeaps} (h : Grows s u) (h' : Preserves u t) : Preserves s t := by
  intro d hd hfence i hi
  refine (h' d (h.draws ▸ hd) (h.fence ▸ hfence) i fun hcurrent => ?_).trans
    (h.preserves d hd hfence i hi)
  exact Nat.lt_of_lt_of_le (hi (hcurrent.trans h.current)) h.allocated

/-- What a successful rotation leaves: another heap, empty and with no unfinished
draw. -/
structure Rotates (s t : SamplerHeaps) : Prop where
  map : t.map = fun _ => none
  allocated : t.allocated = 0
  retired : Retired t
  heaps : t.heaps = s.heaps
  unused : ∀ d ∈ s.draws, s.fence < d.submission → d.heap ≠ t.current

/-- What is added to the heap after a rotation. -/
theorem Rotates.preserves {u : SamplerHeaps} (h : Rotates s u) (hgrows : Grows u t) : Preserves s t :=
  fun d hd hfence i _ =>
    (hgrows.heaps d.heap i (.inl (h.unused d hd hfence))).trans (congrFun (congrFun h.heaps _) i)

/-- The draws that may still run use heaps that are put away. -/
def PutAway (s : SamplerHeaps) (overflowed : List (ℕ × ℕ)) : Prop :=
  ∀ d ∈ s.draws, s.fence < d.submission →
    ∃ submission, (d.heap, submission) ∈ overflowed ∧ d.submission ≤ submission

/-- The heap that is replaced is put away with the current submission. -/
theorem Retired.putAway (h : Retired s) {rest : List (ℕ × ℕ)}
    (hrest : ∀ d ∈ s.draws, s.fence < d.submission → ∀ submission, (d.heap, submission) ∈ s.overflowed →
      d.submission ≤ submission → (d.heap, submission) ∈ rest) :
    PutAway s (rest ++ [(s.current, s.submissionCurrent)]) := by
  intro d hd hfence
  rcases (h.kept d hd hfence).1 with ⟨hcurrent, -⟩ | ⟨submission, hmem, hle⟩
  · exact ⟨s.submissionCurrent, List.mem_append.2 (.inr (hcurrent ▸ List.mem_singleton.2 rfl)),
      (h.ended d hd).1⟩
  · exact ⟨submission, List.mem_append.2 (.inl (hrest d hd hfence submission hmem hle)), hle⟩

/-- Another heap takes the place of the current one. -/
theorem Retired.rotates (h : Retired s) {overflowed : List (ℕ × ℕ)} {heap created : ℕ}
    (hexist : ∀ a ∈ heap :: overflowed.map Prod.fst, a < created)
    (hnodup : (heap :: overflowed.map Prod.fst).Nodup) (hput : PutAway s overflowed) :
    Rotates s { s with overflowed, created, current := heap, allocated := 0, map := fun _ => none } := by
  have hretired : Retired
      { s with overflowed, created, current := heap, allocated := 0, map := fun _ => none } :=
    { h with
      exist := hexist
      nodup := hnodup
      kept := fun d hd hfence => ⟨.inr (hput d hd hfence), (h.kept d hd hfence).2⟩ }
  refine ⟨rfl, rfl, hretired, rfl, fun d hd hfence => ?_⟩
  obtain ⟨submission, hmem, -⟩ := hput d hd hfence
  exact hretired.ne_current hmem

/-- A new heap takes the place of the full one, which is retired until the fence has passed its last
submission. -/
theorem Retired.rotates_create (h : Retired s) :
    Rotates s { s with
      overflowed := s.overflowed ++ [(s.current, s.submissionCurrent)]
      created := s.created + 1
      current := s.created
      allocated := 0
      map := fun _ => none } := by
  obtain ⟨hcurrent, hrest⟩ := List.nodup_cons.1 h.nodup
  refine h.rotates (fun heap hheap => ?_) ?_ (h.putAway fun _ _ _ _ hmem _ => hmem)
  · rw [List.map_append, List.mem_cons, List.mem_append] at hheap
    rcases hheap with rfl | hheap | hheap
    · exact Nat.lt_succ_self _
    · exact Nat.lt_succ_of_lt (h.exist heap (List.mem_cons_of_mem _ hheap))
    · obtain rfl := List.mem_singleton.1 hheap
      exact Nat.lt_succ_of_lt (h.exist _ (List.mem_cons_self ..))
  · rw [List.map_append, List.nodup_cons, List.nodup_append]
    refine ⟨fun hmem => ?_, hrest, List.nodup_singleton _, ?_⟩
    · rw [List.mem_append] at hmem
      rcases hmem with hmem | hmem
      · exact absurd (h.exist _ (List.mem_cons_of_mem _ hmem)) (Nat.lt_irrefl _)
      · exact absurd (h.exist _ (List.mem_cons_self ..)) (List.mem_singleton.1 hmem ▸ Nat.lt_irrefl _)
    · rintro a ha b hb rfl
      have heq : a = s.current := List.mem_singleton.1 hb
      exact hcurrent (heq ▸ ha)

/-- The heap that was put away first, once its submission has completed: none of its
draws may still run. -/
theorem Retired.rotates_reuse (h : Retired s) {heap submission : ℕ} {rest : List (ℕ × ℕ)}
    (hoverflowed : s.overflowed = (heap, submission) :: rest)
    (hcompleted : submission ≤ s.submissionCompleted) :
    Rotates s { s with
      overflowed := rest ++ [(s.current, s.submissionCurrent)]
      current := heap
      allocated := 0
      map := fun _ => none } := by
  have hnodup := h.nodup
  have hexist := h.exist
  rw [hoverflowed, List.map_cons] at hnodup hexist
  obtain ⟨hcurrent, htail⟩ := List.nodup_cons.1 hnodup
  obtain ⟨hheap, hrest⟩ := List.nodup_cons.1 htail
  rw [List.mem_cons, not_or] at hcurrent
  refine h.rotates (fun a ha => hexist a ?_) ?_ (h.putAway fun d _ hfence submission' hmem hle => ?_)
  · rw [List.map_append, List.mem_cons, List.mem_append] at ha
    rw [List.mem_cons, List.mem_cons]
    rcases ha with ha | ha | ha
    · exact .inr (.inl ha)
    · exact .inr (.inr ha)
    · exact .inl (List.mem_singleton.1 ha)
  · rw [List.map_append, List.nodup_cons, List.nodup_append]
    refine ⟨fun hmem => ?_, hrest, List.nodup_singleton _, ?_⟩
    · rw [List.mem_append] at hmem
      rcases hmem with hmem | hmem
      · exact hheap hmem
      · exact hcurrent.1 (List.mem_singleton.1 hmem).symm
    · rintro a ha b hb rfl
      have heq : a = s.current := List.mem_singleton.1 hb
      exact hcurrent.2 (heq ▸ ha)
  · rw [hoverflowed, List.mem_cons] at hmem
    rcases hmem with heq | hmem
    · obtain ⟨-, rfl⟩ := Prod.mk.inj heq
      exact absurd ((hle.trans hcompleted).trans h.seen) (Nat.not_le_of_lt hfence)
    · exact hmem

/-- **A rotation.**  It fails and changes nothing, or changes to an empty heap. -/
theorem rotate_spec (h : Retired s) (creates : Bool) :
    s.rotate creates = (false, s) ∨ (s.rotate creates).1 = true ∧ Rotates s (s.rotate creates).2 := by
  have hcreate := h.rotates_create
  rw [rotate]
  cases hoverflowed : s.overflowed with
  | nil =>
      rw [hoverflowed] at hcreate
      cases creates with
      | true => exact .inr ⟨rfl, hcreate⟩
      | false => exact .inl rfl
  | cons front rest =>
      obtain ⟨heap, submission⟩ := front
      dsimp only
      by_cases hcompleted : submission ≤ s.submissionCompleted
      · rw [if_pos hcompleted]
        exact .inr ⟨rfl, h.rotates_reuse hoverflowed hcompleted⟩
      · rw [if_neg hcompleted]
        rw [hoverflowed] at hcreate
        cases creates with
        | true => exact .inr ⟨rfl, hcreate⟩
        | false => exact .inl rfl

/-- A rotation starts with an empty heap, and keeps the account of the retired ones. -/
theorem Rotates.sound (h : Rotates s t) : Sound t := ⟨agrees_empty h.map h.allocated, h.retired⟩

/-- **A batch.**  It keeps the invariant, and the indices it returns are those of
the map it leaves, in the heap it leaves. -/
theorem request_spec (h : Sound s) (creates : Bool) {r : Option (List ℕ)}
    (hr : s.requestSamplerBindlessIndices parameters creates = (r, t)) :
    Sound t ∧ Preserves s t ∧
      ∀ is, r = some is → List.Forall₂ (fun p i => t.map p = some i) parameters is := by
  rw [requestSamplerBindlessIndices] at hr
  split at hr
  · cases hr
    exact ⟨h, fun _ _ _ _ _ => rfl, nofun⟩
  · obtain ⟨hagrees, hgrows, hindices⟩ := requestAll_spec h.agrees parameters
    generalize s.requestAll parameters = first at hagrees hgrows hindices hr
    obtain ⟨found, u⟩ := first
    have hsound : Sound u := ⟨hagrees, h.retired.grows hgrows⟩
    cases found with
    | some is =>
        cases hr
        refine ⟨hsound, hgrows.preserves, ?_⟩
        rintro is' ⟨⟩
        exact hindices is rfl
    | none =>
        dsimp only at hr
        rcases rotate_spec hsound.retired creates with heq | ⟨hok, hrotates⟩
        · rw [heq] at hr
          cases hr
          exact ⟨hsound, hgrows.preserves, nofun⟩
        · generalize u.rotate creates = rotated at hok hrotates hr
          obtain ⟨ok, w⟩ := rotated
          cases hok
          obtain ⟨hagrees', hgrows', hindices'⟩ := requestAll_spec hrotates.sound.agrees parameters
          dsimp only at hr hagrees' hgrows' hindices'
          rw [hr] at hagrees' hgrows' hindices'
          exact ⟨⟨hagrees', hrotates.retired.grows hgrows'⟩, .of_grows hgrows (hrotates.preserves hgrows'),
            hindices'⟩

/-- **An emulated draw.**  Both stages have their indices in the one heap that is
left. -/
theorem updateBindings_spec (h : Sound s) (vertex pixel : List SamplerParameters)
    (vertexUpToDate pixelUpToDate creates : Bool) {r : Option (Option (List ℕ) × Option (List ℕ))}
    (hr : s.updateBindings vertex pixel vertexUpToDate pixelUpToDate creates = (r, t)) :
    Sound t ∧ Preserves s t ∧
      ∀ v p, r = some (v, p) → StageIndices t vertex v ∧ StageIndices t pixel p := by
  rw [updateBindings] at hr
  cases hfirst : s.requestStages vertex pixel vertexUpToDate pixelUpToDate with
  | mk found u =>
      obtain ⟨hagrees, hgrows, hindices⟩ :=
        requestStages_spec h.agrees vertex pixel vertexUpToDate pixelUpToDate hfirst
      have hsound : Sound u := ⟨hagrees, h.retired.grows hgrows⟩
      rw [hfirst] at hr
      cases found with
      | some is =>
          cases hr
          exact ⟨hsound, hgrows.preserves, hindices⟩
      | none =>
          dsimp only at hr
          rcases rotate_spec hsound.retired creates with heq | ⟨hok, hrotates⟩
          · rw [heq] at hr
            cases hr
            exact ⟨hsound, hgrows.preserves, nofun⟩
          · generalize u.rotate creates = rotated at hok hrotates hr
            obtain ⟨ok, w⟩ := rotated
            cases hok
            obtain ⟨hagrees', hgrows', hindices'⟩ :=
              requestStages_spec hrotates.sound.agrees vertex pixel false false hr
            exact ⟨⟨hagrees', hrotates.retired.grows hgrows'⟩,
              .of_grows hgrows (hrotates.preserves hgrows'), hindices'⟩

/-! ### Runs -/

/-- **Every step keeps the invariant**: a request of samplers, a rotation that succeeds or fails, a
fence that moves on. -/
theorem Sound.step (h : Sound s) (hstep : Step s t) : Sound t := by
  have hretired := h.retired
  cases hstep with
  | beginSubmission =>
      refine ⟨{ h.agrees with }, { hretired with ended := fun d hd => ⟨(hretired.ended d hd).1, nofun⟩ }⟩
  | request parameters creates => exact (request_spec h creates rfl).1
  | updateBindings vertex pixel vertexUpToDate pixelUpToDate creates hcount =>
      exact (updateBindings_spec h vertex pixel vertexUpToDate pixelUpToDate creates rfl).1
  | rotate creates =>
      rcases rotate_spec hretired creates with heq | ⟨-, hrotates⟩
      · rwa [heq]
      · exact hrotates.sound
  | draw hopen =>
      refine ⟨{ h.agrees with }, { hretired with ended := fun d hd => ?_, kept := fun d hd hfence => ?_ }⟩
      · rcases List.mem_cons.1 hd with rfl | hd
        · exact ⟨Nat.le_refl _, fun hclosed => nomatch hopen.symm.trans hclosed⟩
        · exact hretired.ended d hd
      · rcases List.mem_cons.1 hd with rfl | hd
        · exact ⟨.inl ⟨rfl, Nat.le_refl _⟩, fun _ _ => rfl⟩
        · exact hretired.kept d hd hfence
  | endSubmission hopen =>
      refine ⟨{ h.agrees with }, { hretired with fence := Nat.lt_succ_of_lt hretired.fence, ended := fun d hd => ?_ }⟩
      have hle := (hretired.ended d hd).1
      exact ⟨Nat.le_succ_of_le hle, fun _ => Nat.lt_succ_of_le hle⟩
  | complete fence hle hlt =>
      refine ⟨{ h.agrees with }, { hretired with
        seen := hretired.seen.trans hle
        fence := hlt
        kept := fun d hd hfence => hretired.kept d hd (Nat.lt_of_le_of_lt hle hfence) }⟩
  | checkSubmissionFence => exact ⟨{ h.agrees with }, { hretired with seen := Nat.le_refl _ }⟩
  | clearCache hclosed hcompleted =>
      refine ⟨agrees_empty rfl rfl, { hretired with
        exist := fun heap hheap => ?_
        nodup := List.nodup_singleton _
        kept := fun d hd hfence => ?_ }⟩
      · obtain rfl := List.mem_singleton.1 hheap
        exact hretired.exist _ (List.mem_cons_self ..)
      · -- nothing is still running
        have hended := (hretired.ended d hd).2 hclosed
        have hseen := hretired.seen
        have hrunning : s.fence < d.submission := hfence
        omega

/-- No step rewrites what an unfinished draw may use. -/
theorem Sound.preserves (h : Sound s) (hstep : Step s t) : Preserves s t := by
  cases hstep with
  | beginSubmission | draw _ | endSubmission _ | complete _ _ _ | checkSubmissionFence | clearCache _ _ =>
      exact fun _ _ _ _ _ => rfl
  | request parameters creates => exact (request_spec h creates rfl).2.1
  | updateBindings vertex pixel vertexUpToDate pixelUpToDate creates hcount =>
      exact (updateBindings_spec h vertex pixel vertexUpToDate pixelUpToDate creates rfl).2.1
  | rotate creates =>
      rcases rotate_spec h.retired creates with heq | ⟨-, hrotates⟩
      · rw [heq]
        exact fun _ _ _ _ _ => rfl
      · exact hrotates.preserves (.refl _)

/-- The heap at the start is empty and sound, and none is retired. -/
theorem sound_initial : Sound initial := by
  refine ⟨agrees_empty rfl rfl, fun heap hheap => ?_, List.nodup_singleton _, Nat.le_refl _,
    Nat.lt_succ_self _, nofun, nofun⟩
  obtain rfl := List.mem_singleton.1 hheap
  exact Nat.lt_succ_self _

/-- Every reachable state is sound, by the step lemma. -/
theorem sound_of_reachable (h : system.Reachable s) : Sound s := by
  refine System.Reachable.invariant ⟨?_, fun _ _ hs hstep => hs.step hstep⟩ h
  rintro s rfl
  exact sound_initial

/-- **Sampler batches stay inside one live heap.**  In every reachable state the map
and the current heap agree; a batch that succeeds has, for each parameter, the index
of its descriptor in the current heap, and so has an emulated draw for the stages it
asks for; no step rewrites a descriptor of a heap that a draw of an unfinished
submission was recorded with, and so such a draw finds what the heap held then. -/
theorem samplerHeaps_sound (h : system.Reachable s) :
    Agrees s ∧
    (∀ parameters creates is t, s.requestSamplerBindlessIndices parameters creates = (some is, t) →
      List.Forall₂ (fun p i => i < kSamplerHeapSize ∧ t.heaps t.current i = some p) parameters is) ∧
    (∀ vertex pixel vertexUpToDate pixelUpToDate creates v p t,
      s.updateBindings vertex pixel vertexUpToDate pixelUpToDate creates = (some (v, p), t) →
      (∀ is, v = some is →
        List.Forall₂ (fun p i => i < kSamplerHeapSize ∧ t.heaps t.current i = some p) vertex is) ∧
      ∀ is, p = some is →
        List.Forall₂ (fun p i => i < kSamplerHeapSize ∧ t.heaps t.current i = some p) pixel is) ∧
    (∀ t, Step s t → Preserves s t) ∧
    ∀ d ∈ s.draws, s.fence < d.submission →
      ∀ i, i < d.allocated → s.heaps d.heap i = d.descriptors i := by
  have hs := sound_of_reachable h
  have hindex : ∀ {t : SamplerHeaps}, Sound t → ∀ {ps : List SamplerParameters} {is : List ℕ},
      List.Forall₂ (fun p i => t.map p = some i) ps is →
      List.Forall₂ (fun p i => i < kSamplerHeapSize ∧ t.heaps t.current i = some p) ps is :=
    fun ht _ _ his => his.imp fun p i hp =>
      ⟨Nat.lt_of_lt_of_le (ht.agrees.mapped p i hp).1 ht.agrees.bound, (ht.agrees.mapped p i hp).2⟩
  refine ⟨hs.agrees, fun parameters creates is t ht => ?_, fun vertex pixel vU pU creates v p t ht => ?_,
    fun t => hs.preserves, fun d hd hfence => (hs.retired.kept d hd hfence).2⟩
  · obtain ⟨hsound, -, his⟩ := request_spec hs creates ht
    exact hindex hsound (his is rfl)
  · obtain ⟨hsound, -, hstages⟩ := updateBindings_spec hs vertex pixel vU pU creates ht
    exact ⟨fun is his => hindex hsound ((hstages v p rfl).1 is his),
      fun is his => hindex hsound ((hstages v p rfl).2 is his)⟩

/-- Two submissions: the heap of the first draw comes back empty when the first has
completed, and a draw of the second uses it. -/
def reused : SamplerHeaps :=
  let s := ({ initial with submissionOpen := true }.requestSamplerBindlessIndices [7, 9, 7] true).2
  let s := (s.draw.rotate true).2
  let s := { s with submissionOpen := false, submissionCurrent := s.submissionCurrent + 1 }
  let s := { s with fence := 1, submissionCompleted := 1, submissionOpen := true }
  ((s.rotate false).2.requestSamplerBindlessIndices [5, 9] true).2.draw

/-- The state of the example, with a heap that came back and is used again, is reached. -/
theorem reachable_reused : system.Reachable reused := by
  have h₀ : system.Reachable initial := .of_init rfl
  have h₁ := h₀.tail (Step.beginSubmission)
  have h₂ := h₁.tail (Step.request [7, 9, 7] true)
  have h₃ := h₂.tail (Step.draw rfl)
  have h₄ := h₃.tail (Step.rotate true)
  have h₅ := h₄.tail (Step.endSubmission rfl)
  have h₆ := h₅.tail (Step.complete 1 (by decide) (by decide))
  have h₇ := h₆.tail Step.checkSubmissionFence
  have h₈ := h₇.tail Step.beginSubmission
  have h₉ := h₈.tail (Step.rotate false)
  have h₁₀ := h₉.tail (Step.request [5, 9] true)
  exact h₁₀.tail (Step.draw rfl)

/-- The hypotheses are satisfiable: in the heap that has come back the next batch
finds its descriptors, and the draw that used it keeps its own. -/
theorem samplerHeaps_sound_reused :
    reused.current = 0 ∧ reused.draws.length = 2 ∧ Agrees reused ∧
      (reused.requestSamplerBindlessIndices [9, 4, 9] true).1 = some [1, 2, 1] ∧
      (let t := (reused.requestSamplerBindlessIndices [9, 4, 9] true).2;
        List.Forall₂ (fun p i => i < kSamplerHeapSize ∧ t.heaps t.current i = some p)
          [9, 4, 9] [1, 2, 1]) ∧
      ∃ d ∈ reused.draws, reused.fence < d.submission ∧ d.allocated = 2 ∧
        ∀ i, i < d.allocated → reused.heaps d.heap i = d.descriptors i := by
  obtain ⟨hagrees, hbatch, -, -, hkept⟩ := samplerHeaps_sound reachable_reused
  have hindices : (reused.requestSamplerBindlessIndices [9, 4, 9] true).1 = some [1, 2, 1] := rfl
  have hdraw : reused.draws.head? = some ⟨2, 0, 2, reused.heaps 0⟩ := rfl
  have hmem := List.mem_of_mem_head? hdraw
  exact ⟨rfl, rfl, hagrees, hindices, hbatch _ _ _ _ (Prod.ext hindices rfl),
    _, hmem, by decide, rfl, hkept _ hmem (by decide)⟩

end SamplerHeaps
end D3D12
end BoltsRebuilt
