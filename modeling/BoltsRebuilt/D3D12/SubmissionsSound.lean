/-
# Nothing is taken while the GPU uses it

Whatever the processor holds, it holds for the last submission that may use it: a free descriptor or a
writable command allocator for one that is completed, a submitted allocator, a single-use descriptor and a
transient resource for the number stored with it, a texture with its descriptors for its last usage, and the
open chunks and the scratch buffer for the current submission.  `holdings` is the list of all this, and with
the recorded uses it is a sound ledger.  `views` is the part of it that is descriptors of the bindless heap.

`Moves` says what a part of a step may do to the holdings.  Each function of the processor is such a part, or
a succession of them, and so keeps `Good`; `handed_idle` is what follows for every run.
-/

import Mathlib.Algebra.GroupWithZero.Nat
import Mathlib.Algebra.Ring.Int.Defs
import Mathlib.Data.List.Count
import Mathlib.Data.List.TakeWhile
import Mathlib.Data.List.Perm.Basic
import BoltsRebuilt.Lib.Ledger
import BoltsRebuilt.Lib.System
import BoltsRebuilt.D3D12.Submissions

namespace BoltsRebuilt
namespace D3D12
namespace World

variable {κ : Type} {w w' w₀ : World κ} {new : List (ℕ × Item)}

/-- What is held of a texture: its resource and its descriptors, for the last submission that uses it. -/
def held (completed : ℕ) (t : Texture κ) : List (Item × ℕ) :=
  (.resource t.resource, max t.lastUsageSubmissionIndex completed) ::
    t.views.map fun d => (.view d, max t.lastUsageSubmissionIndex completed)

/-- Everything that is held, with the last submission that may use it. -/
def holdings (w : World κ) : List (Item × ℕ) :=
  w.commandAllocatorWritable.map (fun a => (.allocator a.commandAllocator, w.submissionCompleted)) ++
    (w.nativeChunkAllocator.toList.map (fun a => (.allocator a.commandAllocator, w.submissionCurrent)) ++
      (w.commandAllocatorSubmitted.map (fun a => (.allocator a.commandAllocator, a.lastUsageSubmission)) ++
        (w.viewBindlessHeapFree.map (fun d => (.view d, w.submissionCompleted)) ++
          (w.viewBindlessOneUseDescriptors.map (fun d => (.view d.1, d.2)) ++
            (w.textures.flatMap (held w.submissionCompleted) ++
              (w.resourcesForDeletion.map (fun r => (.resource r.2, r.1)) ++
                w.scratchBuffer.toList.map (fun r => (.resource r, w.submissionCurrent))))))))

/-- The descriptors that are free, in single use or of a texture. -/
def views (w : World κ) : List ℕ :=
  w.viewBindlessHeapFree ++ (w.viewBindlessOneUseDescriptors.map Prod.fst ++ w.textures.flatMap Texture.views)

/-- The object has been created. -/
def Known (w : World κ) : Item → Prop
  | .allocator n => n < w.created
  | .view d => d < w.viewBindlessHeapAllocated
  | .resource n => n < w.created

/-- The submission of the texture cache is the one that is open. -/
structure Indexed (w : World κ) : Prop where
  textures : ∀ t ∈ w.textures, t.lastUsageSubmissionIndex ≤ w.currentSubmissionIndex
  opened : w.submissionOpen = true → w.currentSubmissionIndex = w.submissionCurrent
  closed : w.submissionOpen = false → w.currentSubmissionIndex < w.submissionCurrent

/-- What holds between the steps. -/
structure Sound (w : World κ) : Prop where
  views : ∀ d, w.views.count d = if kSystemBindlessViewCount ≤ d ∧ d < w.viewBindlessHeapAllocated then 1 else 0
  heap : kSystemBindlessViewCount ≤ w.viewBindlessHeapAllocated ∧
    w.viewBindlessHeapAllocated ≤ kViewBindlessHeapSize
  completed : w.submissionCompleted ≤ w.fence
  fence : w.fence < w.submissionCurrent
  indexed : w.Indexed
  ledger : Ledger.Sound w.uses w.holdings
  known : ∀ x b, (x, b) ∈ w.holdings → w.Known x
  used : ∀ n x, (n, x) ∈ w.uses →
    w.Known x ∧ n ≤ w.submissionCurrent ∧ (w.submissionOpen = false → n < w.submissionCurrent)

/-- In a step from `w₀` that has come to `w`, nothing has been taken or released while the GPU uses it. -/
structure Good (w₀ w : World κ) : Prop where
  sound : w.Sound
  uses : ∀ n x, (n, x) ∈ w₀.uses → (n, x) ∈ w.uses
  handed : ∀ x ∈ w.handed, ∀ n, (n, x) ∈ w₀.uses → n ≤ w.fence

/-- A part of a step: what is held moves on or is new, and what is handed out is idle. -/
structure Moves (w w' : World κ) (new : List (ℕ × Item)) : Prop where
  views : ∀ d, w'.views.count d = w.views.count d +
    if w.viewBindlessHeapAllocated ≤ d ∧ d < w'.viewBindlessHeapAllocated then 1 else 0
  heap : w'.viewBindlessHeapAllocated ≤ kViewBindlessHeapSize
  completed : w'.submissionCompleted ≤ w'.fence
  fence : w'.fence < w'.submissionCurrent
  indexed : w'.Indexed
  further : w.fence ≤ w'.fence
  current : w.submissionCurrent ≤ w'.submissionCurrent
  ended : w'.submissionOpen = false → w.submissionOpen = false ∨ w.submissionCurrent < w'.submissionCurrent
  created : w.created ≤ w'.created
  allocated : w.viewBindlessHeapAllocated ≤ w'.viewBindlessHeapAllocated
  uses : w'.uses = new ++ w.uses
  keys : (w'.holdings.map Prod.fst).Nodup
  held : ∀ x b', (x, b') ∈ w'.holdings → (∃ b ≤ b', (x, b) ∈ w.holdings) ∨ (¬w.Known x ∧ w'.Known x)
  new : ∀ n x, (n, x) ∈ new →
    n ≤ w'.submissionCurrent ∧ (w'.submissionOpen = false → n < w'.submissionCurrent) ∧ ∃ b ≥ n, (x, b) ∈ w'.holdings
  handed : ∀ x ∈ w'.handed, x ∈ w.handed ∨ ∀ n, (n, x) ∈ w.uses → n ≤ w'.fence

/-- What was known before a move is known after it: a move takes nothing out of the fence's reach,
it only adds to what the processor has named. -/
theorem Moves.mono (h : Moves w w' new) {x : Item} (hx : w.Known x) : w'.Known x := by
  cases x with
  | allocator n => exact Nat.lt_of_lt_of_le hx h.created
  | view d => exact Nat.lt_of_lt_of_le hx h.allocated
  | resource n => exact Nat.lt_of_lt_of_le hx h.created

/-- Everything held after a move is known after it, whether it was held before or is one of the
newly made items. -/
theorem Moves.known (h : Moves w w' new) (hw : w.Sound) {x : Item} {b' : ℕ} (hx : (x, b') ∈ w'.holdings) :
    w'.Known x := by
  rcases h.held x b' hx with ⟨b, -, hb⟩ | ⟨-, hknown⟩
  · exact h.mono (hw.known x b hb)
  · exact hknown

/-- **A move keeps the invariant.** The holdings only move between their owners or grow by what was
never named before, so nothing is held twice and nothing is held that the world does not know. -/
theorem Sound.moves (hw : w.Sound) (h : Moves w w' new) : w'.Sound where
  views d := by
    have hallocated := h.allocated
    have hheap := hw.heap
    rw [h.views, hw.views]
    split_ifs <;> omega
  heap := ⟨hw.heap.1.trans h.allocated, h.heap⟩
  completed := h.completed
  fence := h.fence
  indexed := h.indexed
  ledger := by
    rw [h.uses]
    refine hw.ledger.step h.keys (fun x b' hb' => ?_) fun n x hn => (h.new n x hn).2.2
    exact (h.held x b' hb').imp_right fun hfresh n hn => hfresh.1 (hw.used n x hn).1
  known x b hb := h.known hw hb
  used n x hn := by
    rw [h.uses] at hn
    rcases List.mem_append.1 hn with hn | hn
    · obtain ⟨hle, hclosed, b, -, hb⟩ := h.new n x hn
      exact ⟨h.known hw hb, hle, hclosed⟩
    · obtain ⟨hknown, hle, hclosed⟩ := hw.used n x hn
      refine ⟨h.mono hknown, hle.trans h.current, fun hended => ?_⟩
      rcases h.ended hended with hclosed' | hlt
      · exact Nat.lt_of_lt_of_le (hclosed hclosed') h.current
      · exact Nat.lt_of_le_of_lt hle hlt

/-- **A part of a step**: a good world stays good when what it holds moves on or is new, and what it
hands out is idle. -/
theorem Good.moves (hw : Good w₀ w) (new : List (ℕ × Item)) (h : Moves w w' new) : Good w₀ w' where
  sound := hw.sound.moves h
  uses n x hn := by
    rw [h.uses]
    exact List.mem_append_right _ (hw.uses n x hn)
  handed x hx n hn := by
    rcases h.handed x hx with hbefore | hidle
    · exact (hw.handed x hbefore n hn).trans h.further
    · exact hidle n (hw.uses n x hn)

/-- No descriptor is new where the number of allocated ones stays. -/
theorem no_new (count d allocated : ℕ) : count = count + if allocated ≤ d ∧ d < allocated then 1 else 0 := by
  rw [if_neg (by omega)]
  rfl

/-- Nothing moves: what a part of a step leaves alone is as here. -/
theorem Sound.still (hw : w.Sound) : Moves w w [] where
  views _ := no_new _ _ _
  heap := hw.heap.2
  completed := hw.completed
  fence := hw.fence
  indexed := hw.indexed
  further := Nat.le_refl _
  current := Nat.le_refl _
  ended := .inl
  created := Nat.le_refl _
  allocated := Nat.le_refl _
  uses := rfl
  keys := hw.ledger.nodup
  held _ b' hb' := .inl ⟨b', Nat.le_refl _, hb'⟩
  new := nofun
  handed _ hx := .inl hx

/-- Each thing is held once at most, by whichever of its owners. -/
theorem Sound.count_le (hw : w.Sound) (x : Item) : (w.holdings.map Prod.fst).count x ≤ 1 :=
  List.nodup_iff_count_le_one.1 hw.ledger.nodup x

/-- `takeWhile` and `dropWhile` cut the list in two, and every element of the first part passes the
test: the shape of every reclaim loop of the processor. -/
theorem split {α : Type} (p : α → Bool) (l : List α) : ∃ taken rest, l.takeWhile p = taken ∧ l.dropWhile p = rest ∧
    l = taken ++ rest ∧ ∀ x ∈ taken, p x = true :=
  ⟨_, _, rfl, rfl, List.takeWhile_append_dropWhile.symm, fun _ hx => List.mem_takeWhile_imp hx⟩

/-- What is held less often is still held once. -/
theorem Sound.keys_of_le (hw : w.Sound)
    (h : ∀ x, (w'.holdings.map Prod.fst).count x ≤ (w.holdings.map Prod.fst).count x) :
    (w'.holdings.map Prod.fst).Nodup :=
  List.nodup_iff_count_le_one.2 fun x => (h x).trans (hw.count_le x)

/-- The GPU is through with what is held for a completed submission. -/
theorem Sound.idle (hw : w.Sound) {x : Item} {b : ℕ} (hb : (x, b) ∈ w.holdings) (hle : b ≤ w.submissionCompleted) :
    ∀ n, (n, x) ∈ w.uses → n ≤ w.fence :=
  fun _ hn => hw.ledger.idle hb (hle.trans hw.completed) hn

/-! ### What the fence gives back -/

/-- Command allocators go back to the writable list only from the front of the submitted list, and
only those whose submission the fence has passed. -/
theorem Good.reclaimCommandAllocators (h : Good w₀ w) : Good w₀ w.reclaimCommandAllocators := by
  obtain ⟨taken, rest, htake, hdrop, hsplit, htaken⟩ :=
    split (fun a : CommandAllocator => a.lastUsageSubmission ≤ w.submissionCompleted) w.commandAllocatorSubmitted
  rw [World.reclaimCommandAllocators, htake, hdrop]
  refine h.moves [] { h.sound.still with
    indexed := { h.sound.indexed with }
    keys := h.sound.keys_of_le fun x => ?_
    held := fun x b' hb' => .inl ?_
    new := nofun }
  · simp only [holdings, hsplit, List.map_append, List.count_append, List.map_map, Function.comp_def]
    omega
  · simp only [holdings, hsplit, List.mem_append, List.mem_map] at hb' ⊢
    grind

/-- One-use view descriptors are freed in the order they were requested, and only up to the
completed submission. -/
theorem Good.releaseOneUseDescriptors (h : Good w₀ w) : Good w₀ w.releaseOneUseDescriptors := by
  obtain ⟨taken, rest, htake, hdrop, hsplit, htaken⟩ :=
    split (fun d : ℕ × ℕ => d.2 ≤ w.submissionCompleted) w.viewBindlessOneUseDescriptors
  rw [World.releaseOneUseDescriptors, htake, hdrop]
  refine h.moves [] { h.sound.still with
    views := fun d => ?_
    indexed := { h.sound.indexed with }
    keys := h.sound.keys_of_le fun x => ?_
    held := fun x b' hb' => .inl ?_
    new := nofun }
  · refine Eq.trans ?_ (no_new _ _ _)
    simp only [views, releaseViews, hsplit, List.map_append, List.count_append, List.count_reverse]
    omega
  · simp only [holdings, releaseViews, hsplit, List.map_append, List.count_append, List.map_map, Function.comp_def,
      List.map_reverse, List.count_reverse]
    omega
  · simp only [holdings, releaseViews, hsplit, List.mem_append, List.mem_map, List.mem_reverse] at hb' ⊢
    grind

/-- Resources queued for deletion are destroyed from the front of the queue, and only those whose
submission the fence has passed. -/
theorem Good.deleteResources (h : Good w₀ w) : Good w₀ w.deleteResources := by
  obtain ⟨taken, rest, htake, hdrop, hsplit, htaken⟩ :=
    split (fun r : ℕ × ℕ => r.1 ≤ w.submissionCompleted) w.resourcesForDeletion
  rw [World.deleteResources, htake, hdrop]
  refine h.moves [] { h.sound.still with
    indexed := { h.sound.indexed with }
    keys := h.sound.keys_of_le fun x => ?_
    held := fun x b' hb' => .inl ?_
    new := nofun
    handed := fun x hx => ?_ }
  · simp only [holdings, hsplit, List.map_append, List.count_append, List.map_map, Function.comp_def]
    omega
  · simp only [holdings, hsplit, List.mem_append, List.mem_map] at hb' ⊢
    grind
  · rcases List.mem_append.1 hx with hx | hx
    · obtain ⟨r, hr, rfl⟩ := List.mem_map.1 hx
      refine .inr (h.sound.idle ?_ (of_decide_eq_true (htaken r hr)))
      simp only [holdings, hsplit, List.mem_append, List.mem_map]
      grind
    · exact .inl hx

/-- The textures to destroy are the first ones, and the GPU is through with them. -/
theorem evict_spec (limits : Limits) (completed now total : ℕ) (textures : List (Texture κ)) :
    textures = (evict limits completed now total textures).1 ++ (evict limits completed now total textures).2 ∧
      ∀ t ∈ (evict limits completed now total textures).1, t.lastUsageSubmissionIndex ≤ completed := by
  induction textures generalizing total with
  | nil => exact ⟨rfl, nofun⟩
  | cons t rest ih =>
    rw [evict]
    split
    next => exact ⟨rfl, nofun⟩
    next hstays =>
      obtain ⟨happend, hcompleted⟩ := ih (total - t.hostMemoryUsage)
      refine ⟨congrArg (t :: ·) happend, ?_⟩
      rintro u (_ | ⟨_, hu⟩)
      · simp only [stays, Bool.not_eq_true, decide_eq_false_iff_not] at hstays
        omega
      · exact hcompleted u hu

/-- The views of some textures are among what these textures hold, so releasing them can take no
more of a view than was there. -/
theorem count_views_le (completed : ℕ) (textures : List (Texture κ)) (x : Item) :
    ((textures.flatMap Texture.views).map fun d => Item.view d).count x ≤
      ((textures.flatMap (held completed)).map Prod.fst).count x := by
  induction textures with
  | nil => exact Nat.le_refl _
  | cons t rest ih =>
    simp only [List.flatMap_cons, List.map_append, List.count_append, held, List.map_cons, List.count_cons,
      List.map_map, Function.comp_def] at ih ⊢
    omega

/-- The eviction loop of the texture cache destroys textures from the least recently used end and
frees their descriptors, each after its last submission has completed. -/
theorem Good.texturesCompletedSubmissionUpdated (h : Good w₀ w) (limits : Limits) (now : ℕ) :
    Good w₀ (w.texturesCompletedSubmissionUpdated limits now) := by
  obtain ⟨hsplit, hgone⟩ := evict_spec limits w.submissionCompleted now w.texturesTotalHostMemoryUsage w.textures
  rw [World.texturesCompletedSubmissionUpdated]
  generalize evict limits w.submissionCompleted now w.texturesTotalHostMemoryUsage w.textures = evicted at *
  obtain ⟨gone, kept⟩ := evicted
  dsimp only at hsplit hgone ⊢
  have hheld : ∀ t ∈ gone, ∀ x, x ∈ held w.submissionCompleted t → x ∈ w.holdings := fun t ht x hx => by
    simp only [holdings, hsplit, List.mem_append, List.mem_flatMap]
    grind
  refine h.moves [] { h.sound.still with
    views := fun d => ?_
    indexed := { h.sound.indexed with textures := fun t ht => h.sound.indexed.textures t ?_ }
    keys := h.sound.keys_of_le fun x => ?_
    held := fun x b' hb' => .inl ?_
    new := nofun
    handed := fun x hx => ?_ }
  · refine Eq.trans ?_ (no_new _ _ _)
    simp only [views, destroyTextures, releaseViews, hsplit, List.flatMap_append, List.count_append, List.count_reverse]
    omega
  · rw [hsplit]
    exact List.mem_append_right _ ht
  · have hviews := count_views_le w.submissionCompleted gone x
    simp only [holdings, destroyTextures, releaseViews, hsplit, List.flatMap_append, List.map_append,
      List.count_append, List.map_map, Function.comp_def, List.map_reverse, List.count_reverse] at hviews ⊢
    omega
  · simp only [holdings, destroyTextures, releaseViews, List.mem_append, List.mem_map, List.mem_reverse,
      List.mem_flatMap] at hb'
    by_cases hview : ∃ d, (∃ t ∈ gone, d ∈ t.views) ∧ (Item.view d, w.submissionCompleted) = (x, b')
    · obtain ⟨d, ⟨t, ht, hd⟩, hpair⟩ := hview
      cases hpair
      refine ⟨max t.lastUsageSubmissionIndex w.submissionCompleted, ?_, hheld t ht _ ?_⟩
      · have hlast := hgone t ht
        omega
      · exact List.mem_cons_of_mem _ (List.mem_map_of_mem hd)
    · refine ⟨b', Nat.le_refl _, ?_⟩
      simp only [holdings, hsplit, List.mem_append, List.mem_map, List.mem_flatMap]
      grind
  · rcases List.mem_append.1 hx with hx | hx
    · obtain ⟨t, ht, rfl⟩ := List.mem_map.1 hx
      have hlast := hgone t ht
      exact .inr (h.sound.idle (hheld t ht _ List.mem_cons_self) (Nat.max_le.2 ⟨hlast, Nat.le_refl _⟩))
    · exact .inl hx

/-- All that the processor takes back at once after the fence has moved: allocators, one-use
descriptors, deleted resources and evicted textures. -/
theorem Good.reclaim (h : Good w₀ w) (limits : Limits) (now : ℕ) : Good w₀ (w.reclaim limits now) :=
  h.reclaimCommandAllocators.releaseOneUseDescriptors.deleteResources.texturesCompletedSubmissionUpdated limits now

/-! ### The fence -/

/-- Reading the fence raises the completed submission and frees nothing by itself, so every holding
stays where it is. -/
theorem Good.readFence (h : Good w₀ w) (more : ℕ) : Good w₀ (w.readFence more) := by
  have hfence := h.sound.fence
  have hcompleted := h.sound.completed
  have hle : w.submissionCompleted ≤ min (w.fence + more) (w.submissionCurrent - 1) := by omega
  have hindexed := h.sound.indexed
  refine h.moves [] { h.sound.still with
    completed := Nat.le_refl _
    fence := ?_
    indexed := { hindexed with }
    further := ?_
    keys := ?_
    held := fun x b' hb' => .inl ?_
    new := nofun
    handed := fun x hx => .inl hx }
  · show min (w.fence + more) (w.submissionCurrent - 1) < w.submissionCurrent
    omega
  · show w.fence ≤ min (w.fence + more) (w.submissionCurrent - 1)
    omega
  · refine List.nodup_iff_count_le_one.2 fun x => (Nat.le_of_eq ?_).trans (h.sound.count_le x)
    simp only [holdings, World.readFence, complete, held, List.map_append, List.count_append, List.map_map,
      Function.comp_def, List.map_flatMap, List.map_cons]
  · simp only [holdings, World.readFence, complete, List.mem_append, List.mem_map, List.mem_flatMap, held,
      List.mem_cons] at hb' ⊢
    generalize min (w.fence + more) (w.submissionCurrent - 1) = c at *
    rcases hb' with ⟨a, ha, hpair⟩ | ⟨a, ha, hpair⟩ | ⟨a, ha, hpair⟩ | ⟨d, hd, hpair⟩ | ⟨d, hd, hpair⟩ |
      ⟨t, ht, hpair | ⟨d, hd, hpair⟩⟩ | ⟨r, hr, hpair⟩ | ⟨r, hr, hpair⟩
    all_goals cases hpair
    · exact ⟨w.submissionCompleted, hle, .inl ⟨a, ha, rfl⟩⟩
    · exact ⟨w.submissionCurrent, Nat.le_refl _, .inr (.inl ⟨a, ha, rfl⟩)⟩
    · exact ⟨a.lastUsageSubmission, Nat.le_refl _, .inr (.inr (.inl ⟨a, ha, rfl⟩))⟩
    · exact ⟨w.submissionCompleted, hle, .inr (.inr (.inr (.inl ⟨d, hd, rfl⟩)))⟩
    · exact ⟨d.2, Nat.le_refl _, .inr (.inr (.inr (.inr (.inl ⟨d, hd, rfl⟩))))⟩
    · refine ⟨max t.lastUsageSubmissionIndex w.submissionCompleted, by omega, ?_⟩
      exact .inr (.inr (.inr (.inr (.inr (.inl ⟨t, ht, .inl rfl⟩)))))
    · refine ⟨max t.lastUsageSubmissionIndex w.submissionCompleted, by omega, ?_⟩
      exact .inr (.inr (.inr (.inr (.inr (.inl ⟨t, ht, .inr ⟨d, hd, rfl⟩⟩)))))
    · exact ⟨r.1, Nat.le_refl _, .inr (.inr (.inr (.inr (.inr (.inr (.inl ⟨r, hr, rfl⟩))))))⟩
    · exact ⟨w.submissionCurrent, Nat.le_refl _, .inr (.inr (.inr (.inr (.inr (.inr (.inr ⟨r, hr, rfl⟩))))))⟩

/-- Marking the device as removed moves nothing that is held. -/
theorem Good.removed (h : Good w₀ w) : Good w₀ w.removed := by
  have hsound : w.removed.Sound := { h.sound with indexed := { h.sound.indexed with } }
  exact { h with sound := hsound }

/-- Waiting for a submission, with the wait succeeding, timing out or the device being removed,
frees nothing by itself. -/
theorem Good.awaitFence (h : Good w₀ w) (o : Observation) (awaitSubmission : ℕ) :
    Good w₀ (w.awaitFence o awaitSubmission).2 := by
  rw [World.awaitFence]
  split
  · exact h.removed
  next more _ =>
    have h := h.readFence more
    dsimp only
    split
    · split
      · exact h.removed
      · split
        · exact h
        · exact h.removed
        next more _ => exact h.readFence more
    · exact h

/-- What `CheckSubmissionFence` learns of the completed submission, by waiting and by reading, frees
nothing before the reclaiming that follows. -/
theorem Good.updateCompleted (h : Good w₀ w) (o : Observation) (awaitSubmission : ℕ) :
    Good w₀ (w.updateCompleted o awaitSubmission) := by
  have hfence := h.awaitFence o awaitSubmission
  rw [World.updateCompleted]
  split
  next w' hawait =>
    rw [hawait] at hfence
    exact hfence
  next w' hawait =>
    rw [hawait] at hfence
    split
    · exact hfence
    · exact hfence.reclaim _ _

/-! ### Closing a submission -/

/-- An item the world does not know is held by nobody. -/
theorem Sound.count_fresh (hw : w.Sound) {x : Item} (hx : ¬w.Known x) : (w.holdings.map Prod.fst).count x = 0 := by
  refine List.count_eq_zero.2 fun hmem => ?_
  obtain ⟨⟨y, b⟩, hp, rfl⟩ := List.mem_map.1 hmem
  exact hx (hw.known y b hp)

/-- What is held besides is new, so nothing is held twice after it was added. -/
theorem Sound.nodup_fresh (hw : w.Sound) {fresh : Item} (hfresh : ¬w.Known fresh)
    (hcount : ∀ x, (w'.holdings.map Prod.fst).count x =
      (w.holdings.map Prod.fst).count x + if (fresh == x) = true then 1 else 0) : (w'.holdings.map Prod.fst).Nodup := by
  refine List.nodup_iff_count_le_one.2 fun x => ?_
  have hle := hw.count_le x
  rw [hcount]
  by_cases hx : fresh = x
  · have hzero := hw.count_fresh hfresh
    rw [hx] at hzero
    rw [hzero, if_pos (beq_iff_eq.2 hx)]
  · rw [if_neg fun h => hx (beq_iff_eq.1 h)]
    exact hle

/-- `EnsureWritableCommandAllocator` makes a new allocator, under a name not used before, only when
none is writable, and otherwise changes nothing. -/
theorem Good.ensureWritableCommandAllocator (h : Good w₀ w) (creates : Bool) :
    Good w₀ (w.ensureWritableCommandAllocator creates).2 := by
  rw [World.ensureWritableCommandAllocator]
  split
  next => exact h
  next hempty =>
    split
    next =>
      have hw := h.sound
      have hfresh : ¬w.Known (.allocator w.created) := Nat.lt_irrefl w.created
      refine h.moves [] { hw.still with
        indexed := { hw.indexed with }
        created := Nat.le_succ _
        keys := ?_
        held := fun x b' hb' => ?_
        new := nofun }
      · refine hw.nodup_fresh hfresh fun x => ?_
        simp only [holdings, hempty, List.map_append, List.count_append, List.map_cons, List.map_nil, List.count_nil,
          List.count_cons]
        omega
      · simp only [holdings, hempty, List.mem_append, List.mem_map, List.mem_singleton] at hb' ⊢
        by_cases hx : x = .allocator w.created
        · subst hx
          exact .inr ⟨hfresh, Nat.lt_succ_self _⟩
        · grind
    next => exact h

/-- Ending a submission moves the allocator it was recorded with from the writable list to the back
of the submitted list, under the submission's number. -/
theorem Good.submitWritable (h : Good w₀ w) (c : Closing) (hopen : w.submissionOpen = true) :
    Good w₀ (w.submitWritable c).2 := by
  rw [World.submitWritable]
  split
  next a next hwritable =>
    split
    next =>
      have hw := h.sound
      have hcompleted := hw.completed
      have hfence := hw.fence
      refine h.moves [(w.submissionCurrent, .allocator a.commandAllocator)]
        { hw.still with
          fence := Nat.lt_succ_of_lt hw.fence
          indexed := {
            textures := hw.indexed.textures
            opened := fun hopen => absurd hopen Bool.false_ne_true
            closed := fun _ => Nat.lt_succ_of_le (hw.indexed.opened hopen).le }
          current := Nat.le_succ _
          ended := fun _ => .inr (Nat.lt_succ_self _)
          uses := rfl
          keys := ?_
          held := fun x b' hb' => .inl ?_
          new := ?_
          handed := ?_ }
      · refine List.nodup_iff_count_le_one.2 fun x => ?_
        have hcount := hw.count_le x
        simp only [holdings, submitted, hwritable, List.map_append, List.count_append, List.map_cons, List.map_nil,
          List.count_nil, List.count_cons, List.map_map, Function.comp_def] at hcount ⊢
        omega
      · simp only [holdings, submitted, hwritable, List.mem_append, List.mem_map, List.mem_cons] at hb' ⊢
        grind
      · simp only [holdings, submitted, List.mem_append, List.mem_map, List.mem_cons]
        grind
      · rintro x (_ | ⟨_, hx⟩)
        · refine .inr (hw.idle (b := w.submissionCompleted) ?_ (Nat.le_refl _))
          simp only [holdings, hwritable, List.mem_append, List.mem_map, List.mem_cons]
          grind
        · exact .inl hx
    next => exact h.removed
  next => exact h

/-- A submission in chunks moves the chunk allocator to the submitted list in the same way, whether
or not its last chunk presents. -/
theorem Good.submitChunks (h : Good w₀ w) (c : Closing) (isSwap : Bool) {a : CommandAllocator}
    (hchunk : w.nativeChunkAllocator = some a) (hopen : w.submissionOpen = true) :
    Good w₀ (w.submitChunks c isSwap a).2 := by
  rw [World.submitChunks]
  split
  · exact h.removed
  · split
    · exact h.removed
    · have hw := h.sound
      refine h.moves [(w.submissionCurrent, .allocator a.commandAllocator)]
        { hw.still with
          fence := Nat.lt_succ_of_lt hw.fence
          indexed := {
            textures := hw.indexed.textures
            opened := fun hopen => absurd hopen Bool.false_ne_true
            closed := fun _ => Nat.lt_succ_of_le (hw.indexed.opened hopen).le }
          current := Nat.le_succ _
          ended := fun _ => .inr (Nat.lt_succ_self _)
          uses := rfl
          keys := ?_
          held := fun x b' hb' => .inl ?_
          new := ?_ }
      · refine List.nodup_iff_count_le_one.2 fun x => ?_
        have hcount := hw.count_le x
        simp only [holdings, submitted, hchunk, Option.toList_some, Option.toList_none, List.map_append,
          List.count_append, List.map_cons, List.map_nil, List.count_nil, List.count_cons, List.map_map,
          Function.comp_def] at hcount ⊢
        omega
      · simp only [holdings, submitted, hchunk, Option.toList_some, Option.toList_none, List.mem_append, List.mem_map,
          List.mem_cons] at hb' ⊢
        grind
      · simp only [holdings, submitted, List.mem_append, List.mem_map, List.mem_cons]
        grind

/-- Making sure of an allocator neither opens nor closes a submission. -/
theorem ensureWritableCommandAllocator_open (creates : Bool) :
    (w.ensureWritableCommandAllocator creates).2.submissionOpen = w.submissionOpen := by
  rw [ensureWritableCommandAllocator]
  split
  · rfl
  · split
    · rfl
    · rfl

/-- Closing an open submission, by either path or by failing to close its list, keeps what is held
accounted for. -/
theorem Good.closeSubmission (h : Good w₀ w) (c : Closing) (isSwap : Bool) :
    Good w₀ (w.closeSubmission c isSwap).2 := by
  rw [World.closeSubmission]
  split
  · exact h.removed
  · split
    · exact h
    · split
      next hopen =>
        split
        next a hchunk => exact h.submitChunks c isSwap hchunk hopen
        next =>
          have hensure := h.ensureWritableCommandAllocator c.creates
          have hopen' := ensureWritableCommandAllocator_open (w := w) c.creates
          split
          next w' hw' =>
            rw [hw'] at hensure
            exact hensure
          next w' hw' =>
            rw [hw'] at hensure hopen'
            exact hensure.submitWritable c (hopen'.trans hopen)
      · exact h

/-- A chunk session takes the front writable allocator for itself while the submission stays open. -/
theorem Good.beginChunks (h : Good w₀ w) (creates : Bool) (hopen : w.submissionOpen = true)
    (hchunk : w.nativeChunkAllocator = none) : Good w₀ (w.beginChunks creates) := by
  have hensure := h.ensureWritableCommandAllocator creates
  have hsame : (w.ensureWritableCommandAllocator creates).2.submissionOpen = true ∧
      (w.ensureWritableCommandAllocator creates).2.nativeChunkAllocator = none := by
    rw [World.ensureWritableCommandAllocator]
    split
    · exact ⟨hopen, hchunk⟩
    · split
      · exact ⟨hopen, hchunk⟩
      · exact ⟨hopen, hchunk⟩
  rw [World.beginChunks]
  split
  next w' hw' =>
    rw [hw'] at hensure
    exact hensure
  next w' hw' =>
    rw [hw'] at hensure hsame
    obtain ⟨hopen, hchunk⟩ := hsame
    dsimp only at hensure hopen hchunk
    split
    next a next hwritable =>
      have hw := hensure.sound
      have hcompleted := hw.completed
      have hfence := hw.fence
      refine hensure.moves [(w'.submissionCurrent, .allocator a.commandAllocator)]
        { hw.still with
          indexed := { hw.indexed with }
          uses := rfl
          keys := ?_
          held := fun x b' hb' => .inl ?_
          new := ?_
          handed := ?_ }
      · refine List.nodup_iff_count_le_one.2 fun x => ?_
        have hcount := hw.count_le x
        simp only [holdings, hwritable, hchunk, Option.toList_some, Option.toList_none, List.map_append,
          List.count_append, List.map_cons, List.map_nil, List.count_nil, List.count_cons, List.map_map,
          Function.comp_def] at hcount ⊢
        omega
      · simp only [holdings, hwritable, hchunk, Option.toList_some, Option.toList_none, List.mem_append, List.mem_map,
          List.mem_cons] at hb' ⊢
        grind
      · simp only [holdings, Option.toList_some, List.mem_append, List.mem_map, List.mem_cons]
        grind
      · rintro x (_ | ⟨_, hx⟩)
        · refine .inr (hw.idle (b := w'.submissionCompleted) ?_ (Nat.le_refl _))
          simp only [holdings, hwritable, List.mem_append, List.mem_map, List.mem_cons]
          grind
        · exact .inl hx
    next => exact hensure

/-- `CheckSubmissionFence` as a whole: it waits where it has to, reads the fence, and reclaims what
the fence has passed. -/
theorem Good.checkSubmissionFence (h : Good w₀ w) (o : Observation) (awaitSubmission : ℕ) :
    Good w₀ (w.checkSubmissionFence o awaitSubmission) := by
  rw [World.checkSubmissionFence]
  split
  · exact h.removed
  · split
    · have hclose : Good w₀ (if w.submissionOpen then w.closeSubmission o.closing false else (true, w)).2 := by
        split
        · exact h.closeSubmission _ _
        · exact h
      split
      next w' hw' =>
        rw [hw'] at hclose
        exact hclose
      next w' hw' =>
        rw [hw'] at hclose
        split
        · exact hclose.removed
        · exact hclose.updateCompleted _ _
    · exact h.updateCompleted _ _

/-! ### Submissions and frames -/

/-- The parts of the state in which nothing is held. -/
theorem Good.other (h : Good w₀ w) {deviceRemoved frameOpen scratchBufferUsed cacheClearRequested : Bool}
    {frameCurrent frameCompleted total : ℕ} {closedFrameSubmissions : ℕ → ℕ} {textureBindings : ℕ → Option ℕ} :
    Good w₀ { w with
      deviceRemoved, frameOpen, scratchBufferUsed, cacheClearRequested, frameCurrent, frameCompleted,
      texturesTotalHostMemoryUsage := total, closedFrameSubmissions, textureBindings } where
  sound := { h.sound with indexed := { h.sound.indexed with } }
  uses := h.uses
  handed := h.handed

/-- Opening a submission changes no holding; only the number under which the next uses are recorded
is now current. -/
theorem Good.openSubmission (h : Good w₀ w) (now : ℕ) : Good w₀ (w.openSubmission now) := by
  rw [World.openSubmission]
  split
  next => exact h
  next hclosed =>
    have hw := h.sound
    have hlt := hw.indexed.closed (Bool.eq_false_iff.2 hclosed)
    exact h.moves [] { hw.still with
      indexed := {
        textures := fun t ht => (hw.indexed.textures t ht).trans hlt.le
        opened := fun _ => rfl
        closed := fun hopen => Bool.noConfusion hopen }
      ended := fun hopen => Bool.noConfusion hopen
      new := nofun }

/-- `BeginSubmission`, for a guest command or not, through every early return of its source. -/
theorem Good.beginSubmission (h : Good w₀ w) (isGuestCommand result available : Bool) (o : Observation) (now : ℕ) :
    Good w₀ (w.beginSubmission isGuestCommand result available o now) := by
  rw [World.beginSubmission]
  split
  · exact h.removed
  · split
    · exact h
    · dsimp only
      generalize (if (isGuestCommand && !w.frameOpen) = true then
        w.closedFrameSubmissions (w.frameCurrent % kQueueFrames) else 0) = awaitSubmission
      split
      · exact h
      · split
        · exact h.removed
        · have hcheck := h.checkSubmissionFence o awaitSubmission
          split
          · exact hcheck
          · split
            · have hframe : Good w₀ (w.checkSubmissionFence o awaitSubmission).updateFrameCompleted := hcheck.other
              exact (hframe.openSubmission now).other
            · exact hcheck.openSubmission now

/-- `ClearCaches` destroys what every cache holds. It is reached only with no submission open and
all of them completed, and these conditions are what the proof uses. -/
theorem Good.clearCaches (h : Good w₀ w) (hclosed : w.submissionOpen = false) (hchunk : w.nativeChunkAllocator = none)
    (hall : w.submissionCompleted + 1 ≥ w.submissionCurrent) : Good w₀ w.clearCaches := by
  have hw := h.sound
  have hlast : ∀ t ∈ w.textures, t.lastUsageSubmissionIndex ≤ w.submissionCompleted := fun t ht => by
    have hle := hw.indexed.textures t ht
    have hlt := hw.indexed.closed hclosed
    omega
  refine h.moves [] { hw.still with
    views := fun d => ?_
    indexed := { hw.indexed with textures := nofun }
    keys := ?_
    held := fun x b' hb' => .inl ?_
    new := nofun
    handed := fun x _ => .inr fun n hn => ?_ }
  · refine Eq.trans ?_ (no_new _ _ _)
    simp only [views, World.clearCaches, destroyTextures, releaseViews, List.flatMap_nil, List.append_nil,
      List.count_append, List.count_reverse]
    omega
  · refine List.nodup_iff_count_le_one.2 fun x => ?_
    have hcount := hw.count_le x
    have hviews := count_views_le w.submissionCompleted w.textures x
    simp only [holdings, World.clearCaches, destroyTextures, releaseViews, hchunk, Option.toList_none, List.flatMap_nil,
      List.map_append, List.count_append, List.map_nil, List.count_nil, List.map_map, Function.comp_def,
      List.map_reverse, List.count_reverse] at hcount hviews ⊢
    omega
  · simp only [holdings, World.clearCaches, destroyTextures, releaseViews, hchunk, Option.toList_none, List.flatMap_nil,
      List.mem_append, List.mem_map, List.mem_reverse, List.mem_flatMap, List.map_nil] at hb'
    by_cases hview : ∃ d, (∃ t ∈ w.textures, d ∈ t.views) ∧ (Item.view d, w.submissionCompleted) = (x, b')
    · obtain ⟨d, ⟨t, ht, hd⟩, hpair⟩ := hview
      cases hpair
      refine ⟨max t.lastUsageSubmissionIndex w.submissionCompleted, Nat.max_le.2 ⟨hlast t ht, Nat.le_refl _⟩, ?_⟩
      simp only [holdings, List.mem_append, List.mem_flatMap]
      exact .inr (.inr (.inr (.inr (.inr (.inl ⟨t, ht, List.mem_cons_of_mem _ (List.mem_map_of_mem hd)⟩)))))
    · refine ⟨b', Nat.le_refl _, ?_⟩
      simp only [holdings, List.mem_append, List.mem_map]
      grind
  · have hlt := (hw.used n x hn).2.2 hclosed
    have hcompleted := hw.completed
    show n ≤ w.fence
    omega

/-- Closing a frame records the submission it ended with, and changes no holding. -/
theorem Good.closeFrame (h : Good w₀ w) (o : Observation) : Good w₀ (w.closeFrame o) := by
  rw [World.closeFrame]
  dsimp only
  have hclosed : Good w₀ { w with
      frameOpen := false
      closedFrameSubmissions := Function.update w.closedFrameSubmissions (w.frameCurrent % kQueueFrames)
        (w.submissionCurrent - 1)
      frameCurrent := w.frameCurrent + 1 } := h.other
  split
  · have hcheck := hclosed.checkSubmissionFence o w.submissionCurrent
    split
    next hidle =>
      have hidle := of_decide_eq_true hidle
      exact hcheck.clearCaches (by simpa using hidle.2.2.1) (by simpa using hidle.2.2.2.1) hidle.2.2.2.2.2
    next => exact hcheck
  · exact hclosed

/-- `EndSubmission` with and without a swap, through every one of its failures. -/
theorem Good.endSubmission (h : Good w₀ w) (c : Closing) (isSwap : Bool) (o : Observation) :
    Good w₀ (w.endSubmission c isSwap o) := by
  have hclose := h.closeSubmission c isSwap
  rw [World.endSubmission]
  split
  next w' hw' =>
    rw [hw'] at hclose
    exact hclose
  next w' hw' =>
    rw [hw'] at hclose
    split
    · exact hclose.closeFrame o
    · exact hclose

/-! ### Descriptors -/

/-- There is a descriptor to take. -/
def HasView (w : World κ) : Prop :=
  w.viewBindlessHeapFree ≠ [] ∨ w.viewBindlessHeapAllocated < kViewBindlessHeapSize

/-- The range of descriptors allocated grows by exactly the one at its end. -/
theorem count_new (d allocated : ℕ) :
    (if (allocated == d) = true then 1 else 0) = if allocated ≤ d ∧ d < allocated + 1 then 1 else 0 := by
  refine if_congr ?_ rfl rfl
  rw [beq_iff_eq]
  omega

/-- A view descriptor taken for one use is held until the submission that is open completes. -/
theorem Good.requestOne (h : Good w₀ w) (hopen : w.submissionOpen = true) (hview : w.HasView) :
    Good w₀ { w.takeView.2 with
      viewBindlessOneUseDescriptors := w.viewBindlessOneUseDescriptors ++ [(w.takeView.1, w.submissionCurrent)]
      uses := (w.submissionCurrent, .view w.takeView.1) :: w.uses } := by
  have hw := h.sound
  have hcompleted := hw.completed
  have hfence := hw.fence
  rw [takeView]
  split
  next d rest hfree =>
    refine h.moves [(w.submissionCurrent, .view d)]
      { hw.still with
        views := fun e => ?_
        indexed := { hw.indexed with }
        uses := rfl
        keys := ?_
        held := fun x b' hb' => .inl ?_
        new := ?_
        handed := ?_ }
    · rw [← no_new]
      simp only [views, hfree, List.map_append, List.count_append, List.map_cons, List.map_nil, List.count_nil,
        List.count_cons]
      omega
    · refine List.nodup_iff_count_le_one.2 fun x => ?_
      have hcount := hw.count_le x
      simp only [holdings, hfree, List.map_append, List.count_append, List.map_cons, List.map_nil, List.count_nil,
        List.count_cons, List.map_map, Function.comp_def] at hcount ⊢
      omega
    · simp only [holdings, hfree, List.mem_append, List.mem_map, List.mem_cons] at hb' ⊢
      grind
    · simp only [holdings, List.mem_append, List.mem_map, List.mem_cons]
      grind
    · rintro x (_ | ⟨_, hx⟩)
      · refine .inr (hw.idle (b := w.submissionCompleted) ?_ (Nat.le_refl _))
        simp only [holdings, hfree, List.mem_append, List.mem_map, List.mem_cons]
        grind
      · exact .inl hx
  next hfree =>
    have hfresh : ¬w.Known (.view w.viewBindlessHeapAllocated) := Nat.lt_irrefl w.viewBindlessHeapAllocated
    refine h.moves [(w.submissionCurrent, .view w.viewBindlessHeapAllocated)]
      { hw.still with
        views := fun e => ?_
        heap := hview.resolve_left fun hfree' => hfree' hfree
        indexed := { hw.indexed with }
        allocated := Nat.le_succ _
        uses := rfl
        keys := ?_
        held := fun x b' hb' => ?_
        new := ?_
        handed := ?_ }
    · rw [← count_new]
      simp only [views, hfree, List.map_append, List.count_append, List.map_cons, List.map_nil, List.count_nil,
        List.count_cons]
      omega
    · refine hw.nodup_fresh hfresh fun x => ?_
      simp only [holdings, hfree, List.map_append, List.count_append, List.map_cons, List.map_nil, List.count_nil,
        List.count_cons, List.map_map, Function.comp_def]
      omega
    · by_cases hx : x = .view w.viewBindlessHeapAllocated
      · subst hx
        exact .inr ⟨hfresh, Nat.lt_succ_self _⟩
      · simp only [holdings, hfree, List.mem_append, List.mem_map, List.mem_cons] at hb' ⊢
        grind
    · simp only [holdings, List.mem_append, List.mem_map, List.mem_cons]
      grind
    · rintro x (_ | ⟨_, hx⟩)
      · exact .inr fun n hn => absurd (hw.used n _ hn).1 hfresh
      · exact .inl hx

/-- Taking a view descriptor neither opens nor closes a submission. -/
theorem takeView_open : w.takeView.2.submissionOpen = w.submissionOpen := by
  rw [takeView]
  split
  · rfl
  · rfl

/-- How many descriptors can be taken. -/
def room (w : World κ) : ℕ := kViewBindlessHeapSize - w.viewBindlessHeapAllocated + w.viewBindlessHeapFree.length

/-- With room left there is a view descriptor to take, freed before or not yet allocated. -/
theorem hasView_of_room (h : 0 < w.room) : w.HasView := by
  rw [room] at h
  by_cases hfree : w.viewBindlessHeapFree = []
  · rw [hfree, List.length_nil] at h
    exact .inr (by omega)
  · exact .inl hfree

/-- Taking one view descriptor leaves room for all but one. -/
theorem room_takeView : w.room ≤ w.takeView.2.room + 1 := by
  rw [takeView]
  split
  next d rest hfree =>
    simp only [room, hfree, List.length_cons]
    omega
  next =>
    simp only [room]
    omega

/-- Taking as many descriptors as there is room for, one after the other, by induction on how many
are left to take. -/
theorem Good.takeOneUse (h : Good w₀ w) (count : ℕ) (hopen : w.submissionOpen = true) (hroom : count ≤ w.room) :
    Good w₀ (takeOneUse count w) := by
  induction count generalizing w with
  | zero => exact h
  | succ count ih =>
    have hstep : w.room ≤ w.takeView.2.room + 1 := room_takeView
    exact ih (h.requestOne hopen (hasView_of_room (by omega))) (takeView_open.trans hopen)
      (Nat.le_of_succ_le_succ (hroom.trans hstep))

/-- `RequestOneUseSingleViewDescriptors` takes all that it is asked for or, with too little room,
nothing. -/
theorem Good.requestOneUseSingleViewDescriptors (h : Good w₀ w) (count : ℕ) (hopen : w.submissionOpen = true) :
    Good w₀ (w.requestOneUseSingleViewDescriptors count) := by
  rw [World.requestOneUseSingleViewDescriptors]
  split
  next => exact h
  next hroom => exact h.takeOneUse count hopen (Nat.le_of_not_lt hroom)

/-! ### The scratch buffer and the textures -/

/-- A scratch buffer that is too small is queued for deletion under the current submission before a
larger one takes its place. -/
theorem Good.requestScratchGPUBuffer (h : Good w₀ w) (size : ℕ) (creates : Bool) :
    Good w₀ (w.requestScratchGPUBuffer size creates) := by
  have hw := h.sound
  have hcompleted := hw.completed
  have hfence := hw.fence
  rw [World.requestScratchGPUBuffer]
  split
  next => exact h
  next hopen =>
    have hopen : w.submissionOpen = true := by
      by_contra hclosed
      exact hopen (.inl hclosed)
    split
    next =>
      refine h.moves (w.scratchBuffer.toList.map fun r => (w.submissionCurrent, Item.resource r))
        { hw.still with
          indexed := { hw.indexed with }
          uses := rfl
          new := fun n x hx => ?_ }
      obtain ⟨r, hr, hpair⟩ := List.mem_map.1 hx
      cases hpair
      refine ⟨Nat.le_refl _, fun hclosed => absurd (hopen.symm.trans hclosed) Bool.noConfusion, w.submissionCurrent,
        Nat.le_refl _, ?_⟩
      simp only [holdings, List.mem_append, List.mem_map]
      grind
    next =>
      split
      next =>
        have hfresh : ¬w.Known (.resource w.created) := Nat.lt_irrefl w.created
        refine h.moves [(w.submissionCurrent, .resource w.created)]
          { hw.still with
            indexed := { hw.indexed with }
            created := Nat.le_succ _
            uses := rfl
            keys := ?_
            held := fun x b' hb' => ?_
            new := ?_ }
        · refine hw.nodup_fresh hfresh fun x => ?_
          simp only [holdings, Option.toList_some, List.map_append, List.count_append, List.map_cons, List.map_nil,
            List.count_nil, List.count_cons, List.map_map, Function.comp_def]
          omega
        · by_cases hx : x = .resource w.created
          · subst hx
            exact .inr ⟨hfresh, Nat.lt_succ_self _⟩
          · simp only [holdings, Option.toList_some, List.mem_append, List.mem_map, List.mem_cons] at hb' ⊢
            grind
        · simp only [holdings, Option.toList_some, List.mem_append, List.mem_map, List.mem_cons]
          grind
      next => exact h

/-- A texture found is left as it is; a texture made gets a name that nobody held. -/
theorem Good.findOrCreateTexture [DecidableEq κ] (h : Good w₀ w) (key : κ) (hostMemoryUsage : ℕ) :
    Good w₀ (w.findOrCreateTexture key hostMemoryUsage) := by
  have hw := h.sound
  rw [World.findOrCreateTexture]
  split
  next => exact h
  next =>
    have hfresh : ¬w.Known (.resource w.created) := Nat.lt_irrefl w.created
    refine h.moves [] { hw.still with
      views := fun d => ?_
      indexed := { hw.indexed with textures := fun t ht => ?_ }
      created := Nat.le_succ _
      keys := ?_
      held := fun x b' hb' => ?_
      new := nofun }
    · rw [← no_new]
      simp only [views, List.flatMap_append, List.flatMap_cons, List.flatMap_nil, Texture.views, List.map_nil,
        List.append_nil]
    · rcases List.mem_append.1 ht with ht | ht
      · exact hw.indexed.textures t ht
      · cases List.mem_singleton.1 ht
        exact Nat.le_refl _
    · refine hw.nodup_fresh hfresh fun x => ?_
      simp only [holdings, List.flatMap_append, List.flatMap_cons, List.flatMap_nil, held, Texture.views,
        List.map_append, List.count_append, List.map_cons, List.map_nil, List.count_nil, List.count_cons, List.map_map,
        Function.comp_def]
      omega
    · by_cases hx : x = .resource w.created
      · subst hx
        exact .inr ⟨hfresh, Nat.lt_succ_self _⟩
      · simp only [holdings, List.flatMap_append, List.flatMap_cons, List.flatMap_nil, List.mem_append,
          List.mem_map] at hb' ⊢
        simp only [held, Texture.views, List.map_nil, List.mem_cons] at hb' ⊢
        grind

/-- A texture that takes a view descriptor owns it from then on; the descriptor came from the free
ones or from the end of the heap. -/
theorem Good.addDescriptor (h : Good w₀ w) {before after : List (Texture κ)} {t : Texture κ}
    (ht : w.textures = before ++ t :: after) (descriptorKey : ℕ) (hview : w.HasView) :
    Good w₀ { w.takeView.2 with
      textures := before ++
        { t with srvDescriptors := t.srvDescriptors ++ [(descriptorKey, w.takeView.1)] } :: after } := by
  have hw := h.sound
  have htextures : ∀ d, ∀ u ∈ before ++ { t with srvDescriptors := t.srvDescriptors ++ [(descriptorKey, d)] } :: after,
      u.lastUsageSubmissionIndex ≤ w.currentSubmissionIndex := by
    intro d u hu
    have hle := hw.indexed.textures
    rw [ht] at hle
    simp only [List.mem_append, List.mem_cons] at hu hle
    grind
  rw [takeView]
  split
  next d rest hfree =>
    refine h.moves [] { hw.still with
      views := fun e => ?_
      indexed := { hw.indexed with textures := htextures d }
      keys := ?_
      held := fun x b' hb' => .inl ?_
      new := nofun
      handed := ?_ }
    · rw [← no_new]
      simp only [views, hfree, ht, Texture.views, List.flatMap_append, List.flatMap_cons, List.map_append,
        List.count_append, List.map_cons, List.map_nil, List.count_nil, List.count_cons]
      omega
    · refine List.nodup_iff_count_le_one.2 fun x => ?_
      have hcount := hw.count_le x
      simp only [holdings, hfree, ht, held, Texture.views, List.flatMap_append, List.flatMap_cons, List.map_append,
        List.count_append, List.map_cons, List.map_nil, List.count_nil, List.count_cons, List.map_map,
        Function.comp_def] at hcount ⊢
      omega
    · simp only [holdings, hfree, ht, List.flatMap_append, List.flatMap_cons, List.mem_append, List.mem_map,
        List.mem_cons] at hb' ⊢
      simp only [held, Texture.views, List.map_append, List.map_cons, List.map_nil, List.mem_append, List.mem_cons,
        List.mem_map] at hb' ⊢
      have hmax := Nat.le_max_right t.lastUsageSubmissionIndex w.submissionCompleted
      grind
    · rintro x (_ | ⟨_, hx⟩)
      · refine .inr (hw.idle (b := w.submissionCompleted) ?_ (Nat.le_refl _))
        simp only [holdings, hfree, List.mem_append, List.mem_map, List.mem_cons]
        grind
      · exact .inl hx
  next hfree =>
    have hfresh : ¬w.Known (.view w.viewBindlessHeapAllocated) := Nat.lt_irrefl w.viewBindlessHeapAllocated
    refine h.moves [] { hw.still with
      views := fun e => ?_
      heap := hview.resolve_left fun hfree' => hfree' hfree
      indexed := { hw.indexed with textures := htextures _ }
      allocated := Nat.le_succ _
      keys := ?_
      held := fun x b' hb' => ?_
      new := nofun
      handed := ?_ }
    · rw [← count_new]
      simp only [views, hfree, ht, Texture.views, List.flatMap_append, List.flatMap_cons, List.map_append,
        List.count_append, List.map_cons, List.map_nil, List.count_nil, List.count_cons]
      omega
    · refine hw.nodup_fresh hfresh fun x => ?_
      simp only [holdings, hfree, ht, held, Texture.views, List.flatMap_append, List.flatMap_cons, List.map_append,
        List.count_append, List.map_cons, List.map_nil, List.count_nil, List.count_cons, List.map_map,
        Function.comp_def]
      omega
    · by_cases hx : x = .view w.viewBindlessHeapAllocated
      · subst hx
        exact .inr ⟨hfresh, Nat.lt_succ_self _⟩
      · simp only [holdings, hfree, ht, List.flatMap_append, List.flatMap_cons, List.mem_append, List.mem_map] at hb' ⊢
        simp only [held, Texture.views, List.map_append, List.map_cons, List.map_nil, List.mem_append, List.mem_cons,
          List.mem_map] at hb' ⊢
        grind
    · rintro x (_ | ⟨_, hx⟩)
      · exact .inr fun n hn => absurd (hw.used n _ hn).1 hfresh
      · exact .inl hx

/-- `FindOrCreateTextureDescriptor` answers with a descriptor the texture already owns, makes one,
or refuses for want of room. -/
theorem Good.findOrCreateTextureDescriptor (h : Good w₀ w) {before after : List (Texture κ)} {t : Texture κ}
    (ht : w.textures = before ++ t :: after) (descriptorKey : ℕ) :
    Good w₀ (w.findOrCreateTextureDescriptor before t after descriptorKey) := by
  rw [World.findOrCreateTextureDescriptor]
  split
  next => exact h
  next =>
    rw [requestPersistentViewBindlessDescriptor]
    by_cases hfull : w.viewBindlessHeapFree = [] ∧ w.viewBindlessHeapAllocated ≥ kViewBindlessHeapSize
    · rw [if_pos hfull]
      exact h
    · rw [if_neg hfull]
      have hview : w.HasView := by
        rw [HasView]
        by_cases hfree : w.viewBindlessHeapFree = []
        · exact .inr (Nat.lt_of_not_le fun hge => hfull ⟨hfree, hge⟩)
        · exact .inl hfree
      exact h.addDescriptor ht descriptorKey hview

/-- `MarkAsUsed` moves a texture to the most recently used end and stamps it with the open
submission. -/
theorem Good.markAsUsed (h : Good w₀ w) {before after : List (Texture κ)} {t : Texture κ}
    (ht : w.textures = before ++ t :: after) (hopen : w.submissionOpen = true) :
    Good w₀ (w.markAsUsed before t after) := by
  have hw := h.sound
  have hcompleted := hw.completed
  have hfence := hw.fence
  have hindex := hw.indexed.opened hopen
  have hle := hw.indexed.textures
  rw [ht] at hle
  rw [World.markAsUsed]
  have hlast : t.lastUsageSubmissionIndex ≤ w.currentSubmissionIndex := hle t (by simp)
  refine h.moves
    ((.resource t.resource :: t.views.map Item.view).map fun item => (w.submissionCurrent, item))
    { hw.still with
      views := fun d => ?_
      indexed := { hw.indexed with textures := fun u hu => ?_ }
      uses := rfl
      keys := ?_
      held := fun x b' hb' => .inl ?_
      new := fun n x hx => ?_ }
  · rw [← no_new]
    simp only [views, ht]
    split
    · rfl
    · simp only [Texture.views, List.flatMap_append, List.flatMap_cons, List.flatMap_nil, List.count_append,
        List.append_nil]
      omega
  · dsimp only at hu
    split at hu
    all_goals
      simp only [List.mem_append, List.mem_cons] at hu hle
      grind
  · refine List.nodup_iff_count_le_one.2 fun x => ?_
    have hcount := hw.count_le x
    simp only [holdings, ht] at hcount ⊢
    split
    all_goals
      simp only [held, Texture.views, List.flatMap_append, List.flatMap_cons, List.flatMap_nil, List.map_append,
        List.count_append, List.map_cons, List.map_nil, List.count_nil, List.count_cons, List.map_map,
        Function.comp_def] at hcount ⊢
      omega
  · simp only [holdings, ht] at hb' ⊢
    split at hb'
    · exact ⟨b', Nat.le_refl _, hb'⟩
    · simp only [List.flatMap_append, List.flatMap_cons, List.flatMap_nil, List.mem_append, List.mem_map] at hb' ⊢
      simp only [held, Texture.views, List.mem_cons, List.mem_map] at hb' ⊢
      have hmax : max t.lastUsageSubmissionIndex w.submissionCompleted ≤
        max w.currentSubmissionIndex w.submissionCompleted := by omega
      grind
  · obtain ⟨item, hitem, hpair⟩ := List.mem_map.1 hx
    cases hpair
    refine ⟨Nat.le_refl _, fun hclosed => absurd (hopen.symm.trans hclosed) Bool.noConfusion, w.submissionCurrent,
      Nat.le_refl _, ?_⟩
    have hmax : max w.currentSubmissionIndex w.submissionCompleted = w.submissionCurrent := by omega
    simp only [holdings]
    split
    next hge =>
      have hbound : max t.lastUsageSubmissionIndex w.submissionCompleted = w.submissionCurrent := by omega
      simp only [List.flatMap_append, List.flatMap_cons, List.mem_append]
      simp only [held, Texture.views, List.mem_cons, List.mem_map] at hitem ⊢
      grind
    next =>
      simp only [List.flatMap_append, List.flatMap_cons, List.flatMap_nil, List.mem_append]
      simp only [held, Texture.views, List.mem_cons, List.mem_map] at hitem ⊢
      grind

/-! ### Every run -/

/-- The start, with the first command allocator. -/
def initial : World κ where
  deviceRemoved := false
  submissionOpen := false
  submissionCurrent := 1
  submissionCompleted := 0
  frameOpen := false
  frameCurrent := 1
  frameCompleted := 0
  closedFrameSubmissions := fun _ => 0
  commandAllocatorWritable := [⟨0, 0⟩]
  commandAllocatorSubmitted := []
  nativeChunkAllocator := none
  viewBindlessHeapFree := []
  viewBindlessHeapAllocated := kSystemBindlessViewCount
  viewBindlessOneUseDescriptors := []
  resourcesForDeletion := []
  scratchBuffer := none
  scratchBufferSize := 0
  scratchBufferUsed := false
  cacheClearRequested := false
  textures := []
  texturesTotalHostMemoryUsage := 0
  textureBindings := fun _ => none
  currentSubmissionIndex := 0
  currentSubmissionTime := 0
  created := 1
  fence := 0
  uses := []
  handed := []

/-- The beginning of a step. -/
def next (w : World κ) : World κ := { w with handed := [] }

variable [DecidableEq κ]

/-- What the command processor does, as long as the device is there; what records commands does so in an
open submission. -/
inductive Step : World κ → World κ → Prop
  | beginSubmission {w : World κ} (isGuestCommand result available : Bool) (o : Observation) (now : ℕ)
      (hdevice : w.deviceRemoved = false) : Step w (w.next.beginSubmission isGuestCommand result available o now)
  | endSubmission {w : World κ} (c : Closing) (isSwap : Bool) (o : Observation) (hdevice : w.deviceRemoved = false) :
      Step w (w.next.endSubmission c isSwap o)
  | checkSubmissionFence {w : World κ} (o : Observation) (awaitSubmission : ℕ) (hdevice : w.deviceRemoved = false) :
      Step w (w.next.checkSubmissionFence o awaitSubmission)
  | beginChunks {w : World κ} (creates : Bool) (hdevice : w.deviceRemoved = false) (hopen : w.submissionOpen = true)
      (hchunk : w.nativeChunkAllocator = none) : Step w (w.next.beginChunks creates)
  /-- The first chunk, which the worker refuses. -/
  | refuseChunks {w : World κ} (creates : Bool) (hdevice : w.deviceRemoved = false) (hopen : w.submissionOpen = true)
      (hchunk : w.nativeChunkAllocator = none) : Step w (w.next.ensureWritableCommandAllocator creates).2
  | requestOneUseSingleViewDescriptors {w : World κ} (count : ℕ) (hdevice : w.deviceRemoved = false)
      (hopen : w.submissionOpen = true) : Step w (w.next.requestOneUseSingleViewDescriptors count)
  | requestScratchGPUBuffer {w : World κ} (size : ℕ) (creates : Bool) (hdevice : w.deviceRemoved = false) :
      Step w (w.next.requestScratchGPUBuffer size creates)
  | releaseScratchGPUBuffer {w : World κ} (hdevice : w.deviceRemoved = false) :
      Step w { w.next with scratchBufferUsed := false }
  | clearCaches {w : World κ} (hdevice : w.deviceRemoved = false) : Step w { w.next with cacheClearRequested := true }
  | findOrCreateTexture {w : World κ} (key : κ) (hostMemoryUsage : ℕ) (hdevice : w.deviceRemoved = false) :
      Step w (w.next.findOrCreateTexture key hostMemoryUsage)
  | bindTexture {w : World κ} (index : ℕ) (texture : Option (Texture κ)) (hdevice : w.deviceRemoved = false)
      (hfound : ∀ t ∈ texture, t ∈ w.textures) : Step w (w.next.bindTexture index texture)
  | findOrCreateTextureDescriptor {w : World κ} {before after : List (Texture κ)} {t : Texture κ} (descriptorKey : ℕ)
      (hdevice : w.deviceRemoved = false) (ht : w.textures = before ++ t :: after) :
      Step w (w.next.findOrCreateTextureDescriptor before t after descriptorKey)
  | markAsUsed {w : World κ} {before after : List (Texture κ)} {t : Texture κ} (hdevice : w.deviceRemoved = false)
      (hopen : w.submissionOpen = true) (ht : w.textures = before ++ t :: after) :
      Step w (w.next.markAsUsed before t after)

def system : System (World κ) where
  init w := w = initial
  step := Step

omit [DecidableEq κ] in
/-- At the start nothing is held and nothing has been named. -/
theorem sound_initial : (initial : World κ).Sound where
  views d := by
    rw [if_neg (fun hd => Nat.lt_irrefl _ (Nat.lt_of_le_of_lt hd.1 hd.2))]
    rfl
  heap := ⟨Nat.le_refl _, (by decide : kSystemBindlessViewCount ≤ kViewBindlessHeapSize)⟩
  completed := Nat.le_refl _
  fence := Nat.one_pos
  indexed := ⟨nofun, nofun, fun _ => Nat.one_pos⟩
  ledger := ⟨List.nodup_singleton _, nofun⟩
  known x b hb := by
    cases List.mem_singleton.1 hb
    exact Nat.one_pos
  used := nofun

omit [DecidableEq κ] in
/-- A sound world is good beside itself: where every run of steps starts. -/
theorem Sound.good (h : w.Sound) : Good w w.next where
  sound := { h with indexed := { h.indexed with } }
  uses _ _ hn := hn
  handed := nofun

/-- **One step**, of whatever kind, leaves a good world: sound itself, with the uses of before, and
with nothing handed out that was still in use. -/
theorem Sound.step (h : w.Sound) (hstep : Step w w') : Good w w' := by
  have hgood := h.good
  cases hstep with
  | beginSubmission isGuestCommand result available o now => exact hgood.beginSubmission ..
  | endSubmission c isSwap o => exact hgood.endSubmission ..
  | checkSubmissionFence o awaitSubmission => exact hgood.checkSubmissionFence ..
  | beginChunks creates _ hopen hchunk => exact hgood.beginChunks creates hopen hchunk
  | refuseChunks creates => exact hgood.ensureWritableCommandAllocator creates
  | requestOneUseSingleViewDescriptors count _ hopen => exact hgood.requestOneUseSingleViewDescriptors count hopen
  | requestScratchGPUBuffer size creates => exact hgood.requestScratchGPUBuffer size creates
  | releaseScratchGPUBuffer => exact hgood.other
  | clearCaches => exact hgood.other
  | findOrCreateTexture key hostMemoryUsage => exact hgood.findOrCreateTexture key hostMemoryUsage
  | bindTexture index texture => exact hgood.other
  | findOrCreateTextureDescriptor descriptorKey _ ht => exact hgood.findOrCreateTextureDescriptor ht descriptorKey
  | markAsUsed _ hopen ht => exact hgood.markAsUsed ht hopen

/-- **Every reachable world is sound**, by the step lemmas above, one for each constructor of
`Step`. -/
theorem sound_of_reachable (h : system.Reachable w) : w.Sound := by
  refine h.invariant ⟨?_, fun _ _ hw hstep => (hw.step hstep).sound⟩
  rintro _ rfl
  exact sound_initial

/-- **Nothing is taken while the GPU uses it.**  In every run, whatever the GPU has completed at each look at
the fence, no step resets a command allocator, writes a descriptor of the bindless heap or releases a buffer,
a texture or an allocator that a submission uses and the GPU has not completed.  The uses are those recorded
before the step; what a step hands out it may use itself. -/
theorem handed_idle (h : system.Reachable w) (hstep : Step w w') {x : Item} (hx : x ∈ w'.handed) {n : ℕ}
    (hn : (n, x) ∈ w.uses) : n ≤ w'.fence :=
  ((sound_of_reachable h).step hstep).handed x hx n hn

/-- The replay succeeds, and the GPU completes so many submissions meanwhile. -/
def observed (more : ℕ) : Observation where
  result := true
  closing := ⟨true, true, true, true⟩
  flushQueue := true
  completed := some more
  flush := true
  waited := some (some 0)
  queueOperationsDone := false
  limits := ⟨384, 768, 30⟩
  now := 0

/-- A submission with one single-use descriptor, and the beginning of the next one when it is completed. -/
def submittedOnce : World ℕ :=
  ((((initial.next.beginSubmission false true true (observed 0) 0).next.requestOneUseSingleViewDescriptors 1).next
    ).endSubmission (observed 0).closing false (observed 0)).next.beginSubmission false true true (observed 1) 0

/-- The example world, with one submission recorded and submitted, is reached from the initial one. -/
theorem submittedOnce_reachable : system.Reachable submittedOnce := by
  have hstart : system.Reachable (initial : World ℕ) := .of_init rfl
  have hbegun := hstart.tail (Step.beginSubmission false true true (observed 0) 0 rfl)
  have hrequested := hbegun.tail (Step.requestOneUseSingleViewDescriptors 1 rfl rfl)
  have hended := hrequested.tail (Step.endSubmission (observed 0).closing false (observed 0) rfl)
  exact hended.tail (Step.beginSubmission false true true (observed 1) 0 rfl)

/-- The hypotheses are satisfiable: descriptor 23, of the submission that is completed, is taken again. -/
theorem handed_idle_oneUse : ∃ w w' : World ℕ, system.Reachable w ∧ Step w w' ∧ .view 23 ∈ w'.handed ∧
    (1, .view 23) ∈ w.uses ∧ 1 ≤ w'.fence := by
  have hstep : Step submittedOnce _ := .requestOneUseSingleViewDescriptors 1 rfl rfl
  have hhanded : Item.view 23 ∈ (submittedOnce.next.requestOneUseSingleViewDescriptors 1).handed := by decide
  have hused : (1, Item.view 23) ∈ submittedOnce.uses := by decide
  exact ⟨_, _, submittedOnce_reachable, hstep, hhanded, hused,
    handed_idle submittedOnce_reachable hstep hhanded hused⟩

/-- **No descriptor is lost or held twice.**  In every run, the descriptors of the bindless heap that have been
allocated are the free ones, those in single use and those of the textures, each in one place only, and there
are never more than the heap has. -/
theorem views_partition (h : system.Reachable w) :
    w.views.Perm (List.range' kSystemBindlessViewCount (w.viewBindlessHeapAllocated - kSystemBindlessViewCount)) ∧
      w.viewBindlessHeapAllocated ≤ kViewBindlessHeapSize := by
  have hw := sound_of_reachable h
  have hheap := hw.heap
  refine ⟨List.perm_iff_count.2 fun d => ?_, hheap.2⟩
  rw [hw.views]
  by_cases hd : kSystemBindlessViewCount ≤ d ∧ d < w.viewBindlessHeapAllocated
  · rw [if_pos hd, List.count_eq_one_of_mem List.nodup_range']
    rw [List.mem_range'_1]
    omega
  · rw [if_neg hd, List.count_eq_zero.2]
    rw [List.mem_range'_1]
    omega

/-- The hypothesis is satisfiable: one descriptor has been allocated, and it is free again. -/
theorem views_partition_oneUse : submittedOnce.views.Perm [23] ∧ 24 ≤ kViewBindlessHeapSize :=
  views_partition submittedOnce_reachable

end World
end D3D12
end BoltsRebuilt
