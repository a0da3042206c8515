/-
# Bindings and completed frames

Two things the processor keeps beside what it holds for the GPU: the texture of each binding
(`pipeline/texture/cache.cpp`, `ResetTextureBindings` and its callers) and the number of the last
completed frame (`d3d12/command_processor.cpp`, lines 4049-4066).

A texture is destroyed only where all bindings are reset, so a binding names a texture of the cache
(`binding_live`).  The completed frames are counted anew when a frame is opened, by the last submissions
of the three frames before it; these stay completed until the frame is closed (`frame_completed`).

Most of the processor leaves both alone and lets the fence only move on: `Keeps`.  What is left are the
opening and the closing of a frame, the clearing of the caches and a new binding.
-/

import BoltsRebuilt.D3D12.SubmissionsSound

namespace BoltsRebuilt
namespace D3D12
namespace World

variable {κ : Type} {w w' w'' w₀ : World κ}

/-- The resources of the textures. -/
def textureResources (w : World κ) : List ℕ := w.textures.map Texture.resource

/-- A part of a step that leaves the frames alone, and the textures of the bindings that it leaves. -/
structure Keeps (w w' : World κ) : Prop where
  current : w'.frameCurrent = w.frameCurrent
  completed : w'.frameCompleted = w.frameCompleted
  closed : w'.closedFrameSubmissions = w.closedFrameSubmissions
  submission : w.submissionCompleted ≤ w'.submissionCompleted
  bindings : ∀ i r, w'.textureBindings i = some r → w.textureBindings i = some r ∧
    (r ∈ w.textureResources → r ∈ w'.textureResources)

/-- The bindings and the frames between the steps. -/
structure Framed (w : World κ) : Prop where
  bindings : ∀ i r, w.textureBindings i = some r → r ∈ w.textureResources
  current : w.frameCompleted < w.frameCurrent
  closed : ∀ frame, 0 < frame → w.frameCurrent < frame + kQueueFrames → frame ≤ w.frameCompleted →
    w.closedFrameSubmissions (frame % kQueueFrames) ≤ w.submissionCompleted

/-- Doing nothing keeps the frames, the closed submissions and the textures of all bindings. -/
theorem Keeps.refl (w : World κ) : Keeps w w where
  current := rfl
  completed := rfl
  closed := rfl
  submission := Nat.le_refl _
  bindings _ _ hb := ⟨hb, id⟩

/-- What two steps keep, both together keep. -/
theorem Keeps.trans (h : Keeps w w') (h' : Keeps w' w'') : Keeps w w'' where
  current := h'.current.trans h.current
  completed := h'.completed.trans h.completed
  closed := h'.closed.trans h.closed
  submission := h.submission.trans h'.submission
  bindings i r hb := by
    obtain ⟨hb', hr'⟩ := h'.bindings i r hb
    obtain ⟨hb, hr⟩ := h.bindings i r hb'
    exact ⟨hb, hr' ∘ hr⟩

/-- A step that keeps the frames and the textures keeps the frames' account. -/
theorem Framed.keeps (h : w.Framed) (hk : Keeps w w') : w'.Framed where
  bindings i r hb := by
    obtain ⟨hb, hr⟩ := hk.bindings i r hb
    exact hr (h.bindings i r hb)
  current := by
    rw [hk.current, hk.completed]
    exact h.current
  closed frame hpos hframe hle := by
    rw [hk.current] at hframe
    rw [hk.completed] at hle
    rw [hk.closed]
    exact (h.closed frame hpos hframe hle).trans hk.submission

/-! ### The fence -/

/-- Marking the device as removed keeps the frames and the textures. -/
theorem keeps_removed : Keeps w w.removed := { Keeps.refl w with }

/-- Reading the fence keeps them: it only raises the completed submission. -/
theorem keeps_readFence (hw : w.Sound) (more : ℕ) : Keeps w (w.readFence more) := by
  have hle : w.submissionCompleted ≤ min (w.fence + more) (w.submissionCurrent - 1) := by
    have hfence := hw.fence
    have hcompleted := hw.completed
    omega
  exact { Keeps.refl w with submission := hle }

/-- All bindings are reset where a texture is destroyed, and without that the textures stay. -/
theorem keeps_texturesCompletedSubmissionUpdated (limits : Limits) (now : ℕ) :
    Keeps w (w.texturesCompletedSubmissionUpdated limits now) := by
  obtain ⟨hsplit, -⟩ := evict_spec limits w.submissionCompleted now w.texturesTotalHostMemoryUsage w.textures
  rw [texturesCompletedSubmissionUpdated]
  generalize evict limits w.submissionCompleted now w.texturesTotalHostMemoryUsage w.textures = evicted at *
  obtain ⟨gone, kept⟩ := evicted
  refine { Keeps.refl w with bindings := fun i r hb => ?_ }
  dsimp only at hb hsplit ⊢
  cases gone with
  | nil => exact ⟨hb, fun hr => by rwa [textureResources, hsplit] at hr⟩
  | cons t gone => exact absurd hb (Option.some_ne_none r).symm

/-- Reclaiming evicts textures, and drops the bindings of those it evicts with them. -/
theorem keeps_reclaim (limits : Limits) (now : ℕ) : Keeps w (w.reclaim limits now) := by
  have hlists : Keeps w w.reclaimCommandAllocators.releaseOneUseDescriptors.deleteResources :=
    { Keeps.refl w with }
  exact hlists.trans (keeps_texturesCompletedSubmissionUpdated limits now)

/-- Awaiting the fence keeps them in every outcome, a removed device included. -/
theorem keeps_awaitFence (h : Good w₀ w) (o : Observation) (awaitSubmission : ℕ) :
    Keeps w (w.awaitFence o awaitSubmission).2 := by
  rw [World.awaitFence]
  split
  · exact keeps_removed
  next more _ =>
    have hread := keeps_readFence h.sound more
    have hgood := h.readFence more
    dsimp only
    split
    · split
      · exact hread.trans keeps_removed
      · split
        · exact hread
        · exact hread.trans keeps_removed
        next more' _ => exact hread.trans (keeps_readFence hgood.sound more')
    · exact hread

/-- So does the wait followed by the reading. -/
theorem keeps_updateCompleted (h : Good w₀ w) (o : Observation) (awaitSubmission : ℕ) :
    Keeps w (w.updateCompleted o awaitSubmission) := by
  have hfence := keeps_awaitFence h o awaitSubmission
  rw [World.updateCompleted]
  split
  next w' hawait =>
    rw [hawait] at hfence
    exact hfence
  next w' hawait =>
    rw [hawait] at hfence
    split
    · exact hfence
    · exact hfence.trans (keeps_reclaim _ _)

/-! ### Closing a submission -/

/-- Making an allocator keeps them: neither frames nor textures take part in it. -/
theorem keeps_ensureWritableCommandAllocator (creates : Bool) :
    Keeps w (w.ensureWritableCommandAllocator creates).2 := by
  rw [ensureWritableCommandAllocator]
  split
  · exact .refl w
  · split
    · exact { Keeps.refl w with }
    · exact .refl w

/-- Closing a submission keeps them, by whichever path its lists are executed. -/
theorem keeps_closeSubmission (c : Closing) (isSwap : Bool) : Keeps w (w.closeSubmission c isSwap).2 := by
  rw [closeSubmission]
  split
  · exact keeps_removed
  · split
    · exact .refl w
    · split
      · split
        · rw [submitChunks]
          split
          · exact keeps_removed
          · split
            · exact keeps_removed
            · exact { Keeps.refl w with }
        · have hensure := keeps_ensureWritableCommandAllocator (w := w) c.creates
          split
          next w' hw' =>
            rw [hw'] at hensure
            exact hensure
          next w' hw' =>
            rw [hw'] at hensure
            refine hensure.trans ?_
            dsimp only
            rw [submitWritable]
            split
            · split
              · exact { Keeps.refl w' with }
              · exact keeps_removed
            · exact .refl w'
      · exact .refl w

/-- `CheckSubmissionFence` keeps them, up to what it evicts. -/
theorem keeps_checkSubmissionFence (h : Good w₀ w) (o : Observation) (awaitSubmission : ℕ) :
    Keeps w (w.checkSubmissionFence o awaitSubmission) := by
  rw [checkSubmissionFence]
  split
  · exact keeps_removed
  · split
    · have hclose : Good w₀ (if w.submissionOpen then w.closeSubmission o.closing false else (true, w)).2 ∧
          Keeps w (if w.submissionOpen then w.closeSubmission o.closing false else (true, w)).2 := by
        split
        · exact ⟨h.closeSubmission _ _, keeps_closeSubmission _ _⟩
        · exact ⟨h, .refl w⟩
      split
      next w' hw' =>
        rw [hw'] at hclose
        exact hclose.2
      next w' hw' =>
        rw [hw'] at hclose
        split
        · exact hclose.2.trans keeps_removed
        · exact hclose.2.trans (keeps_updateCompleted hclose.1 _ _)
    · exact keeps_updateCompleted h _ _

/-! ### Submissions and frames -/

/-- Opening a submission keeps them: it takes an allocator and a list, and the frame is opened
separately. -/
theorem keeps_openSubmission (now : ℕ) : Keeps w (w.openSubmission now) := by
  rw [openSubmission]
  split
  · exact .refl w
  · exact { Keeps.refl w with }

/-- The loop counts frames whose submissions are completed, from the last one it knows and in order,
and stops at the first that is not. -/
theorem completedFrames_spec (frame count : ℕ) :
    frame ≤ w.completedFrames frame count ∧ w.completedFrames frame count ≤ frame + count ∧
      ∀ f, frame < f → f ≤ w.completedFrames frame count →
        w.closedFrameSubmissions (f % kQueueFrames) ≤ w.submissionCompleted := by
  induction count generalizing frame with
  | zero => exact ⟨Nat.le_refl _, Nat.le_refl _, fun f hlt hle => absurd hle (Nat.not_le.2 hlt)⟩
  | succ count ih =>
    rw [completedFrames]
    split
    next => exact ⟨Nat.le_refl _, Nat.le_add_right .., fun f hlt hle => absurd hle (Nat.not_le.2 hlt)⟩
    next hcompleted =>
      obtain ⟨hge, hle, hframes⟩ := ih (frame + 1)
      refine ⟨by omega, by omega, fun f hlt hf => ?_⟩
      rcases Nat.eq_or_lt_of_le (Nat.succ_le_of_lt hlt) with rfl | hlt
      · exact Nat.not_lt.1 hcompleted
      · exact hframes f hlt hf

/-- The completed frames move up to the first whose submission the fence has not passed. -/
theorem Framed.updateFrameCompleted (h : w.Framed) : w.updateFrameCompleted.Framed := by
  have hcurrent := h.current
  obtain ⟨-, hle, hframes⟩ := completedFrames_spec (w := w) (max w.frameCurrent kQueueFrames - kQueueFrames)
    (w.frameCurrent - 1 - (max w.frameCurrent kQueueFrames - kQueueFrames))
  have hqueue : kQueueFrames = 3 := rfl
  refine { bindings := h.bindings, current := ?_, closed := fun frame hpos hframe hf => ?_ }
  · show w.completedFrames _ _ < w.frameCurrent
    omega
  · have hframe' : w.frameCurrent < frame + kQueueFrames := hframe
    exact hframes frame (by omega) hf

/-- Beginning a submission, with a frame opened or not, keeps the account. -/
theorem Framed.beginSubmission (h : w.Framed) (hgood : Good w₀ w) (isGuestCommand result available : Bool)
    (o : Observation) (now : ℕ) : (w.beginSubmission isGuestCommand result available o now).Framed := by
  rw [World.beginSubmission]
  split
  · exact h.keeps keeps_removed
  · split
    · exact h
    · dsimp only
      generalize (if (isGuestCommand && !w.frameOpen) = true then
        w.closedFrameSubmissions (w.frameCurrent % kQueueFrames) else 0) = awaitSubmission
      split
      · exact h
      · split
        · exact h.keeps keeps_removed
        · have hcheck := h.keeps (keeps_checkSubmissionFence hgood o awaitSubmission)
          split
          · exact hcheck
          · split
            · have hopened := hcheck.updateFrameCompleted.keeps (keeps_openSubmission now)
              exact { hopened with bindings := fun _ _ hb => absurd hb.symm (Option.some_ne_none _) }
            · exact hcheck.keeps (keeps_openSubmission now)

/-- The frame that is closed is not one of the completed ones, and its entry is that of the frame that
falls out of the last three. -/
theorem Framed.closeFrame (h : w.Framed) (hgood : Good w₀ w) (o : Observation) : (w.closeFrame o).Framed := by
  have hcurrent := h.current
  have hqueue : kQueueFrames = 3 := rfl
  rw [World.closeFrame]
  dsimp only
  have hgood' : Good w₀ { w with
      frameOpen := false
      closedFrameSubmissions := Function.update w.closedFrameSubmissions (w.frameCurrent % kQueueFrames)
        (w.submissionCurrent - 1)
      frameCurrent := w.frameCurrent + 1 } := hgood.other
  have hframed : Framed { w with
      frameOpen := false
      closedFrameSubmissions := Function.update w.closedFrameSubmissions (w.frameCurrent % kQueueFrames)
        (w.submissionCurrent - 1)
      frameCurrent := w.frameCurrent + 1 } := by
    refine { bindings := h.bindings, current := Nat.lt_succ_of_lt hcurrent, closed := fun frame hpos hframe hle => ?_ }
    dsimp only at hframe hle ⊢
    have hne : frame % kQueueFrames ≠ w.frameCurrent % kQueueFrames := by
      rw [hqueue] at hframe ⊢
      omega
    rw [Function.update_of_ne hne]
    exact h.closed frame hpos (by omega) hle
  split
  · have hcheck := hframed.keeps (keeps_checkSubmissionFence hgood' o w.submissionCurrent)
    split
    · exact { hcheck with bindings := fun _ _ hb => absurd hb.symm (Option.some_ne_none _) }
    · exact hcheck
  · exact hframed

/-- Ending a submission, with a frame closed or not, keeps the account. -/
theorem Framed.endSubmission (h : w.Framed) (hgood : Good w₀ w) (c : Closing) (isSwap : Bool) (o : Observation) :
    (w.endSubmission c isSwap o).Framed := by
  have hclose := h.keeps (keeps_closeSubmission c isSwap)
  have hgood' := hgood.closeSubmission c isSwap
  rw [World.endSubmission]
  split
  next w' hw' =>
    rw [hw'] at hclose
    exact hclose
  next w' hw' =>
    rw [hw'] at hclose hgood'
    split
    · exact hclose.closeFrame hgood' o
    · exact hclose

/-! ### What commands use -/

/-- Beginning a chunk session keeps the frames and the textures. -/
theorem keeps_beginChunks (creates : Bool) : Keeps w (w.beginChunks creates) := by
  have hensure := keeps_ensureWritableCommandAllocator (w := w) creates
  rw [beginChunks]
  split
  next w' hw' =>
    rw [hw'] at hensure
    exact hensure
  next w' hw' =>
    rw [hw'] at hensure
    refine hensure.trans ?_
    dsimp only
    split
    · exact { Keeps.refl w' with }
    · exact .refl w'

/-- Taking a view descriptor keeps the frames and the textures. -/
theorem keeps_takeView : Keeps w w.takeView.2 := by
  rw [takeView]
  split
  · exact { Keeps.refl w with }
  · exact { Keeps.refl w with }

/-- Taking several descriptors keeps them, by induction on the count. -/
theorem keeps_takeOneUse (count : ℕ) : Keeps w (takeOneUse count w) := by
  induction count generalizing w with
  | zero => exact .refl w
  | succ count ih =>
    refine Keeps.trans ?_ ih
    exact { keeps_takeView with }

/-- A request for one-use descriptors keeps them, refused or not. -/
theorem keeps_requestOneUseSingleViewDescriptors (count : ℕ) :
    Keeps w (w.requestOneUseSingleViewDescriptors count) := by
  rw [requestOneUseSingleViewDescriptors]
  split
  · exact .refl w
  · exact keeps_takeOneUse count

/-- A request for a scratch buffer keeps them, whether or not the old one is replaced. -/
theorem keeps_requestScratchGPUBuffer (size : ℕ) (creates : Bool) :
    Keeps w (w.requestScratchGPUBuffer size creates) := by
  rw [requestScratchGPUBuffer]
  split
  · exact .refl w
  · split
    · exact { Keeps.refl w with }
    · split
      · exact { Keeps.refl w with }
      · exact .refl w

/-- A step that leaves the textures that were there, and perhaps others, keeps what the bindings
name. -/
theorem keeps_of_textures (hk : Keeps w w') {textures : List (Texture κ)}
    (hr : ∀ r ∈ w'.textureResources, r ∈ textures.map Texture.resource) : Keeps w { w' with textures } :=
  { hk with
    bindings := fun i r hb => by
      obtain ⟨hb', hr'⟩ := hk.bindings i r hb
      exact ⟨hb', fun hmem => hr r (hr' hmem)⟩ }

/-- A texture found or made leaves every binding on the texture it had. -/
theorem keeps_findOrCreateTexture [DecidableEq κ] (key : κ) (hostMemoryUsage : ℕ) :
    Keeps w (w.findOrCreateTexture key hostMemoryUsage) := by
  rw [findOrCreateTexture]
  split
  · exact .refl w
  · refine { Keeps.refl w with bindings := fun i r hb => ⟨hb, fun hr => ?_⟩ }
    rw [textureResources, List.map_append]
    exact List.mem_append_left _ hr

/-- A descriptor found or made changes no binding. -/
theorem keeps_findOrCreateTextureDescriptor {before after : List (Texture κ)} {t : Texture κ}
    (ht : w.textures = before ++ t :: after) (descriptorKey : ℕ) :
    Keeps w (w.findOrCreateTextureDescriptor before t after descriptorKey) := by
  have hsame : w.takeView.2.textures = w.textures := by
    rw [takeView]
    split
    · rfl
    · rfl
  rw [findOrCreateTextureDescriptor]
  split
  · exact .refl w
  · rw [requestPersistentViewBindlessDescriptor]
    by_cases hfull : w.viewBindlessHeapFree = [] ∧ w.viewBindlessHeapAllocated ≥ kViewBindlessHeapSize
    · rw [if_pos hfull]
      exact .refl w
    · rw [if_neg hfull]
      refine keeps_of_textures keeps_takeView fun r hr => ?_
      rw [textureResources, hsame, ht] at hr
      simpa using hr

/-- Marking a texture as used keeps it alive, and moves it only. -/
theorem keeps_markAsUsed {before after : List (Texture κ)} {t : Texture κ} (ht : w.textures = before ++ t :: after) :
    Keeps w (w.markAsUsed before t after) := by
  refine { Keeps.refl w with bindings := fun i r hb => ⟨hb, fun hr => ?_⟩ }
  rw [textureResources, ht] at hr
  rw [textureResources, markAsUsed]
  dsimp only
  split
  · exact hr
  · simp only [List.map_append, List.map_cons, List.map_nil, List.mem_append, List.mem_cons] at hr ⊢
    grind

/-! ### Every run -/

variable [DecidableEq κ]

/-- **Every step keeps the frames' account**, one case for each constructor of `Step`. -/
theorem Framed.step (h : w.Framed) (hw : w.Sound) (hstep : Step w w') : w'.Framed := by
  have hgood := hw.good
  have hnext : w.next.Framed := h.keeps { Keeps.refl w with }
  cases hstep with
  | beginSubmission isGuestCommand result available o now => exact hnext.beginSubmission hgood ..
  | endSubmission c isSwap o => exact hnext.endSubmission hgood ..
  | checkSubmissionFence o awaitSubmission => exact hnext.keeps (keeps_checkSubmissionFence hgood o awaitSubmission)
  | beginChunks creates => exact hnext.keeps (keeps_beginChunks creates)
  | refuseChunks creates => exact hnext.keeps (keeps_ensureWritableCommandAllocator creates)
  | requestOneUseSingleViewDescriptors count => exact hnext.keeps (keeps_requestOneUseSingleViewDescriptors count)
  | requestScratchGPUBuffer size creates => exact hnext.keeps (keeps_requestScratchGPUBuffer size creates)
  | releaseScratchGPUBuffer => exact hnext.keeps { Keeps.refl w.next with }
  | clearCaches => exact hnext.keeps { Keeps.refl w.next with }
  | findOrCreateTexture key hostMemoryUsage => exact hnext.keeps (keeps_findOrCreateTexture key hostMemoryUsage)
  | bindTexture index texture _ hfound =>
    refine { hnext with bindings := fun i r hb => ?_ }
    by_cases hi : i = index
    · subst hi
      rw [bindTexture] at hb
      dsimp only at hb
      rw [Function.update_self] at hb
      obtain ⟨t, ht, rfl⟩ := Option.map_eq_some_iff.1 hb
      exact List.mem_map_of_mem (hfound t ht)
    · rw [bindTexture] at hb
      dsimp only at hb
      rw [Function.update_of_ne hi] at hb
      exact hnext.bindings i r hb
  | findOrCreateTextureDescriptor descriptorKey _ ht =>
    exact hnext.keeps (keeps_findOrCreateTextureDescriptor (w := w.next) ht descriptorKey)
  | markAsUsed _ _ ht => exact hnext.keeps (keeps_markAsUsed (w := w.next) ht)

/-- Every reachable world keeps its frames' account, by induction from the initial one. -/
theorem framed_of_reachable (h : system.Reachable w) : w.Framed := by
  have hinvariant : system.Inductive fun w : World κ => w.Sound ∧ w.Framed := by
    refine ⟨?_, fun w w' hw hstep => ⟨(hw.1.step hstep).sound, hw.2.step hw.1 hstep⟩⟩
    rintro _ rfl
    exact ⟨sound_initial, nofun, Nat.one_pos, fun _ _ _ _ => Nat.le_refl _⟩
  exact (h.invariant hinvariant).2

/-- **A binding names a texture of the cache.**  In every run, with textures evicted and caches cleared at
any time: no binding is left of a texture that was destroyed. -/
theorem binding_live (h : system.Reachable w) {index resource : ℕ} (hb : w.textureBindings index = some resource) :
    ∃ t ∈ w.textures, t.resource = resource :=
  List.mem_map.1 ((framed_of_reachable h).bindings index resource hb)

/-- **A frame that counts as completed is.**  In every run the completed frames are before the current one, and
the fence has passed the submissions of those among the last three; so what was taken from a pool for one of
them can be taken again. -/
theorem frame_completed (h : system.Reachable w) : w.frameCompleted < w.frameCurrent ∧
    ∀ frame, 0 < frame → w.frameCurrent < frame + kQueueFrames → frame ≤ w.frameCompleted →
      w.closedFrameSubmissions (frame % kQueueFrames) ≤ w.fence := by
  have hframed := framed_of_reachable h
  refine ⟨hframed.current, fun frame hpos hframe hle => ?_⟩
  exact (hframed.closed frame hpos hframe hle).trans (sound_of_reachable h).completed

end World
end D3D12
end BoltsRebuilt
