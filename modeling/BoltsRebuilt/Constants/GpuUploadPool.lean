/-
# The GPU-upload pool

`gpu/native/native_gpu_upload_pool.cpp`: construction, pages and their
destruction (lines 11-87), `CreatePageImplementation`, `Request` and
`ReclaimCompleted` (lines 121-226).

The page lists are the base class's, which the repository takes from the SDK.
What it does inside `Request` and `Reclaim` is a script here, and any script is
allowed: it moves pages between its two lists, deletes pages, sets the offsets of
the open page and, in `Request`, asks for pages.  That it owns every page it was
given in one of its lists, and deletes it once, is the form of the state: `pages`
holds each page with the list it is in, and deleting takes it out.

The pool runs no two calls at once.  What the device and the host allocator
answer is an argument of each call.  `call_steps` says what a call can do to the
pages, the budget and the record of the device.
-/

import Mathlib.Algebra.GroupWithZero.Nat
import Mathlib.Algebra.Ring.Int.Defs
import Mathlib.Data.Nat.Notation
import Mathlib.Logic.Relation
import Mathlib.Tactic.Set
import Mathlib.Tactic.SplitIfs

namespace BoltsRebuilt
namespace GpuUploadPool

/-- The heap types of the pool's buffers. -/
inductive HeapType
  | gpuUpload
  | upload
  deriving DecidableEq

/-- The lists of the base class. -/
inductive PageList
  | writable
  | submitted
  deriving DecidableEq

/-- `OwnedPage`, with the list it is in.  A resource is a number; `mapped` is null
as `none`. -/
structure OwnedPage where
  place : PageList
  resource : Option ℕ
  mapped : Option UInt64
  gpuAddress : UInt64
  gpu : Bool
  retained : Bool := false
  bytes : UInt64
  deriving DecidableEq

/-- `NativeGpuUploadPoolStats`, without the two the pool holds elsewhere. -/
structure Stats where
  gpuPages : UInt64 := 0
  uploadPages : UInt64 := 0
  creationFailures : UInt64 := 0
  budgetStops : UInt64 := 0
  requests : UInt64 := 0
  requestFailures : UInt64 := 0
  requestedBytes : UInt64 := 0
  reclaims : UInt64 := 0
  retainedResources : UInt64 := 0
  deriving DecidableEq

/-- The pool, its base class, and what has happened at the device: how many
resources there have been, which of them were released, and each attempt to
create and map a buffer with its success.  `gone` are the retained pages whose
metadata is destroyed. -/
structure Pool where
  device : Bool
  pageSize : UInt64
  gpuByteBudget : UInt64
  gpuUploadSupported : Bool
  gpuUploadFailed : Bool := false
  requestsDisabled : Bool := false
  shutdown : Bool := false
  destroyed : Bool := false
  gpuBytes : UInt64 := 0
  stats : Stats := {}
  pages : List OwnedPage := []
  currentPageUsed : UInt64 := 0
  currentPageFlushed : UInt64 := 0
  gone : List OwnedPage := []
  nextResource : ℕ := 0
  released : List ℕ := []
  attempts : List (HeapType × Bool) := []
  deriving DecidableEq

/-- `rex::align`. -/
def align (value alignment : UInt64) : UInt64 := (value + (alignment - 1)) / alignment * alignment

/-- `AlignedPageBytes`. -/
def alignedPageBytes (pageBytes : UInt64) : UInt64 := align (max pageBytes 65536) 65536

/-- The constructor; `supported` is the answer of the device to `OPTIONS16`,
`none` if the query failed. -/
def construct (device : Bool) (supported : Option Bool) (pageBytes gpuByteBudget : UInt64) : Pool where
  device
  pageSize := alignedPageBytes pageBytes
  gpuByteBudget
  gpuUploadSupported := device && supported == some true

/-- The answers to `CreateCommittedResource` and `Map` for one buffer. -/
structure Creation where
  created : Bool
  /-- The mapping, `none` if it failed or is null. -/
  mapping : Option UInt64
  gpuAddress : UInt64

/-- The answers to one `CreatePageImplementation`: whether the host allocated the
page, the two buffers, and whether each message could be logged. -/
structure Answers where
  allocated : Bool
  gpu : Creation
  warned : Bool
  upload : Creation
  logged : Bool

/-- What `CreatePageImplementation` gives the base class. -/
inductive Created
  | page (page : OwnedPage)
  | null
  /-- `std::bad_alloc` leaves it. -/
  | thrown

namespace Pool

/-- A buffer is created and mapped. -/
def noteCreated (p : Pool) (heap : HeapType) : Pool :=
  { p with
    nextResource := p.nextResource + 1
    attempts := p.attempts ++ [(heap, true)] }

/-- A buffer is not created, or created and not mapped: that one is released at
once, by `Reset` or with the page that owns it. -/
def noteFailed (p : Pool) (heap : HeapType) (created : Bool) : Pool :=
  { p with
    nextResource := if created then p.nextResource + 1 else p.nextResource
    released := if created then p.released ++ [p.nextResource] else p.released
    attempts := p.attempts ++ [(heap, false)] }

/-- `CreateBuffer` and `Map`: the resource and the mapping. -/
def createMapped (p : Pool) (heap : HeapType) (c : Creation) : Pool × Option (ℕ × UInt64) :=
  match c.created, c.mapping with
  | true, some mapping => (p.noteCreated heap, some (p.nextResource, mapping))
  | created, _ => (p.noteFailed heap created, none)

/-- The part of `CreatePageImplementation` for an ordinary upload page. -/
def createUpload (p : Pool) (place : PageList) (a : Answers) : Pool × Created :=
  match p.createMapped .upload a.upload with
  | (q, some (resource, mapping)) =>
      ({ q with stats := { q.stats with uploadPages := q.stats.uploadPages + 1 } },
        .page
          { place, resource := some resource, mapped := some mapping,
            gpuAddress := a.upload.gpuAddress, gpu := false, bytes := p.pageSize })
  | (q, none) => (q, if a.logged then .null else .thrown)

/-- The part of `CreatePageImplementation` for a page in video memory. -/
def createGpu (p : Pool) (place : PageList) (a : Answers) : Pool × Created :=
  match p.createMapped .gpuUpload a.gpu with
  | (q, some (resource, mapping)) =>
      ({ q with
          gpuBytes := q.gpuBytes + p.pageSize
          stats := { q.stats with gpuPages := q.stats.gpuPages + 1 } },
        .page
          { place, resource := some resource, mapped := some mapping,
            gpuAddress := a.gpu.gpuAddress, gpu := true, bytes := p.pageSize })
  | (q, none) =>
      let q := { q with
        gpuUploadFailed := true
        stats := { q.stats with creationFailures := q.stats.creationFailures + 1 } }
      if a.warned then q.createUpload place a else (q, .thrown)

/-- `CreatePageImplementation`; the base class will put the page into `place`. -/
def createPage (p : Pool) (place : PageList) (a : Answers) : Pool × Created :=
  if !p.device then (p, .null)
  else if !a.allocated then (p, .thrown)
  else
    let budgetAvailable := decide (p.gpuBytes + p.pageSize ≤ p.gpuByteBudget)
    if p.gpuUploadSupported && !p.gpuUploadFailed then
      if budgetAvailable then p.createGpu place a
      else
        createUpload { p with stats := { p.stats with budgetStops := p.stats.budgetStops + 1 } }
          place a
    else p.createUpload place a

/-- The destruction of a page: its resource is released unless it was detached,
and the budget gets its bytes back unless they are retained. -/
def destroyPage (p : Pool) (page : OwnedPage) : Pool :=
  { p with
    released := p.released ++ page.resource.toList
    gpuBytes := if page.gpu && !page.retained then p.gpuBytes - page.bytes else p.gpuBytes
    gone := if page.retained then p.gone ++ [page] else p.gone }

/-- The base class deletes page `i`. -/
def deletePage (p : Pool) (i : ℕ) : Pool :=
  match p.pages[i]? with
  | none => p
  | some page => destroyPage { p with pages := p.pages.eraseIdx i } page

end Pool

/-- What the base class does with its pages. -/
inductive Upkeep
  | move (i : ℕ) (place : PageList)
  | delete (i : ℕ)
  | offsets (used flushed : UInt64)

/-- What the base class does inside `Request`. -/
inductive Action
  | upkeep (u : Upkeep)
  | create (place : PageList) (a : Answers)

/-- The base class's `Request`: what it does, and the page and offset it returns. -/
structure Script where
  actions : List Action
  result : Option (ℕ × UInt64)

/-- The output arguments of `Request`, `none` where the caller passes null. -/
structure Outputs where
  buffer : Option (Option ℕ)
  offset : Option UInt64
  gpuAddress : Option UInt64
  deriving DecidableEq

namespace Pool

def upkeep (p : Pool) : Upkeep → Pool
  | .move i place => { p with pages := p.pages.modify i ({ · with place }) }
  | .delete i => p.deletePage i
  | .offsets used flushed => { p with currentPageUsed := used, currentPageFlushed := flushed }

/-- One action; `true` if an exception left it. -/
def act (p : Pool) : Action → Pool × Bool
  | .upkeep u => (p.upkeep u, false)
  | .create place a =>
      match p.createPage place a with
      | (q, .page page) => ({ q with pages := q.pages ++ [page] }, false)
      | (q, .null) => (q, false)
      | (q, .thrown) => (q, true)

/-- Actions until one is left by an exception. -/
def run (p : Pool) : List Action → Pool × Bool
  | [] => (p, false)
  | a :: as =>
      match p.act a with
      | (q, true) => (q, true)
      | (q, false) => q.run as

/-- `Request` that is not served. -/
def refuse (p : Pool) : Pool :=
  { p with
    requestsDisabled := true
    stats := { p.stats with requestFailures := p.stats.requestFailures + 1 } }

/-- `Request`, with what it returns and the output arguments after it.  The
submission index and the alignment are the base class's alone. -/
def request (p : Pool) (size : UInt64) (script : Script) (out : Outputs) :
    Pool × Option UInt64 × Outputs :=
  if p.requestsDisabled || !p.device || size == 0 || decide (size > p.pageSize) then
    (p.refuse, none, out)
  else
    let (q, thrown) := p.run script.actions
    let found := if thrown then none else script.result
    match found.bind fun (i, offset) => q.pages[i]?.map (·, offset) with
    | some ({ mapped := some mapped, resource, gpuAddress, .. }, offset) =>
        ({ q with stats :=
            { q.stats with
              requests := q.stats.requests + 1
              requestedBytes := q.stats.requestedBytes + size } },
          some (mapped + offset),
          { buffer := out.buffer.map fun _ => resource
            offset := out.offset.map fun _ => offset
            gpuAddress := out.gpuAddress.map fun _ => gpuAddress + offset })
    | _ =>
        -- without an open page the offsets are repaired
        let q := if q.pages.any (·.place == .writable) then q
          else { q with currentPageUsed := 0, currentPageFlushed := 0 }
        (q.refuse, none, out)

/-- `ReclaimCompleted`. -/
def reclaimCompleted (p : Pool) (script : List Upkeep) : Pool :=
  if p.shutdown then p
  else
    script.foldl upkeep { p with stats := { p.stats with reclaims := p.stats.reclaims + 1 } }

/-- `ClearCache` of the base class, and its destructor. -/
def clearCache (p : Pool) : Pool := p.pages.foldl destroyPage { p with pages := [] }

/-- The resource of a page is detached. -/
def retainPage (page : OwnedPage) : OwnedPage :=
  if page.resource.isSome then { page with resource := none, retained := true } else page

/-- The resources of both lists are detached. -/
def retain (p : Pool) : Pool :=
  { p with
    pages := p.pages.map retainPage
    stats := { p.stats with retainedResources :=
      p.stats.retainedResources + UInt64.ofNat (p.pages.countP (·.resource.isSome)) } }

/-- `Shutdown`. -/
def shutdownWith (p : Pool) (completionProven : Bool) : Pool :=
  if p.shutdown then p
  else
    let q := { p with shutdown := true, requestsDisabled := true }
    (if completionProven then q else q.retain).clearCache

/-- The destructor, then the base class's. -/
def destroy (p : Pool) : Pool := { (p.shutdownWith false).clearCache with destroyed := true }

end Pool

open Pool

/-- A call of the pool. -/
inductive Call
  | request (size : UInt64) (script : Script) (out : Outputs)
  | reclaimCompleted (script : List Upkeep)
  | shutdown (completionProven : Bool)
  | destroy

/-- The pool after a call; a destroyed one takes none. -/
def Pool.call (p : Pool) (c : Call) : Pool :=
  if p.destroyed then p
  else
    match c with
    | .request size script out => (p.request size script out).1
    | .reclaimCompleted script => p.reclaimCompleted script
    | .shutdown completionProven => p.shutdownWith completionProven
    | .destroy => p.destroy

/-! ### What a call can do -/

/-- The pages, the budget and the device's record, without the rest of the pool. -/
structure Core where
  pages : List OwnedPage
  gone : List OwnedPage
  nextResource : ℕ
  released : List ℕ
  attempts : List (HeapType × Bool)
  gpuBytes : UInt64
  failed : Bool
  pageSize : UInt64
  budget : UInt64

def Pool.core (p : Pool) : Core where
  pages := p.pages
  gone := p.gone
  nextResource := p.nextResource
  released := p.released
  attempts := p.attempts
  gpuBytes := p.gpuBytes
  failed := p.gpuUploadFailed
  pageSize := p.pageSize
  budget := p.gpuByteBudget

namespace Core

/-- A page that can be published: it owns the newest resource, and one in video
memory was allowed. -/
structure Publishable (c : Core) (page : OwnedPage) : Prop where
  resource : page.resource = some c.nextResource
  retained : page.retained = false
  bytes : page.bytes = c.pageSize
  gpu : page.gpu = true → c.failed = false ∧ c.gpuBytes + c.pageSize ≤ c.budget

/-- A buffer was not created, or created, not mapped and released. -/
def fail (c : Core) (heap : HeapType) (created : Bool) : Core :=
  { c with
    nextResource := if created then c.nextResource + 1 else c.nextResource
    released := if created then c.released ++ [c.nextResource] else c.released
    attempts := c.attempts ++ [(heap, false)]
    failed := c.failed || decide (heap = .gpuUpload) }

def publish (c : Core) (page : OwnedPage) : Core :=
  { c with
    pages := c.pages ++ [page]
    nextResource := c.nextResource + 1
    attempts := c.attempts ++ [(if page.gpu then .gpuUpload else .upload, true)]
    gpuBytes := if page.gpu then c.gpuBytes + c.pageSize else c.gpuBytes }

def move (c : Core) (i : ℕ) (place : PageList) : Core :=
  { c with pages := c.pages.modify i ({ · with place }) }

def delete (c : Core) (i : ℕ) (page : OwnedPage) : Core :=
  { c with
    pages := c.pages.eraseIdx i
    released := c.released ++ page.resource.toList
    gpuBytes := if page.gpu && !page.retained then c.gpuBytes - page.bytes else c.gpuBytes
    gone := if page.retained then c.gone ++ [page] else c.gone }

def retain (c : Core) : Core := { c with pages := c.pages.map retainPage }

/-- What a call does, step by step. -/
inductive Step : Core → Core → Prop
  | fail (c : Core) (heap : HeapType) (created : Bool)
      (h : heap = .gpuUpload → c.failed = false) : Step c (c.fail heap created)
  | publish (c : Core) (page : OwnedPage) (h : c.Publishable page) : Step c (c.publish page)
  | move (c : Core) (i : ℕ) (place : PageList) : Step c (c.move i place)
  | delete (c : Core) (i : ℕ) (page : OwnedPage) (h : c.pages[i]? = some page) :
      Step c (c.delete i page)
  | retain (c : Core) : Step c c.retain

/-- Any number of steps. -/
abbrev Steps := Relation.ReflTransGen Step

end Core

open BoltsRebuilt.GpuUploadPool.Core

/-- What the base class has after `CreatePageImplementation`. -/
def take : Pool × Created → Pool
  | (q, .page page) => { q with pages := q.pages ++ [page] }
  | (q, _) => q

/-- A mapped page is created, or the failure is noted. -/
theorem createMapped_cases (p : Pool) (heap : HeapType) (c : Creation) :
    (∃ created, p.createMapped heap c = (p.noteFailed heap created, none)) ∨
      ∃ mapping, p.createMapped heap c = (p.noteCreated heap, some (p.nextResource, mapping)) := by
  unfold createMapped
  split
  · exact .inr ⟨_, rfl⟩
  · exact .inl ⟨_, rfl⟩

/-- Creating an upload page is a sequence of steps of the pool's core. -/
theorem createUpload_steps (p : Pool) (place : PageList) (a : Answers) :
    Steps p.core (take (p.createUpload place a)).core := by
  unfold createUpload
  rcases createMapped_cases p .upload a.upload with ⟨created, heq⟩ | ⟨mapping, heq⟩
  · have hcore : (p.noteFailed .upload created).core = p.core.fail .upload created := by
      simp [noteFailed, core, Core.fail]
    have hstep := Step.fail p.core .upload created nofun
    rw [← hcore] at hstep
    rw [heq]
    cases a.logged <;> exact .single hstep
  · rw [heq]
    refine .single (.publish p.core ⟨place, some p.nextResource, some mapping,
      a.upload.gpuAddress, false, false, p.pageSize⟩ ⟨rfl, rfl, rfl, nofun⟩)

/-- So is creating a page on the upload heap, inside the budget and before any failure there. -/
theorem createGpu_steps {p : Pool} (hfailed : p.gpuUploadFailed = false)
    (hbudget : p.gpuBytes + p.pageSize ≤ p.gpuByteBudget) (place : PageList) (a : Answers) :
    Steps p.core (take (p.createGpu place a)).core := by
  unfold createGpu
  rcases createMapped_cases p .gpuUpload a.gpu with ⟨created, heq⟩ | ⟨mapping, heq⟩
  · rw [heq]
    dsimp only
    set q : Pool := { p.noteFailed .gpuUpload created with
      gpuUploadFailed := true
      stats := { (p.noteFailed .gpuUpload created).stats with
        creationFailures := (p.noteFailed .gpuUpload created).stats.creationFailures + 1 } } with hq
    have hcore : q.core = p.core.fail .gpuUpload created := by
      simp [hq, noteFailed, core, Core.fail]
    have hstep : Steps p.core q.core := by
      rw [hcore]
      exact .single (.fail p.core .gpuUpload created fun _ => hfailed)
    split
    · exact hstep.trans (createUpload_steps q place a)
    · exact hstep
  · rw [heq]
    exact .single (.publish p.core ⟨place, some p.nextResource, some mapping,
      a.gpu.gpuAddress, true, false, p.pageSize⟩ ⟨rfl, rfl, rfl, fun _ => ⟨hfailed, hbudget⟩⟩)

/-- So is creating a page by whichever path the switches choose. -/
theorem createPage_steps (p : Pool) (place : PageList) (a : Answers) :
    Steps p.core (take (p.createPage place a)).core := by
  unfold createPage
  dsimp only
  split_ifs with _ _ hgpu hbudget
  · exact .refl
  · exact .refl
  · rw [Bool.and_eq_true, Bool.not_eq_true'] at hgpu
    exact createGpu_steps hgpu.2 (of_decide_eq_true hbudget) place a
  · exact createUpload_steps
      { p with stats := { p.stats with budgetStops := p.stats.budgetStops + 1 } } place a
  · exact createUpload_steps p place a

/-- So is the upkeep of the page lists. -/
theorem upkeep_steps (p : Pool) (u : Upkeep) : Steps p.core (p.upkeep u).core := by
  cases u with
  | move i place => exact .single (.move p.core i place)
  | delete i =>
      show Steps p.core (p.deletePage i).core
      unfold deletePage
      split
      · exact .refl
      · rename_i page hpage
        exact .single (.delete p.core i page hpage)
  | offsets used flushed => exact .refl

/-- So is one action of a request. -/
theorem act_steps (p : Pool) (a : Action) : Steps p.core (p.act a).1.core := by
  cases a with
  | upkeep u => exact upkeep_steps p u
  | create place answers =>
      have hcreate := createPage_steps p place answers
      unfold act
      dsimp only
      split <;> rename_i heq <;> rw [heq] at hcreate <;> exact hcreate

/-- So are all actions of a request, one after the other, by induction on the script. -/
theorem run_steps (p : Pool) (actions : List Action) : Steps p.core (p.run actions).1.core := by
  induction actions generalizing p with
  | nil => exact .refl
  | cons a as ih =>
      have hact := act_steps p a
      rw [Pool.run]
      split <;> rename_i heq <;> rw [heq] at hact
      · exact hact
      · exact hact.trans (ih _)

/-- So is a request as a whole, refused or not. -/
theorem request_steps (p : Pool) (size : UInt64) (script : Script) (out : Outputs) :
    Steps p.core (p.request size script out).1.core := by
  unfold request
  split
  · exact .refl
  · have hrun := run_steps p script.actions
    dsimp only
    split
    · exact hrun
    · split <;> exact hrun

/-- So is reclaiming completed pages, whichever of them the fence has let go. -/
theorem reclaimCompleted_steps (p : Pool) (script : List Upkeep) :
    Steps p.core (p.reclaimCompleted script).core := by
  have hfold : ∀ q : Pool, Steps q.core (script.foldl Pool.upkeep q).core := by
    induction script with
    | nil => exact fun _ => .refl
    | cons u us ih => exact fun q => (upkeep_steps q u).trans (ih _)
  unfold reclaimCompleted
  split
  · exact .refl
  · exact hfold { p with stats := { p.stats with reclaims := p.stats.reclaims + 1 } }

/-- So is clearing the cache, which drops the pages that are in use by nobody. -/
theorem clearCache_steps (p : Pool) : Steps p.core p.clearCache.core := by
  have hfold : ∀ (pages : List OwnedPage) (q : Pool), Steps
      { q.core with pages } (pages.foldl destroyPage { q with pages := [] }).core := by
    intro pages
    induction pages with
    | nil => exact fun _ => .refl
    | cons page pages ih =>
        intro q
        have hdelete := Step.delete { q.core with pages := page :: pages } 0 page rfl
        exact (Relation.ReflTransGen.single hdelete).trans (ih (destroyPage q page))
  exact hfold p.pages p

/-- And so is a shutdown, with its completion proven or not. -/
theorem shutdownWith_steps (p : Pool) (completionProven : Bool) :
    Steps p.core (p.shutdownWith completionProven).core := by
  unfold shutdownWith
  split
  · exact .refl
  · dsimp only
    split
    · exact clearCache_steps { p with shutdown := true, requestsDisabled := true }
    · have hretain := Step.retain p.core
      exact (Relation.ReflTransGen.single hretain).trans (clearCache_steps
        (Pool.retain { p with shutdown := true, requestsDisabled := true }))

/-- **A call is steps**: every member function changes the core of the pool only by steps of it, so
what a step keeps every call keeps. -/
theorem call_steps (p : Pool) (c : Call) : Steps p.core (p.call c).core := by
  unfold Pool.call
  split
  · exact .refl
  · cases c with
    | request size script out => exact request_steps p size script out
    | reclaimCompleted script => exact reclaimCompleted_steps p script
    | shutdown completionProven => exact shutdownWith_steps p completionProven
    | destroy => exact (shutdownWith_steps p false).trans (clearCache_steps (p.shutdownWith false))

end GpuUploadPool
end BoltsRebuilt
