/-
# What the GPU-upload pool promises

`gpu/native/native_gpu_upload_pool.cpp`, the comments of the budget counter
(lines 20-28), of the failure latch (lines 147-149) and of `Shutdown` (lines
61-86), and `native_gpu_upload_pool.h`, lines 89-107.

`Sound` is the accounting: the counter against the pages alive and retained, the
resources each owned by one page, the attempts at video memory.  It is kept by
every step of `call_steps`, so by every run.  `Kept` follows one resource that no
page can release any more.  `Latched` follows the flags.
-/

import BoltsRebuilt.Constants.GpuUploadPool
import BoltsRebuilt.Lib.History
import BoltsRebuilt.Lib.Records
import Mathlib.Data.List.Nodup
import Mathlib.Data.List.Perm.Basic
import Mathlib.Order.Nat

namespace BoltsRebuilt
namespace GpuUploadPool

open BoltsRebuilt.GpuUploadPool.Pool BoltsRebuilt.GpuUploadPool.Core

/-! ### Accounting -/

namespace Core

variable {c c' : Core}

/-- How many pages in video memory are alive or retained. -/
def gpuCount (c : Core) : ℕ := c.pages.countP (·.gpu) + c.gone.countP (·.gpu)

/-- The bytes of `n` pages, in 64 bits. -/
def bytesOf (c : Core) (n : ℕ) : UInt64 := UInt64.ofNat (n * c.pageSize.toNat)

/-- No pages take no bytes. -/
theorem bytesOf_zero (c : Core) : c.bytesOf 0 = 0 := by simp [bytesOf]

/-- Each page adds the bytes of one page. -/
theorem bytesOf_succ (c : Core) (n : ℕ) : c.bytesOf (n + 1) = c.bytesOf n + c.pageSize := by
  rw [bytesOf, bytesOf, Nat.succ_mul, UInt64.ofNat_add, UInt64.ofNat_toNat]

/-- A page holds its resource, or it was detached. -/
def Holds (c : Core) (page : OwnedPage) : Prop :=
  page.retained = true ∧ page.resource = none ∨
    page.retained = false ∧ ∃ r, page.resource = some r ∧ r < c.nextResource ∧ r ∉ c.released

/-- No buffer in video memory is tried after one that failed. -/
def TriedOnce (attempts : List (HeapType × Bool)) : Prop :=
  ∀ before after, attempts = before ++ (.gpuUpload, false) :: after →
    ∀ a ∈ after, a.1 ≠ .gpuUpload

/-- What holds of the pages, the budget and the record in every run. -/
structure Sound (c : Core) : Prop where
  bytes : c.gpuBytes = c.bytesOf c.gpuCount
  budget : ∀ n ≤ c.gpuCount, c.bytesOf n ≤ c.budget
  pageBytes : ∀ page ∈ c.pages, page.bytes = c.pageSize
  holds : ∀ page ∈ c.pages, c.Holds page
  distinct : (c.pages.filterMap (·.resource)).Nodup
  old : ∀ r ∈ c.released, r < c.nextResource
  latched : (HeapType.gpuUpload, false) ∈ c.attempts → c.failed = true
  once : TriedOnce c.attempts

/-- One more attempt keeps the upload heap tried at most once after it failed, provided that attempt
is not another one at it. -/
theorem TriedOnce.concat {attempts : List (HeapType × Bool)} (h : TriedOnce attempts)
    {a : HeapType × Bool} (ha : (HeapType.gpuUpload, false) ∈ attempts → a.1 ≠ .gpuUpload) :
    TriedOnce (attempts ++ [a]) := by
  intro before after heq x hx
  rcases History.concat_eq_split heq with ⟨-, -, rfl⟩ | ⟨after', hattempts, rfl⟩
  · exact absurd hx List.not_mem_nil
  · rcases List.mem_append.1 hx with hold | hnew
    · exact h before after' hattempts x hold
    · obtain rfl := List.mem_singleton.1 hnew
      exact ha (by rw [hattempts]; simp)

/-- A new attempt for video memory is made only before the first failure. -/
theorem Sound.tried (h : c.Sound) {heap : HeapType} (hheap : heap = .gpuUpload → c.failed = false)
    (ok : Bool) : TriedOnce (c.attempts ++ [(heap, ok)]) := by
  refine h.once.concat fun hmem hgpu => ?_
  exact absurd ((hheap hgpu).symm.trans (h.latched hmem)) Bool.false_ne_true

/-- A failed creation is counted, and latches when it was the upload heap's. -/
theorem Sound.fail (h : c.Sound) {heap : HeapType} (created : Bool)
    (hheap : heap = .gpuUpload → c.failed = false) : (c.fail heap created).Sound := by
  have hnext : c.nextResource ≤ (c.fail heap created).nextResource := by
    cases created
    · exact le_rfl
    · exact Nat.le_succ _
  have hmem : ∀ r ∈ (c.fail heap created).released, r ∈ c.released ∨ created = true ∧ r = c.nextResource := by
    intro r hr
    cases created
    · exact .inl hr
    · rcases List.mem_append.1 hr with hold | hnew
      · exact .inl hold
      · exact .inr ⟨rfl, List.mem_singleton.1 hnew⟩
  constructor
  case bytes => exact h.bytes
  case budget => exact h.budget
  case pageBytes => exact h.pageBytes
  case holds =>
    intro page hpage
    rcases h.holds page hpage with hdetached | ⟨hret, r, hr, hlt, hnot⟩
    · exact .inl hdetached
    · refine .inr ⟨hret, r, hr, hlt.trans_le hnext, fun hin => ?_⟩
      rcases hmem r hin with hold | ⟨-, rfl⟩
      · exact hnot hold
      · exact lt_irrefl _ hlt
  case distinct => exact h.distinct
  case old =>
    intro r hr
    rcases hmem r hr with hold | ⟨rfl, rfl⟩
    · exact (h.old r hold).trans_le hnext
    · exact Nat.lt_succ_self _
  case latched =>
    intro hin
    show (c.failed || decide (heap = .gpuUpload)) = true
    rcases List.mem_append.1 hin with hold | hnew
    · rw [h.latched hold, Bool.true_or]
    · obtain rfl : HeapType.gpuUpload = heap := (Prod.mk.inj (List.mem_singleton.1 hnew)).1
      simp
  case once => exact h.tried hheap false

/-- Publishing a page that was mapped and fits the budget keeps the pool sound. -/
theorem Sound.publish (h : c.Sound) {page : OwnedPage} (hpage : c.Publishable page) :
    (c.publish page).Sound := by
  have hcount : (c.publish page).gpuCount = c.gpuCount + if page.gpu then 1 else 0 := by
    simp only [gpuCount, Core.publish, List.countP_append, List.countP_singleton]
    omega
  constructor
  case bytes =>
    rw [hcount]
    cases hgpu : page.gpu with
    | false =>
        show (if page.gpu then c.gpuBytes + c.pageSize else c.gpuBytes) = c.bytesOf c.gpuCount
        rw [hgpu]
        exact h.bytes
    | true =>
        show (if page.gpu then c.gpuBytes + c.pageSize else c.gpuBytes) = c.bytesOf (c.gpuCount + 1)
        rw [if_pos hgpu, h.bytes, bytesOf_succ]
  case budget =>
    intro n hn
    rw [hcount] at hn
    show c.bytesOf n ≤ c.budget
    cases hgpu : page.gpu with
    | false => exact h.budget n (by simpa [hgpu] using hn)
    | true =>
        rw [hgpu, if_pos rfl] at hn
        rcases Nat.lt_or_ge c.gpuCount n with hlt | hge
        · obtain rfl : n = c.gpuCount + 1 := by omega
          rw [bytesOf_succ, ← h.bytes]
          exact (hpage.gpu hgpu).2
        · exact h.budget n hge
  case pageBytes =>
    intro x hx
    rcases List.mem_append.1 hx with hold | hnew
    · exact h.pageBytes x hold
    · rw [List.mem_singleton.1 hnew]
      exact hpage.bytes
  case holds =>
    intro x hx
    rcases List.mem_append.1 hx with hold | hnew
    · rcases h.holds x hold with hdetached | ⟨hret, r, hr, hlt, hnot⟩
      · exact .inl hdetached
      · exact .inr ⟨hret, r, hr, Nat.lt_succ_of_lt hlt, hnot⟩
    · obtain rfl := List.mem_singleton.1 hnew
      exact .inr ⟨hpage.retained, c.nextResource, hpage.resource, Nat.lt_succ_self _,
        fun hin => lt_irrefl _ (h.old _ hin)⟩
  case distinct =>
    have hfresh : c.nextResource ∉ c.pages.filterMap (·.resource) := by
      intro hin
      obtain ⟨x, hx, hr⟩ := List.mem_filterMap.1 hin
      rcases h.holds x hx with ⟨-, hnone⟩ | ⟨-, r, hr', hlt, -⟩
      · exact absurd (hr.symm.trans hnone) nofun
      · obtain rfl : c.nextResource = r := Option.some.inj (hr.symm.trans hr')
        exact lt_irrefl _ hlt
    have hnodup := h.distinct.concat hfresh
    rw [List.concat_eq_append] at hnodup
    simpa [Core.publish, List.filterMap_append, hpage.resource] using hnodup
  case old => exact fun r hr => Nat.lt_succ_of_lt (h.old r hr)
  case latched =>
    intro hin
    rcases List.mem_append.1 hin with hold | hnew
    · exact h.latched hold
    · exact absurd (Prod.mk.inj (List.mem_singleton.1 hnew)).2 Bool.false_ne_true
  case once =>
    refine h.tried (fun hheap => (hpage.gpu ?_).1) true
    cases hgpu : page.gpu with
    | false => simp [hgpu] at hheap
    | true => rfl

/-- A page as far as accounting goes. -/
def key (page : OwnedPage) : Option ℕ × Bool × Bool × UInt64 :=
  (page.resource, page.gpu, page.retained, page.bytes)

/-- The same pages in other places are as sound as before: the account is about which pages there
are, not about the lists they stand in. -/
theorem Sound.of_keys (h : c.Sound) {pages : List OwnedPage}
    (hkeys : pages.map key = c.pages.map key) : Sound { c with pages } := by
  have hof : ∀ page ∈ pages, ∃ page' ∈ c.pages, key page' = key page := by
    intro page hpage
    have hmem : key page ∈ c.pages.map key := hkeys ▸ List.mem_map_of_mem hpage
    exact List.mem_map.1 hmem
  have hcount : gpuCount { c with pages } = c.gpuCount := by
    have hmap := congrArg (List.countP fun k => k.2.1) hkeys
    rw [List.countP_map, List.countP_map] at hmap
    show pages.countP (·.gpu) + _ = c.pages.countP (·.gpu) + _
    exact congrArg (· + c.gone.countP (·.gpu)) hmap
  constructor
  case bytes =>
    rw [hcount]
    exact h.bytes
  case budget =>
    rw [hcount]
    exact h.budget
  case pageBytes =>
    intro page hpage
    obtain ⟨page', hpage', hkey⟩ := hof page hpage
    have heq : page'.bytes = page.bytes := congrArg (fun k => k.2.2.2) hkey
    rw [← heq]
    exact h.pageBytes page' hpage'
  case holds =>
    intro page hpage
    obtain ⟨page', hpage', hkey⟩ := hof page hpage
    have hres : page'.resource = page.resource := congrArg Prod.fst hkey
    have hret : page'.retained = page.retained := congrArg (fun k => k.2.2.1) hkey
    have hholds := h.holds page' hpage'
    rw [Holds, hres, hret] at hholds
    exact hholds
  case distinct =>
    have hmap := congrArg (List.filterMap Prod.fst) hkeys
    rw [List.filterMap_map, List.filterMap_map] at hmap
    show (pages.filterMap (Prod.fst ∘ key)).Nodup
    rw [hmap]
    exact h.distinct
  case old => exact h.old
  case latched => exact h.latched
  case once => exact h.once

/-- Moving a page between the lists changes no count. -/
theorem Sound.move (h : c.Sound) (i : ℕ) (place : PageList) : (c.move i place).Sound :=
  h.of_keys (Records.map_modify_of_eq (u := fun page => { page with place }) (fun _ => rfl)
    c.pages i)

/-- Deleting a page gives its bytes back to the budget. -/
theorem Sound.delete (h : c.Sound) {i : ℕ} {page : OwnedPage} (hpage : c.pages[i]? = some page) :
    (c.delete i page).Sound := by
  obtain ⟨hi, hget⟩ := List.getElem?_eq_some_iff.1 hpage
  have hperm : (page :: c.pages.eraseIdx i).Perm c.pages := by
    have := List.getElem_cons_eraseIdx_perm hi
    rwa [hget] at this
  have hmem : page ∈ c.pages := hperm.subset (List.mem_cons_self ..)
  have hrest : ∀ x ∈ c.pages.eraseIdx i, x ∈ c.pages := fun x hx =>
    hperm.subset (List.mem_cons_of_mem _ hx)
  have hpages := hperm.countP_eq (·.gpu)
  rw [List.countP_cons] at hpages
  have hdistinct := (hperm.filterMap (·.resource)).nodup_iff.2 h.distinct
  -- a page that is gone is counted on only if it was retained
  have hcount : c.gpuCount =
      (c.delete i page).gpuCount + if page.gpu && !page.retained then 1 else 0 := by
    unfold gpuCount Core.delete
    rw [← hpages]
    cases hret : page.retained with
    | false =>
        simp only [Bool.false_eq_true, if_false, Bool.not_false, Bool.and_true]
        omega
    | true =>
        simp only [if_true, Bool.not_true, Bool.and_false, Bool.false_eq_true, if_false,
          List.countP_append, List.countP_singleton]
        omega
  constructor
  case bytes =>
    show (if page.gpu && !page.retained then c.gpuBytes - page.bytes else c.gpuBytes) =
      c.bytesOf (c.delete i page).gpuCount
    by_cases hlast : (page.gpu && !page.retained) = true
    · rw [if_pos hlast] at hcount ⊢
      rw [h.bytes, hcount, bytesOf_succ, h.pageBytes page hmem, UInt64.add_sub_cancel]
    · rw [if_neg hlast] at hcount ⊢
      rw [h.bytes, hcount, Nat.add_zero]
  case budget =>
    intro n hn
    exact h.budget n (by rw [hcount]; omega)
  case pageBytes => exact fun x hx => h.pageBytes x (hrest x hx)
  case holds =>
    intro x hx
    rcases h.holds x (hrest x hx) with hdetached | ⟨hret, r, hr, hlt, hnot⟩
    · exact .inl hdetached
    · refine .inr ⟨hret, r, hr, hlt, fun hin => ?_⟩
      rcases List.mem_append.1 hin with hold | hown
      · exact hnot hold
      · have hown' : page.resource = some r := by simpa using hown
        rw [List.filterMap_cons_some hown', List.nodup_cons] at hdistinct
        exact hdistinct.1 (List.mem_filterMap.2 ⟨x, hx, hr⟩)
  case distinct =>
    cases hres : page.resource with
    | none =>
        rw [List.filterMap_cons_none hres] at hdistinct
        exact hdistinct
    | some r =>
        rw [List.filterMap_cons_some hres] at hdistinct
        exact (List.nodup_cons.1 hdistinct).2
  case old =>
    intro r hr
    rcases List.mem_append.1 hr with hold | hown
    · exact h.old r hold
    · have hown' : page.resource = some r := by simpa using hown
      rcases h.holds page hmem with ⟨-, hnone⟩ | ⟨-, r', hr', hlt, -⟩
      · exact absurd (hown'.symm.trans hnone) nofun
      · obtain rfl : r = r' := Option.some.inj (hown'.symm.trans hr')
        exact hlt
  case latched => exact h.latched
  case once => exact h.once

/-- A retained page stays what it was, from the upload heap or not. -/
@[simp] theorem retainPage_gpu (page : OwnedPage) : (retainPage page).gpu = page.gpu := by
  unfold retainPage
  split <;> rfl

/-- A retained page keeps its size. -/
theorem retainPage_bytes (page : OwnedPage) : (retainPage page).bytes = page.bytes := by
  unfold retainPage
  split <;> rfl

/-- A retained page gives up its resource, which nothing releases any more. -/
theorem retainPage_resource (page : OwnedPage) : (retainPage page).resource = none := by
  unfold retainPage
  split
  · rfl
  · rename_i h
    exact Option.not_isSome_iff_eq_none.1 h

/-- Retaining every page at an unproven shutdown keeps the pool sound. -/
theorem Sound.retain (h : c.Sound) : c.retain.Sound := by
  have hcount : c.retain.gpuCount = c.gpuCount := by
    unfold gpuCount Core.retain
    rw [List.countP_map]
    exact congrArg (· + _) (List.countP_congr fun page _ => by simp)
  constructor
  case bytes =>
    rw [hcount]
    exact h.bytes
  case budget =>
    rw [hcount]
    exact h.budget
  case pageBytes =>
    intro page hpage
    obtain ⟨page', hpage', rfl⟩ := List.mem_map.1 hpage
    rw [retainPage_bytes]
    exact h.pageBytes page' hpage'
  case holds =>
    intro page hpage
    obtain ⟨page', hpage', rfl⟩ := List.mem_map.1 hpage
    refine .inl ⟨?_, retainPage_resource page'⟩
    rcases h.holds page' hpage' with ⟨hret, hnone⟩ | ⟨-, r, hr, -⟩
    · rw [retainPage, hnone]
      exact hret
    · rw [retainPage, hr]
      rfl
  case distinct =>
    have hnil : c.retain.pages.filterMap (·.resource) = [] := by
      rw [List.filterMap_eq_nil_iff]
      intro page hpage
      obtain ⟨page', -, rfl⟩ := List.mem_map.1 hpage
      exact retainPage_resource page'
    rw [hnil]
    exact .nil
  case old => exact h.old
  case latched => exact h.latched
  case once => exact h.once

/-- **Accounting.**  No step loses a byte or a resource. -/
theorem Sound.step (h : c.Sound) (hstep : Step c c') : c'.Sound := by
  cases hstep with
  | fail heap created hheap => exact h.fail created hheap
  | publish page hpage => exact h.publish hpage
  | move i place => exact h.move i place
  | delete i page hpage => exact h.delete hpage
  | retain => exact h.retain

/-- Any sequence of steps keeps the pool sound, by induction on the sequence. -/
theorem Sound.steps (h : c.Sound) (hsteps : Steps c c') : c'.Sound := by
  induction hsteps with
  | refl => exact h
  | tail _ hstep ih => exact ih.step hstep

/-- No step changes the size of a page or the budget. -/
theorem Steps.sizes (h : Steps c c') : c'.pageSize = c.pageSize ∧ c'.budget = c.budget := by
  induction h with
  | refl => exact ⟨rfl, rfl⟩
  | tail _ hstep ih => cases hstep <;> exact ih

/-- Resource `r` is not released and no page can release it. -/
structure Kept (r : ℕ) (c : Core) : Prop where
  old : r < c.nextResource
  unreleased : r ∉ c.released
  unowned : ∀ page ∈ c.pages, page.resource ≠ some r

/-- A resource that was retained is never released by a later step. -/
theorem Kept.step {r : ℕ} (h : Kept r c) (hstep : Step c c') : Kept r c' := by
  cases hstep with
  | fail heap created =>
      cases created with
      | false => exact ⟨h.old, h.unreleased, h.unowned⟩
      | true =>
          refine ⟨Nat.lt_succ_of_lt h.old, fun hin => ?_, h.unowned⟩
          rcases List.mem_append.1 hin with hold | hnew
          · exact h.unreleased hold
          · exact absurd (List.mem_singleton.1 hnew) (ne_of_lt h.old)
  | publish page hpage =>
      refine ⟨Nat.lt_succ_of_lt h.old, h.unreleased, fun x hx hr => ?_⟩
      rcases List.mem_append.1 hx with hold | hnew
      · exact h.unowned x hold hr
      · rw [List.mem_singleton.1 hnew, hpage.resource] at hr
        exact absurd (Option.some.inj hr).symm (ne_of_lt h.old)
  | move i place =>
      refine ⟨h.old, h.unreleased, fun x hx => ?_⟩
      have hkeys := Records.map_modify_of_eq (f := key) (u := fun page => { page with place })
        (fun _ => rfl) c.pages i
      have hmem : key x ∈ c.pages.map key := hkeys ▸ List.mem_map_of_mem hx
      obtain ⟨x', hx', hkey⟩ := List.mem_map.1 hmem
      rw [← show x'.resource = x.resource from congrArg Prod.fst hkey]
      exact h.unowned x' hx'
  | delete i page hpage =>
      have hmem : page ∈ c.pages := List.mem_of_getElem? hpage
      refine ⟨h.old, fun hin => ?_, fun x hx => h.unowned x (List.mem_of_mem_eraseIdx hx)⟩
      rcases List.mem_append.1 hin with hold | hown
      · exact h.unreleased hold
      · exact h.unowned page hmem (by simpa using hown)
  | retain =>
      refine ⟨h.old, h.unreleased, fun x hx hr => ?_⟩
      obtain ⟨x', -, rfl⟩ := List.mem_map.1 hx
      exact absurd ((retainPage_resource x').symm.trans hr) nofun

/-- Nor is it released by any sequence of steps. -/
theorem Kept.steps {r : ℕ} (h : Kept r c) (hsteps : Steps c c') : Kept r c' := by
  induction hsteps with
  | refl => exact h
  | tail _ hstep ih => exact ih.step hstep

/-- A resource a page owns is kept once it is detached. -/
theorem Sound.kept (h : c.Sound) {page : OwnedPage} (hpage : page ∈ c.pages) {r : ℕ}
    (hr : page.resource = some r) : Kept r c.retain := by
  rcases h.holds page hpage with ⟨-, hnone⟩ | ⟨-, r', hr', hlt, hnot⟩
  · exact absurd (hr.symm.trans hnone) nofun
  · obtain rfl : r = r' := Option.some.inj (hr.symm.trans hr')
    refine ⟨hlt, hnot, fun x hx hx' => ?_⟩
    obtain ⟨x', -, rfl⟩ := List.mem_map.1 hx
    exact absurd ((retainPage_resource x').symm.trans hx') nofun

/-- Where a page more than the budget is a 64-bit number, nothing wraps. -/
theorem Sound.toNat_gpuBytes (h : c.Sound) (hfits : c.pageSize.toNat + c.budget.toNat < 2 ^ 64) :
    c.gpuBytes.toNat = c.gpuCount * c.pageSize.toNat := by
  have hle : ∀ n ≤ c.gpuCount, n * c.pageSize.toNat ≤ c.budget.toNat := by
    intro n hn
    induction n with
    | zero => simp
    | succ n ih =>
        have hbudget := UInt64.le_iff_toNat_le.1 (h.budget (n + 1) hn)
        have hbelow := ih (Nat.le_of_succ_le hn)
        have hlt : (n + 1) * c.pageSize.toNat < 2 ^ 64 := by
          rw [Nat.succ_mul]
          omega
        rwa [bytesOf, UInt64.toNat_ofNat_of_lt' hlt] at hbudget
  have hall := hle c.gpuCount le_rfl
  rw [h.bytes, bytesOf, UInt64.toNat_ofNat_of_lt' (show _ < 2 ^ 64 by omega)]

end Core

/-! ### Latches -/

/-- What stops the pool. -/
def Pool.flags (p : Pool) : Bool × Bool × Bool := (p.shutdown, p.requestsDisabled, p.destroyed)

/-- Creating a mapped page leaves the switches alone. -/
theorem createMapped_flags (p : Pool) (heap : HeapType) (c : Creation) :
    (p.createMapped heap c).1.flags = p.flags := by
  rcases createMapped_cases p heap c with ⟨created, heq⟩ | ⟨mapping, heq⟩ <;> rw [heq] <;> rfl

/-- Creating an upload page leaves them alone. -/
theorem createUpload_flags (p : Pool) (place : PageList) (a : Answers) :
    (p.createUpload place a).1.flags = p.flags := by
  have hmapped := createMapped_flags p .upload a.upload
  unfold createUpload
  split <;> rename_i heq <;> rw [heq] at hmapped <;> exact hmapped

/-- Creating a page in the upload heap of the device leaves them alone, failing or not. -/
theorem createGpu_flags (p : Pool) (place : PageList) (a : Answers) :
    (p.createGpu place a).1.flags = p.flags := by
  have hmapped := createMapped_flags p .gpuUpload a.gpu
  unfold createGpu
  split <;> rename_i heq <;> rw [heq] at hmapped
  · exact hmapped
  · dsimp only
    split
    · exact (createUpload_flags _ place a).trans hmapped
    · exact hmapped

/-- Creating a page by either path leaves them alone. -/
theorem createPage_flags (p : Pool) (place : PageList) (a : Answers) :
    (p.createPage place a).1.flags = p.flags := by
  unfold createPage
  dsimp only
  split_ifs
  · rfl
  · rfl
  · exact createGpu_flags p place a
  · exact createUpload_flags _ place a
  · exact createUpload_flags p place a

/-- The upkeep of the page lists leaves them alone. -/
theorem upkeep_flags (p : Pool) (u : Upkeep) : (p.upkeep u).flags = p.flags := by
  cases u with
  | move i place => rfl
  | delete i =>
      show (p.deletePage i).flags = p.flags
      unfold deletePage
      split <;> rfl
  | offsets used flushed => rfl

/-- So does any sequence of actions on the pool. -/
theorem run_flags (p : Pool) (actions : List Action) : (p.run actions).1.flags = p.flags := by
  have hact : ∀ (q : Pool) (a : Action), (q.act a).1.flags = q.flags := by
    intro q a
    cases a with
    | upkeep u => exact upkeep_flags q u
    | create place answers =>
        have hcreate := createPage_flags q place answers
        unfold act
        dsimp only
        split <;> rename_i heq <;> rw [heq] at hcreate <;> exact hcreate
  induction actions generalizing p with
  | nil => rfl
  | cons a as ih =>
      have hfirst := hact p a
      rw [Pool.run]
      split <;> rename_i heq <;> rw [heq] at hfirst
      · exact hfirst
      · exact (ih _).trans hfirst

/-- Clearing the cache drops every page and leaves the switches alone. -/
theorem clearCache_flags (p : Pool) : p.clearCache.flags = p.flags ∧ p.clearCache.pages = [] := by
  have hfold : ∀ (pages : List OwnedPage) (q : Pool), q.pages = [] →
      (pages.foldl destroyPage q).flags = q.flags ∧ (pages.foldl destroyPage q).pages = [] := by
    intro pages
    induction pages with
    | nil => exact fun q hq => ⟨rfl, hq⟩
    | cons page pages ih => exact fun q hq => ih (destroyPage q page) hq
  exact hfold p.pages { p with pages := [] } rfl

/-- A request that is served leaves the flags, one that is not disables requests. -/
theorem request_flags (p : Pool) (size : UInt64) (script : Script) (out : Outputs) :
    ((p.request size script out).2.1 ≠ none ∧ (p.request size script out).1.flags = p.flags) ∨
      (p.request size script out).2 = (none, out) ∧
        (p.request size script out).1.flags = (p.shutdown, true, p.destroyed) := by
  unfold request
  split
  · exact .inr ⟨rfl, rfl⟩
  · have hrun := run_flags p script.actions
    simp only [flags, Prod.mk.injEq] at hrun
    obtain ⟨hshutdown, -, hdestroyed⟩ := hrun
    dsimp only
    split
    · exact .inl ⟨nofun, run_flags p script.actions⟩
    · refine .inr ⟨rfl, ?_⟩
      rw [← hshutdown, ← hdestroyed]
      split <;> rfl

/-- A pool whose requests are disabled refuses each one and changes nothing else. -/
theorem request_disabled {p : Pool} (h : p.requestsDisabled = true) (size : UInt64)
    (script : Script) (out : Outputs) : p.request size script out = (p.refuse, none, out) := by
  simp [request, h]

/-- A pool that was shut down serves nothing and has no pages. -/
structure Latched (p : Pool) : Prop where
  closed : p.shutdown = true → p.requestsDisabled = true ∧ p.pages = []
  dead : p.destroyed = true → p.shutdown = true

/-- A shutdown latches: the pool is shut down, requests are disabled and no page is left in it. -/
theorem shutdownWith_latched {p : Pool} (h : Latched p) (completionProven : Bool) :
    (p.shutdownWith completionProven).shutdown = true ∧
      (p.shutdownWith completionProven).requestsDisabled = true ∧
      (p.shutdownWith completionProven).pages = [] := by
  unfold shutdownWith
  split
  · rename_i hshutdown
    exact ⟨hshutdown, h.closed hshutdown⟩
  · dsimp only
    obtain ⟨hflags, hpages⟩ := clearCache_flags
      (if completionProven then { p with shutdown := true, requestsDisabled := true }
        else Pool.retain { p with shutdown := true, requestsDisabled := true })
    simp only [flags, Prod.mk.injEq] at hflags
    refine ⟨hflags.1.trans ?_, hflags.2.1.trans ?_, hpages⟩ <;> split <;> rfl

/-- Reclaiming completed pages leaves the switches alone. -/
theorem reclaimCompleted_flags (p : Pool) (script : List Upkeep) :
    (p.reclaimCompleted script).flags = p.flags := by
  have hfold : ∀ q : Pool, (script.foldl Pool.upkeep q).flags = q.flags := by
    induction script with
    | nil => exact fun _ => rfl
    | cons u us ih => exact fun q => (ih _).trans (upkeep_flags q u)
  unfold reclaimCompleted
  split
  · rfl
  · exact hfold _

/-- Every call keeps a latched pool latched, and disabled requests stay disabled. -/
theorem Latched.call {p : Pool} (h : Latched p) (c : Call) :
    Latched (p.call c) ∧ (p.requestsDisabled = true → (p.call c).requestsDisabled = true) := by
  unfold Pool.call
  split
  · exact ⟨h, id⟩
  · rename_i halive
    cases c with
    | request size script out =>
        by_cases hdisabled : p.requestsDisabled = true
        · dsimp only
          rw [request_disabled hdisabled]
          exact ⟨⟨fun hs => ⟨rfl, (h.closed hs).2⟩, h.dead⟩, fun _ => rfl⟩
        · have hopen : p.shutdown = false := by
            cases hs : p.shutdown with
            | false => rfl
            | true => exact absurd (h.closed hs).1 hdisabled
          have hdead : p.destroyed = false := Bool.eq_false_iff.2 halive
          refine ⟨?_, fun hd => absurd hd hdisabled⟩
          rcases request_flags p size script out with ⟨-, hflags⟩ | ⟨-, hflags⟩ <;>
            simp only [flags, Prod.mk.injEq, hopen, hdead] at hflags <;>
            exact ⟨fun hs => absurd (hflags.1.symm.trans hs) Bool.false_ne_true,
              fun hd => absurd (hflags.2.2.symm.trans hd) Bool.false_ne_true⟩
    | reclaimCompleted script =>
        have hflags := reclaimCompleted_flags p script
        simp only [flags, Prod.mk.injEq] at hflags
        obtain ⟨hshutdown, hdisabled, hdestroyed⟩ := hflags
        refine ⟨⟨fun hs => ?_, fun hd => ?_⟩, fun hd => hdisabled.trans hd⟩
        · have hs' : p.shutdown = true := hshutdown.symm.trans hs
          have hsame : p.reclaimCompleted script = p := if_pos hs'
          dsimp only
          rw [hsame]
          exact h.closed hs'
        · exact hshutdown.trans (h.dead (hdestroyed.symm.trans hd))
    | shutdown completionProven =>
        obtain ⟨hshutdown, hdisabled, hpages⟩ := shutdownWith_latched h completionProven
        exact ⟨⟨fun _ => ⟨hdisabled, hpages⟩, fun _ => hshutdown⟩, fun _ => hdisabled⟩
    | destroy =>
        obtain ⟨hshutdown, hdisabled, -⟩ := shutdownWith_latched h false
        obtain ⟨hflags, hpages⟩ := clearCache_flags (p.shutdownWith false)
        simp only [flags, Prod.mk.injEq] at hflags
        have hdisabled' : p.destroy.requestsDisabled = true := hflags.2.1.trans hdisabled
        exact ⟨⟨fun _ => ⟨hdisabled', hpages⟩, fun _ => hflags.1.trans hshutdown⟩,
          fun _ => hdisabled'⟩

/-! ### Runs -/

/-- A pool after some calls. -/
def after (device : Bool) (supported : Option Bool) (pageBytes gpuByteBudget : UInt64)
    (calls : List Call) : Pool :=
  calls.foldl Pool.call (construct device supported pageBytes gpuByteBudget)

/-- A request that is not served, or a shutdown. -/
def Latches (p : Pool) : Call → Prop
  | .request size script out => (p.request size script out).2.1 = none
  | .shutdown _ => True
  | _ => False

/-- A call that latches leaves the requests disabled, whatever the switches were before. -/
theorem Latches.disabled {p : Pool} (h : Latched p) {c : Call} (hc : Latches p c) :
    (p.call c).requestsDisabled = true := by
  unfold Pool.call
  split
  · rename_i hdead
    exact (h.closed (h.dead hdead)).1
  · cases c with
    | request size script out =>
        rcases request_flags p size script out with ⟨hserved, -⟩ | ⟨-, hflags⟩
        · exact absurd hc hserved
        · exact congrArg (fun f => f.2.1) hflags
    | reclaimCompleted script => exact hc.elim
    | shutdown completionProven => exact (shutdownWith_latched h completionProven).2.1
    | destroy => exact hc.elim

section Runs

variable (device : Bool) (supported : Option Bool) (pageBytes gpuByteBudget : UInt64)

/-- The state after a sequence of calls is that after its first part, followed by the rest. -/
theorem after_append (early later : List Call) :
    after device supported pageBytes gpuByteBudget (early ++ later) =
      later.foldl Pool.call (after device supported pageBytes gpuByteBudget early) :=
  List.foldl_append

/-- Any sequence of calls is a sequence of steps of the pool's core. -/
theorem foldl_call_steps (p : Pool) (calls : List Call) :
    Steps p.core (calls.foldl Pool.call p).core :=
  History.invariant (I := fun q : Pool => Steps p.core q.core)
    (fun q c h => h.trans (call_steps q c)) .refl calls

/-- The pool as constructed owns no pages and is sound. -/
theorem construct_sound : (construct device supported pageBytes gpuByteBudget).core.Sound := by
  constructor
  case bytes => exact (bytesOf_zero _).symm
  case budget =>
    intro n hn
    obtain rfl : n = 0 := Nat.le_zero.1 hn
    rw [bytesOf_zero]
    exact UInt64.le_iff_toNat_le.2 (Nat.zero_le _)
  case pageBytes => nofun
  case holds => nofun
  case distinct => exact .nil
  case old => nofun
  case latched => nofun
  case once =>
    intro before after h
    simp [core, construct] at h

/-- **The pool is sound after any sequence of calls.** -/
theorem after_sound (calls : List Call) :
    (after device supported pageBytes gpuByteBudget calls).core.Sound :=
  (construct_sound device supported pageBytes gpuByteBudget).steps (foldl_call_steps _ calls)

/-- And its switches are latched in the way the source intends. -/
theorem after_latched (calls : List Call) :
    Latched (after device supported pageBytes gpuByteBudget calls) := by
  have hconstruct : Latched (construct device supported pageBytes gpuByteBudget) := by
    constructor
    · exact fun h => absurd h Bool.false_ne_true
    · exact fun h => absurd h Bool.false_ne_true
  exact History.invariant (I := Latched) (fun _ c h => (h.call c).1) hconstruct calls

/-- Once requests are disabled they stay so through every later call. -/
theorem disabled_after {p : Pool} (h : Latched p) (hp : p.requestsDisabled = true)
    (calls : List Call) : (calls.foldl Pool.call p).requestsDisabled = true :=
  (History.invariant (I := fun q => Latched q ∧ q.requestsDisabled = true)
    (fun _ c hq => ⟨(hq.1.call c).1, (hq.1.call c).2 hq.2⟩) ⟨h, hp⟩ calls).2

/-- What a page owns when the pool is shut down without proof, or destroyed. -/
theorem call_kept {p : Pool} (h : Latched p) (hsound : p.core.Sound) {c : Call}
    (hc : c = .shutdown false ∨ c = .destroy) {page : OwnedPage} (hpage : page ∈ p.pages) {r : ℕ}
    (hr : page.resource = some r) : Kept r (p.call c).core := by
  have hopen : p.shutdown = false := by
    cases hs : p.shutdown with
    | false => rfl
    | true =>
        rw [(h.closed hs).2] at hpage
        exact absurd hpage List.not_mem_nil
  have halive : ¬ p.destroyed = true := fun hd =>
    Bool.false_ne_true (hopen.symm.trans (h.dead hd))
  have hkept : Kept r (p.shutdownWith false).core := by
    have hretain : Kept r p.core.retain := hsound.kept hpage hr
    have hclear := clearCache_steps
      (Pool.retain { p with shutdown := true, requestsDisabled := true })
    rw [shutdownWith, if_neg (by rw [hopen]; exact Bool.false_ne_true)]
    exact hretain.steps hclear
  unfold Pool.call
  rw [if_neg halive]
  rcases hc with rfl | rfl
  · exact hkept
  · exact hkept.steps (clearCache_steps (p.shutdownWith false))

/-- **The GPU-upload pool.**  Whatever is called in whatever order, and whatever the
device and the allocator answer: the bytes counted are the page size times the
pages in video memory that are alive or retained, in 64 bits and, where a page
more than the budget is still a 64-bit number, without wrapping, and within the
budget; after a buffer in video memory has failed no other is tried; after a
request that was not served, or a shutdown, no request is served or touches its
output arguments; and what the pages own at a shutdown without proof, or at the
destruction of a pool not shut down before, is never released. -/
theorem gpuUploadPool_sound :
    (∀ calls, let p := after device supported pageBytes gpuByteBudget calls;
      p.gpuBytes = UInt64.ofNat (p.core.gpuCount * p.pageSize.toNat) ∧
      p.gpuBytes ≤ gpuByteBudget ∧
      (p.pageSize.toNat + gpuByteBudget.toNat < 2 ^ 64 →
        p.gpuBytes.toNat = p.core.gpuCount * p.pageSize.toNat) ∧
      TriedOnce p.attempts) ∧
    (∀ early c later, Latches (after device supported pageBytes gpuByteBudget early) c →
      ∀ size script out,
        ((after device supported pageBytes gpuByteBudget (early ++ c :: later)).request size script
          out).2 = (none, out)) ∧
    (∀ early c later, c = .shutdown false ∨ c = .destroy →
      ∀ page ∈ (after device supported pageBytes gpuByteBudget early).pages, ∀ r,
        page.resource = some r →
          r ∉ (after device supported pageBytes gpuByteBudget (early ++ c :: later)).released) := by
  refine ⟨fun calls => ?_, fun early c later hc size script out => ?_, ?_⟩
  · have hsound := after_sound device supported pageBytes gpuByteBudget calls
    have hbudget : (after device supported pageBytes gpuByteBudget calls).gpuByteBudget =
        gpuByteBudget := (Steps.sizes (foldl_call_steps (construct device supported pageBytes
          gpuByteBudget) calls)).2
    have hwithin := hsound.budget _ le_rfl
    rw [← hsound.bytes] at hwithin
    refine ⟨hsound.bytes, hwithin.trans_eq hbudget, fun hfits => hsound.toNat_gpuBytes ?_,
      hsound.once⟩
    rwa [show Core.budget _ = gpuByteBudget from hbudget]
  · have hlatched := after_latched device supported pageBytes gpuByteBudget early
    have hdisabled := disabled_after (hlatched.call c).1 (hc.disabled hlatched) later
    rw [after_append]
    exact congrArg Prod.snd (request_disabled hdisabled size script out)
  · intro early c later hc page hpage r hr
    have hkept := call_kept (after_latched device supported pageBytes gpuByteBudget early)
      (after_sound device supported pageBytes gpuByteBudget early) hc hpage hr
    rw [after_append]
    exact (hkept.steps (foldl_call_steps _ later)).unreleased

end Runs

/-- A buffer that is created and mapped. -/
def mappedAt (address : UInt64) : Creation := ⟨true, some address, address⟩

/-- One page in video memory, and a slice of it. -/
def onePage : Call :=
  .request 208 ⟨[.create .writable ⟨true, mappedAt 4096, true, mappedAt 8192, true⟩], some (0, 0)⟩
    ⟨some none, some 0, some 0⟩

/-- The hypotheses are satisfiable: a page mapped on the upload heap, retained by an unproven
shutdown, and never released by what follows. -/
theorem gpuUploadPool_sound_onePage :
    (0 : ℕ) ∉ (after true (some true) 65536 65536
      ([onePage] ++ .shutdown false :: [.shutdown true, .destroy])).released :=
  (gpuUploadPool_sound true (some true) 65536 65536).2.2 [onePage] (.shutdown false)
    [.shutdown true, .destroy] (.inl rfl)
    ⟨.writable, some 0, some 4096, 4096, true, false, 65536⟩ (by decide +kernel) 0 rfl

end GpuUploadPool
end BoltsRebuilt
