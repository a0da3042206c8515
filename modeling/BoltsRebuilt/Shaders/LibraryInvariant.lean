/-
# What holds of the shader library after every history

src/src/gpu/native/native_shader_library.cpp: `ShaderKey` (line 83), `PairKey` (lines
85-87) and everything that changes a library, one lemma for each.

A compiled form is a compile of its own shader's source for that shader's stage
(`VariantOk`); a stored pair was built of what lay under the keys of two hashes
(`BuiltFor`); what the memo points to is a stored pair.  The fold of `PairKey` has
collisions, but no pair made for other hashes passes the comparison the fast paths make:
the hashes it was made for could only be complements of those asked for, and the fold
tells these apart (`pairKey_of_complements`).
-/

import BoltsRebuilt.Shaders.Library
import BoltsRebuilt.Lib.History
import Mathlib.Tactic.IntervalCases

namespace BoltsRebuilt
namespace Sidecar

/-- No key of a sidecar changes the stage, which the file's name has set. -/
theorem Parse.handle_vertex {p q : Parse} {key value : List Char} (h : p.handle key value = some q) :
    q.shader.vertex = p.shader.vertex := by
  unfold Parse.handle at h
  split at h
  · cases h; rfl
  split at h
  · cases h; rfl
  split at h
  · split at h
    · cases h; rfl
    · cases h
  split at h
  · split at h
    · cases h; rfl
    · cases h
  split at h
  · cases h; rfl
  split at h
  · cases h; rfl
  split at h
  · split at h
    · cases h
    · obtain ⟨dimensions, -, h⟩ := Option.bind_eq_some_iff.1 h
      cases h; rfl
  split at h
  · obtain ⟨streams, -, h⟩ := Option.bind_eq_some_iff.1 h
    cases h; rfl
  · cases h; rfl

/-- No line of a sidecar changes the stage, a comment or an unknown key included. -/
theorem Parse.line_vertex {p q : Parse} {line : List Char} (h : p.line line = some q) :
    q.shader.vertex = p.shader.vertex := by
  unfold Parse.line at h
  dsimp only at h
  split at h
  · cases h; rfl
  · split at h
    · cases h; rfl
    · exact (Parse.handle_vertex h).trans rfl

/-- Nor do all lines of it, one after the other. -/
theorem Parse.lines_vertex {p q : Parse} {lines : List (List Char)}
    (h : lines.foldlM Parse.line p = some q) : q.shader.vertex = p.shader.vertex := by
  induction lines generalizing p with
  | nil => cases h; rfl
  | cons line lines ih =>
      rw [List.foldlM_cons] at h
      obtain ⟨p', hline, h⟩ := Option.bind_eq_some_iff.1 h
      rw [ih h, Parse.line_vertex hline]

/-- A finished sidecar has the stage it started with, and only a pixel shader may be eligible for
the variant without alpha test. -/
theorem Parse.finish_vertex {p : Parse} {s : StageShader} (h : p.finish = some s) :
    s.vertex = p.shader.vertex ∧ (s.noAlphaTestEligible = true → s.vertex = false) := by
  unfold Parse.finish at h
  simp only [Option.ite_none_left_eq_some] at h
  obtain ⟨-, -, -, h⟩ := h
  cases h
  refine ⟨rfl, fun heligible => ?_⟩
  simp only [Bool.and_eq_true, Bool.not_eq_true'] at heligible
  exact heligible.1

/-- `ParseMeta` keeps the stage the file's name gives, and only a pixel shader is eligible for the
form without the alpha test. -/
theorem parseMeta_vertex {vertex : Bool} {text : List Char} {s : StageShader}
    (h : parseMeta vertex text = some s) :
    s.vertex = vertex ∧ (s.noAlphaTestEligible = true → s.vertex = false) := by
  obtain ⟨p, hlines, hfinish⟩ := Option.bind_eq_some_iff.1 h
  obtain ⟨hvertex, heligible⟩ := Parse.finish_vertex hfinish
  exact ⟨hvertex.trans (Parse.lines_vertex hlines), heligible⟩

end Sidecar

namespace ShaderLibrary

open Shaders

/-! ### Keys -/

/-- Three low bits of a folded key tell hashes from their complements. -/
theorem fold_low_bits (w q t : BitVec 3) :
    w ^^^ ~~~q * 5 ^^^ ~~~t ≠ w ^^^ q * 5 ^^^ t ∧ ~~~w ^^^ q * 5 ^^^ t ≠ w ^^^ q * 5 ^^^ t ∧
      ~~~w ^^^ ~~~q * 5 ^^^ ~~~t ≠ w ^^^ q * 5 ^^^ t := by
  revert w q t
  decide +kernel

/-- The low three bits of a pair's key, on which two keys of complementary hashes differ. -/
theorem pairKey_low_bits (v p : BitVec 64) :
    (pairKey v p).setWidth 3 =
      v.setWidth 3 ^^^ p.setWidth 3 * 5 ^^^ (p >>> 29).setWidth 3 := by
  rw [pairKey, BitVec.setWidth_xor, BitVec.setWidth_xor, BitVec.setWidth_mul _ _ (by omega)]
  rfl

/-- The fold of two hashes is not that of their complements. -/
theorem pairKey_of_complements {v v' p p' : BitVec 64} (hv : v' = v ∨ v' = ~~~v)
    (hp : p' = p ∨ p' = ~~~p) (h : pairKey v' p' = pairKey v p) : v' = v ∧ p' = p := by
  have hlow := congrArg (BitVec.setWidth 3) h
  rw [pairKey_low_bits, pairKey_low_bits] at hlow
  have hnot : ∀ x : BitVec 64, (~~~x).setWidth 3 = ~~~x.setWidth 3 := fun x =>
    BitVec.setWidth_not (by omega)
  have hshift : (~~~p >>> 29).setWidth 3 = ~~~(p >>> 29).setWidth 3 := by
    apply BitVec.eq_of_getLsbD_eq
    intro i hi
    interval_cases i <;> simp
  have hbits := fold_low_bits (v.setWidth 3) (p.setWidth 3) ((p >>> 29).setWidth 3)
  rcases hv with rfl | rfl <;> rcases hp with rfl | rfl
  · exact ⟨rfl, rfl⟩
  · rw [hshift, hnot] at hlow
    exact absurd hlow hbits.1
  · rw [hnot] at hlow
    exact absurd hlow hbits.2.1
  · rw [hshift, hnot, hnot] at hlow
    exact absurd hlow hbits.2.2

/-- Two shaders share a key exactly where the stage and the hash are equal or where the stages
differ and the hashes are complementary. -/
theorem eq_of_shaderKey_eq {h h' : BitVec 64} {vertex vertex' : Bool}
    (hkey : shaderKey h vertex = shaderKey h' vertex') :
    vertex = vertex' ∧ h = h' ∨ vertex ≠ vertex' ∧ h = ~~~h' := by
  cases vertex <;> cases vertex'
  · exact .inl ⟨rfl, BitVec.not_inj.1 hkey⟩
  · exact .inr ⟨nofun, by rw [← BitVec.not_not (b := h)]; exact congrArg _ hkey⟩
  · exact .inr ⟨nofun, hkey⟩
  · exact .inl ⟨rfl, hkey⟩

/-! ### What a load fixes -/

/-- The part of a library only `Load` changes. -/
structure Shelf where
  directory : List Char
  effectiveSamplers : Bool
  directGuestReads : Bool
  shaders : BitVec 64 → Option StageShader
  loads : ℕ

def Library.shelf (lib : Library) : Shelf :=
  ⟨lib.directory, lib.effectiveSamplers, lib.directGuestReads, lib.shaders, lib.loads⟩

/-- The name a form of a shader is compiled under. -/
def formName (s : StageShader) (alphaTest : Bool) : List Char :=
  if alphaTest then s.stem else s.stem ++ "_noalphatest".toList

/-- `b` is a compile of the shader's own source, for its own stage. -/
def IsForm (host : Host) (shelf : Shelf) (s : StageShader) (interpolators : ℕ) (alphaTest : Bool)
    (b : Blob) : Prop :=
  ∃ source, host.compileShader (shelf.directory ++ '/' :: s.stem ++ ".hlsl".toList)
    (formName s alphaTest) source s.vertex (if s.vertex then interpolators else 0) s.packedConstants
    shelf.effectiveSamplers shelf.directGuestReads alphaTest true = some b

/-- Every shader is stored under its own key, and only pixel shaders are eligible for the other
form. -/
def Shelf.Ok (shelf : Shelf) : Prop :=
  ∀ k s, shelf.shaders k = some s →
    k = shaderKey s.hash s.vertex ∧ (s.noAlphaTestEligible = true → s.vertex = false)

/-- The form the variant with a key is. -/
def formAlphaTest (s : StageShader) (key : ℕ) : Bool := s.vertex || key ≠ noAlphaTestKey

/-- What is known of the variant a pointer points to. -/
structure VariantOk (host : Host) (shelf : Shelf) (a : VariantPtr) (s : StageShader) (v : Variant) :
    Prop where
  job : ∀ job, v.compile = some job → ∀ compiled, job.result = some (some compiled) →
    ∀ b, compiled.blob = some b → IsForm host shelf s a.key (formAlphaTest s a.key) b
  running : ∀ job, v.compile = some job → job.result = none →
    ∀ file compiles b, (job.run host file compiles).blob = some b →
      IsForm host shelf s a.key (formAlphaTest s a.key) b
  blob : ∀ b, v.blob = some b → IsForm host shelf s a.key (formAlphaTest s a.key) b
  ready : v.state = .ready → v.blob.isSome

/-- A pair built for two hashes: the entries under their keys, and a blob of each. -/
structure BuiltFor (host : Host) (shelf : Shelf) (vsHash psHash : BitVec 64) (pair : Pair) : Prop where
  vs_key : pair.vs.key = shaderKey vsHash true
  vs_stored : shelf.shaders pair.vs.key = some pair.vs.shader
  vs_blob : ∃ b, pair.pass.vs = some b ∧ IsForm host shelf pair.vs.shader
    (pairInterpolators pair.vs.shader (pair.ps.map ShaderPtr.shader)) true b
  ps_none : pair.ps = none → psHash = 0 ∧ pair.pass.ps = none
  ps_some : ∀ ps, pair.ps = some ps → psHash ≠ 0 ∧ ps.key = shaderKey psHash false ∧
    shelf.shaders ps.key = some ps.shader ∧
    ∃ b, pair.pass.ps = some b ∧ IsForm host shelf ps.shader 0 true b
  other_blob : ∀ b, pair.pass.psNoAlphaTest = some b →
    ∃ ps, pair.ps = some ps ∧ IsForm host shelf ps.shader noAlphaTestKey false b
  other_variant : ∀ a, pair.noAlphaTest = some a →
    ∃ ps, pair.ps = some ps ∧ a = ⟨ps.key, noAlphaTestKey⟩ ∧ ps.shader.vertex = false

/-- What holds of a library after every history. -/
structure Invariant (host : Host) (lib : Library) : Prop where
  shelf : lib.shelf.Ok
  variants : ∀ a v, lib.variants a = some v →
    ∃ s, lib.shaders a.shader = some s ∧ VariantOk host lib.shelf a s v
  pairs : ∀ k pair, lib.pairs k = some pair →
    ∃ vsHash psHash, k = pairKey vsHash psHash ∧ BuiltFor host lib.shelf vsHash psHash pair
  memo : ∀ e, lib.readyPairMemo = some e → e.pair.load = lib.loads ∧
    e.pair.key = pairKey e.vertexHash e.pixelHash ∧ (lib.pairs e.pair.key).isSome

/-! ### Loading -/

/-- The shader of a file keeps the file's stem, and its stage is the one the stem's prefix names. -/
theorem File.shader_ok {file : File} {s : StageShader} (h : file.shader = some s) :
    s.stem = file.stem ∧ s.vertex = "vs_".toList.isPrefixOf file.stem ∧
      (s.noAlphaTestEligible = true → s.vertex = false) := by
  unfold File.shader at h
  simp only [Option.ite_none_left_eq_some] at h
  obtain ⟨-, -, h⟩ := h
  obtain ⟨text, -, h⟩ := Option.bind_eq_some_iff.1 h
  obtain ⟨parsed, hparsed, h⟩ := Option.bind_eq_some_iff.1 h
  cases h
  obtain ⟨hvertex, heligible⟩ := Sidecar.parseMeta_vertex hparsed
  exact ⟨rfl, hvertex, heligible⟩

/-- What the insertions store is one of the shaders inserted, under its key. -/
theorem foldl_insertShader {shaders : List StageShader} {m : BitVec 64 → Option StageShader}
    {k : BitVec 64} {s : StageShader} (h : shaders.foldl insertShader m k = some s) :
    m k = some s ∨ s ∈ shaders ∧ k = shaderKey s.hash s.vertex := by
  induction shaders generalizing m with
  | nil => exact .inl h
  | cons t shaders ih =>
      rcases ih h with hm | ⟨hmem, hk⟩
      · unfold insertShader at hm
        rcases eq_or_ne k (shaderKey t.hash t.vertex) with hkt | hkt
        · rw [hkt, Function.update_self] at hm
          cases hm
          exact .inr ⟨List.mem_cons_self .., hkt⟩
        · rw [Function.update_of_ne hkt] at hm
          exact .inl hm
      · exact .inr ⟨List.mem_cons_of_mem _ hmem, hk⟩

/-- What a load stores was read from a file of the directory. -/
theorem load_shaders {lib : Library} {r : LoadRequest} {k : BitVec 64} {s : StageShader}
    (h : (load lib r).shaders k = some s) :
    k = shaderKey s.hash s.vertex ∧ ∃ file ∈ r.listing.getD [], file.shader = some s := by
  have hstored : ((r.listing.getD []).filterMap File.shader).foldl insertShader (fun _ => none) k =
      some s := h
  rcases foldl_insertShader hstored with hnone | ⟨hmem, hk⟩
  · exact absurd hnone (Option.some_ne_none s).symm
  · exact ⟨hk, List.mem_filterMap.1 hmem⟩

/-- A library with shaders and nothing else satisfies the invariant. -/
theorem Invariant.of_shelf {host : Host} {lib : Library} (hshelf : lib.shelf.Ok)
    (hvariants : lib.variants = fun _ => none) (hpairs : lib.pairs = fun _ => none)
    (hmemo : lib.readyPairMemo = none) : Invariant host lib where
  shelf := hshelf
  variants a v h := by
    rw [hvariants] at h
    cases h
  pairs k pair h := by
    rw [hpairs] at h
    cases h
  memo e h := by
    rw [hmemo] at h
    cases h

/-- Loading a directory establishes the invariant whatever the library held, since a load replaces
all of it. -/
theorem load_invariant (host : Host) (lib : Library) (r : LoadRequest) :
    Invariant host (load lib r) := by
  refine .of_shelf (fun k s h => ?_) rfl rfl rfl
  obtain ⟨hk, file, -, hfile⟩ := @load_shaders lib r k s h
  exact ⟨hk, (File.shader_ok hfile).2.2⟩

/-- The empty library satisfies the invariant. -/
theorem init_invariant (host : Host) : Invariant host {} :=
  .of_shelf nofun rfl rfl rfl

/-! ### Compiling -/

section Variants

variable {host : Host} {lib lib' : Library} {a : VariantPtr} {s : StageShader} {v : Variant}

/-- A blob that was compiled is the one the compiler gives for its source: whether it compiles is
the compiler's answer, not the library's. -/
theorem compileShader_compiles {path name hlsl : List Char} {vertex : Bool} {interpolators constants : ℕ}
    {effective direct alphaTest compiles : Bool} {b : Blob}
    (h : host.compileShader path name hlsl vertex interpolators constants effective direct alphaTest
      compiles = some b) :
    host.compileShader path name hlsl vertex interpolators constants effective direct alphaTest true =
      some b := by
  cases compiles with
  | true => exact h
  | false =>
      unfold Host.compileShader at h
      dsimp only at h
      split at h <;> cases h

/-- A job that ends with a blob compiled the text it found, under the options it was queued with. -/
theorem Job.run_blob {job : Job} {file : Option (List Char)} {compiles : Bool} {b : Blob}
    (h : (job.run host file compiles).blob = some b) :
    ∃ source, host.compileShader job.path job.name source job.vertex job.interpolators job.packed
      job.effectiveSamplers job.directGuestReads job.alphaTest true = some b := by
  unfold Job.run at h
  split at h
  · cases h
  next source _ =>
    dsimp only at h
    generalize (if job.hashSource = true ∨ ¬job.alphaTest = true then host.hash source else 0) =
      sourceHash at h
    split at h
    · cases h
    · exact ⟨source, compileShader_compiles h⟩

/-- A variant whose job has ended keeps its right when the result is taken over. -/
theorem VariantOk.finish {shelf : Shelf} {result : Option Compiled} (h : VariantOk host shelf a s v)
    (hended : v.ended = some result) : VariantOk host shelf a s (v.finish result) := by
  obtain ⟨job, hjob, hresult⟩ := Option.bind_eq_some_iff.1 hended
  cases result with
  | none => exact ⟨nofun, nofun, nofun, nofun⟩
  | some compiled =>
      refine ⟨nofun, nofun, fun b hb => h.job job hjob compiled hresult b hb, fun hready => ?_⟩
      by_contra hblob
      have hstate : (v.finish (some compiled)).state = .failed := if_neg hblob
      rw [hstate] at hready
      cases hready

/-- A variant keeps its right when its own job, or another's, ends. -/
theorem VariantOk.jobEnds {shelf : Shelf} (h : VariantOk host shelf a s v) (outcome : Outcome) :
    VariantOk host shelf a s (v.jobEnds host outcome) := by
  unfold Variant.jobEnds
  split
  · exact h
  next job hjob =>
    split
    · exact h
    next hresult =>
      have hnone : job.result = none := Option.not_isSome_iff_eq_none.1 hresult
      refine ⟨fun j hj compiled hcompiled b hb => ?_, fun j hj hrunning => ?_, h.blob, h.ready⟩
      · cases hj
        cases outcome with
        | returns file compiles =>
            cases hcompiled
            exact h.running job hjob hnone file compiles b hb
        | throws => cases hcompiled
      · cases hj
        cases hrunning

/-- The invariant does not look at the list of running compiles. -/
theorem Invariant.of_variant (h : Invariant host lib) (hshelf : lib'.shelf = lib.shelf)
    (hvariants : lib'.variants = Function.update lib.variants a (some v))
    (hpairs : lib'.pairs = lib.pairs) (hmemo : lib'.readyPairMemo = lib.readyPairMemo)
    (hs : lib.shaders a.shader = some s) (hv : VariantOk host lib.shelf a s v) :
    Invariant host lib' := by
  have hshaders : lib'.shaders = lib.shaders := congrArg Shelf.shaders hshelf
  have hloads : lib'.loads = lib.loads := congrArg Shelf.loads hshelf
  refine ⟨hshelf ▸ h.shelf, fun a' v' hv' => ?_, ?_, ?_⟩
  · rw [hvariants] at hv'
    rw [hshelf, hshaders]
    rcases eq_or_ne a' a with rfl | ha
    · rw [Function.update_self] at hv'
      cases hv'
      exact ⟨s, hs, hv⟩
    · rw [Function.update_of_ne ha] at hv'
      exact h.variants a' v' hv'
  · rw [hpairs, hshelf]
    exact h.pairs
  · rw [hmemo, hpairs, hloads]
    exact h.memo

/-- A job ending on the compile thread keeps the invariant. -/
theorem jobEnds_invariant (h : Invariant host lib) (a : VariantPtr) (outcome : Outcome) :
    Invariant host (jobEnds host lib a outcome) := by
  unfold jobEnds
  split
  · exact h
  next v hv =>
    obtain ⟨s, hs, hok⟩ := h.variants a v hv
    exact h.of_variant rfl rfl rfl rfl hs (hok.jobEnds outcome)

/-- What collecting and starting compiles leaves as it is. -/
structure Kept (lib lib' : Library) : Prop where
  shelf : lib'.shelf = lib.shelf
  pairs : lib'.pairs = lib.pairs
  memo : lib'.readyPairMemo = lib.readyPairMemo
  filters : lib'.filters = lib.filters
  excludes : lib'.excludes = lib.excludes

/-- Doing nothing keeps the shelf, the pairs and the memo. -/
theorem Kept.refl (lib : Library) : Kept lib lib := ⟨rfl, rfl, rfl, rfl, rfl⟩

/-- What two steps keep, both together keep. -/
theorem Kept.trans {lib'' : Library} (h : Kept lib lib') (h' : Kept lib' lib'') : Kept lib lib'' :=
  ⟨h'.shelf.trans h.shelf, h'.pairs.trans h.pairs, h'.memo.trans h.memo, h'.filters.trans h.filters,
    h'.excludes.trans h.excludes⟩

/-- A step that keeps the shelf keeps the shaders. -/
theorem Kept.shaders (h : Kept lib lib') : lib'.shaders = lib.shaders := congrArg Shelf.shaders h.shelf

/-- A step that keeps the shelf keeps the number of loads. -/
theorem Kept.loads (h : Kept lib lib') : lib'.loads = lib.loads := congrArg Shelf.loads h.shelf

/-- Reaping one finished compile keeps the shelf, the pairs and the memo. -/
theorem reapOne_kept (lib : Library) (i : ℕ) : Kept lib (reapOne lib i).1 := by
  unfold reapOne
  split
  · exact .refl lib
  split
  · exact .refl lib
  split
  · exact .refl lib
  · exact ⟨rfl, rfl, rfl, rfl, rfl⟩

/-- Reaping one finished compile keeps the invariant. -/
theorem reapOne_invariant (h : Invariant host lib) (i : ℕ) : Invariant host (reapOne lib i).1 := by
  unfold reapOne
  split
  · exact h
  next a ha =>
    split
    · exact h
    next v hv =>
      split
      · exact h
      next result hresult =>
        obtain ⟨s, hs, hok⟩ := h.variants a v hv
        exact h.of_variant rfl rfl rfl rfl hs (hok.finish hresult)

/-- The reaping loop, by induction on the compiles it still has to look at. -/
theorem reapLoop_spec (n : ℕ) (h : Invariant host lib) (i : ℕ) :
    Kept lib (reapLoop n lib i) ∧ Invariant host (reapLoop n lib i) := by
  induction n generalizing lib i with
  | zero => exact ⟨.refl lib, h⟩
  | succ n ih =>
      obtain ⟨hkept, hinv⟩ := ih (reapOne_invariant h i) (reapOne lib i).2
      exact ⟨(reapOne_kept lib i).trans hkept, hinv⟩

/-- `ReapCompiles` keeps what is on the shelf and the invariant. -/
theorem reapCompiles_spec (h : Invariant host lib) :
    Kept lib (reapCompiles lib) ∧ Invariant host (reapCompiles lib) :=
  reapLoop_spec _ h 0

/-- A vertex shader is only asked for with its alpha test. -/
theorem formAlphaTest_variantKey {interpolators : ℕ} {alphaTest : Bool}
    (h : s.vertex = true → alphaTest = true) :
    formAlphaTest s (variantKey s interpolators alphaTest) = alphaTest := by
  unfold formAlphaTest variantKey
  cases hvertex : s.vertex with
  | true => exact (h hvertex).symm
  | false => cases alphaTest <;> rfl

/-- The compile that is started makes the form the variant is for. -/
theorem startedJob_ok {p : ShaderPtr} {interpolators : ℕ} {alphaTest asyncReads : Bool}
    {source : List Char} (hstage : p.shader.vertex = true → alphaTest = true) :
    VariantOk host lib.shelf ⟨p.key, variantKey p.shader interpolators alphaTest⟩ p.shader
      { state := .compiling
        compile := some (startedJob lib p interpolators alphaTest asyncReads source)
        noAlphaTest := !alphaTest } := by
  refine ⟨fun job hjob compiled hresult => ?_, fun job hjob _ file compiles b hb => ?_, nofun, nofun⟩
  · cases hjob
    cases hresult
  · cases hjob
    obtain ⟨source', hsource⟩ := Job.run_blob hb
    have hinterpolators : (if p.shader.vertex then variantKey p.shader interpolators alphaTest else 0) =
        if p.shader.vertex then interpolators else 0 := by
      unfold variantKey
      cases p.shader.vertex <;> rfl
    refine ⟨source', ?_⟩
    rw [formAlphaTest_variantKey hstage, hinterpolators]
    exact hsource

/-- `EnsureCompiled` queues the variant that was asked for, compiles it at once or finds it there,
and keeps the invariant in each case. -/
theorem ensureCompiled_spec {around : Surroundings} {p : ShaderPtr} {interpolators : ℕ}
    {alphaTest : Bool} (h : Invariant host lib) (hp : lib.shaders p.key = some p.shader)
    (hstage : p.shader.vertex = true → alphaTest = true) :
    Kept lib (ensureCompiled host around lib p interpolators alphaTest).2 ∧
      Invariant host (ensureCompiled host around lib p interpolators alphaTest).2 := by
  unfold ensureCompiled
  dsimp only
  split
  · exact ⟨.refl lib, h⟩
  split
  · exact ⟨.refl lib, h⟩
  split
  · refine ⟨⟨rfl, rfl, rfl, rfl, rfl⟩, h.of_variant rfl rfl rfl rfl hp ?_⟩
    exact ⟨nofun, nofun, nofun, nofun⟩
  next source _ =>
    exact ⟨⟨rfl, rfl, rfl, rfl, rfl⟩, h.of_variant rfl rfl rfl rfl hp (startedJob_ok hstage)⟩

/-- When it answers with a variant, that is the one of the shader asked for, under the key of the
interpolators and the alpha test. -/
theorem ensureCompiled_eq_some {around : Surroundings} {p : ShaderPtr} {interpolators : ℕ}
    {alphaTest : Bool} (h : (ensureCompiled host around lib p interpolators alphaTest).1 = some a) :
    a = ⟨p.key, variantKey p.shader interpolators alphaTest⟩ := by
  unfold ensureCompiled at h
  dsimp only at h
  split at h
  · exact (Option.some.inj h).symm
  split at h
  · cases h
  split at h <;> exact (Option.some.inj h).symm

end Variants

/-! ### Making a pair -/

section Pairs

variable {host : Host} {lib lib' : Library}

/-- A ready variant has a blob of its form. -/
theorem Invariant.ready_blob (h : Invariant host lib) {p : ShaderPtr} {interpolators : ℕ}
    (hp : lib.shaders p.key = some p.shader)
    (hready : variantState lib ⟨p.key, variantKey p.shader interpolators true⟩ = .ready) :
    ∃ b, variantBlob lib ⟨p.key, variantKey p.shader interpolators true⟩ = some b ∧
      IsForm host lib.shelf p.shader interpolators true b := by
  unfold variantState at hready
  cases hv : lib.variants ⟨p.key, variantKey p.shader interpolators true⟩ with
  | none =>
      rw [hv] at hready
      cases hready
  | some v =>
      rw [hv] at hready
      obtain ⟨s, hs, hok⟩ := h.variants _ v hv
      have hsp : s = p.shader := Option.some.inj (hs.symm.trans hp)
      rw [hsp] at hok
      obtain ⟨b, hb⟩ := Option.isSome_iff_exists.1 (hok.ready hready)
      refine ⟨b, by rw [variantBlob, hv]; exact hb, ?_⟩
      obtain ⟨source, hsource⟩ := hok.blob b hb
      rw [formAlphaTest_variantKey fun _ => rfl] at hsource
      refine ⟨source, ?_⟩
      rw [← hsource]
      unfold variantKey
      cases p.shader.vertex <;> rfl

/-- The invariant with another pair stored, under its own key and built for its hashes. -/
theorem Invariant.of_pair (h : Invariant host lib) {k : BitVec 64} {pair : Pair}
    {vsHash psHash : BitVec 64} (hk : k = pairKey vsHash psHash)
    (hpair : BuiltFor host lib.shelf vsHash psHash pair) :
    Invariant host { lib with pairs := Function.update lib.pairs k (some pair) } := by
  refine ⟨h.shelf, h.variants, fun k' pair' hpair' => ?_, fun e he => ?_⟩
  · have hstored : Function.update lib.pairs k (some pair) k' = some pair' := hpair'
    rcases eq_or_ne k' k with rfl | hne
    · rw [Function.update_self] at hstored
      cases hstored
      exact ⟨vsHash, psHash, hk, hpair⟩
    · rw [Function.update_of_ne hne] at hstored
      exact h.pairs k' pair' hstored
  · obtain ⟨hload, hkey, hsome⟩ := h.memo e he
    refine ⟨hload, hkey, ?_⟩
    show (Function.update lib.pairs k (some pair) e.pair.key).isSome = true
    rcases eq_or_ne e.pair.key k with hek | hek
    · rw [hek, Function.update_self]
      rfl
    · rw [Function.update_of_ne hek]
      exact hsome

/-- The invariant with another entry in the memo, for a pair that is stored. -/
theorem Invariant.publish (h : Invariant host lib) {vsHash psHash : BitVec 64}
    (hsome : (lib.pairs (pairKey vsHash psHash)).isSome) (memoEnabled : Bool) :
    Invariant host (publish lib memoEnabled vsHash psHash ⟨lib.loads, pairKey vsHash psHash⟩) := by
  unfold ShaderLibrary.publish
  split
  · refine { h with memo := fun e he => ?_ }
    cases he
    exact ⟨rfl, rfl, hsome⟩
  · exact h

/-- Publishing an answer to the memo leaves the shelf as it is. -/
@[simp] theorem publish_shelf (memoEnabled : Bool) (vsHash psHash : BitVec 64) (ptr : PairPtr) :
    (publish lib memoEnabled vsHash psHash ptr).shelf = lib.shelf := by
  unfold publish
  split <;> rfl

/-- Publishing an answer to the memo leaves the pairs as they are. -/
theorem publish_pairAt (memoEnabled : Bool) (vsHash psHash : BitVec 64) (ptr ptr' : PairPtr) :
    pairAt (publish lib memoEnabled vsHash psHash ptr) ptr' = pairAt lib ptr' := by
  unfold publish
  split <;> rfl

/-- What a `FindPair` leaves, and what stands behind an answer that is ready. -/
structure Answered (host : Host) (shelf : Shelf) (vsHash psHash : BitVec 64)
    (answer : Lookup × Library) : Prop where
  invariant : Invariant host answer.2
  shelf_eq : answer.2.shelf = shelf
  not_dangling : answer.1 ≠ .dangling
  ready : ∀ ptr, answer.1 = .ready ptr →
    ∃ pair, pairAt answer.2 ptr = some pair ∧ BuiltFor host shelf vsHash psHash pair

/-- An answer without a pair promises nothing about one. -/
theorem Answered.of_not_ready {shelf : Shelf} {vsHash psHash : BitVec 64} {answer : Lookup}
    (h : Invariant host lib) (hshelf : lib.shelf = shelf)
    (hanswer : answer = .unknownShader ∨ answer = .notReady ∨ answer = .unusable ∨ answer = .disabled) :
    Answered host shelf vsHash psHash (answer, lib) := by
  refine ⟨h, hshelf, ?_, fun ptr hready => ?_⟩
  · rcases hanswer with rfl | rfl | rfl | rfl <;> exact nofun
  · rcases hanswer with rfl | rfl | rfl | rfl <;> cases hready

/-- What `FindPair` has found when it makes a pair. -/
structure Found (lib : Library) (r : PairRequest) (vs : ShaderPtr) (ps : Option ShaderPtr) : Prop where
  vs_key : vs.key = shaderKey r.vsHash true
  vs_stored : lib.shaders vs.key = some vs.shader
  ps_none : ps = none → r.psHash = 0
  ps_some : ∀ p, ps = some p →
    r.psHash ≠ 0 ∧ p.key = shaderKey r.psHash false ∧ lib.shaders p.key = some p.shader

/-- Shaders found before a step that keeps the shelf are found after it. -/
theorem Found.of_kept {r : PairRequest} {vs : ShaderPtr} {ps : Option ShaderPtr}
    (h : Found lib r vs ps) (hkept : Kept lib lib') : Found lib' r vs ps := by
  refine ⟨h.vs_key, ?_, h.ps_none, ?_⟩
  · rw [hkept.shaders]
    exact h.vs_stored
  · rw [hkept.shaders]
    exact h.ps_some

/-- A shader that is found is the one stored under the key of its hash and stage. -/
theorem find_eq_some {hash : BitVec 64} {vertex : Bool} {p : ShaderPtr}
    (h : find lib hash vertex = some p) :
    p.key = shaderKey hash vertex ∧ lib.shaders p.key = some p.shader := by
  obtain ⟨s, hs, rfl⟩ := Option.map_eq_some_iff.1 h
  exact ⟨rfl, hs⟩

/-- Initialising a pass with a vertex blob gives a pass of these two blobs and of no variant without
alpha test. -/
theorem initialize_ready (host : Host) (b : Blob) (ps : Option Blob) :
    ∃ pass, host.initialize (some b) ps true = (true, pass) ∧ pass.vs = some b ∧ pass.ps = ps ∧
      pass.psNoAlphaTest = none := by
  unfold Host.initialize
  rw [if_neg (by simp)]
  exact ⟨_, rfl, rfl, rfl, rfl⟩

/-- A pair that is made is made of the entries found, and is usable. -/
theorem buildPair_spec (h : Invariant host lib) {r : PairRequest} {vs : ShaderPtr}
    {ps : Option ShaderPtr} (hfound : Found lib r vs ps) {a : VariantPtr} {a' : Option VariantPtr}
    {b : Blob} (hroot : lib.rootSignature = true) (ha : variantBlob lib a = some b)
    (hform : IsForm host lib.shelf vs.shader
      (pairInterpolators vs.shader (ps.map ShaderPtr.shader)) true b)
    (hnone : ps = none → a'.bind (variantBlob lib) = none)
    (hsome : ∀ p, ps = some p →
      ∃ b', a'.bind (variantBlob lib) = some b' ∧ IsForm host lib.shelf p.shader 0 true b') :
    Answered host lib.shelf r.vsHash r.psHash (buildPair host lib r vs ps a a') := by
  obtain ⟨pass, hinit, hvs, hps, hother⟩ := initialize_ready host b (a'.bind (variantBlob lib))
  have hbuild : host.initialize (variantBlob lib a) (a'.bind (variantBlob lib)) lib.rootSignature =
      (true, pass) := by
    rw [ha, hroot, hinit]
  unfold buildPair
  rw [hbuild]
  dsimp only
  rw [if_neg (by simp)]
  set pair : Pair := { vs, ps, stem := pairStem r.vsHash r.psHash, usable := true, pass } with hpair
  set lib' : Library :=
    { lib with pairs := Function.update lib.pairs (pairKey r.vsHash r.psHash) (some pair) } with hlib'
  have hbuilt : BuiltFor host lib.shelf r.vsHash r.psHash pair := by
    constructor
    case vs_key => exact hfound.vs_key
    case vs_stored => exact hfound.vs_stored
    case vs_blob => exact ⟨b, hvs, hform⟩
    case ps_none => exact fun hp => ⟨hfound.ps_none hp, hps.trans (hnone hp)⟩
    case ps_some =>
      intro p hp
      obtain ⟨hne, hkey, hstored⟩ := hfound.ps_some p hp
      obtain ⟨b', hb', hform'⟩ := hsome p hp
      exact ⟨hne, hkey, hstored, b', hps.trans hb', hform'⟩
    case other_blob =>
      intro b' hb'
      rw [show pair.pass.psNoAlphaTest = none from hother] at hb'
      cases hb'
    case other_variant => nofun
  have hinv : Invariant host lib' := h.of_pair rfl hbuilt
  have hstored : lib'.pairs (pairKey r.vsHash r.psHash) = some pair := Function.update_self ..
  refine ⟨hinv.publish (by rw [hstored]; rfl) _, publish_shelf .., nofun, fun ptr hptr => ?_⟩
  cases hptr
  exact ⟨pair, (publish_pairAt ..).trans ((if_pos rfl).trans hstored), hbuilt⟩

/-- What `FindPair` does with two variants: it finds the pair, builds it, or reports that a variant
failed. -/
theorem pairOfVariants_spec (h : Invariant host lib) {r : PairRequest} {vs : ShaderPtr}
    {ps : Option ShaderPtr} (hfound : Found lib r vs ps) :
    Answered host lib.shelf r.vsHash r.psHash
      (pairOfVariants host lib r vs ps
        ⟨vs.key, variantKey vs.shader (pairInterpolators vs.shader (ps.map ShaderPtr.shader)) true⟩
        (ps.map fun p => ⟨p.key, variantKey p.shader 0 true⟩)) := by
  unfold pairOfVariants
  dsimp only
  split
  · exact .of_not_ready h rfl (by simp)
  split
  · exact .of_not_ready h rfl (by simp)
  next hready =>
    split
    · exact .of_not_ready h rfl (by simp)
    · simp only [List.mem_cons, not_exists, not_and, not_not] at hready
      obtain ⟨b, hb, hform⟩ := h.ready_blob hfound.vs_stored (hready _ (.inl rfl))
      have h' : Invariant host { lib with rootSignature := true } := { h with }
      have hfound' : Found { lib with rootSignature := true } r vs ps := { hfound with }
      refine buildPair_spec h' hfound' rfl hb hform (fun hp => ?_) (fun p hp => ?_)
      · rw [hp]
        rfl
      · rw [hp] at hready ⊢
        exact h.ready_blob (hfound.ps_some p hp).2.2 (hready _ (.inr (by simp)))

/-- **`EnsurePair` builds the pair of the two shaders it was given** and of the variants their
interpolators call for, and keeps the invariant. -/
theorem ensurePair_spec (h : Invariant host lib) (around : Surroundings) {r : PairRequest}
    {vs : ShaderPtr} {ps : Option ShaderPtr} (hfound : Found lib r vs ps) :
    Kept lib (ensurePair host around lib vs ps).2 ∧
      Invariant host (ensurePair host around lib vs ps).2 ∧
      ∀ p, (ensurePair host around lib vs ps).1 = some p → p =
        (⟨vs.key, variantKey vs.shader (pairInterpolators vs.shader (ps.map ShaderPtr.shader)) true⟩,
          ps.map fun p => ⟨p.key, variantKey p.shader 0 true⟩) := by
  have hvs := @ensureCompiled_eq_some host lib
  obtain ⟨hkept, hinv⟩ := @ensureCompiled_spec host lib around vs
    (pairInterpolators vs.shader (ps.map ShaderPtr.shader)) true h hfound.vs_stored fun _ => rfl
  unfold ensurePair
  cases ps with
  | none =>
      refine ⟨hkept, hinv, fun p hp => ?_⟩
      obtain ⟨a, ha, rfl⟩ := Option.map_eq_some_iff.1 hp
      rw [ensureCompiled_eq_some ha]
      rfl
  | some q =>
      obtain ⟨-, -, hstored⟩ := (hfound.of_kept hkept).ps_some q rfl
      obtain ⟨hkept', hinv'⟩ := @ensureCompiled_spec host _ around q 0 true hinv hstored fun _ => rfl
      refine ⟨hkept.trans hkept', hinv', fun p hp => ?_⟩
      obtain ⟨a, ha, hp⟩ := Option.bind_eq_some_iff.1 hp
      obtain ⟨a', ha', rfl⟩ := Option.map_eq_some_iff.1 hp
      rw [ensureCompiled_eq_some ha, ensureCompiled_eq_some ha']
      rfl

/-- The first request for a pair, the memo having no answer: it answers with a pair of the two
hashes, or with none. -/
theorem firstPair_spec (h : Invariant host lib) (r : PairRequest) :
    Answered host lib.shelf r.vsHash r.psHash (firstPair host lib r) := by
  unfold firstPair
  split
  · exact .of_not_ready h rfl (.inl rfl)
  next vs hvs =>
    by_cases hknown : r.psHash ≠ 0 ∧ findPixel lib r.psHash = none
    · rw [if_pos hknown]
      exact .of_not_ready h rfl (.inl rfl)
    rw [if_neg hknown]
    split
    · exact .of_not_ready h rfl (by simp)
    · obtain ⟨hkey, hstored⟩ := find_eq_some hvs
      have hfound : Found lib r vs (findPixel lib r.psHash) := by
        refine ⟨hkey, hstored, fun hnone => ?_, fun p hp => ?_⟩
        · by_contra hne
          exact hknown ⟨hne, hnone⟩
        · unfold findPixel at hp
          obtain ⟨hne, hp⟩ := Option.ite_none_left_eq_some.1 hp
          exact ⟨hne, find_eq_some hp⟩
      obtain ⟨hkept, hinv, hvariants⟩ := ensurePair_spec h r.around hfound
      rcases hensure : ensurePair host r.around lib vs (findPixel lib r.psHash) with ⟨answer, lib'⟩
      rw [hensure] at hkept hinv hvariants
      cases answer with
      | none => exact .of_not_ready hinv hkept.shelf (by simp)
      | some p =>
          rw [hvariants p rfl, ← hkept.shelf]
          exact pairOfVariants_spec hinv (hfound.of_kept hkept)

/-- The two fast paths: a pair found for its key passes the checks only when it was made for the two
hashes. -/
theorem Invariant.checked (h : Invariant host lib) {vsHash psHash : BitVec 64} {pair : Pair}
    (hpair : lib.pairs (pairKey vsHash psHash) = some pair) (hvs : pair.vs.shader.hash = vsHash)
    (hps : pair.psHash = psHash) : BuiltFor host lib.shelf vsHash psHash pair := by
  obtain ⟨v, p, hkey, hbuilt⟩ := h.pairs _ pair hpair
  have hv : v = vsHash ∨ v = ~~~vsHash := by
    have hvskey := hbuilt.vs_key.symm.trans (h.shelf _ _ hbuilt.vs_stored).1
    rw [hvs] at hvskey
    rcases eq_of_shaderKey_eq hvskey with ⟨-, heq⟩ | ⟨-, heq⟩
    · exact .inl heq
    · exact .inr heq
  have hp : p = psHash ∨ p = ~~~psHash := by
    unfold Pair.psHash at hps
    cases hpairps : pair.ps with
    | none =>
        rw [hpairps] at hps
        exact .inl ((hbuilt.ps_none hpairps).1.trans hps)
    | some q =>
        rw [hpairps] at hps
        obtain ⟨-, hqkey, hstored, -⟩ := hbuilt.ps_some q hpairps
        have hpskey := hqkey.symm.trans (h.shelf _ _ hstored).1
        rw [show q.shader.hash = psHash from hps] at hpskey
        rcases eq_of_shaderKey_eq hpskey with ⟨-, heq⟩ | ⟨-, heq⟩
        · exact .inl heq
        · exact .inr heq
  obtain ⟨rfl, rfl⟩ := pairKey_of_complements hv hp hkey.symm
  exact hbuilt

/-- A pair that is accepted as ready carries the two hashes that were asked for. -/
theorem checkPair_ready {pair : Pair} {ptr ptr' : PairPtr} {vsHash psHash : BitVec 64}
    (h : checkPair lib pair ptr vsHash psHash = .ready ptr') :
    ptr' = ptr ∧ pair.vs.shader.hash = vsHash ∧ pair.psHash = psHash := by
  unfold checkPair at h
  split at h
  · cases h
  next hhash =>
    rw [not_or, not_not, not_not] at hhash
    split at h
    · cases h
    split at h
    · cases h
    · cases h
      exact ⟨rfl, hhash⟩

/-- A pair that is still stored is never reported as dangling. -/
theorem checkPair_ne_dangling {pair : Pair} {ptr : PairPtr} {vsHash psHash : BitVec 64} :
    checkPair lib pair ptr vsHash psHash ≠ .dangling := by
  unfold checkPair
  split
  · exact nofun
  split
  · exact nofun
  split <;> exact nofun

/-- An entry the memo is asked for is a pair that exists, under the key of the two hashes. -/
theorem Invariant.memoFind (h : Invariant host lib) {vsHash psHash : BitVec 64} {ptr : PairPtr}
    (hptr : memoFind lib vsHash psHash = some ptr) : ptr = ⟨lib.loads, pairKey vsHash psHash⟩ ∧
      ∃ pair, pairAt lib ptr = some pair ∧ lib.pairs (pairKey vsHash psHash) = some pair := by
  unfold ShaderLibrary.memoFind at hptr
  split at hptr
  next e he =>
    split at hptr
    next hhash =>
      obtain ⟨rfl, rfl⟩ := hhash
      obtain ⟨hload, hkey, hsome⟩ := h.memo e he
      obtain ⟨pair, hpair⟩ := Option.isSome_iff_exists.1 hsome
      cases hptr
      refine ⟨by rw [← hload, ← hkey], pair, ?_, hkey ▸ hpair⟩
      unfold pairAt
      rw [if_pos hload, hpair]
    · cases hptr
  · cases hptr

/-- **Every answer.**  A pair that is answered was made for the two hashes of the request. -/
theorem findPair_spec (h : Invariant host lib) (r : PairRequest) :
    Answered host lib.shelf r.vsHash r.psHash (findPair host lib r) := by
  obtain ⟨hkept, hinv⟩ := reapCompiles_spec h
  unfold findPair
  dsimp only
  rw [← hkept.shelf]
  generalize reapCompiles lib = lib at hkept hinv ⊢
  split
  next ptr hmemo =>
    have hfound : memoFind lib r.vsHash r.psHash = some ptr := by
      split at hmemo
      · exact hmemo
      · cases hmemo
    obtain ⟨rfl, pair, hat, hpair⟩ := hinv.memoFind hfound
    rw [hat]
    refine ⟨hinv, rfl, checkPair_ne_dangling, fun ptr hready => ?_⟩
    obtain ⟨rfl, hvs, hps⟩ := checkPair_ready hready
    exact ⟨pair, hat, hinv.checked hpair hvs hps⟩
  · cases hpair : lib.pairs (pairKey r.vsHash r.psHash) with
    | none => exact firstPair_spec hinv r
    | some pair =>
        dsimp only
        split
        next ptr hready =>
          obtain ⟨rfl, hvs, hps⟩ := checkPair_ready hready
          refine ⟨hinv.publish (by rw [hpair]; rfl) _, publish_shelf .., nofun, fun ptr hptr => ?_⟩
          cases hptr
          exact ⟨pair, (publish_pairAt ..).trans ((if_pos rfl).trans hpair),
            hinv.checked hpair hvs hps⟩
        next hanswer =>
          exact ⟨hinv, rfl, checkPair_ne_dangling, fun ptr hready => absurd hready (hanswer ptr)⟩

/-! ### The other form of a pixel shader -/

variable {around : Surroundings} {vsHash psHash : BitVec 64} {pair : Pair} {ptr : PairPtr}

/-- The variant a pair is given is that of its own pixel shader. -/
theorem adoptVariant_spec (h : Invariant host lib) {ps : ShaderPtr}
    (hstored : lib.shaders ps.key = some ps.shader) (hpixel : ps.shader.vertex = false) :
    Kept lib (adoptVariant host around lib ps).2 ∧ Invariant host (adoptVariant host around lib ps).2 ∧
      ∀ a, (adoptVariant host around lib ps).1 = some a → a = ⟨ps.key, noAlphaTestKey⟩ := by
  unfold adoptVariant
  split
  · exact ⟨.refl lib, h, fun a ha => (Option.some.inj ha).symm⟩
  split
  · exact ⟨.refl lib, h, nofun⟩
  split
  next p hp =>
    obtain ⟨hkey, hpstored⟩ := find_eq_some hp
    have hpskey : ps.key = shaderKey ps.shader.hash false := by
      rw [(h.shelf _ _ hstored).1, hpixel]
    have heq : p.key = ps.key := hkey.trans hpskey.symm
    have hshader : p.shader = ps.shader := by
      rw [heq, hstored] at hpstored
      exact (Option.some.inj hpstored).symm
    have hstage : p.shader.vertex = true → false = true := by
      rw [hshader, hpixel]
      exact id
    obtain ⟨hkept, hinv⟩ := @ensureCompiled_spec host lib around p 0 false h hpstored hstage
    refine ⟨hkept, hinv, fun a ha => ?_⟩
    rw [ensureCompiled_eq_some ha, heq, variantKey, hshader, hpixel]
    rfl
  · exact ⟨.refl lib, h, nofun⟩

/-- Setting the variant without alpha test sets that field of the pass or, where the device refuses,
nothing. -/
theorem setNoAlphaTestPixelShader_spec (pass : Pass) (b : Option Blob) :
    (host.setNoAlphaTestPixelShader pass b).2 = pass ∨
      (host.setNoAlphaTestPixelShader pass b).2 = { pass with psNoAlphaTest := b } := by
  unfold Host.setNoAlphaTestPixelShader
  split
  · exact .inl rfl
  split
  · exact .inl rfl
  · exact .inr rfl

/-- A blob of the variant of a pair is its pixel shader without the alpha test. -/
theorem Invariant.other_blob (h : Invariant host lib) {ps : ShaderPtr} {b : Blob}
    (hstored : lib.shaders ps.key = some ps.shader) (hpixel : ps.shader.vertex = false)
    (hb : variantBlob lib ⟨ps.key, noAlphaTestKey⟩ = some b) :
    IsForm host lib.shelf ps.shader noAlphaTestKey false b := by
  obtain ⟨v, hv, hb⟩ := Option.bind_eq_some_iff.1 hb
  obtain ⟨s, hs, hok⟩ := h.variants _ v hv
  have hsp : s = ps.shader := Option.some.inj (hs.symm.trans hstored)
  have hform := hok.blob b hb
  rw [hsp] at hform
  have halpha : formAlphaTest ps.shader noAlphaTestKey = false := by
    rw [formAlphaTest, hpixel]
    rfl
  rwa [halpha] at hform

/-- Storing a pair under its own key, built for these two hashes, keeps the invariant. -/
theorem setPair_spec (h : Invariant host lib) (hkey : ptr.key = pairKey vsHash psHash)
    (hbuilt : BuiltFor host lib.shelf vsHash psHash pair) :
    Invariant host (setPair lib ptr pair) ∧ (setPair lib ptr pair).shelf = lib.shelf :=
  ⟨h.of_pair hkey hbuilt, rfl⟩

/-- Finishing the variant without alpha test stores the same pair with that variant added to it. -/
theorem finishNoAlphaTest_spec (h : Invariant host lib) {ps : ShaderPtr}
    (hkey : ptr.key = pairKey vsHash psHash) (hbuilt : BuiltFor host lib.shelf vsHash psHash pair)
    (hps : pair.ps = some ps) (hpixel : ps.shader.vertex = false) :
    Invariant host (finishNoAlphaTest host lib ptr pair ⟨ps.key, noAlphaTestKey⟩).2 ∧
      (finishNoAlphaTest host lib ptr pair ⟨ps.key, noAlphaTestKey⟩).2.shelf = lib.shelf := by
  obtain ⟨-, -, hstored, -⟩ := hbuilt.ps_some ps hps
  have hadopted : ∀ a, some (⟨ps.key, noAlphaTestKey⟩ : VariantPtr) = some a →
      ∃ q, pair.ps = some q ∧ a = ⟨q.key, noAlphaTestKey⟩ ∧ q.shader.vertex = false := by
    intro a ha
    cases ha
    exact ⟨ps, hps, rfl, hpixel⟩
  have hbuilt' : ∀ refused, BuiltFor host lib.shelf vsHash psHash
      { pair with noAlphaTest := some ⟨ps.key, noAlphaTestKey⟩, noAlphaTestRefused := refused } :=
    fun _ => { hbuilt with other_variant := hadopted }
  unfold finishNoAlphaTest
  dsimp only
  split
  · exact setPair_spec h hkey (hbuilt' pair.noAlphaTestRefused)
  split
  · refine setPair_spec h hkey ?_
    rcases @setNoAlphaTestPixelShader_spec host pair.pass
      (variantBlob lib ⟨ps.key, noAlphaTestKey⟩) with hpass | hpass
    · rw [hpass]
      exact hbuilt' pair.noAlphaTestRefused
    · rw [hpass]
      refine { hbuilt' pair.noAlphaTestRefused with other_blob := fun b hb => ?_ }
      exact ⟨ps, hps, h.other_blob hstored hpixel hb⟩
  · exact setPair_spec h hkey (hbuilt' true)

/-- A pair that a pointer leads to is stored under the pointer's key. -/
theorem pairAt_stored (h : pairAt lib ptr = some pair) : lib.pairs ptr.key = some pair := by
  unfold pairAt at h
  split at h
  · exact h
  · cases h

/-- `RequestNoAlphaTest` queues a compile, finishes one or does nothing, and keeps the invariant. -/
theorem requestNoAlphaTest_spec (h : Invariant host lib) (ptr : PairPtr) :
    Invariant host (requestNoAlphaTest host around lib ptr).2 ∧
      (requestNoAlphaTest host around lib ptr).2.shelf = lib.shelf := by
  unfold requestNoAlphaTest
  split
  · exact ⟨h, rfl⟩
  next pair hpair =>
    obtain ⟨v, p, hkey, hbuilt⟩ := h.pairs _ pair (pairAt_stored hpair)
    split
    · exact ⟨h, rfl⟩
    split
    · exact ⟨h, rfl⟩
    next ps hps =>
      obtain ⟨-, -, hstored, -⟩ := hbuilt.ps_some ps hps
      split
      · exact ⟨h, rfl⟩
      next heligible =>
        rw [not_or, not_not] at heligible
        have hpixel := (h.shelf _ _ hstored).2 heligible.1
        split
        next a ha =>
          obtain ⟨q, hq, rfl, -⟩ := hbuilt.other_variant a ha
          rw [hps] at hq
          cases hq
          exact finishNoAlphaTest_spec h hkey hbuilt hps hpixel
        · obtain ⟨hkept, hinv, hadopted⟩ := @adoptVariant_spec host lib around h ps hstored hpixel
          rcases hadopt : adoptVariant host around lib ps with ⟨answer, lib'⟩
          rw [hadopt] at hkept hinv hadopted
          cases answer with
          | none => exact ⟨hinv, hkept.shelf⟩
          | some a =>
              cases hadopted a rfl
              have hbuilt' : BuiltFor host lib'.shelf v p pair := hkept.shelf ▸ hbuilt
              obtain ⟨hinv', hshelf⟩ := finishNoAlphaTest_spec hinv hkey hbuilt' hps hpixel
              exact ⟨hinv', hshelf.trans hkept.shelf⟩

/-- A pipeline that could not be made marks its pair as failed and changes nothing else. -/
theorem pipelineFails_spec (h : Invariant host lib) (ptr : PairPtr) :
    Invariant host (pipelineFails lib ptr) := by
  unfold pipelineFails
  split
  · exact h
  next pair hpair =>
    obtain ⟨v, p, hkey, hbuilt⟩ := h.pairs _ pair (pairAt_stored hpair)
    have hbuilt' : BuiltFor host lib.shelf v p
        { pair with pass := { pair.pass with noAlphaTestFailed := true } } :=
      { hbuilt with }
    exact (setPair_spec h hkey hbuilt').1

/-- **Every step keeps the invariant**: loads, requests, compiles that end, and pipelines that fail. -/
theorem step_invariant (h : Invariant host lib) (call : Call) : Invariant host (step host lib call) := by
  cases call with
  | load r => exact load_invariant host lib r
  | findPair r => exact (findPair_spec h r).invariant
  | requestNoAlphaTest around ptr => exact (requestNoAlphaTest_spec h ptr).1
  | jobEnds a outcome => exact jobEnds_invariant h a outcome
  | pipelineFails ptr => exact pipelineFails_spec h ptr

/-- **After every history the invariant holds**, by induction on the calls. -/
theorem run_invariant (host : Host) (calls : List Call) : Invariant host (run host calls) :=
  @History.invariant _ _ (step host) (Invariant host) (fun _ call h => step_invariant h call) _
    (init_invariant host) calls

end Pairs

end ShaderLibrary
end BoltsRebuilt
