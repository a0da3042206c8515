/-
# The shaders a pair answers with

src/src/gpu/native/native_shader_library.h: the comment on `shaders_` (lines 124-125);
native_shader_library.cpp: `ShaderKey` (lines 82-83), `Find` and `FindPair` (lines
206-210, 321-410).

A vertex shader is stored under its hash and a pixel shader under the complement of its
hash, "so a vertex and a pixel shader cannot collide".  They can: a pixel shader whose
hash is the complement of `vs_hash` lies where `FindPair` looks for the vertex shader, and
`Find` looks at neither the hash nor the stage of what it finds.  `FindPair` compares
hashes only where it answers with a pair made before; the answer that makes the pair is
not checked.

`findPair_right_iff` says when an answer is right: exactly when what lies under the two
keys is of the stage asked for.
-/

import BoltsRebuilt.Shaders.LibraryInvariant

namespace BoltsRebuilt
namespace ShaderLibrary

variable {host : Host} {lib : Library} {vsHash psHash : BitVec 64} {pair : Pair}

/-- The blobs of a pair are the compiled vertex shader with the hash `vsHash` and the compiled pixel
shader with the hash `psHash`; a draw without a pixel shader asks with the hash zero and gets no
pixel blob.  The other form of the pixel shader, when the pair has it, is of the same shader. -/
structure Right (host : Host) (lib : Library) (vsHash psHash : BitVec 64) (pair : Pair) : Prop where
  vertex_hash : pair.vs.shader.vertex = true ∧ pair.vs.shader.hash = vsHash
  vertex_blob : lib.shaders pair.vs.key = some pair.vs.shader ∧
    ∃ b, pair.pass.vs = some b ∧ IsForm host lib.shelf pair.vs.shader
      (pairInterpolators pair.vs.shader (pair.ps.map ShaderPtr.shader)) true b
  no_pixel : pair.ps = none → psHash = 0 ∧ pair.pass.ps = none
  pixel_hash : ∀ ps, pair.ps = some ps →
    psHash ≠ 0 ∧ ps.shader.vertex = false ∧ ps.shader.hash = psHash
  pixel_blob : ∀ ps, pair.ps = some ps → lib.shaders ps.key = some ps.shader ∧
    ∃ b, pair.pass.ps = some b ∧ IsForm host lib.shelf ps.shader 0 true b
  other_blob : ∀ b, pair.pass.psNoAlphaTest = some b →
    ∃ ps, pair.ps = some ps ∧ IsForm host lib.shelf ps.shader noAlphaTestKey false b

/-- What lies under the keys of the two hashes is of the stage asked for. -/
def OwnStage (lib : Library) (vsHash psHash : BitVec 64) : Prop :=
  (∀ s, lib.shaders (shaderKey vsHash true) = some s → s.vertex = true) ∧
    (psHash ≠ 0 → ∀ s, lib.shaders (shaderKey psHash false) = some s → s.vertex = false)

/-- A shader under a key of its own stage has the hash of the key. -/
theorem Shelf.Ok.hash_eq {shelf : Shelf} (h : shelf.Ok) {hash : BitVec 64} {vertex : Bool}
    {s : StageShader} (hs : shelf.shaders (shaderKey hash vertex) = some s)
    (hstage : s.vertex = vertex) : s.hash = hash := by
  have hkey := (h _ s hs).1
  rcases eq_of_shaderKey_eq hkey with ⟨-, heq⟩ | ⟨hne, -⟩
  · exact heq.symm
  · exact absurd hstage.symm hne

/-- A pair made for two hashes is right exactly when the stages under their keys are. -/
theorem BuiltFor.right_iff (hshelf : lib.shelf.Ok)
    (h : BuiltFor host lib.shelf vsHash psHash pair) :
    Right host lib vsHash psHash pair ↔ OwnStage lib vsHash psHash := by
  constructor
  · intro hright
    refine ⟨fun s hs => ?_, fun hne s hs => ?_⟩
    · have hstored := h.vs_stored
      rw [h.vs_key] at hstored
      cases hstored.symm.trans hs
      exact hright.vertex_hash.1
    · cases hps : pair.ps with
      | none => exact absurd (h.ps_none hps).1 hne
      | some ps =>
          obtain ⟨-, hkey, hstored, -⟩ := h.ps_some ps hps
          rw [hkey] at hstored
          cases hstored.symm.trans hs
          exact (hright.pixel_hash ps hps).2.1
  · rintro ⟨hvertex, hpixel⟩
    have hvs := h.vs_stored
    rw [h.vs_key] at hvs
    constructor
    case vertex_hash => exact ⟨hvertex _ hvs, hshelf.hash_eq hvs (hvertex _ hvs)⟩
    case vertex_blob => exact ⟨h.vs_stored, h.vs_blob⟩
    case no_pixel => exact h.ps_none
    case pixel_hash =>
      intro ps hps
      obtain ⟨hne, hkey, hstored, -⟩ := h.ps_some ps hps
      rw [hkey] at hstored
      have hstage := hpixel hne _ hstored
      exact ⟨hne, hstage, hshelf.hash_eq hstored hstage⟩
    case pixel_blob =>
      intro ps hps
      obtain ⟨-, -, hstored, hblob⟩ := h.ps_some ps hps
      exact ⟨hstored, hblob⟩
    case other_blob => exact h.other_blob

/-- **When an answer is right.**  After every history, a `FindPair` that answers ready points to a
pair that exists; its blobs are those of the shaders with the two hashes exactly when no pixel
shader lies under the key of `vsHash` and, where a pixel shader is asked for, no vertex shader
under the key of `psHash`. -/
theorem findPair_right_iff (host : Host) (calls : List Call) (r : PairRequest) (ptr : PairPtr)
    (h : (findPair host (run host calls) r).1 = .ready ptr) :
    ∃ pair, pairAt (findPair host (run host calls) r).2 ptr = some pair ∧
      (Right host (findPair host (run host calls) r).2 r.vsHash r.psHash pair ↔
        OwnStage (run host calls) r.vsHash r.psHash) := by
  have hinv := run_invariant host calls
  obtain ⟨hinv', hshelf, -, hready⟩ := findPair_spec hinv r
  obtain ⟨pair, hat, hbuilt⟩ := hready ptr h
  have hshaders : (findPair host (run host calls) r).2.shaders = (run host calls).shaders :=
    congrArg Shelf.shaders hshelf
  refine ⟨pair, hat, ?_⟩
  rw [← hshelf] at hbuilt
  rw [hbuilt.right_iff hinv'.shelf, OwnStage, OwnStage, hshaders]

/-! ### A vertex and a pixel shader that collide -/

/-- A machine where every compile of the shaders below succeeds. -/
def smallHost : Host := ⟨8, List.length, [], fun _ _ _ => true⟩

/-- A directory of one vertex shader and one pixel shader. -/
def twoShaders (psHash : String) : LoadRequest where
  directory := ['d']
  filter := []
  exclude := []
  effectiveSamplers := true
  directGuestReads := false
  listing := some
    [⟨true, ".meta".toList, "vs_0123456789ABCDEF".toList, some "hash=0123456789ABCDEF\n".toList⟩,
      ⟨true, ".meta".toList, ("ps_" ++ psHash).toList, some ("hash=" ++ psHash ++ "\n").toList⟩]

def requestOf (vsHash psHash : BitVec 64) : PairRequest :=
  ⟨vsHash, psHash, false, true, ⟨true, fun _ => none⟩⟩

/-- The pair is asked for, and both compiles end. -/
def warmUp (psHash : String) (r : PairRequest) : List Call :=
  [.load (twoShaders psHash), .findPair r,
    .jobEnds ⟨shaderKey r.vsHash true, 0⟩ (.returns (some []) true),
    .jobEnds ⟨shaderKey r.psHash false, 0⟩ (.returns (some []) true)]

/-- What the pair is answered when it is asked for again. -/
def secondAnswer (psHash : String) (r : PairRequest) : Lookup × Library :=
  findPair smallHost (run smallHost (warmUp psHash r)) r

/-- The hypotheses are satisfiable: of two hashes that do not collide the answer is right. -/
theorem findPair_right_iff_two : ∃ ptr pair,
    (secondAnswer "0000000000000007" (requestOf 0x0123456789ABCDEF 7)).1 = .ready ptr ∧
      Right smallHost (secondAnswer "0000000000000007" (requestOf 0x0123456789ABCDEF 7)).2
        0x0123456789ABCDEF 7 pair := by
  have hready : (secondAnswer "0000000000000007" (requestOf 0x0123456789ABCDEF 7)).1 =
      .ready ⟨1, pairKey 0x0123456789ABCDEF 7⟩ := by decide +kernel
  have hvertex : ((run smallHost (warmUp "0000000000000007"
      (requestOf 0x0123456789ABCDEF 7))).shaders (shaderKey 0x0123456789ABCDEF true)).all
        (·.vertex == true) = true := by decide +kernel
  have hpixel : ((run smallHost (warmUp "0000000000000007"
      (requestOf 0x0123456789ABCDEF 7))).shaders (shaderKey 7 false)).all
        (·.vertex == false) = true := by decide +kernel
  obtain ⟨pair, -, hright⟩ := findPair_right_iff smallHost _ _ _ hready
  refine ⟨_, pair, hready, hright.2 ⟨fun s hs => ?_, fun _ s hs => ?_⟩⟩
  · exact eq_of_beq ((Option.all_eq_true ..).1 hvertex s hs)
  · exact eq_of_beq ((Option.all_eq_true ..).1 hpixel s hs)

/-- **The wrong stage.**  The vertex shader `0123456789ABCDEF` and the pixel shader
`FEDCBA9876543210` share a key; the pair of the two is answered with the pixel shader, compiled as
a pixel shader, in the place of the vertex shader. -/
theorem findPair_wrong_stage : ∃ ptr pair,
    (secondAnswer "FEDCBA9876543210" (requestOf 0x0123456789ABCDEF 0xFEDCBA9876543210)).1 =
        .ready ptr ∧
      pairAt (secondAnswer "FEDCBA9876543210"
        (requestOf 0x0123456789ABCDEF 0xFEDCBA9876543210)).2 ptr = some pair ∧
      pair.pass.vs.map Blob.target = some "ps_5_1".toList ∧
      ¬Right smallHost (secondAnswer "FEDCBA9876543210"
        (requestOf 0x0123456789ABCDEF 0xFEDCBA9876543210)).2
        0x0123456789ABCDEF 0xFEDCBA9876543210 pair := by
  set answer := secondAnswer "FEDCBA9876543210" (requestOf 0x0123456789ABCDEF 0xFEDCBA9876543210)
    with hanswer
  have hready : answer.1 = .ready ⟨1, pairKey 0x0123456789ABCDEF 0xFEDCBA9876543210⟩ := by
    rw [hanswer]
    decide +kernel
  have hpair : (pairAt answer.2 ⟨1, pairKey 0x0123456789ABCDEF 0xFEDCBA9876543210⟩).map
      (fun pair => (pair.pass.vs.map Blob.target, pair.vs.shader.vertex)) =
        some (some "ps_5_1".toList, false) := by
    rw [hanswer]
    decide +kernel
  obtain ⟨pair, hat, hpair⟩ := Option.map_eq_some_iff.1 hpair
  obtain ⟨htarget, hstage⟩ := Prod.mk.inj hpair
  refine ⟨_, pair, hready, hat, htarget, fun hright => ?_⟩
  exact absurd hright.vertex_hash.1 (by rw [hstage]; exact Bool.false_ne_true)

end ShaderLibrary
end BoltsRebuilt
