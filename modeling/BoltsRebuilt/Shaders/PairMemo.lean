/-
# The memo of the last ready pair

src/src/gpu/native/native_ready_pair_memo.h: `NativeReadyPairMemo`;
native_shader_library.cpp: `FindPair` (lines 321-358); src/tools/test_native_ready_pair_memo.cpp.

With the switch `nb_native_pair_lookup_memo` a `FindPair` looks at the last ready pair
first.  The switch can change between any two calls, so a history says for each call how
it stands.

The memo answers only for the hashes it was filled for, and holds a pair that is stored
under their key (`Invariant.memo`), so what it skips is a lookup that finds the same pair;
the checks are made of that pair either way.  Two libraries that differ in their memo stay
so, and answer the same (`findPair_forget`).
-/

import BoltsRebuilt.Shaders.LibraryInvariant

namespace BoltsRebuilt
namespace ShaderLibrary

variable {host : Host} {lib : Library}

/-- The library without its memo. -/
def forget (lib : Library) : Library := { lib with readyPairMemo := none }

/-- An answer and the library after it, without its memo. -/
def forgetSecond {α : Type} (p : α × Library) : α × Library := (p.1, forget p.2)

/-- Reaping one compile does not look at the memo. -/
theorem reapOne_forget (lib : Library) (i : ℕ) :
    reapOne (forget lib) i = (forget (reapOne lib i).1, (reapOne lib i).2) := by
  unfold reapOne
  cases hi : lib.compiling[i]? with
  | none => simp only [forget, hi]
  | some a =>
      cases hv : lib.variants a with
      | none => simp only [forget, hi, hv]
      | some v =>
          cases hended : v.ended with
          | none => simp only [forget, hi, hv, hended]
          | some result =>
              simp only [forget, hi, hv, hended]
              rfl

/-- Nor does the loop over the compiles, by induction on how many are left. -/
theorem reapLoop_forget (n : ℕ) (lib : Library) (i : ℕ) :
    reapLoop n (forget lib) i = forget (reapLoop n lib i) := by
  induction n generalizing lib i with
  | zero => rfl
  | succ n ih =>
      unfold reapLoop
      rw [reapOne_forget]
      exact ih ..

/-- Nor does the reaping as a whole. -/
theorem reapCompiles_forget (lib : Library) : reapCompiles (forget lib) = forget (reapCompiles lib) :=
  reapLoop_forget ..

/-- Making sure of a variant does not look at the memo. -/
theorem ensureCompiled_forget (around : Surroundings) (p : ShaderPtr) (interpolators : ℕ)
    (alphaTest : Bool) :
    ensureCompiled host around (forget lib) p interpolators alphaTest =
      forgetSecond (ensureCompiled host around lib p interpolators alphaTest) := by
  unfold ensureCompiled
  dsimp only
  rw [show (forget lib).variants = lib.variants from rfl,
    show compileAdmitted host (forget lib) alphaTest = compileAdmitted host lib alphaTest from rfl,
    show sourcePath (forget lib) p.shader = sourcePath lib p.shader from rfl]
  split
  · rfl
  split
  · rfl
  split <;> rfl

/-- Nor does making sure of a pair. -/
theorem ensurePair_forget (around : Surroundings) (vs : ShaderPtr) (ps : Option ShaderPtr) :
    ensurePair host around (forget lib) vs ps = forgetSecond (ensurePair host around lib vs ps) := by
  unfold ensurePair
  dsimp only
  rw [ensureCompiled_forget]
  cases ps with
  | none => rfl
  | some ps =>
      dsimp only [forgetSecond]
      rw [ensureCompiled_forget]
      rfl

/-- The request with the switch off. -/
def PairRequest.plain (r : PairRequest) : PairRequest := { r with memoEnabled := false }

/-- Publishing changes the memo alone. -/
theorem publish_forget (memoEnabled : Bool) (vsHash psHash : BitVec 64) (ptr : PairPtr) :
    forget (publish lib memoEnabled vsHash psHash ptr) = forget lib := by
  unfold publish
  split <;> rfl

/-- Building a pair answers alike with the memo and without it. -/
theorem buildPair_forget (r : PairRequest) (vs : ShaderPtr) (ps : Option ShaderPtr) (a : VariantPtr)
    (a' : Option VariantPtr) :
    buildPair host (forget lib) r.plain vs ps a a' = forgetSecond (buildPair host lib r vs ps a a') := by
  unfold buildPair
  dsimp only
  rw [show variantBlob (forget lib) = variantBlob lib from rfl,
    show (forget lib).rootSignature = lib.rootSignature from rfl]
  split
  · rfl
  · rw [forgetSecond]
    dsimp only
    rw [publish_forget]
    rfl

/-- So does finding the pair of two compiled variants. -/
theorem pairOfVariants_forget (r : PairRequest) (vs : ShaderPtr) (ps : Option ShaderPtr)
    (a : VariantPtr) (a' : Option VariantPtr) :
    pairOfVariants host (forget lib) r.plain vs ps a a' =
      forgetSecond (pairOfVariants host lib r vs ps a a') := by
  unfold pairOfVariants
  dsimp only
  rw [show variantState (forget lib) = variantState lib from rfl,
    show (forget lib).rootSignature = lib.rootSignature from rfl,
    show r.plain.rootSignature = r.rootSignature from rfl]
  split
  · rfl
  split
  · rfl
  split
  · rfl
  · exact @buildPair_forget host { lib with rootSignature := true } r vs ps a a'

/-- So does the first request for a pair, which asks the shelf and the variants. -/
theorem firstPair_forget (r : PairRequest) :
    firstPair host (forget lib) r.plain = forgetSecond (firstPair host lib r) := by
  unfold firstPair
  rw [show find (forget lib) = find lib from rfl, show findPixel (forget lib) = findPixel lib from rfl,
    show pairEnabled (forget lib) = pairEnabled lib from rfl,
    show r.plain.vsHash = r.vsHash from rfl, show r.plain.psHash = r.psHash from rfl,
    show r.plain.around = r.around from rfl]
  cases find lib r.vsHash true with
  | none => rfl
  | some vs =>
      dsimp only
      by_cases hknown : r.psHash ≠ 0 ∧ findPixel lib r.psHash = none
      · rw [if_pos hknown, if_pos hknown]
        rfl
      rw [if_neg hknown, if_neg hknown]
      split
      · rfl
      · rw [ensurePair_forget]
        rcases ensurePair host r.around lib vs (findPixel lib r.psHash) with ⟨_ | p, lib'⟩
        · rfl
        · exact pairOfVariants_forget ..

/-- **One call.**  With the memo, a `FindPair` answers what it answers without, and leaves the
library it leaves without, but for the memo. -/
theorem findPair_forget (h : Invariant host lib) (r : PairRequest) :
    findPair host (forget lib) r.plain = forgetSecond (findPair host lib r) := by
  obtain ⟨-, hinv⟩ := reapCompiles_spec h
  unfold findPair
  dsimp only
  rw [reapCompiles_forget]
  generalize reapCompiles lib = lib at hinv ⊢
  rw [show r.plain.memoEnabled = false from rfl, if_neg Bool.false_ne_true,
    show r.plain.vsHash = r.vsHash from rfl, show r.plain.psHash = r.psHash from rfl,
    show (forget lib).pairs = lib.pairs from rfl, show (forget lib).loads = lib.loads from rfl,
    show checkPair (forget lib) = checkPair lib from rfl]
  dsimp only
  cases hmemo : if r.memoEnabled = true then memoFind lib r.vsHash r.psHash else none with
  | some ptr =>
      -- a hit: the pair of the memo is the one stored
      have hfound : memoFind lib r.vsHash r.psHash = some ptr := by
        split at hmemo
        · exact hmemo
        · cases hmemo
      obtain ⟨rfl, pair, hat, hpair⟩ := hinv.memoFind hfound
      rw [hpair]
      dsimp only
      rw [hat]
      dsimp only
      split
      next ptr hready => rw [hready]; rfl
      · rfl
  | none =>
      cases lib.pairs (pairKey r.vsHash r.psHash) with
      | none => exact firstPair_forget r
      | some pair =>
          dsimp only
          split
          next ptr hready =>
            rw [forgetSecond]
            dsimp only
            rw [publish_forget]
            rfl
          · rfl

/-! ### Histories -/

/-- The call with the switch off. -/
def Call.plain : Call → Call
  | .findPair r => .findPair r.plain
  | call => call

/-- What a call answers. -/
inductive Answer
  | lookup (answer : Lookup)
  | status (status : VariantStatus)
  | done
  deriving DecidableEq, Repr

def answer (host : Host) (lib : Library) : Call → Answer
  | .findPair r => .lookup (findPair host lib r).1
  | .requestNoAlphaTest around ptr => .status (requestNoAlphaTest host around lib ptr).1
  | _ => .done

/-- What a history shows: the answer of each call, and the library after it without its memo. -/
def transcript (host : Host) : Library → List Call → List (Answer × Library)
  | _, [] => []
  | lib, call :: calls =>
    (answer host lib call, forget (step host lib call)) :: transcript host (step host lib call) calls

/-- So does adopting a variant that was compiled meanwhile. -/
theorem adoptVariant_forget (around : Surroundings) (ps : ShaderPtr) :
    adoptVariant host around (forget lib) ps = forgetSecond (adoptVariant host around lib ps) := by
  unfold adoptVariant
  rw [show (forget lib).variants = lib.variants from rfl, show find (forget lib) = find lib from rfl,
    show compileAdmitted host (forget lib) = compileAdmitted host lib from rfl]
  split
  · rfl
  split
  · rfl
  split
  · exact ensureCompiled_forget ..
  · rfl

/-- So does finishing the variant without alpha test. -/
theorem finishNoAlphaTest_forget (ptr : PairPtr) (pair : Pair) (a : VariantPtr) :
    finishNoAlphaTest host (forget lib) ptr pair a =
      forgetSecond (finishNoAlphaTest host lib ptr pair a) := by
  unfold finishNoAlphaTest
  dsimp only
  rw [show variantState (forget lib) = variantState lib from rfl,
    show variantBlob (forget lib) = variantBlob lib from rfl]
  split
  · rfl
  split <;> rfl

/-- So does requesting the variant without alpha test. -/
theorem requestNoAlphaTest_forget (around : Surroundings) (ptr : PairPtr) :
    requestNoAlphaTest host around (forget lib) ptr =
      forgetSecond (requestNoAlphaTest host around lib ptr) := by
  unfold requestNoAlphaTest
  rw [show pairAt (forget lib) = pairAt lib from rfl]
  split
  · rfl
  split
  · rfl
  split
  · rfl
  split
  · rfl
  split
  · exact finishNoAlphaTest_forget ..
  · rw [adoptVariant_forget]
    rcases adoptVariant host around lib _ with ⟨_ | a, lib'⟩
    · rfl
    · exact finishNoAlphaTest_forget ..

/-- **One call answers alike with the memo and without it**, and leaves the same library apart from
the memo. -/
theorem step_forget (h : Invariant host lib) (call : Call) :
    answer host (forget lib) call.plain = answer host lib call ∧
      step host (forget lib) call.plain = forget (step host lib call) := by
  cases call with
  | load r => exact ⟨rfl, rfl⟩
  | findPair r =>
      have hcall := findPair_forget h r
      refine ⟨?_, congrArg Prod.snd hcall⟩
      show Answer.lookup (findPair host (forget lib) r.plain).1 = .lookup (findPair host lib r).1
      rw [hcall]
      rfl
  | requestNoAlphaTest around ptr =>
      have hcall := @requestNoAlphaTest_forget host lib around ptr
      refine ⟨?_, congrArg Prod.snd hcall⟩
      show Answer.status (requestNoAlphaTest host around (forget lib) ptr).1 =
        .status (requestNoAlphaTest host around lib ptr).1
      rw [hcall]
      rfl
  | jobEnds a outcome =>
      refine ⟨rfl, ?_⟩
      show jobEnds host (forget lib) a outcome = forget (jobEnds host lib a outcome)
      unfold jobEnds
      rw [show (forget lib).variants = lib.variants from rfl]
      split <;> rfl
  | pipelineFails ptr =>
      refine ⟨rfl, ?_⟩
      show pipelineFails (forget lib) ptr = forget (pipelineFails lib ptr)
      unfold pipelineFails
      rw [show pairAt (forget lib) = pairAt lib from rfl]
      split <;> rfl

/-- Two histories from libraries that differ in their memo. -/
theorem transcript_forget (h : Invariant host lib) (calls : List Call) :
    transcript host (forget lib) (calls.map Call.plain) = transcript host lib calls := by
  induction calls generalizing lib with
  | nil => rfl
  | cons call calls ih =>
      obtain ⟨hanswer, hstep⟩ := step_forget h call
      rw [List.map_cons, transcript, transcript, hanswer, hstep, ih (step_invariant h call)]
      rfl

/-- **The memo changes nothing.**  Whatever the switch is at each call of a history, every call
answers what it answers with the switch off, and leaves the same library: the same pairs, made of
the same shaders, and the same compiles, started and running. -/
theorem pairMemo_transparent (host : Host) (calls : List Call) :
    transcript host {} calls = transcript host {} (calls.map Call.plain) :=
  (transcript_forget (init_invariant host) calls).symm

end ShaderLibrary
end BoltsRebuilt
