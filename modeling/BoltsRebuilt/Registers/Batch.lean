/-
# Batched register writes

src/src/gpu/vendored/src/graphics/d3d12/command_processor.cpp, lines 2268–2348, against
the loop of single writes.

A run of writes to constants has one effect, said for all blocks at once (`effect`): the
values are copied, and a flag falls, a fetch constant is noted or a vertex buffer goes
out of sync if one of the registers asks for it.  The loop has this effect by induction
(`loop_eq_effect`), and the range writer has it in each block, where it looks at the
first and the last constant only (`writeRegistersFromMem_eq`).  With a ring buffer that
wraps where it may, a type-0 packet does the same either way (`type0_batch_exact`).
-/

import BoltsRebuilt.Registers.Writes
import BoltsRebuilt.Texture.ResolvedPages

namespace BoltsRebuilt
namespace Registers

variable {σ ρ : Type} {env : Environment σ ρ}

/-! ### What a constant asks for -/

def InFloats (index : ℕ) : Prop := constant000X ≤ index ∧ index ≤ constant511W

def InBoolLoop (index : ℕ) : Prop := bool000031 ≤ index ∧ index ≤ loop31

def InFetch (index : ℕ) : Prop := fetch000 ≤ index ∧ index ≤ fetch315

instance (index : ℕ) : Decidable (InFloats index) := inferInstanceAs (Decidable (_ ∧ _))
instance (index : ℕ) : Decidable (InBoolLoop index) := inferInstanceAs (Decidable (_ ∧ _))
instance (index : ℕ) : Decidable (InFetch index) := inferInstanceAs (Decidable (_ ∧ _))

/-- A register of one of the blocks of constants. -/
def IsConstant (index : ℕ) : Prop := InFloats index ∨ InBoolLoop index ∨ InFetch index

/-- The float constant of a register. -/
def floatConstant (index : ℕ) : ℕ := (index - constant000X) >>> 2

/-- A write that makes the vertex float constants stale. -/
def TouchesVertex (p : Processor σ) (index : ℕ) : Prop :=
  InFloats index ∧ p.frameOpen = true ∧ floatConstant index < 256 ∧
    used p.floatConstantMapVertex (floatConstant index) = true

/-- A write that makes the pixel float constants stale. -/
def TouchesPixel (p : Processor σ) (index : ℕ) : Prop :=
  InFloats index ∧ p.frameOpen = true ∧ 256 ≤ floatConstant index ∧
    used p.floatConstantMapPixel (floatConstant index - 256) = true

/-- A write the texture cache is notified of. -/
def TouchesTexture (p : Processor σ) (index constant : ℕ) : Prop :=
  InFetch index ∧ p.hasTextureCache = true ∧ (index - fetch000) / 6 = constant

/-- A write that invalidates a vertex buffer. -/
def TouchesVertexBuffer (env : Environment σ ρ) (index vfetch : ℕ) : Prop :=
  InFetch index ∧ vfetch < env.vertexBufferStates ∧ (index - fetch000) / 2 = vfetch

instance (p : Processor σ) (index : ℕ) : Decidable (TouchesVertex p index) :=
  inferInstanceAs (Decidable (_ ∧ _ ∧ _ ∧ _))
instance (p : Processor σ) (index : ℕ) : Decidable (TouchesPixel p index) :=
  inferInstanceAs (Decidable (_ ∧ _ ∧ _ ∧ _))
instance (p : Processor σ) (index constant : ℕ) : Decidable (TouchesTexture p index constant) :=
  inferInstanceAs (Decidable (_ ∧ _ ∧ _))
instance (index vfetch : ℕ) : Decidable (TouchesVertexBuffer env index vfetch) :=
  inferInstanceAs (Decidable (_ ∧ _ ∧ _))

/-- The effect of `n` writes from `start` on, with data that does not change meanwhile. -/
def effect (env : Environment σ ρ) (p : Processor σ) (start : ℕ) (data : ℕ → BitVec 32) (n : ℕ) :
    Processor σ :=
  { p with
    values := fun i => if start ≤ i ∧ i < start + n then data (i - start) else p.values i
    floatVertexUpToDate := p.floatVertexUpToDate && !decide (∃ i < n, TouchesVertex p (start + i))
    floatPixelUpToDate := p.floatPixelUpToDate && !decide (∃ i < n, TouchesPixel p (start + i))
    boolLoopUpToDate := p.boolLoopUpToDate && !decide (∃ i < n, InBoolLoop (start + i))
    fetchUpToDate := p.fetchUpToDate && !decide (∃ i < n, InFetch (start + i))
    textureFetchConstantsWritten := fun constant =>
      p.textureFetchConstantsWritten constant || decide (∃ i < n, TouchesTexture p (start + i) constant)
    vertexBuffersInSync := fun vfetch =>
      p.vertexBuffersInSync vfetch && !decide (∃ i < n, TouchesVertexBuffer env (start + i) vfetch) }

/-- What the environment is relied on for. -/
structure Environment.Documented (env : Environment σ ρ) : Prop where
  /-- The constants are registers of the file. -/
  constants : loop31 < env.registerCount
  /-- They are not among the registers with further effects. -/
  special : ∀ index value s, IsConstant index → env.special index value s = s
  /-- A range is in one part or in two, of whole words, where single reads would find them. -/
  beginRead : ∀ ring n, 0 < n → n * 4 ≤ env.readCount ring → ∃ a b, a + b = n ∧
    (env.beginRead ring (n * 4)).firstLength = a * 4 ∧ (env.beginRead ring (n * 4)).secondLength = b * 4 ∧
    (∀ i < a, env.address (env.advance^[i] ring) = (env.beginRead ring (n * 4)).first + 4 * i) ∧
    ∀ i < b, env.address (env.advance^[a + i] ring) = (env.beginRead ring (n * 4)).second + 4 * i
  /-- It leaves the reader where single reads would. -/
  endRead : ∀ ring n, 0 < n → n * 4 ≤ env.readCount ring →
    env.endRead ring (env.beginRead ring (n * 4)) = env.advance^[n] ring

/-- No writes have no effect on the processor. -/
theorem effect_zero (p : Processor σ) (start : ℕ) (data : ℕ → BitVec 32) : effect env p start data 0 = p := by
  have hvalues : (fun i => if start ≤ i ∧ i < start + 0 then data (i - start) else p.values i) = p.values := by
    funext i
    exact if_neg (by omega)
  rw [effect, hvalues]
  simp

/-! ### The loop -/

/-- A bool or loop constant is no float constant. -/
theorem not_inFloats_of_inBoolLoop {index : ℕ} (h : InBoolLoop index) : ¬InFloats index := fun h' => by
  simp only [InFloats, InBoolLoop, constant511W, bool000031] at h h'
  omega

/-- A fetch constant is no float constant. -/
theorem not_inFloats_of_inFetch {index : ℕ} (h : InFetch index) : ¬InFloats index := fun h' => by
  simp only [InFloats, InFetch, constant511W, fetch000] at h h'
  omega

/-- A fetch constant is no bool or loop constant. -/
theorem not_inBoolLoop_of_inFetch {index : ℕ} (h : InFetch index) : ¬InBoolLoop index := fun h' => by
  simp only [InBoolLoop, InFetch, bool000031, fetch315] at h h'
  omega

/-- What is noted of a write to a constant. -/
theorem noteRegister_constant {index : ℕ} (h : IsConstant index) (p : Processor σ) :
    noteRegister env p index =
      { p with
        floatVertexUpToDate := p.floatVertexUpToDate && !decide (TouchesVertex p index)
        floatPixelUpToDate := p.floatPixelUpToDate && !decide (TouchesPixel p index)
        boolLoopUpToDate := p.boolLoopUpToDate && !decide (InBoolLoop index)
        fetchUpToDate := p.fetchUpToDate && !decide (InFetch index)
        textureFetchConstantsWritten := fun constant =>
          p.textureFetchConstantsWritten constant || decide (TouchesTexture p index constant)
        vertexBuffersInSync := fun vfetch =>
          p.vertexBuffersInSync vfetch && !decide (TouchesVertexBuffer env index vfetch) } := by
  rw [noteRegister]
  obtain ⟨values, extended, rest, frameOpen, mapVertex, mapPixel, vertex, pixel, boolLoop, fetch, hasCache,
    written, inSync⟩ := p
  rcases h with hfloat | hbool | hfetch
  · have hbool : ¬InBoolLoop index := fun h => not_inFloats_of_inBoolLoop h hfloat
    have hfetch : ¬InFetch index := fun h => not_inFloats_of_inFetch h hfloat
    rw [if_pos (show index ≥ constant000X ∧ index ≤ constant511W from hfloat)]
    simp only [TouchesVertex, TouchesPixel, TouchesTexture, TouchesVertexBuffer, hfloat, hbool, hfetch,
      floatConstant, true_and, false_and, decide_false, Bool.not_false, Bool.and_true, Bool.or_false]
    cases frameOpen with
    | false => simp
    | true =>
        by_cases hpixel : (index - constant000X) >>> 2 ≥ 256
        · have hvertex : ¬(index - constant000X) >>> 2 < 256 := Nat.not_lt.2 hpixel
          simp only [hpixel, hvertex, true_and, false_and, decide_false, Bool.not_false, Bool.and_true, if_true]
          split
          next hused => simp [hused]
          next hused => simp [hused]
        · have hvertex : (index - constant000X) >>> 2 < 256 := Nat.not_le.1 hpixel
          simp only [hpixel, hvertex, true_and, false_and, decide_false, Bool.not_false, Bool.and_true, if_true,
            if_false]
          split
          next hused => simp [hused]
          next hused => simp [hused]
  · have hfloat := not_inFloats_of_inBoolLoop hbool
    have hfetch : ¬InFetch index := fun h => not_inBoolLoop_of_inFetch h hbool
    rw [if_neg (show ¬(index ≥ constant000X ∧ index ≤ constant511W) from hfloat),
      if_pos (show index ≥ bool000031 ∧ index ≤ loop31 from hbool)]
    simp [TouchesVertex, TouchesPixel, TouchesTexture, TouchesVertexBuffer, hfloat, hbool, hfetch]
  · have hfloat := not_inFloats_of_inFetch hfetch
    have hbool := not_inBoolLoop_of_inFetch hfetch
    rw [if_neg (show ¬(index ≥ constant000X ∧ index ≤ constant511W) from hfloat),
      if_neg (show ¬(index ≥ bool000031 ∧ index ≤ loop31) from hbool),
      if_pos (show index ≥ fetch000 ∧ index ≤ fetch315 from hfetch)]
    have hwritten : (fun constant => written constant || decide ((index - fetch000) / 6 = constant)) =
        Function.update written ((index - fetch000) / 6) true := by
      funext constant
      by_cases h : constant = (index - fetch000) / 6
      · rw [h, Function.update_self, decide_eq_true rfl, Bool.or_true]
      · rw [Function.update_of_ne h, decide_eq_false (Ne.symm h), Bool.or_false]
    have hinSync : (fun vfetch => inSync vfetch && !decide (vfetch < env.vertexBufferStates ∧
          (index - fetch000) / 2 = vfetch)) =
        if (index - fetch000) / 2 ≥ env.vertexBufferStates then inSync
        else Function.update inSync ((index - fetch000) / 2) false := by
      funext vfetch
      split
      next h =>
        rw [decide_eq_false (by omega), Bool.not_false, Bool.and_true]
      next h =>
        by_cases hv : vfetch = (index - fetch000) / 2
        · rw [hv, Function.update_self, decide_eq_true ⟨Nat.not_le.1 h, rfl⟩, Bool.not_true, Bool.and_false]
        · rw [Function.update_of_ne hv, decide_eq_false (fun h' => hv h'.2.symm), Bool.not_false,
            Bool.and_true]
    simp only [TouchesVertex, TouchesPixel, TouchesTexture, TouchesVertexBuffer, hfloat, hbool, hfetch,
      false_and, true_and, decide_false, decide_true, Bool.not_false, Bool.not_true, Bool.and_true,
      Bool.and_false, hinSync, invalidateVertexBufferResidency, textureFetchConstantWritten]
    cases hasCache with
    | false =>
        simp only [Bool.false_eq_true, if_false, false_and, decide_false, Bool.or_false]
        split <;> rfl
    | true =>
        simp only [if_true, true_and, hwritten]
        split <;> rfl

section Loop

variable (henv : env.Documented)

include henv

/-- Every constant's index is inside the register file. -/
theorem registerCount_of_constant {index : ℕ} (h : IsConstant index) : ¬index ≥ env.registerCount := by
  have hcount := henv.constants
  simp only [IsConstant, InFloats, InBoolLoop, InFetch, constant000X, constant511W, bool000031, loop31,
    fetch000, fetch315] at h hcount
  omega

/-- The store of a constant writes its value and marks what depends on it; no special register is
among the constants. -/
theorem baseWriteRegister_constant {index : ℕ} (h : IsConstant index) (p : Processor σ) (value : BitVec 32) :
    baseWriteRegister env p index value = { p with values := Function.update p.values index value } := by
  rw [baseWriteRegister, if_neg (registerCount_of_constant henv h), henv.special _ _ _ h]

/-- One write more, made after the others, adds its own register's effect. -/
theorem effect_succ {p : Processor σ} {start n : ℕ} {data : ℕ → BitVec 32} (h : IsConstant (start + n)) :
    writeRegister env (effect env p start data n) (start + n) (data n) = effect env p start data (n + 1) := by
  have hvalues : (Function.update (effect env p start data n).values (start + n) (data n)) =
      (effect env p start data (n + 1)).values := by
    funext i
    simp only [effect]
    by_cases hi : i = start + n
    · rw [hi, Function.update_self, if_pos ⟨by omega, by omega⟩]
      congr 1
      omega
    · rw [Function.update_of_ne hi]
      by_cases hin : start ≤ i ∧ i < start + n
      · rw [if_pos hin, if_pos ⟨hin.1, by omega⟩]
      · rw [if_neg hin, if_neg fun h => hin ⟨h.1, by omega⟩]
  rw [writeRegister, baseWriteRegister_constant henv h, noteRegister_constant h, hvalues]
  simp only [effect, Nat.exists_lt_succ_right, Bool.decide_or, Bool.not_or, Bool.and_assoc, Bool.or_assoc]
  rfl

/-- **The loop over constants has the effect** of its writes taken together, by induction on how
many they are. -/
theorem loop_eq_effect (p : Processor σ) {start n : ℕ} (base : ℕ) (h : ∀ i < n, IsConstant (start + i)) :
    baseWriteRegistersFromMem env p start base n =
      effect env p start (fun i => env.loadAndSwap p.rest (base + 4 * i)) n := by
  induction n with
  | zero => exact (effect_zero p start _).symm
  | succ n ih =>
      have ih := ih fun i hi => h i (Nat.lt_succ_of_lt hi)
      rw [baseWriteRegistersFromMem] at ih ⊢
      rw [List.range_succ, List.foldl_append, ih, List.foldl_cons, List.foldl_nil]
      exact effect_succ henv (h n (Nat.lt_succ_self n))

end Loop

/-! ### Usage maps -/

/-- Two 64-bit masks meet when they have a bit in common. -/
theorem and_ne_zero_iff {x mask : BitVec 64} :
    x &&& mask ≠ 0 ↔ ∃ j < 64, x.getLsbD j = true ∧ mask.getLsbD j = true := by
  constructor
  · intro h
    by_contra hnone
    refine h (BitVec.eq_of_getLsbD_eq fun j hj => ?_)
    rw [BitVec.getLsbD_and]
    cases hx : x.getLsbD j with
    | false => rw [Bool.false_and]; exact (BitVec.getLsbD_zero).symm
    | true =>
        cases hmask : mask.getLsbD j with
        | false => rw [Bool.and_false]; exact (BitVec.getLsbD_zero).symm
        | true => exact absurd ⟨j, hj, hx, hmask⟩ hnone
  · rintro ⟨j, -, hx, hmask⟩ hzero
    have hbit := congrArg (fun v : BitVec 64 => v.getLsbD j) hzero
    simp only [BitVec.getLsbD_and, hx, hmask, Bool.and_self] at hbit
    exact absurd hbit (by simp)

/-- A bit of a usage map says that the constant is used. -/
theorem used_iff {usageMap : ℕ → BitVec 64} {constant : ℕ} :
    used usageMap constant = true ↔ (usageMap (constant / 64)).getLsbD (constant % 64) = true := by
  have hmod : constant % 64 < 64 := Nat.mod_lt _ (by decide)
  rw [used, decide_eq_true_eq, and_ne_zero_iff, Nat.shiftRight_eq_div_pow]
  constructor
  · rintro ⟨j, hj, hx, hmask⟩
    rw [BitVec.getLsbD_shiftLeft, Bool.and_eq_true, BitVec.getLsbD_one] at hmask
    simp only [Bool.and_eq_true, Bool.not_eq_true', decide_eq_true_eq, decide_eq_false_iff_not] at hmask
    rwa [show j = constant % 64 by omega] at hx
  · intro h
    refine ⟨constant % 64, hmod, h, ?_⟩
    rw [BitVec.getLsbD_shiftLeft, BitVec.getLsbD_one]
    simp [hmod]

/-- The words and the bits of a range of constants. -/
theorem exists_used_iff {usageMap : ℕ → BitVec 64} {first last : ℕ} :
    (∃ c, first ≤ c ∧ c ≤ last ∧ used usageMap c = true) ↔
      ∃ word, ∃ j < 64, (usageMap word).getLsbD j = true ∧ first ≤ word * 64 + j ∧ word * 64 + j ≤ last := by
  constructor
  · rintro ⟨c, hfirst, hlast, hc⟩
    refine ⟨c / 64, c % 64, Nat.mod_lt _ (by decide), used_iff.1 hc, ?_, ?_⟩ <;> rwa [Nat.div_add_mod']
  · rintro ⟨word, j, hj, hbit, hfirst, hlast⟩
    refine ⟨word * 64 + j, hfirst, hlast, used_iff.2 ?_⟩
    rwa [show (word * 64 + j) / 64 = word by omega, show (word * 64 + j) % 64 = j by omega]

section Masks

open TextureCache (bitsBelow getLsbD_bitsBelow)

variable {j : ℕ}

/-- The mask within one word has the bits from the first to the last. -/
theorem getLsbD_wordMask {firstBit lastBit : ℕ} (hle : firstBit ≤ lastBit) (hlast : lastBit < 64)
    (hj : j < 64) :
    (if lastBit - firstBit + 1 = 64 then BitVec.allOnes 64
      else ((1#64 <<< (lastBit - firstBit + 1)) - 1#64) <<< firstBit).getLsbD j =
        decide (firstBit ≤ j ∧ j ≤ lastBit) := by
  split
  next hfull => rw [BitVec.getLsbD_allOnes, decide_eq_decide]; omega
  next hfull =>
    have hbelow := @getLsbD_bitsBelow 64 (lastBit - firstBit + 1) (j - firstBit) (by omega)
    rw [bitsBelow] at hbelow
    rw [BitVec.getLsbD_shiftLeft, hbelow, decide_eq_true hj, Bool.true_and, ← decide_not,
      ← Bool.decide_and, decide_eq_decide]
    omega

/-- The mask of the first of several words has the bits from the first on. -/
theorem getLsbD_firstMask {firstBit : ℕ} (hj : j < 64) :
    (BitVec.allOnes 64 <<< firstBit).getLsbD j = decide (firstBit ≤ j) := by
  rw [BitVec.getLsbD_shiftLeft, BitVec.getLsbD_allOnes, decide_eq_true hj, Bool.true_and, ← decide_not,
    ← Bool.decide_and, decide_eq_decide]
  omega

/-- The mask of the last of several words has the bits up to the last. -/
theorem getLsbD_lastMask {lastBit : ℕ} (hlast : lastBit < 64) (hj : j < 64) :
    (if lastBit = 63 then BitVec.allOnes 64 else (1#64 <<< (lastBit + 1)) - 1#64).getLsbD j =
      decide (j ≤ lastBit) := by
  split
  next hfull => rw [BitVec.getLsbD_allOnes, decide_eq_decide]; omega
  next hfull =>
    have hbelow := @getLsbD_bitsBelow 64 (lastBit + 1) j (by omega)
    rw [bitsBelow] at hbelow
    rw [hbelow, decide_eq_decide]
    omega

/-- A word between the first and the last is looked at as a whole. -/
theorem any_words_iff {usageMap : ℕ → BitVec 64} {firstWord lastWord : ℕ} :
    ((List.range' (firstWord + 1) (lastWord - (firstWord + 1))).any fun word => usageMap word ≠ 0) = true ↔
      ∃ word, firstWord < word ∧ word < lastWord ∧ ∃ j < 64, (usageMap word).getLsbD j = true := by
  rw [List.any_eq_true]
  refine exists_congr fun word => ?_
  have hnonzero := @and_ne_zero_iff (usageMap word) (BitVec.allOnes 64)
  rw [BitVec.and_allOnes] at hnonzero
  rw [List.mem_range'_1, decide_eq_true_eq, hnonzero]
  constructor
  · rintro ⟨⟨hfrom, hto⟩, j, hj, hbit, -⟩
    exact ⟨by omega, by omega, j, hj, hbit⟩
  · rintro ⟨hfrom, hto, j, hj, hbit⟩
    exact ⟨⟨by omega, by omega⟩, j, hj, hbit, by rw [BitVec.getLsbD_allOnes, decide_eq_true hj]⟩

end Masks

/-- **The range test finds a constant that is used.** -/
theorem rangeHasAnyConstantUsage_iff {usageMap : ℕ → BitVec 64} {first last : ℕ} (h : first ≤ last) :
    rangeHasAnyConstantUsage usageMap first last = true ↔
      ∃ c, first ≤ c ∧ c ≤ last ∧ used usageMap c = true := by
  have hshift : ∀ n : ℕ, n >>> 6 = n / 64 := fun n => Nat.shiftRight_eq_div_pow n 6
  have hfirst := Nat.div_add_mod first 64
  have hlast := Nat.div_add_mod last 64
  have hfirstBit : first % 64 < 64 := Nat.mod_lt _ (by decide)
  have hlastBit : last % 64 < 64 := Nat.mod_lt _ (by decide)
  rw [exists_used_iff, rangeHasAnyConstantUsage, if_neg (Nat.not_lt.2 h), hshift, hshift]
  dsimp only
  generalize hfw : first / 64 = firstWord at *
  generalize hlw : last / 64 = lastWord at *
  generalize hfb : first % 64 = firstBit at *
  generalize hlb : last % 64 = lastBit at *
  by_cases hword : firstWord = lastWord
  · -- one word: the mask has the bits from the first to the last
    have hbits : firstBit ≤ lastBit := by omega
    rw [if_pos hword, decide_eq_true_eq, and_ne_zero_iff]
    constructor
    · rintro ⟨j, hj, hbit, hm⟩
      rw [getLsbD_wordMask hbits hlastBit hj, decide_eq_true_eq] at hm
      exact ⟨firstWord, j, hj, hbit, by omega, by omega⟩
    · rintro ⟨word, j, hj, hbit, hlow, hhigh⟩
      obtain rfl : word = firstWord := by omega
      refine ⟨j, hj, hbit, ?_⟩
      rw [getLsbD_wordMask hbits hlastBit hj, decide_eq_true_eq]
      omega
  · have hchain : ∀ {a b c : Prop} [Decidable a] [Decidable b] [Decidable c],
        (if a then true else if b then true else decide c) = true ↔ a ∨ b ∨ c := by
      intro a b c _ _ _
      by_cases ha : a <;> by_cases hb : b <;> simp [ha, hb]
    rw [if_neg hword, hchain, any_words_iff, and_ne_zero_iff, and_ne_zero_iff]
    constructor
    · rintro (⟨j, hj, hbit, hm⟩ | ⟨word, hfrom, hto, j, hj, hbit⟩ | ⟨j, hj, hbit, hm⟩)
      · rw [getLsbD_firstMask hj, decide_eq_true_eq] at hm
        exact ⟨firstWord, j, hj, hbit, by omega, by omega⟩
      · exact ⟨word, j, hj, hbit, by omega, by omega⟩
      · rw [getLsbD_lastMask hlastBit hj, decide_eq_true_eq] at hm
        exact ⟨lastWord, j, hj, hbit, by omega, by omega⟩
    · rintro ⟨word, j, hj, hbit, hfrom, hto⟩
      rcases Nat.lt_trichotomy word firstWord with hlt | rfl | hgt
      · omega
      · refine .inl ⟨j, hj, hbit, ?_⟩
        rw [getLsbD_firstMask hj, decide_eq_true_eq]
        omega
      · rcases Nat.lt_trichotomy word lastWord with hlt | rfl | hgt'
        · exact .inr (.inl ⟨word, hgt, hlt, j, hj, hbit⟩)
        · refine .inr (.inr ⟨j, hj, hbit, ?_⟩)
          rw [getLsbD_lastMask hlastBit hj, decide_eq_true_eq]
          omega
        · omega

/-! ### The range writer in each block -/

/-- The constants of a run of registers, `width` registers each: all from the first to the last. -/
theorem exists_div_iff {start n width c : ℕ} (hn : 0 < n) (hwidth : 0 < width) :
    (∃ i < n, (start + i) / width = c) ↔ start / width ≤ c ∧ c ≤ (start + n - 1) / width := by
  constructor
  · rintro ⟨i, hi, rfl⟩
    exact ⟨Nat.div_le_div_right (by omega), Nat.div_le_div_right (by omega)⟩
  · rintro ⟨hfirst, hlast⟩
    have hlow : c * width ≤ start + n - 1 := (Nat.le_div_iff_mul_le hwidth).1 hlast
    by_cases hc : start ≤ c * width
    · refine ⟨c * width - start, by omega, ?_⟩
      rw [Nat.add_sub_cancel' hc, Nat.mul_div_cancel _ hwidth]
    · refine ⟨0, hn, Nat.le_antisymm hfirst ?_⟩
      exact (Nat.le_div_iff_mul_le hwidth).2 (by omega)

/-- The float constants that a range of registers touches are those from its first register's to its
last's, four registers to each. -/
theorem exists_floatConstant_iff {start n c : ℕ} (hn : 0 < n) (hstart : constant000X ≤ start) :
    (∃ i < n, floatConstant (start + i) = c) ↔
      floatConstant start ≤ c ∧ c ≤ floatConstant (start + n - 1) := by
  have hshift : ∀ index, floatConstant index = (index - constant000X) / 4 := fun index =>
    Nat.shiftRight_eq_div_pow _ 2
  have hrun := @exists_div_iff (start - constant000X) n 4 c hn (by decide)
  simp only [hshift]
  rw [show start + n - 1 - constant000X = start - constant000X + n - 1 by omega, ← hrun]
  refine exists_congr fun i => and_congr_right fun _ => ?_
  rw [show start + i - constant000X = start - constant000X + i by omega]

/-- The callback on a range of float constants clears the vertex and the pixel binding, each when
the range meets its half of the file. -/
theorem floatConstantsWritten_eq (p : Processor σ) (first last : ℕ) :
    floatConstantsWritten p first last =
      { p with
        floatVertexUpToDate := p.floatVertexUpToDate && !decide (first < 256 ∧
          rangeHasAnyConstantUsage p.floatConstantMapVertex first (min last 255) = true)
        floatPixelUpToDate := p.floatPixelUpToDate && !decide (last ≥ 256 ∧
          rangeHasAnyConstantUsage p.floatConstantMapPixel (if first ≥ 256 then first - 256 else 0)
            (last - 256) = true) } := by
  obtain ⟨values, extended, rest, frameOpen, mapVertex, mapPixel, vertex, pixel, boolLoop, fetch, hasCache,
    written, inSync⟩ := p
  rw [floatConstantsWritten]
  dsimp only
  by_cases hvertex : first < 256 ∧ rangeHasAnyConstantUsage mapVertex first (min last 255) = true <;>
    by_cases hpixel : last ≥ 256 ∧ rangeHasAnyConstantUsage mapPixel
      (if first ≥ 256 then first - 256 else 0) (last - 256) = true
  · rw [if_pos hvertex, decide_eq_true hvertex, if_pos hpixel, decide_eq_true hpixel]
    simp only [Bool.not_true, Bool.and_false]
  · rw [if_pos hvertex, decide_eq_true hvertex, if_neg hpixel, decide_eq_false hpixel]
    simp only [Bool.not_true, Bool.and_false, Bool.not_false, Bool.and_true]
  · rw [if_neg hvertex, decide_eq_false hvertex, if_pos hpixel, decide_eq_true hpixel]
    simp only [Bool.not_true, Bool.and_false, Bool.not_false, Bool.and_true]
  · rw [if_neg hvertex, decide_eq_false hvertex, if_neg hpixel, decide_eq_false hpixel]
    simp only [Bool.not_false, Bool.and_true]

section Blocks

variable {p : Processor σ} {start base n : ℕ}

/-- Some register of a range touches a vertex constant in use exactly when the range's usage test,
clipped to the vertex half, says so. -/
theorem touchesVertex_iff (hn : 0 < n) (hstart : constant000X ≤ start) (hend : start + n - 1 ≤ constant511W) :
    (∃ i < n, TouchesVertex p (start + i)) ↔ p.frameOpen = true ∧ floatConstant start < 256 ∧
      rangeHasAnyConstantUsage p.floatConstantMapVertex (floatConstant start)
        (min (floatConstant (start + n - 1)) 255) = true := by
  have hrun : ∀ c, _ := fun c => @exists_floatConstant_iff start n c hn hstart
  have hordered : floatConstant start ≤ floatConstant (start + n - 1) :=
    ((hrun (floatConstant (start + 0))).1 ⟨0, hn, rfl⟩).2
  constructor
  · rintro ⟨i, hi, -, hframe, hlt, hused⟩
    obtain ⟨hfirst, hlast⟩ := (hrun _).1 ⟨i, hi, rfl⟩
    have hfirst256 : floatConstant start < 256 := Nat.lt_of_le_of_lt hfirst hlt
    refine ⟨hframe, hfirst256, (rangeHasAnyConstantUsage_iff (by omega)).2 ⟨_, hfirst, ?_, hused⟩⟩
    omega
  · rintro ⟨hframe, hlt, hrange⟩
    obtain ⟨c, hfirst, hlast, hused⟩ := (rangeHasAnyConstantUsage_iff (by omega)).1 hrange
    obtain ⟨i, hi, rfl⟩ := (hrun c).2 ⟨hfirst, by omega⟩
    exact ⟨i, hi, ⟨by omega, by omega⟩, hframe, by omega, hused⟩

/-- And likewise for the pixel half, whose constants are counted from 256. -/
theorem touchesPixel_iff (hn : 0 < n) (hstart : constant000X ≤ start) (hend : start + n - 1 ≤ constant511W) :
    (∃ i < n, TouchesPixel p (start + i)) ↔ p.frameOpen = true ∧ floatConstant (start + n - 1) ≥ 256 ∧
      rangeHasAnyConstantUsage p.floatConstantMapPixel
        (if floatConstant start ≥ 256 then floatConstant start - 256 else 0)
        (floatConstant (start + n - 1) - 256) = true := by
  have hrun : ∀ c, _ := fun c => @exists_floatConstant_iff start n c hn hstart
  have hordered : floatConstant start ≤ floatConstant (start + n - 1) :=
    ((hrun (floatConstant (start + 0))).1 ⟨0, hn, rfl⟩).2
  have hfrom : (if floatConstant start ≥ 256 then floatConstant start - 256 else 0) =
      floatConstant start - 256 := by
    split <;> omega
  rw [hfrom]
  constructor
  · rintro ⟨i, hi, -, hframe, hge, hused⟩
    obtain ⟨hfirst, hlast⟩ := (hrun _).1 ⟨i, hi, rfl⟩
    refine ⟨hframe, Nat.le_trans hge hlast, (rangeHasAnyConstantUsage_iff (by omega)).2 ⟨_, ?_, ?_, hused⟩⟩
    · omega
    · omega
  · rintro ⟨hframe, hge, hrange⟩
    obtain ⟨c, hfirst, hlast, hused⟩ := (rangeHasAnyConstantUsage_iff (by omega)).1 hrange
    obtain ⟨i, hi, hc⟩ := (hrun (c + 256)).2 ⟨by omega, by omega⟩
    refine ⟨i, hi, ⟨by omega, by omega⟩, hframe, by omega, ?_⟩
    rwa [hc, Nat.add_sub_cancel]

/-- A block of the register file that a run stays out of has none of the run's registers. -/
theorem not_exists_of_forall_not {P : ℕ → Prop} (h : ∀ i < n, ¬P i) : ¬∃ i < n, P i :=
  fun ⟨i, hi, hP⟩ => h i hi hP

/-- **A range of float constants written at once has the effect of its registers written one by
one.** -/
theorem floats_eq_effect (hn : 0 < n) (hstart : constant000X ≤ start) (hend : start + n - 1 ≤ constant511W) :
    writeRegistersFromMem env p start base n =
      effect env p start (fun i => env.loadAndSwap p.rest (base + 4 * i)) n := by
  have hin : ∀ i < n, InFloats (start + i) := fun i hi => ⟨by omega, by omega⟩
  have hbool : ¬∃ i < n, InBoolLoop (start + i) :=
    not_exists_of_forall_not fun i hi h => not_inFloats_of_inBoolLoop h (hin i hi)
  have hfetch : ¬∃ i < n, InFetch (start + i) :=
    not_exists_of_forall_not fun i hi h => not_inFloats_of_inFetch h (hin i hi)
  have htexture : ∀ constant, ¬∃ i < n, TouchesTexture p (start + i) constant := fun constant =>
    not_exists_of_forall_not fun i hi h => not_inFloats_of_inFetch h.1 (hin i hi)
  have hbuffer : ∀ vfetch, ¬∃ i < n, TouchesVertexBuffer env (start + i) vfetch := fun vfetch =>
    not_exists_of_forall_not fun i hi h => not_inFloats_of_inFetch h.1 (hin i hi)
  rw [writeRegistersFromMem, if_neg (Nat.ne_of_gt hn)]
  dsimp only
  rw [if_pos ⟨hstart, hend⟩, effect]
  simp only [touchesVertex_iff hn hstart hend, touchesPixel_iff hn hstart hend, hbool, hfetch, htexture, hbuffer,
    decide_false, Bool.not_false, Bool.and_true, Bool.or_false]
  rw [show (copyAndSwap env p start base n).frameOpen = p.frameOpen from rfl]
  obtain ⟨values, extended, rest, frameOpen, mapVertex, mapPixel, vertex, pixel, boolLoop, fetch, hasCache,
    written, inSync⟩ := p
  cases frameOpen with
  | false => simp [copyAndSwap]
  | true =>
      rw [if_pos rfl, floatConstantsWritten_eq]
      simp only [true_and]
      rfl

/-- The same for a range of bool and loop constants. -/
theorem boolLoop_eq_effect (hn : 0 < n) (hstart : bool000031 ≤ start) (hend : start + n - 1 ≤ loop31) :
    writeRegistersFromMem env p start base n =
      effect env p start (fun i => env.loadAndSwap p.rest (base + 4 * i)) n := by
  have hin : ∀ i < n, InBoolLoop (start + i) := fun i hi => ⟨by omega, by omega⟩
  have hbool : ∃ i < n, InBoolLoop (start + i) := ⟨0, hn, hin 0 hn⟩
  have hfetch : ¬∃ i < n, InFetch (start + i) :=
    not_exists_of_forall_not fun i hi h => not_inBoolLoop_of_inFetch h (hin i hi)
  have hvertex : ¬∃ i < n, TouchesVertex p (start + i) :=
    not_exists_of_forall_not fun i hi h => not_inFloats_of_inBoolLoop (hin i hi) h.1
  have hpixel : ¬∃ i < n, TouchesPixel p (start + i) :=
    not_exists_of_forall_not fun i hi h => not_inFloats_of_inBoolLoop (hin i hi) h.1
  have htexture : ∀ constant, ¬∃ i < n, TouchesTexture p (start + i) constant := fun constant =>
    not_exists_of_forall_not fun i hi h => not_inBoolLoop_of_inFetch h.1 (hin i hi)
  have hbuffer : ∀ vfetch, ¬∃ i < n, TouchesVertexBuffer env (start + i) vfetch := fun vfetch =>
    not_exists_of_forall_not fun i hi h => not_inBoolLoop_of_inFetch h.1 (hin i hi)
  have hfloats : ¬(start ≥ constant000X ∧ start + n - 1 ≤ constant511W) := fun h =>
    not_inFloats_of_inBoolLoop (hin 0 hn) ⟨h.1, by omega⟩
  rw [writeRegistersFromMem, if_neg (Nat.ne_of_gt hn)]
  dsimp only
  rw [if_neg hfloats, if_pos ⟨hstart, hend⟩, effect]
  simp only [hvertex, hpixel, hbool, hfetch, htexture, hbuffer, decide_false, decide_true, Bool.not_false,
    Bool.not_true, Bool.and_true, Bool.and_false, Bool.or_false]
  rfl

/-- The loop over vertex fetch slots clears a bit for each. -/
theorem invalidate_foldl (p : Processor σ) (first count : ℕ) :
    (List.range' first count).foldl (invalidateVertexBufferResidency env) p =
      { p with vertexBuffersInSync := fun vfetch => p.vertexBuffersInSync vfetch &&
          !decide (vfetch < env.vertexBufferStates ∧ first ≤ vfetch ∧ vfetch < first + count) } := by
  induction count with
  | zero =>
      have hnone : ∀ vfetch, ¬(vfetch < env.vertexBufferStates ∧ first ≤ vfetch ∧ vfetch < first + 0) :=
        fun vfetch h => by omega
      simp only [List.range'_zero, List.foldl_nil, hnone, decide_false, Bool.not_false, Bool.and_true]
  | succ count ih =>
      rw [List.range'_1_concat, List.foldl_append, ih, List.foldl_cons, List.foldl_nil,
        invalidateVertexBufferResidency]
      have hnext : (fun vfetch => p.vertexBuffersInSync vfetch &&
            !decide (vfetch < env.vertexBufferStates ∧ first ≤ vfetch ∧ vfetch < first + (count + 1))) =
          if first + count ≥ env.vertexBufferStates then fun vfetch => p.vertexBuffersInSync vfetch &&
            !decide (vfetch < env.vertexBufferStates ∧ first ≤ vfetch ∧ vfetch < first + count)
          else Function.update (fun vfetch => p.vertexBuffersInSync vfetch &&
            !decide (vfetch < env.vertexBufferStates ∧ first ≤ vfetch ∧ vfetch < first + count))
            (first + count) false := by
        funext vfetch
        split
        next h =>
          congr 2
          rw [decide_eq_decide]
          omega
        next h =>
          by_cases hv : vfetch = first + count
          · rw [hv, Function.update_self, decide_eq_true (by omega), Bool.not_true, Bool.and_false]
          · rw [Function.update_of_ne hv]
            congr 2
            rw [decide_eq_decide]
            omega
      rw [hnext]
      split <;> rfl

/-- Invalidating a range of vertex buffers clears their bits in the words of the residency mask. -/
theorem invalidateVertexBufferResidencyRange_eq (p : Processor σ) {first last : ℕ} (h : first ≤ last) :
    invalidateVertexBufferResidencyRange env p first last =
      { p with vertexBuffersInSync := fun vfetch => p.vertexBuffersInSync vfetch &&
          !decide (vfetch < env.vertexBufferStates ∧ first ≤ vfetch ∧ vfetch ≤ last) } := by
  rw [invalidateVertexBufferResidencyRange, if_neg (Nat.not_lt.2 h)]
  dsimp only
  split
  next hout =>
    have hnone : ∀ vfetch, ¬(vfetch < env.vertexBufferStates ∧ first ≤ vfetch ∧ vfetch ≤ last) :=
      fun vfetch h => by omega
    simp only [hnone, decide_false, Bool.not_false, Bool.and_true]
  next hin =>
    rw [invalidate_foldl]
    congr 1
    funext vfetch
    congr 2
    rw [decide_eq_decide]
    omega

/-- The callback on a range of fetch constants marks exactly their textures. -/
theorem textureFetchConstantsWritten_eq (p : Processor σ) (first last : ℕ) :
    textureFetchConstantsWritten p first last =
      { p with textureFetchConstantsWritten := fun constant => p.textureFetchConstantsWritten constant ||
          decide (p.hasTextureCache = true ∧ first ≤ constant ∧ constant ≤ last) } := by
  obtain ⟨values, extended, rest, frameOpen, mapVertex, mapPixel, vertex, pixel, boolLoop, fetch, hasCache,
    written, inSync⟩ := p
  rw [textureFetchConstantsWritten]
  cases hasCache with
  | false => simp
  | true =>
      simp only [if_true, true_and]
      congr 1
      funext constant
      split
      next h => rw [decide_eq_true h, Bool.or_true]
      next h => rw [decide_eq_false h, Bool.or_false]

/-- The same for a range of fetch constants, with the vertex buffers and textures they invalidate. -/
theorem fetch_eq_effect (hn : 0 < n) (hstart : fetch000 ≤ start) (hend : start + n - 1 ≤ fetch315) :
    writeRegistersFromMem env p start base n =
      effect env p start (fun i => env.loadAndSwap p.rest (base + 4 * i)) n := by
  have hin : ∀ i < n, InFetch (start + i) := fun i hi => ⟨by omega, by omega⟩
  have hfetch : ∃ i < n, InFetch (start + i) := ⟨0, hn, hin 0 hn⟩
  have hbool : ¬∃ i < n, InBoolLoop (start + i) :=
    not_exists_of_forall_not fun i hi h => not_inBoolLoop_of_inFetch (hin i hi) h
  have hvertex : ¬∃ i < n, TouchesVertex p (start + i) :=
    not_exists_of_forall_not fun i hi h => not_inFloats_of_inFetch (hin i hi) h.1
  have hpixel : ¬∃ i < n, TouchesPixel p (start + i) :=
    not_exists_of_forall_not fun i hi h => not_inFloats_of_inFetch (hin i hi) h.1
  have hrun : ∀ width c, 0 < width → ((∃ i < n, (start + i - fetch000) / width = c) ↔
      (start - fetch000) / width ≤ c ∧ c ≤ (start + n - 1 - fetch000) / width) := by
    intro width c hwidth
    rw [show start + n - 1 - fetch000 = start - fetch000 + n - 1 by omega, ← exists_div_iff hn hwidth]
    refine exists_congr fun i => and_congr_right fun _ => ?_
    rw [show start + i - fetch000 = start - fetch000 + i by omega]
  have htexture : ∀ constant, (∃ i < n, TouchesTexture p (start + i) constant) ↔ p.hasTextureCache = true ∧
      (start - fetch000) / 6 ≤ constant ∧ constant ≤ (start + n - 1 - fetch000) / 6 := by
    intro constant
    rw [← hrun 6 constant (by decide)]
    constructor
    · rintro ⟨i, hi, -, hcache, hc⟩
      exact ⟨hcache, i, hi, hc⟩
    · rintro ⟨hcache, i, hi, hc⟩
      exact ⟨i, hi, hin i hi, hcache, hc⟩
  have hbuffer : ∀ vfetch, (∃ i < n, TouchesVertexBuffer env (start + i) vfetch) ↔
      vfetch < env.vertexBufferStates ∧
        (start - fetch000) / 2 ≤ vfetch ∧ vfetch ≤ (start + n - 1 - fetch000) / 2 := by
    intro vfetch
    rw [← hrun 2 vfetch (by decide)]
    constructor
    · rintro ⟨i, hi, -, hlt, hv⟩
      exact ⟨hlt, i, hi, hv⟩
    · rintro ⟨hlt, i, hi, hv⟩
      exact ⟨i, hi, hin i hi, hlt, hv⟩
  have hfloats : ¬(start ≥ constant000X ∧ start + n - 1 ≤ constant511W) := fun h =>
    not_inFloats_of_inFetch (hin 0 hn) ⟨h.1, by omega⟩
  have hboolLoop : ¬(start ≥ bool000031 ∧ start + n - 1 ≤ loop31) := fun h =>
    not_inBoolLoop_of_inFetch (hin 0 hn) ⟨h.1, by omega⟩
  have hordered : (start - fetch000) / 2 ≤ (start + n - 1 - fetch000) / 2 := Nat.div_le_div_right (by omega)
  rw [writeRegistersFromMem, if_neg (Nat.ne_of_gt hn)]
  dsimp only
  rw [if_neg hfloats, if_neg hboolLoop, if_pos ⟨hstart, hend⟩, textureFetchConstantsWritten_eq,
    invalidateVertexBufferResidencyRange_eq _ hordered, effect]
  simp only [hvertex, hpixel, hbool, hfetch, htexture, hbuffer, decide_false, decide_true, Bool.not_false,
    Bool.not_true, Bool.and_true, Bool.and_false]
  rfl

/-- **A range is written as its registers are**: in one call or one by one, the processor ends in
the same state. -/
theorem writeRegistersFromMem_eq (henv : env.Documented) (p : Processor σ) (start base n : ℕ) :
    writeRegistersFromMem env p start base n = baseWriteRegistersFromMem env p start base n := by
  by_cases hn : n = 0
  · rw [writeRegistersFromMem, if_pos hn, hn]
    rfl
  have hpos : 0 < n := Nat.pos_of_ne_zero hn
  by_cases hfloats : start ≥ constant000X ∧ start + n - 1 ≤ constant511W
  · rw [floats_eq_effect hpos hfloats.1 hfloats.2]
    exact (loop_eq_effect henv p base fun i hi => .inl ⟨by omega, by omega⟩).symm
  by_cases hbool : start ≥ bool000031 ∧ start + n - 1 ≤ loop31
  · rw [boolLoop_eq_effect hpos hbool.1 hbool.2]
    exact (loop_eq_effect henv p base fun i hi => .inr (.inl ⟨by omega, by omega⟩)).symm
  by_cases hfetch : start ≥ fetch000 ∧ start + n - 1 ≤ fetch315
  · rw [fetch_eq_effect hpos hfetch.1 hfetch.2]
    exact (loop_eq_effect henv p base fun i hi => .inr (.inr ⟨by omega, by omega⟩)).symm
  rw [writeRegistersFromMem, if_neg hn]
  dsimp only
  rw [if_neg hfloats, if_neg hbool, if_neg hfetch]

end Blocks

/-! ### The packet -/

/-- The loop over a part of the ring that does not wrap is a range written from memory. -/
theorem writeRegisters_part {p : Processor σ} {reader : ρ} {base source count : ℕ}
    (h : ∀ i < count, env.address (env.advance^[i] reader) = source + 4 * i) :
    writeRegisters env p reader (fun m => base + m) count =
      (baseWriteRegistersFromMem env p base source count, env.advance^[count] reader) := by
  induction count with
  | zero => rfl
  | succ count ih =>
      have ih := ih fun i hi => h i (Nat.lt_succ_of_lt hi)
      rw [writeRegisters, baseWriteRegistersFromMem] at ih ⊢
      rw [List.range_succ, List.foldl_append, ih, List.foldl_append, List.foldl_cons, List.foldl_nil,
        List.foldl_cons, List.foldl_nil, h count (Nat.lt_succ_self count), Function.iterate_succ_apply']

/-- The loop goes on where it was, so it may be cut at the end of the ring. -/
theorem writeRegisters_add (p : Processor σ) (reader : ρ) (base a b : ℕ) :
    writeRegisters env p reader (fun m => base + m) (a + b) =
      writeRegisters env (writeRegisters env p reader (fun m => base + m) a).1
        (writeRegisters env p reader (fun m => base + m) a).2 (fun m => base + a + m) b := by
  rw [writeRegisters, List.range_add, List.foldl_append, List.foldl_map, writeRegisters, writeRegisters]
  simp only [Nat.add_assoc]

/-- **The range from the ring is written as the loop writes it**, wherever the ring wraps. -/
theorem writeRegisterRangeFromRing_eq (henv : env.Documented) (p : Processor σ) (reader : ρ) (base : ℕ)
    {count : ℕ} (hcount : 0 < count) (hread : count * 4 ≤ env.readCount reader) :
    writeRegisterRangeFromRing env p reader base count =
      writeRegisters env p reader (fun m => base + m) count := by
  obtain ⟨a, b, rfl, hfirstLength, hsecondLength, hfirst, hsecond⟩ :=
    henv.beginRead reader count hcount hread
  have hend := henv.endRead reader (a + b) hcount hread
  have hsecond' : ∀ i < b, env.address (env.advance^[i] (env.advance^[a] reader)) =
      (env.beginRead reader ((a + b) * 4)).second + 4 * i := fun i hi => by
    rw [← Function.iterate_add_apply, Nat.add_comm i a]
    exact hsecond i hi
  rw [writeRegisters_add, writeRegisters_part hfirst]
  dsimp only
  rw [writeRegisters_part hsecond', ← Function.iterate_add_apply, Nat.add_comm b a, ← hend,
    writeRegisterRangeFromRing, if_neg (Nat.ne_of_gt hcount)]
  simp only [hfirstLength, hsecondLength, writeRegistersFromMem_eq henv]
  rw [Nat.mul_div_cancel _ (by decide : 0 < 4), Nat.mul_div_cancel _ (by decide : 0 < 4)]
  -- an empty part is skipped, and writes nothing
  have hskip : ∀ (p : Processor σ) (start source k : ℕ),
      (if k * 4 ≠ 0 then baseWriteRegistersFromMem env p start source k else p) =
        baseWriteRegistersFromMem env p start source k := by
    intro p start source k
    cases k with
    | zero => rfl
    | succ k => rw [if_pos (by omega)]
  by_cases ha : a * 4 ≠ 0
  · rw [if_pos ha]
    dsimp only
    rw [hskip]
  · have ha : a = 0 := by omega
    subst ha
    rw [if_neg (show ¬0 * 4 ≠ 0 by decide)]
    dsimp only
    rw [hskip]
    rfl

/-- **The fast path writes what the loop writes**, with a ring that wraps as well. -/
theorem executePacketType0_fastpath (henv : env.Documented) (registerFastpath : Bool) (p : Processor σ) (reader : ρ)
    (packet : BitVec 32) :
    executePacketType0 env registerFastpath p reader packet = executePacketType0 env false p reader packet := by
  rw [executePacketType0, executePacketType0]
  dsimp only
  split
  next => rfl
  next hread =>
    rw [if_neg fun h : false = true ∧ _ => Bool.false_ne_true h.1]
    split
    next h =>
      have hsequential : ∀ m, (if packet >>> 15 &&& 1 ≠ 0 then (packet &&& 0x7FFF).toNat
          else (packet &&& 0x7FFF).toNat + m) = (packet &&& 0x7FFF).toNat + m := fun m =>
        if_neg (not_not.2 h.2)
      simp only [hsequential]
      rw [writeRegisterRangeFromRing_eq henv p reader _ (Nat.succ_pos _) (Nat.not_lt.1 hread)]
    next => rfl

/-- **Type-0 packets.**  With the register fast path and without it, a packet leaves the same
registers and extended registers, the same constant buffers up to date, the same fetch constants
noted and vertex buffers in sync, the same memory and other state, and the reader at the same place:
for any base, count and place where the ring wraps, any usage maps, with a frame open or not. -/
theorem type0_batch_exact (henv : env.Documented) (p : Processor σ) (reader : ρ) (packet : BitVec 32) :
    executePacketType0 env true p reader packet = executePacketType0 env false p reader packet :=
  executePacketType0_fastpath henv true p reader packet

/-! ### A ring of eight words -/

/-- An environment with a ring of eight words at the address 0; a reader is the number of words read
and the number left, and one register keeps a log. -/
def eightWords : Environment (List (BitVec 32)) (ℕ × ℕ) where
  registerCount := 0x5003
  vertexBufferStates := 96
  loadAndSwap := fun _ address => BitVec.ofNat 32 address
  special := fun index value s => if index = 0x578 then (s.1, value :: s.2) else s
  readCount := fun ring => min ring.2 8 * 4
  address := fun ring => 4 * (ring.1 % 8)
  advance := fun ring => (ring.1 + 1, ring.2 - 1)
  beginRead := fun ring bytes =>
    let offset := ring.1 % 8 * 4
    if offset + bytes < 32 then ⟨offset, bytes, 0, 0⟩ else ⟨offset, 32 - offset, 0, bytes - (32 - offset)⟩
  endRead := fun ring range =>
    let words := (range.firstLength + range.secondLength) / 4
    (ring.1 + words, ring.2 - words)

/-- Advancing the ring of eight words by some words. -/
theorem eightWords_advance (ring : ℕ × ℕ) (n : ℕ) :
    eightWords.advance^[n] ring = (ring.1 + n, ring.2 - n) := by
  induction n with
  | zero => rfl
  | succ n ih =>
      rw [Function.iterate_succ_apply', ih]
      rfl

/-- The ring of eight words behaves as the processor's documentation asks. -/
theorem eightWords_documented : eightWords.Documented := by
  have hlengths : ∀ (ring : ℕ × ℕ) n, 0 < n → n * 4 ≤ eightWords.readCount ring →
      ∃ a b, a + b = n ∧ eightWords.beginRead ring (n * 4) = ⟨ring.1 % 8 * 4, a * 4, 0, b * 4⟩ ∧
        (b = 0 ∨ ring.1 % 8 + a = 8) ∧ ring.1 % 8 + a ≤ 8 ∧ b ≤ 8 := by
    intro ring n hn hread
    have hread : n * 4 ≤ min ring.2 8 * 4 := hread
    by_cases h : ring.1 % 8 * 4 + n * 4 < 32
    · exact ⟨n, 0, rfl, if_pos h, .inl rfl, by omega, by omega⟩
    · refine ⟨8 - ring.1 % 8, n - (8 - ring.1 % 8), by omega, (if_neg h).trans ?_, .inr (by omega), by omega, by omega⟩
      congr 1 <;> omega
  refine ⟨by decide, fun index value s h => if_neg ?_, fun ring n hn hread => ?_, fun ring n hn hread => ?_⟩
  · simp only [IsConstant, InFloats, InBoolLoop, InFetch, constant000X, bool000031, fetch000] at h
    omega
  · obtain ⟨a, b, hsum, hrange, hwrap, hfits, hb⟩ := hlengths ring n hn hread
    rw [hrange]
    refine ⟨a, b, hsum, rfl, rfl, fun i hi => ?_, fun i hi => ?_⟩
    · rw [eightWords_advance]
      show 4 * ((ring.1 + i) % 8) = ring.1 % 8 * 4 + 4 * i
      omega
    · rw [eightWords_advance]
      show 4 * ((ring.1 + (a + i)) % 8) = 0 + 4 * i
      omega
  · obtain ⟨a, b, hsum, hrange, -⟩ := hlengths ring n hn hread
    rw [hrange, eightWords_advance]
    show (ring.1 + (a * 4 + b * 4) / 4, ring.2 - (a * 4 + b * 4) / 4) = _
    rw [show (a * 4 + b * 4) / 4 = n by omega]

/-- A processor with a frame open. -/
def frameOpen : Processor (List (BitVec 32)) :=
  ⟨fun _ => 0, fun _ => none, [], true, fun _ => 5, fun _ => 0, true, true, true, true, true, fun _ => false,
    fun _ => true⟩

/-- The hypotheses are satisfiable: four registers from `0x4001` on, the ring wrapping after the
second. -/
theorem type0_batch_exact_wrapped :
    executePacketType0 eightWords true frameOpen (6, 4) 0x00034001 =
      executePacketType0 eightWords false frameOpen (6, 4) 0x00034001 :=
  type0_batch_exact eightWords_documented frameOpen (6, 4) 0x00034001

end Registers
end BoltsRebuilt
