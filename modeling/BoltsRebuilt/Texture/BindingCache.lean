/-
# The plans of texture bindings

src/src/gpu/native/native_texture_binding_cache.h: `NativeTextureBindingCache`, and the
two ways `bind_textures` agrees on a sampler
(src/src/gpu/nb_command_processor.cpp, lines 1797–1831).

A shader lists its texture and sampler bindings in one order for all fetch constants.  A
plan groups them by fetch constant (`Grouping`), is kept by the shader's address, and is
dropped when the lifetime epoch changes.  Beside it, one memo for each fetch constant
keeps the sampler all its bindings agreed on, for the fetch words and the override it
was asked with.

A plan that `Prepare` returns is that of the bindings it was called with, and so it
stays until another call takes its slot (`IsPlanOf`, `isPlanOf_run`).  The owner's part
is that a shader's address keeps its bindings within an epoch (`Faithful`), and the
SDK's that a sampler depends on the binding, the six words and the override.

A plan is passed on by reference: here by its slot.  The counters are left out, and
counts are natural numbers: no list has more than 255 bindings.
-/

import BoltsRebuilt.Lib.Grouping
import BoltsRebuilt.Lib.History
import Mathlib.Data.BitVec

namespace BoltsRebuilt
namespace TextureBindings

open Grouping

/-- `kFetchConstants`, `kMaxTextures` and `kMaxSamplers`. -/
def fetchConstants : ℕ := 32
def maxTextures : ℕ := 255
def maxSamplers : ℕ := 127

/-- `SamplerConsensus`. -/
structure SamplerConsensus where
  value : BitVec 32 := 0
  haveSampler : Bool := false
  conflict : Bool := false
  deriving DecidableEq

/-- `std::array<uint32_t, 6>`. -/
abbrev FetchWords := Fin 6 → BitVec 32

/-- `SamplerMemo`. -/
structure SamplerMemo where
  fetchWords : FetchWords := fun _ => 0
  anisotropicOverride : BitVec 32 := 0
  consensus : SamplerConsensus := {}
  valid : Bool := false

/-- A binding record, as far as it is looked at: its fetch constant, and the rest. -/
structure Binding (β : Type) where
  fetchConstant : BitVec 32
  rest : β
  deriving DecidableEq, Inhabited

def Binding.key {β : Type} (b : Binding β) : ℕ := b.fetchConstant.toNat

/-- An array of bindings and the range of each fetch constant in it. -/
structure Groups (β : Type) where
  target : ℕ → Binding β
  start : ℕ → ℕ
  count : ℕ → ℕ

/-- `Group`; `target` is what the array held. -/
def group {β : Type} (source : List (Binding β)) (target : ℕ → Binding β) : Groups β :=
  let count := counts Binding.key source
  let start := (starts count fetchConstants).1
  ⟨(place Binding.key start source target).1, start, count⟩

/-- `Textures` and `Samplers` of a plan. -/
def Groups.span {β : Type} (g : Groups β) (fetchConstant : BitVec 32) : List (Binding β) :=
  if fetchConstant.toNat ≥ fetchConstants then []
  else slice g.target (g.start fetchConstant.toNat) (g.count fetchConstant.toNat)

/-- `Plan`. -/
structure Plan (T S : Type) where
  shader : BitVec 64
  textures : Groups T
  samplers : Groups S
  samplerMemos : ℕ → SamplerMemo

/-- `NativeTextureBindingCache`. -/
structure Cache (T S : Type) where
  entries : ℕ → Plan T S
  epoch : BitVec 64
  haveEpoch : Bool

/-- `Slot`. -/
def slot (shader : BitVec 64) : ℕ :=
  let mixed := shader >>> 4
  let mixed := mixed ^^^ mixed >>> 17
  let mixed := mixed * 0x9E3779B185EBCA87
  (mixed >>> 32 &&& 63).toNat

variable {T S : Type}

/-- The start of `Prepare`: another epoch drops every plan. -/
def renew (c : Cache T S) (lifetimeEpoch : BitVec 64) : Cache T S :=
  if c.haveEpoch = false ∨ c.epoch ≠ lifetimeEpoch then
    { entries := fun i => { c.entries i with shader := 0 }, epoch := lifetimeEpoch, haveEpoch := true }
  else c

/-- `Prepare`. -/
def prepare (c : Cache T S) (shader lifetimeEpoch : BitVec 64) (textures : List (Binding T))
    (samplers : List (Binding S)) : Option ℕ × Cache T S :=
  let c := renew c lifetimeEpoch
  if shader = 0 ∨ textures.length > maxTextures ∨ samplers.length > maxSamplers then (none, c)
  else
    let entry := c.entries (slot shader)
    if entry.shader = shader then (some (slot shader), c)
    else if textures.any (fun b => b.fetchConstant.toNat ≥ fetchConstants) then (none, c)
    else if samplers.any (fun b => b.fetchConstant.toNat ≥ fetchConstants) then (none, c)
    else
      let plan : Plan T S :=
        { shader
          textures := group textures entry.textures.target
          samplers := group samplers entry.samplers.target
          samplerMemos := fun i => { entry.samplerMemos i with valid := false } }
      (some (slot shader), { c with entries := Function.update c.entries (slot shader) plan })

/-- The loop of `ResolveSampler`. -/
def consensusOf (resolve : Binding S → BitVec 32) (consensus : SamplerConsensus) :
    List (Binding S) → SamplerConsensus
  | [] => consensus
  | binding :: bindings =>
    let value := resolve binding
    if consensus.haveSampler && value ≠ consensus.value then { consensus with conflict := true }
    else consensusOf resolve { consensus with value, haveSampler := true } bindings

/-- `ResolveSampler`, for the plan in a slot. -/
def resolveSampler (c : Cache T S) (plan : ℕ) (fetchConstant : BitVec 32) (fetchWords : FetchWords)
    (anisotropicOverride : BitVec 32) (resolve : Binding S → BitVec 32) : SamplerConsensus × Cache T S :=
  if fetchConstant.toNat ≥ fetchConstants then ({}, c)
  else
    let entry := c.entries plan
    let memo := entry.samplerMemos fetchConstant.toNat
    if memo.valid = true ∧ memo.fetchWords = fetchWords ∧ memo.anisotropicOverride = anisotropicOverride then
      (memo.consensus, c)
    else
      let consensus := consensusOf resolve {} (entry.samplers.span fetchConstant)
      let memo : SamplerMemo := ⟨fetchWords, anisotropicOverride, consensus, true⟩
      let entry :=
        { entry with samplerMemos := Function.update entry.samplerMemos fetchConstant.toNat memo }
      (consensus, { c with entries := Function.update c.entries plan entry })

/-- The loop of `bind_textures` over all the bindings of a shader. -/
def uncachedConsensus (resolve : Binding S → BitVec 32) (fetchConstant : BitVec 32)
    (consensus : SamplerConsensus) : List (Binding S) → SamplerConsensus
  | [] => consensus
  | candidate :: bindings =>
    if candidate.fetchConstant ≠ fetchConstant then
      uncachedConsensus resolve fetchConstant consensus bindings
    else
      let resolved := resolve candidate
      if consensus.haveSampler && resolved ≠ consensus.value then { consensus with conflict := true }
      else uncachedConsensus resolve fetchConstant { consensus with value := resolved, haveSampler := true }
        bindings

/-! ### Groups -/

section Groups

variable {β : Type}

/-- The bindings of a fetch constant, in order. -/
def ofFetchConstant (source : List (Binding β)) (fetchConstant : BitVec 32) : List (Binding β) :=
  source.filter fun b => b.fetchConstant = fetchConstant

/-- The bindings a plan can group. -/
def Known (source : List (Binding β)) : Prop := ∀ b ∈ source, b.fetchConstant.toNat < fetchConstants

/-- Grouping by key is selecting a fetch constant's bindings, in the order of the source. -/
theorem ofKey_eq (source : List (Binding β)) (fetchConstant : BitVec 32) :
    ofKey Binding.key source fetchConstant.toNat = ofFetchConstant source fetchConstant := by
  refine List.filter_congr fun b _ => ?_
  rw [decide_eq_decide, Binding.key, BitVec.toNat_inj]

/-- A fetch constant that is none of the known ones has no bindings. -/
theorem ofFetchConstant_unknown {source : List (Binding β)} (h : Known source) {fetchConstant : BitVec 32}
    (hf : fetchConstant.toNat ≥ fetchConstants) : ofFetchConstant source fetchConstant = [] := by
  refine List.filter_eq_nil_iff.2 fun b hb => ?_
  have hlt := h b hb
  rw [decide_eq_true_eq]
  rintro rfl
  exact absurd hlt (Nat.not_lt.2 hf)

/-- **The groups are the bindings of each fetch constant.** -/
theorem span_group {source : List (Binding β)} (h : Known source) (target : ℕ → Binding β)
    (fetchConstant : BitVec 32) :
    (group source target).span fetchConstant = ofFetchConstant source fetchConstant := by
  rw [Groups.span]
  split
  next hf => rw [ofFetchConstant_unknown h hf]
  next hf =>
    rw [← ofKey_eq]
    exact slice_place h (Nat.not_le.1 hf)

end Groups

/-! ### The two loops -/

/-- The loop over all bindings is the loop over those of the fetch constant. -/
theorem uncachedConsensus_eq (resolve : Binding S → BitVec 32) (fetchConstant : BitVec 32)
    (consensus : SamplerConsensus) (bindings : List (Binding S)) :
    uncachedConsensus resolve fetchConstant consensus bindings =
      consensusOf resolve consensus (ofFetchConstant bindings fetchConstant) := by
  induction bindings generalizing consensus with
  | nil => rfl
  | cons candidate bindings ih =>
      rw [uncachedConsensus, ofFetchConstant, List.filter_cons]
      by_cases h : candidate.fetchConstant = fetchConstant
      · rw [if_neg (not_not.2 h), if_pos (decide_eq_true h), consensusOf]
        dsimp only
        rw [ih, ofFetchConstant]
      · rw [if_pos h, if_neg (by simpa using h), ih, ofFetchConstant]

/-! ### Plans -/

/-- What the SDK resolves a sampler binding to. -/
abbrev Resolve (S : Type) := Binding S → FetchWords → BitVec 32 → BitVec 32

variable {resolve : Resolve S} {textures : List (Binding T)} {samplers : List (Binding S)}

/-- A plan of some bindings: their groups, and memos that hold what the loop gives. -/
structure IsPlanOf (resolve : Resolve S) (ts : List (Binding T)) (ss : List (Binding S))
    (plan : Plan T S) : Prop where
  known : Known ss
  textures : ∀ fetchConstant, plan.textures.span fetchConstant = ofFetchConstant ts fetchConstant
  samplers : ∀ fetchConstant, plan.samplers.span fetchConstant = ofFetchConstant ss fetchConstant
  memos : ∀ fetchConstant : BitVec 32, (plan.samplerMemos fetchConstant.toNat).valid = true →
    (plan.samplerMemos fetchConstant.toNat).consensus =
      consensusOf (resolve · (plan.samplerMemos fetchConstant.toNat).fetchWords
        (plan.samplerMemos fetchConstant.toNat).anisotropicOverride) {}
        (ofFetchConstant ss fetchConstant)

/-- Whose plan it is does not matter to what it plans. -/
theorem IsPlanOf.withShader {plan : Plan T S} (h : IsPlanOf resolve textures samplers plan)
    (shader : BitVec 64) : IsPlanOf resolve textures samplers { plan with shader } :=
  { h with }

/-- **A memo answers as the loop would**: the sampler of a fetch constant is the consensus of its
bindings. -/
theorem IsPlanOf.resolveSampler {c : Cache T S} {k : ℕ}
    (h : IsPlanOf resolve textures samplers (c.entries k)) (fetchConstant : BitVec 32)
    (fetchWords : FetchWords) (anisotropicOverride : BitVec 32) :
    (resolveSampler c k fetchConstant fetchWords anisotropicOverride
        (resolve · fetchWords anisotropicOverride)).1 =
      uncachedConsensus (resolve · fetchWords anisotropicOverride) fetchConstant {} samplers := by
  rw [uncachedConsensus_eq, TextureBindings.resolveSampler]
  split
  next hf =>
    rw [ofFetchConstant_unknown h.known hf]
    rfl
  next hf =>
    dsimp only
    split
    next hmemo =>
      obtain ⟨hvalid, hwords, hoverride⟩ := hmemo
      have hconsensus := h.memos fetchConstant hvalid
      rw [hwords, hoverride] at hconsensus
      exact hconsensus
    next => rw [h.samplers]

/-- `ResolveSampler` leaves every plan a plan of the same bindings. -/
theorem isPlanOf_resolveSampler {c : Cache T S} {k : ℕ}
    (h : IsPlanOf resolve textures samplers (c.entries k)) (k' : ℕ) (fetchConstant : BitVec 32)
    (fetchWords : FetchWords) (anisotropicOverride : BitVec 32) :
    IsPlanOf resolve textures samplers
      ((resolveSampler c k' fetchConstant fetchWords anisotropicOverride
        (resolve · fetchWords anisotropicOverride)).2.entries k) := by
  rw [TextureBindings.resolveSampler]
  split
  next => exact h
  next hf =>
    dsimp only
    split
    next => exact h
    next =>
      by_cases hk : k = k'
      · subst hk
        dsimp only
        rw [Function.update_self]
        refine { h with memos := fun fetchConstant' => ?_ }
        dsimp only
        by_cases hfetch : fetchConstant' = fetchConstant
        · rw [hfetch, Function.update_self]
          intro _
          dsimp only
          rw [h.samplers]
        · rw [Function.update_of_ne fun heq => hfetch (BitVec.eq_of_toNat_eq heq)]
          exact h.memos fetchConstant'
      · dsimp only
        rw [Function.update_of_ne hk]
        exact h

/-- Resolving a sampler keeps every entry's shader and lists. -/
theorem shader_resolveSampler (c : Cache T S) (k k' : ℕ) (fetchConstant : BitVec 32)
    (fetchWords : FetchWords) (anisotropicOverride : BitVec 32) (resolve : Binding S → BitVec 32) :
    let c' := (resolveSampler c k' fetchConstant fetchWords anisotropicOverride resolve).2
    (c'.entries k).shader = (c.entries k).shader ∧ c'.epoch = c.epoch ∧ c'.haveEpoch = c.haveEpoch := by
  intro c'
  simp only [c', TextureBindings.resolveSampler]
  split
  next => exact ⟨rfl, rfl, rfl⟩
  next =>
    split
    next => exact ⟨rfl, rfl, rfl⟩
    next =>
      refine ⟨?_, rfl, rfl⟩
      dsimp only
      by_cases hk : k = k'
      · subst hk
        rw [Function.update_self]
      · rw [Function.update_of_ne hk]

/-! ### Histories -/

/-- A call of the cache. -/
inductive Call (T S : Type) where
  | prepare (shader lifetimeEpoch : BitVec 64) (textures : List (Binding T)) (samplers : List (Binding S))
  | resolveSampler (plan : ℕ) (fetchConstant : BitVec 32) (fetchWords : FetchWords)
      (anisotropicOverride : BitVec 32)

def step (resolve : Resolve S) (c : Cache T S) : Call T S → Cache T S
  | .prepare shader lifetimeEpoch textures samplers =>
    (prepare c shader lifetimeEpoch textures samplers).2
  | .resolveSampler plan fetchConstant fetchWords anisotropicOverride =>
    (resolveSampler c plan fetchConstant fetchWords anisotropicOverride
      (resolve · fetchWords anisotropicOverride)).2

def run (resolve : Resolve S) (c : Cache T S) (calls : List (Call T S)) : Cache T S :=
  calls.foldl (step resolve) c

/-- What the owner gives for a shader in an epoch. -/
abbrev Owner (T S : Type) := BitVec 64 → BitVec 64 → List (Binding T) × List (Binding S)

/-- A call with the owner's bindings. -/
def Call.Faithful (owner : Owner T S) : Call T S → Prop
  | prepare shader lifetimeEpoch textures samplers => (textures, samplers) = owner lifetimeEpoch shader
  | resolveSampler .. => True

/-- The plans that may be hit are those of their shaders in the epoch of the cache. -/
def Sound (resolve : Resolve S) (owner : Owner T S) (c : Cache T S) : Prop :=
  c.haveEpoch = true → ∀ k, (c.entries k).shader ≠ 0 →
    IsPlanOf resolve (owner c.epoch (c.entries k).shader).1 (owner c.epoch (c.entries k).shader).2
      (c.entries k)

/-- Renewing the cache sets the epoch it was given. -/
theorem renew_epoch (c : Cache T S) (lifetimeEpoch : BitVec 64) :
    (renew c lifetimeEpoch).epoch = lifetimeEpoch ∧ (renew c lifetimeEpoch).haveEpoch = true := by
  rw [renew]
  split
  next => exact ⟨rfl, rfl⟩
  next h =>
    obtain ⟨hhave, hepoch⟩ := not_or.1 h
    exact ⟨not_not.1 hepoch, Bool.eq_true_of_not_eq_false hhave⟩

/-- And it keeps the cache sound, by forgetting what is of another epoch. -/
theorem Sound.renew {owner : Owner T S} {c : Cache T S} (h : Sound resolve owner c)
    (lifetimeEpoch : BitVec 64) : Sound resolve owner (renew c lifetimeEpoch) := by
  rw [TextureBindings.renew]
  split
  next => exact fun _ k hk => absurd rfl hk
  next => exact h

/-- Apart from the shader, a renewed entry is as it was. -/
theorem renew_entries (c : Cache T S) (lifetimeEpoch : BitVec 64) (k : ℕ) :
    ∃ shader, (renew c lifetimeEpoch).entries k = { c.entries k with shader } := by
  rw [renew]
  split
  next => exact ⟨0, rfl⟩
  next => exact ⟨(c.entries k).shader, rfl⟩

/-- Where no binding has an unknown fetch constant, all are known. -/
theorem known_of_any {β : Type} {source : List (Binding β)}
    (h : ¬(source.any fun b => b.fetchConstant.toNat ≥ fetchConstants) = true) : Known source := by
  intro b hb
  by_contra hge
  exact h (List.any_eq_true.2 ⟨b, hb, decide_eq_true (Nat.not_lt.1 hge)⟩)

/-- **What `Prepare` does**: it refuses and leaves the renewed cache, or finds the shader in its
slot, or makes the plan of the bindings there. -/
theorem prepare_cases (c : Cache T S) (shader lifetimeEpoch : BitVec 64) (textures : List (Binding T))
    (samplers : List (Binding S)) :
    let r := prepare c shader lifetimeEpoch textures samplers
    r = (none, renew c lifetimeEpoch) ∨
    (shader ≠ 0 ∧ ((renew c lifetimeEpoch).entries (slot shader)).shader = shader ∧
      r = (some (slot shader), renew c lifetimeEpoch)) ∨
    ∃ plan, plan.shader = shader ∧ shader ≠ 0 ∧
      (∀ resolve : Resolve S, IsPlanOf resolve textures samplers plan) ∧
      r = (some (slot shader), { renew c lifetimeEpoch with
        entries := Function.update (renew c lifetimeEpoch).entries (slot shader) plan }) := by
  intro r
  simp only [r, prepare]
  split
  next => exact .inl rfl
  next hbounds =>
    have hshader : shader ≠ 0 := fun h => hbounds (.inl h)
    split
    next hhit => exact .inr (.inl ⟨hshader, hhit, rfl⟩)
    next =>
      split
      next => exact .inl rfl
      next htextures =>
        split
        next => exact .inl rfl
        next hsamplers =>
          refine .inr (.inr ⟨_, ?_, hshader, fun resolve => ?_, rfl⟩)
          · rfl
          · exact
              { known := known_of_any hsamplers
                textures := span_group (known_of_any htextures) _
                samplers := span_group (known_of_any hsamplers) _
                memos := fun _ hvalid => absurd hvalid Bool.false_ne_true }

/-- A call that is faithful to the owners of the bindings keeps the cache sound. -/
theorem Sound.step {owner : Owner T S} {c : Cache T S} (h : Sound resolve owner c) {call : Call T S}
    (hcall : call.Faithful owner) : Sound resolve owner (step resolve c call) := by
  cases call with
  | prepare shader lifetimeEpoch textures samplers =>
      have hrenew := h.renew lifetimeEpoch
      rw [TextureBindings.step]
      rcases prepare_cases c shader lifetimeEpoch textures samplers with
        hr | ⟨-, -, hr⟩ | ⟨plan, hplan, -, hof, hr⟩
      · rw [hr]
        exact hrenew
      · rw [hr]
        exact hrenew
      · rw [hr]
        intro hhave k hk
        dsimp only at hhave hk ⊢
        by_cases hslot : k = slot shader
        · subst hslot
          rw [Function.update_self, (renew_epoch c lifetimeEpoch).1, hplan, ← hcall]
          exact hof resolve
        · rw [Function.update_of_ne hslot] at hk ⊢
          exact hrenew hhave k hk
  | resolveSampler plan fetchConstant fetchWords anisotropicOverride =>
      intro hhave k hk
      obtain ⟨hshader, hepoch, hhave'⟩ := shader_resolveSampler c k plan fetchConstant fetchWords
        anisotropicOverride (resolve · fetchWords anisotropicOverride)
      rw [TextureBindings.step] at hhave hk ⊢
      rw [hshader] at hk ⊢
      rw [hepoch]
      exact isPlanOf_resolveSampler (h (hhave'.symm.trans hhave) k hk) ..

/-- So do all calls of a history, by induction on them. -/
theorem Sound.run {owner : Owner T S} {c : Cache T S} (h : Sound resolve owner c) {calls : List (Call T S)}
    (hcalls : ∀ call ∈ calls, call.Faithful owner) : Sound resolve owner (run resolve c calls) := by
  induction calls generalizing c with
  | nil => exact h
  | cons call calls ih =>
      rw [List.forall_mem_cons] at hcalls
      exact ih (h.step hcalls.1) hcalls.2

/-- The plan `Prepare` returns is the plan of the shader's own bindings, found or made. -/
theorem isPlanOf_prepare {owner : Owner T S} {c : Cache T S} (h : Sound resolve owner c)
    {shader lifetimeEpoch : BitVec 64} {k : ℕ}
    (hk : (prepare c shader lifetimeEpoch (owner lifetimeEpoch shader).1
      (owner lifetimeEpoch shader).2).1 = some k) :
    IsPlanOf resolve (owner lifetimeEpoch shader).1 (owner lifetimeEpoch shader).2
      ((prepare c shader lifetimeEpoch (owner lifetimeEpoch shader).1
        (owner lifetimeEpoch shader).2).2.entries k) := by
  rcases prepare_cases c shader lifetimeEpoch (owner lifetimeEpoch shader).1
      (owner lifetimeEpoch shader).2 with hr | ⟨hne, hhit, hr⟩ | ⟨plan, -, -, hof, hr⟩ <;>
    rw [hr] at hk ⊢
  · cases hk
  · obtain rfl := Option.some.inj hk
    have hplan := h.renew lifetimeEpoch (renew_epoch c lifetimeEpoch).2 (slot shader)
      (by rw [hhit]; exact hne)
    rw [hhit, (renew_epoch c lifetimeEpoch).1] at hplan
    exact hplan
  · obtain rfl := Option.some.inj hk
    dsimp only
    rw [Function.update_self]
    exact hof resolve

/-- A call that does not return the plan in slot `k`. -/
def Spares (k : ℕ) (c : Cache T S) : Call T S → Prop
  | .prepare shader lifetimeEpoch textures samplers =>
    (prepare c shader lifetimeEpoch textures samplers).1 ≠ some k
  | .resolveSampler .. => True

/-- A plan is not touched by a call that spares it. -/
theorem isPlanOf_step {c : Cache T S} {k : ℕ} (h : IsPlanOf resolve textures samplers (c.entries k))
    {call : Call T S} (hcall : Spares k c call) :
    IsPlanOf resolve textures samplers ((step resolve c call).entries k) := by
  cases call with
  | prepare shader lifetimeEpoch textures' samplers' =>
      obtain ⟨shader', hentry⟩ := renew_entries c lifetimeEpoch k
      have hrenew : IsPlanOf resolve textures samplers ((renew c lifetimeEpoch).entries k) := by
        rw [hentry]
        exact h.withShader shader'
      rw [Spares] at hcall
      rw [step]
      rcases prepare_cases c shader lifetimeEpoch textures' samplers' with
        hr | ⟨-, -, hr⟩ | ⟨plan, -, -, -, hr⟩ <;> rw [hr] at hcall ⊢
      · exact hrenew
      · exact hrenew
      · dsimp only
        rw [Function.update_of_ne fun heq => hcall (congrArg some heq.symm)]
        exact hrenew
  | resolveSampler => exact isPlanOf_resolveSampler h ..

/-- A plan stays that of its bindings while no call returns it. -/
theorem isPlanOf_run {c : Cache T S} {k : ℕ} (h : IsPlanOf resolve textures samplers (c.entries k))
    {calls : List (Call T S)} (hcalls : History.Along (step resolve) (Spares k) c calls) :
    IsPlanOf resolve textures samplers ((run resolve c calls).entries k) := by
  induction calls generalizing c with
  | nil => exact h
  | cons call calls ih => exact ih (isPlanOf_step h hcalls.1) hcalls.2

/-- **The binding cache is transparent.**  After any history of calls with the owner's bindings, a
plan that `Prepare` returns has for each fetch constant the shader's bindings of it, in their order;
and until another call returns that plan, whatever else is called, `ResolveSampler` gives for it
what the loop over the shader's sampler bindings gives. -/
theorem bindingCache_transparent (resolve : Resolve S) (owner : Owner T S) (c : Cache T S)
    (hempty : c.haveEpoch = false) (before : List (Call T S))
    (hbefore : ∀ call ∈ before, call.Faithful owner) (shader lifetimeEpoch : BitVec 64) (k : ℕ)
    (hreturned : (prepare (run resolve c before) shader lifetimeEpoch (owner lifetimeEpoch shader).1
      (owner lifetimeEpoch shader).2).1 = some k) (later : List (Call T S))
    (hlater : History.Along (step resolve) (Spares k)
      (prepare (run resolve c before) shader lifetimeEpoch (owner lifetimeEpoch shader).1
        (owner lifetimeEpoch shader).2).2 later) (fetchConstant : BitVec 32) :
    let now := run resolve (prepare (run resolve c before) shader lifetimeEpoch
      (owner lifetimeEpoch shader).1 (owner lifetimeEpoch shader).2).2 later
    (now.entries k).textures.span fetchConstant =
        (owner lifetimeEpoch shader).1.filter (fun b => b.fetchConstant = fetchConstant) ∧
      (now.entries k).samplers.span fetchConstant =
        (owner lifetimeEpoch shader).2.filter (fun b => b.fetchConstant = fetchConstant) ∧
      ∀ fetchWords anisotropicOverride,
        (resolveSampler now k fetchConstant fetchWords anisotropicOverride
            (resolve · fetchWords anisotropicOverride)).1 =
          uncachedConsensus (resolve · fetchWords anisotropicOverride) fetchConstant {}
            (owner lifetimeEpoch shader).2 := by
  have hstart : Sound resolve owner c := fun h => absurd (hempty.symm.trans h) Bool.false_ne_true
  have hplan := isPlanOf_run (isPlanOf_prepare (hstart.run hbefore) hreturned) hlater
  exact ⟨hplan.textures fetchConstant, hplan.samplers fetchConstant, hplan.resolveSampler fetchConstant⟩

/-- An empty cache. -/
def noPlans : Cache Unit Unit where
  entries := fun _ => ⟨0, ⟨fun _ => ⟨0, ()⟩, fun _ => 0, fun _ => 0⟩, ⟨fun _ => ⟨0, ()⟩, fun _ => 0, fun _ => 0⟩,
    fun _ => {}⟩
  epoch := 0
  haveEpoch := false

/-- Every shader samples the fetch constant 3 twice, with another one between. -/
def twoSamplers : Owner Unit Unit := fun _ _ => ([⟨3, ()⟩], [⟨3, ()⟩, ⟨5, ()⟩, ⟨3, ()⟩])

/-- The hypotheses are satisfiable: a history with two samplers of one shader. -/
theorem bindingCache_transparent_twoSamplers :
    let resolve : Resolve Unit := fun b words _ => b.fetchConstant + words 0
    let c := (prepare (run resolve noPlans [.prepare 16 7 [⟨3, ()⟩] [⟨3, ()⟩, ⟨5, ()⟩, ⟨3, ()⟩]]) 16 7
      [⟨3, ()⟩] [⟨3, ()⟩, ⟨5, ()⟩, ⟨3, ()⟩]).2
    (c.entries (slot 16)).samplers.span 3 = [⟨3, ()⟩, ⟨3, ()⟩] ∧
      (resolveSampler c (slot 16) 3 (fun _ => 1) 0 (resolve · (fun _ => 1) 0)).1 = ⟨4, true, false⟩ := by
  intro resolve c
  obtain ⟨-, hspan, hsampler⟩ := bindingCache_transparent resolve twoSamplers noPlans rfl
    [.prepare 16 7 [⟨3, ()⟩] [⟨3, ()⟩, ⟨5, ()⟩, ⟨3, ()⟩]] (by simp [Call.Faithful, twoSamplers]) 16 7 (slot 16)
    (by decide +kernel) [] trivial 3
  exact ⟨hspan.trans (by decide), (hsampler (fun _ => 1) 0).trans (by decide)⟩

end TextureBindings
end BoltsRebuilt
