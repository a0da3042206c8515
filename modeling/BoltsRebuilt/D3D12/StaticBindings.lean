/-
# The cache of root bindings

`src/gpu/vendored/include/rex/graphics/d3d12/native_static_bindings.h`:
`NativeStaticBindings`; its callers `SetNativeGeometryStaticBindings` and
`SetNativePixelConstantBuffer` in
`src/gpu/vendored/src/graphics/d3d12/command_processor.cpp`.

A draw of the geometry pass binds four static roots (the texture table, the
sampler table when it samples, guest memory and asset memory) and the pixel
constant buffer.  The cache says which of them a command list holds already.  The
command list forgets all arguments when its root signature changes; other passes
overwrite them and call `InvalidateAll`; a new descriptor heap makes the two
tables meaningless and comes with `InvalidateDescriptorTables`.

The invariant `Tracks` is that what the cache holds valid is bound, under the
root signature it names.  `staticBindings_transparent`: the draws see what they
would see if all roots were written before each of them.
-/

import BoltsRebuilt.Lib.Bits
import Mathlib.Algebra.GroupWithZero.Nat
import Mathlib.Algebra.Ring.Int.Defs
import Mathlib.Data.BitVec
import Mathlib.Data.Fin.VecNotation
import Mathlib.Logic.Function.Basic

namespace BoltsRebuilt
namespace D3D12

def kTextureTable : BitVec 32 := 1 <<< 0
def kSamplerTable : BitVec 32 := 1 <<< 1
def kGuestMemory : BitVec 32 := 1 <<< 2
def kAssetMemory : BitVec 32 := 1 <<< 3

/-- `NativeStaticBindings::Stats`. -/
structure BindingStats where
  hits : UInt64 := 0
  rebinds : UInt64 := 0
  pixelHits : UInt64 := 0
  pixelRebinds : UInt64 := 0

/-- `values`: texture table, sampler table, guest memory, asset memory. -/
structure NativeStaticBindings where
  signature : UInt64 := 0
  values : Fin 4 → UInt64 := fun _ => 0
  valid : BitVec 32 := 0
  pixelAddress : UInt64 := 0
  pixelValid : Bool := false
  stats : BindingStats := {}

namespace NativeStaticBindings

def invalidateAll (c : NativeStaticBindings) : NativeStaticBindings :=
  { c with valid := 0, pixelValid := false }

def invalidateDescriptorTables (c : NativeStaticBindings) : NativeStaticBindings :=
  { c with valid := c.valid &&& ~~~(kTextureTable ||| kSamplerTable) }

/-- The first two statements of `Update` and `NeedsPixelConstantBufferWrite`. -/
def setSignature (c : NativeStaticBindings) (signature : UInt64) : NativeStaticBindings :=
  { (if c.signature ≠ signature then c.invalidateAll else c) with signature }

def requested (samplerUsed : Bool) : BitVec 32 :=
  kTextureTable ||| kGuestMemory ||| kAssetMemory ||| if samplerUsed then kSamplerTable else 0

/-- A round of the loop of `Update`. -/
def updateRoot (values : Fin 4 → UInt64) (requested : BitVec 32) (enabled : Bool)
    (acc : NativeStaticBindings × BitVec 32) (i : Fin 4) : NativeStaticBindings × BitVec 32 :=
  let (c, rebind) := acc
  if !requested.getLsbD i then acc
  else if enabled && c.valid.getLsbD i && c.values i == values i then
    ({ c with
      values := Function.update c.values i (values i)
      stats := { c.stats with hits := c.stats.hits + 1 } }, rebind)
  else
    ({ c with
      values := Function.update c.values i (values i)
      stats := { c.stats with rebinds := c.stats.rebinds + 1 } }, rebind ||| BitVec.twoPow 32 i)

/-- `Update`: the cache, and the roots to write. -/
def update (c : NativeStaticBindings) (signature : UInt64) (values : Fin 4 → UInt64)
    (samplerUsed enabled : Bool) : NativeStaticBindings × BitVec 32 :=
  let requested := requested samplerUsed
  let (c, rebind) :=
    [0, 1, 2, 3].foldl (updateRoot values requested enabled) (c.setSignature signature, 0)
  ({ c with valid := if enabled then c.valid ||| requested else 0 }, rebind)

/-- `NeedsPixelConstantBufferWrite`. -/
def needsPixelConstantBufferWrite (c : NativeStaticBindings) (signature address : UInt64)
    (enabled : Bool) : NativeStaticBindings × Bool :=
  let c := c.setSignature signature
  let c := if !enabled then { c with pixelValid := false } else c
  if c.pixelValid && c.pixelAddress == address then
    ({ c with stats := { c.stats with pixelHits := c.stats.pixelHits + 1 } }, false)
  else (c, true)

def didWritePixelConstantBuffer (c : NativeStaticBindings) (address : UInt64) (enabled : Bool) :
    NativeStaticBindings :=
  { c with
    pixelAddress := address
    pixelValid := enabled
    stats := { c.stats with pixelRebinds := c.stats.pixelRebinds + 1 } }

end NativeStaticBindings

/-! ### The command list -/

/-- The root arguments of a command list, none where none is valid. -/
structure Roots where
  signature : Option UInt64
  statics : Fin 4 → Option UInt64
  pixel : Option UInt64

/-- A root signature other than the current one discards the arguments. -/
def Roots.setSignature (g : Roots) (signature : UInt64) : Roots :=
  if g.signature = some signature then g else ⟨some signature, fun _ => none, none⟩

/-- The writes of some static roots. -/
def Roots.write (g : Roots) (roots : BitVec 32) (values : Fin 4 → UInt64) : Roots :=
  { g with statics := fun i => if roots.getLsbD i then some (values i) else g.statics i }

/-- What `SetNativeGeometryStaticBindings` is called with. -/
structure StaticDraw where
  signature : UInt64
  values : Fin 4 → UInt64
  samplerUsed : Bool
  enabled : Bool

/-- What happens to the command list. -/
inductive BindingEvent where
  /-- Another pass, an emulated draw or a new command list: any arguments, and
  `InvalidateAll`. -/
  | external (roots : Roots)
  /-- A descriptor heap is set: the tables are whatever is there, and
  `InvalidateDescriptorTables`. -/
  | heapChange (texture sampler : Option UInt64)
  /-- Static roots are bound, and no draw follows. -/
  | bindStatic (d : StaticDraw)
  /-- A query whose write is never recorded. -/
  | queryPixel (signature address : UInt64) (enabled : Bool)
  /-- A query, and the write and its notification when it asks for one. -/
  | bindPixel (signature address : UInt64) (enabled : Bool)
  | draw (d : StaticDraw) (pixel : UInt64) (pixelEnabled : Bool)

/-- What a draw finds in the roots it uses. -/
structure Drawn where
  statics : Fin 4 → Option UInt64
  pixel : Option UInt64

/-- The roots a draw uses. -/
def Roots.drawn (g : Roots) (samplerUsed : Bool) : Drawn where
  statics i := if (NativeStaticBindings.requested samplerUsed).getLsbD i then g.statics i else none
  pixel := g.pixel

/-! ### With the cache -/

/-- A command list and the cache. -/
structure BoundList where
  roots : Roots
  cache : NativeStaticBindings

namespace BoundList

/-- `SetNativeGeometryStaticBindings`; the caller's own `InvalidateAll` at a new
root signature is left out, the cache does it too. -/
def bindStatic (s : BoundList) (d : StaticDraw) : BoundList :=
  let (cache, changed) := s.cache.update d.signature d.values d.samplerUsed d.enabled
  ⟨(s.roots.setSignature d.signature).write changed d.values, cache⟩

/-- `SetNativePixelConstantBuffer`. -/
def bindPixel (s : BoundList) (signature address : UInt64) (enabled : Bool) : BoundList :=
  let roots := s.roots.setSignature signature
  let (cache, needed) := s.cache.needsPixelConstantBufferWrite signature address enabled
  if needed then
    ⟨{ roots with pixel := some address }, cache.didWritePixelConstantBuffer address enabled⟩
  else ⟨roots, cache⟩

def step (s : BoundList) : BindingEvent → BoundList × List Drawn
  | .external roots => (⟨roots, s.cache.invalidateAll⟩, [])
  | .heapChange texture sampler =>
      (⟨{ s.roots with statics := ![texture, sampler, s.roots.statics 2, s.roots.statics 3] },
        s.cache.invalidateDescriptorTables⟩, [])
  | .bindStatic d => (s.bindStatic d, [])
  | .queryPixel signature address enabled =>
      (⟨s.roots, (s.cache.needsPixelConstantBufferWrite signature address enabled).1⟩, [])
  | .bindPixel signature address enabled => (s.bindPixel signature address enabled, [])
  | .draw d pixel pixelEnabled =>
      let s := (s.bindStatic d).bindPixel d.signature pixel pixelEnabled
      (s, [s.roots.drawn d.samplerUsed])

/-- What the draws of a sequence of events see. -/
def run (s : BoundList) : List BindingEvent → List Drawn
  | [] => []
  | e :: es => (s.step e).2 ++ (s.step e).1.run es

end BoundList

/-! ### Without the cache -/

namespace Roots

/-- All requested static roots are written. -/
def bindStatic (g : Roots) (d : StaticDraw) : Roots :=
  (g.setSignature d.signature).write (NativeStaticBindings.requested d.samplerUsed) d.values

def bindPixel (g : Roots) (signature address : UInt64) : Roots :=
  { g.setSignature signature with pixel := some address }

def step (g : Roots) : BindingEvent → Roots × List Drawn
  | .external roots => (roots, [])
  | .heapChange texture sampler =>
      ({ g with statics := ![texture, sampler, g.statics 2, g.statics 3] }, [])
  | .bindStatic d => (g.bindStatic d, [])
  | .queryPixel _ _ _ => (g, [])
  | .bindPixel signature address _ => (g.bindPixel signature address, [])
  | .draw d pixel _ =>
      let g := (g.bindStatic d).bindPixel d.signature pixel
      (g, [g.drawn d.samplerUsed])

def run (g : Roots) : List BindingEvent → List Drawn
  | [] => []
  | e :: es => (g.step e).2 ++ (g.step e).1.run es

end Roots

/-! ### What `Update` asks for -/

namespace NativeStaticBindings

variable {values : Fin 4 → UInt64} {requested : BitVec 32} {enabled : Bool}

/-- Whether `Update` finds a root bound already. -/
def Hit (c : NativeStaticBindings) (values : Fin 4 → UInt64) (enabled : Bool) (i : Fin 4) : Bool :=
  enabled && c.valid.getLsbD i && c.values i == values i

/-- The fields the loop of `Update` leaves. -/
structure SameBut (c c' : NativeStaticBindings) : Prop where
  signature : c'.signature = c.signature
  valid : c'.valid = c.valid
  pixelAddress : c'.pixelAddress = c.pixelAddress
  pixelValid : c'.pixelValid = c.pixelValid

/-- A cache is the same as itself. -/
theorem SameBut.refl (c : NativeStaticBindings) : SameBut c c := ⟨rfl, rfl, rfl, rfl⟩

/-- And sameness is transitive. -/
theorem SameBut.trans {c c' c'' : NativeStaticBindings} (h : SameBut c c') (h' : SameBut c' c'') :
    SameBut c c'' :=
  ⟨h'.signature.trans h.signature, h'.valid.trans h.valid, h'.pixelAddress.trans h.pixelAddress,
    h'.pixelValid.trans h.pixelValid⟩

/-- A round of the loop: an unrequested root is left alone, a requested one gets
its value, and is written unless it is bound already. -/
theorem updateRoot_spec (acc : NativeStaticBindings × BitVec 32) (i : Fin 4) :
    SameBut acc.1 (updateRoot values requested enabled acc i).1 ∧
      (updateRoot values requested enabled acc i).1.values =
        (if requested.getLsbD i then Function.update acc.1.values i (values i) else acc.1.values) ∧
      (updateRoot values requested enabled acc i).2 =
        (if requested.getLsbD i && !acc.1.Hit values enabled i then acc.2 ||| BitVec.twoPow 32 i
          else acc.2) := by
  obtain ⟨c, rebind⟩ := acc
  unfold updateRoot Hit
  dsimp only
  cases hr : requested.getLsbD i with
  | false => exact ⟨.refl c, rfl, rfl⟩
  | true =>
      by_cases hhit : (enabled && c.valid.getLsbD i && c.values i == values i) = true
      · simp only [hhit, Bool.not_true, Bool.and_false, Bool.false_eq_true, if_false, if_true]
        exact ⟨⟨rfl, rfl, rfl, rfl⟩, trivial, trivial⟩
      · rw [Bool.not_eq_true] at hhit
        simp only [hhit, Bool.not_true, Bool.not_false, Bool.and_self, Bool.false_eq_true, if_false,
          if_true]
        exact ⟨⟨rfl, rfl, rfl, rfl⟩, trivial, trivial⟩

/-- The loop over some roots, seen from one of them. -/
theorem foldl_updateRoot_spec (l : List (Fin 4)) (hl : l.Nodup)
    (acc : NativeStaticBindings × BitVec 32) :
    SameBut acc.1 (l.foldl (updateRoot values requested enabled) acc).1 ∧
      ∀ i, (l.foldl (updateRoot values requested enabled) acc).1.values i =
          (if i ∈ l ∧ requested.getLsbD i = true then values i else acc.1.values i) ∧
        (l.foldl (updateRoot values requested enabled) acc).2.getLsbD i =
          (acc.2.getLsbD i ||
            (decide (i ∈ l) && requested.getLsbD i && !acc.1.Hit values enabled i)) := by
  induction l generalizing acc with
  | nil => exact ⟨.refl _, fun i => by simp⟩
  | cons t l ih =>
      rw [List.nodup_cons] at hl
      obtain ⟨hsame, hvalues, hrebind⟩ :=
        @updateRoot_spec values requested enabled acc t
      obtain ⟨hrest, hroots⟩ := ih hl.2 (updateRoot values requested enabled acc t)
      refine ⟨hsame.trans hrest, fun i => ?_⟩
      obtain ⟨hvalue, hbit⟩ := hroots i
      rw [List.foldl_cons, hvalue, hbit, hvalues, hrebind]
      rcases eq_or_ne i t with rfl | hne
      · have hnot : i ∉ l := hl.1
        cases hr : requested.getLsbD i <;> cases hh : acc.1.Hit values enabled i <;>
          simp [hnot, i.isLt.trans (by decide : 4 < 32)]
      · have hkeep : (if requested.getLsbD t = true then Function.update acc.1.values t (values t)
            else acc.1.values) i = acc.1.values i := by
          split
          · exact Function.update_of_ne hne ..
          · rfl
        have hhit : (updateRoot values requested enabled acc t).1.Hit values enabled i =
            acc.1.Hit values enabled i := by
          rw [Hit, Hit, hvalues, hkeep, hsame.valid]
        have hmem : i ∈ t :: l ↔ i ∈ l := by simp [hne]
        have hold : (if (requested.getLsbD t && !acc.1.Hit values enabled t) = true then
            acc.2 ||| BitVec.twoPow 32 t else acc.2).getLsbD i = acc.2.getLsbD i := by
          split
          · have hval : ¬t.val = i.val := fun h => hne (Fin.ext h.symm)
            rw [BitVec.getLsbD_or, BitVec.getLsbD_twoPow, decide_eq_false hval, Bool.and_false,
              Bool.or_false]
          · rfl
        rw [hkeep, hhit, hold]
        simp only [hmem]
        trivial

/-- Every one of the four roots is visited. -/
theorem mem_roots : ∀ i : Fin 4, i ∈ [0, 1, 2, 3] := by decide

/-- What `Update` leaves of the validity and the roots it asks to write. -/
structure UpdateSpec (c c' : NativeStaticBindings) (newSignature : UInt64) (newValues : Fin 4 → UInt64)
    (requested : BitVec 32) (enabled : Bool) (rebind : BitVec 32) : Prop where
  signature : c'.signature = newSignature
  pixelAddress : c'.pixelAddress = c.pixelAddress
  pixelValid : c'.pixelValid = c.pixelValid
  values : ∀ i : Fin 4, c'.values i = if requested.getLsbD i then newValues i else c.values i
  valid : ∀ i : Fin 4,
    c'.valid.getLsbD i = (enabled && (c.valid.getLsbD i || requested.getLsbD i))
  writes : ∀ i : Fin 4, rebind.getLsbD i = (requested.getLsbD i && !c.Hit newValues enabled i)

/-- **What `Update` does**: it asks for exactly the roots whose value is not known to be bound, and
knows them all afterwards. -/
theorem update_spec (c : NativeStaticBindings) (signature : UInt64) (values : Fin 4 → UInt64)
    (samplerUsed enabled : Bool) :
    UpdateSpec (c.setSignature signature) (c.update signature values samplerUsed enabled).1 signature
      values (NativeStaticBindings.requested samplerUsed) enabled
      (c.update signature values samplerUsed enabled).2 := by
  have hset : (c.setSignature signature).signature = signature := rfl
  generalize hreq : NativeStaticBindings.requested samplerUsed = requested
  obtain ⟨hsame, hroots⟩ := @foldl_updateRoot_spec values requested enabled [0, 1, 2, 3] (by decide)
    (c.setSignature signature, 0)
  have hupdate : c.update signature values samplerUsed enabled =
      ({ ([0, 1, 2, 3].foldl (updateRoot values requested enabled) (c.setSignature signature, 0)).1 with
          valid := if enabled then
            ([0, 1, 2, 3].foldl (updateRoot values requested enabled)
              (c.setSignature signature, 0)).1.valid ||| requested else 0 },
        ([0, 1, 2, 3].foldl (updateRoot values requested enabled) (c.setSignature signature, 0)).2) := by
    rw [← hreq]
    rfl
  rw [hupdate]
  generalize [0, 1, 2, 3].foldl (updateRoot values requested enabled) (c.setSignature signature, 0) =
    acc at hsame hroots
  constructor
  case signature => exact hsame.signature.trans hset
  case pixelAddress => exact hsame.pixelAddress
  case pixelValid => exact hsame.pixelValid
  case values =>
    intro i
    refine (hroots i).1.trans ?_
    simp only [mem_roots i, true_and]
  case valid =>
    intro i
    cases enabled with
    | false => exact BitVec.getLsbD_zero
    | true =>
        dsimp only
        rw [if_pos rfl, BitVec.getLsbD_or, hsame.valid, Bool.true_and]
  case writes =>
    intro i
    refine (hroots i).2.trans ?_
    rw [decide_eq_true (mem_roots i), Bool.true_and]
    exact (congrArg (· || _) BitVec.getLsbD_zero).trans (Bool.false_or _)

end NativeStaticBindings

/-! ### The invariant -/

/-- What the cache holds valid is bound, under the signature it names. -/
structure Tracks (g : Roots) (c : NativeStaticBindings) : Prop where
  statics : ∀ i : Fin 4, c.valid.getLsbD i = true →
    g.signature = some c.signature ∧ g.statics i = some (c.values i)
  pixel : c.pixelValid = true → g.signature = some c.signature ∧ g.pixel = some c.pixelAddress

open NativeStaticBindings

variable {g : Roots} {c : NativeStaticBindings}

/-- A cache that was invalidated says nothing, so it is right about any list. -/
theorem tracks_invalidateAll (g : Roots) (c : NativeStaticBindings) : Tracks g c.invalidateAll :=
  ⟨fun _ h => absurd (BitVec.getLsbD_zero.symm.trans h) Bool.false_ne_true, nofun⟩

/-- The list has the signature that was set last. -/
theorem Roots.signature_setSignature (g : Roots) (signature : UInt64) :
    (g.setSignature signature).signature = some signature := by
  unfold Roots.setSignature
  split
  · assumption
  · rfl

/-- The cache takes on a root signature, whatever the list does. -/
theorem Tracks.setCacheSignature (h : Tracks g c) (signature : UInt64) :
    Tracks g (c.setSignature signature) := by
  unfold NativeStaticBindings.setSignature
  by_cases hc : c.signature = signature
  · rw [if_neg fun hne => hne hc]
    subst hc
    exact ⟨h.statics, h.pixel⟩
  · rw [if_pos hc]
    exact ⟨fun _ hi => absurd (BitVec.getLsbD_zero.symm.trans hi) Bool.false_ne_true, nofun⟩

/-- Both sides take on a root signature: the list forgets what was bound under another, and so does
the cache. -/
theorem Tracks.setSignature (h : Tracks g c) (signature : UInt64) :
    Tracks (g.setSignature signature) (c.setSignature signature) := by
  have hset := h.setCacheSignature signature
  by_cases hg : g.signature = some signature
  · rw [Roots.setSignature, if_pos hg]
    exact hset
  · -- a list that changes its signature forgets nothing the cache holds valid
    exact ⟨fun i hi => absurd (hset.statics i hi).1 hg, fun hp => absurd (hset.pixel hp).1 hg⟩

/-- Changing the tables' heaps invalidates what the cache says of the two tables. -/
theorem Tracks.invalidateDescriptorTables (h : Tracks g c) (texture sampler : Option UInt64) :
    Tracks { g with statics := ![texture, sampler, g.statics 2, g.statics 3] }
      c.invalidateDescriptorTables := by
  refine ⟨fun i hi => ?_, h.pixel⟩
  rw [NativeStaticBindings.invalidateDescriptorTables, BitVec.getLsbD_and, Bool.and_eq_true] at hi
  obtain ⟨hsignature, hvalue⟩ := h.statics i hi.1
  refine ⟨hsignature, ?_⟩
  have htables : ∀ i : Fin 4, (~~~(kTextureTable ||| kSamplerTable)).getLsbD i = true →
      i = 2 ∨ i = 3 := by decide
  obtain rfl | rfl := htables i hi.2
  · exact hvalue
  · exact hvalue

/-- A static draw binds the roots it requests and leaves the others. -/
theorem Roots.statics_bindStatic (g : Roots) (d : StaticDraw) (i : Fin 4) :
    (g.bindStatic d).statics i = if (requested d.samplerUsed).getLsbD i then some (d.values i)
      else (g.setSignature d.signature).statics i :=
  rfl

/-- A root that is not written is bound already. -/
theorem Tracks.bindStatic {s : BoundList} (h : Tracks s.roots s.cache) (d : StaticDraw) :
    Tracks (s.bindStatic d).roots (s.bindStatic d).cache ∧
      (s.bindStatic d).roots = s.roots.bindStatic d := by
  have hset := h.setSignature d.signature
  have hspec := update_spec s.cache d.signature d.values d.samplerUsed d.enabled
  have hsig := s.roots.signature_setSignature d.signature
  have hbind : s.bindStatic d =
      ⟨(s.roots.setSignature d.signature).write
          (s.cache.update d.signature d.values d.samplerUsed d.enabled).2 d.values,
        (s.cache.update d.signature d.values d.samplerUsed d.enabled).1⟩ := rfl
  have hwrite : (s.bindStatic d).roots = s.roots.bindStatic d := by
    rw [hbind, Roots.bindStatic]
    refine congrArg (fun statics => Roots.mk _ statics _) (funext fun i => ?_)
    rw [hspec.writes]
    cases hreq : (requested d.samplerUsed).getLsbD i with
    | false => rw [Bool.false_and]
    | true =>
        cases hhit : (s.cache.setSignature d.signature).Hit d.values d.enabled i with
        | false => rw [Bool.true_and, Bool.not_false]
        | true =>
            rw [Hit, Bool.and_eq_true, Bool.and_eq_true, beq_iff_eq] at hhit
            rw [Bool.true_and, Bool.not_true, if_neg Bool.false_ne_true, if_pos rfl,
              (hset.statics i hhit.1.2).2, hhit.2]
  refine ⟨⟨fun i hi => ?_, fun hp => ?_⟩, hwrite⟩
  · rw [hwrite]
    refine ⟨?_, ?_⟩
    · exact hsig.trans (congrArg some hspec.signature.symm)
    · have hvalid := (hspec.valid i).symm.trans hi
      rw [Bool.and_eq_true, Bool.or_eq_true] at hvalid
      refine Eq.trans ?_ (congrArg some (hspec.values i).symm)
      rw [Roots.statics_bindStatic]
      cases hreq : (requested d.samplerUsed).getLsbD i with
      | true => rw [if_pos rfl, if_pos rfl]
      | false =>
          rw [hreq] at hvalid
          rw [if_neg Bool.false_ne_true, if_neg Bool.false_ne_true]
          exact (hset.statics i (hvalid.2.resolve_right Bool.false_ne_true)).2
  · have hpixel := hset.pixel (hspec.pixelValid.symm.trans hp)
    rw [hwrite]
    exact ⟨hsig.trans (congrArg some hspec.signature.symm),
      hpixel.2.trans (congrArg some hspec.pixelAddress.symm)⟩

/-- What a query of the pixel constants leaves of the cache: it still tracks the list, and answers
that no write is needed only where the address is bound. -/
theorem Tracks.query {signature : UInt64} (h : Tracks g (c.setSignature signature))
    (address : UInt64) (enabled : Bool) :
    Tracks g (c.needsPixelConstantBufferWrite signature address enabled).1 ∧
      ((c.needsPixelConstantBufferWrite signature address enabled).2 = false →
        g.pixel = some address) := by
  unfold needsPixelConstantBufferWrite
  generalize c.setSignature signature = c at h ⊢
  have hdisabled : Tracks g (if !enabled then { c with pixelValid := false } else c) := by
    split
    · exact ⟨h.statics, nofun⟩
    · exact h
  dsimp only
  generalize (if !enabled then { c with pixelValid := false } else c) = c' at hdisabled ⊢
  by_cases hhit : (c'.pixelValid && c'.pixelAddress == address) = true
  · rw [if_pos hhit]
    rw [Bool.and_eq_true, beq_iff_eq] at hhit
    refine ⟨⟨hdisabled.statics, hdisabled.pixel⟩, fun _ => ?_⟩
    rw [(hdisabled.pixel hhit.1).2, hhit.2]
  · rw [if_neg hhit]
    exact ⟨hdisabled, nofun⟩

/-- The signature of the cache after a query. -/
theorem signature_query (c : NativeStaticBindings) (signature address : UInt64) (enabled : Bool) :
    (c.needsPixelConstantBufferWrite signature address enabled).1.signature = signature := by
  have hset : (c.setSignature signature).signature = signature := rfl
  unfold needsPixelConstantBufferWrite
  generalize c.setSignature signature = c at hset ⊢
  dsimp only
  cases enabled with
  | false =>
      rw [apply_ite Prod.fst, apply_ite NativeStaticBindings.signature]
      exact (ite_self _).trans hset
  | true =>
      rw [apply_ite Prod.fst, apply_ite NativeStaticBindings.signature]
      exact (ite_self _).trans hset

/-- **Binding the pixel constants through the cache leaves the list as binding them at once does.** -/
theorem Tracks.bindPixel {s : BoundList} (h : Tracks s.roots s.cache) (signature address : UInt64)
    (enabled : Bool) :
    Tracks (s.bindPixel signature address enabled).roots (s.bindPixel signature address enabled).cache ∧
      (s.bindPixel signature address enabled).roots = s.roots.bindPixel signature address := by
  obtain ⟨htracks, hhit⟩ := (h.setSignature signature).query address enabled
  have hsig := signature_query s.cache signature address enabled
  have hroots := s.roots.signature_setSignature signature
  unfold BoundList.bindPixel Roots.bindPixel
  generalize s.cache.needsPixelConstantBufferWrite signature address enabled = q at htracks hhit hsig ⊢
  obtain ⟨c', needed⟩ := q
  cases needed with
  | true =>
      exact ⟨⟨htracks.statics, fun _ => ⟨hroots.trans (congrArg some hsig.symm), rfl⟩⟩, rfl⟩
  | false =>
      refine ⟨htracks, ?_⟩
      generalize s.roots.setSignature signature = roots at hhit ⊢
      have hpixel := hhit rfl
      obtain ⟨sig, statics, pixel⟩ := roots
      dsimp only at hpixel
      subst hpixel
      rfl

/-- **One event keeps the roots equal**: what the cache leaves out was bound already. -/
theorem Tracks.step {s : BoundList} (h : Tracks s.roots s.cache) (e : BindingEvent) :
    Tracks (s.step e).1.roots (s.step e).1.cache ∧ (s.step e).1.roots = (s.roots.step e).1 ∧
      (s.step e).2 = (s.roots.step e).2 := by
  cases e with
  | external roots => exact ⟨tracks_invalidateAll roots s.cache, rfl, rfl⟩
  | heapChange texture sampler => exact ⟨h.invalidateDescriptorTables texture sampler, rfl, rfl⟩
  | bindStatic d => exact ⟨(h.bindStatic d).1, (h.bindStatic d).2, rfl⟩
  | queryPixel signature address enabled =>
      exact ⟨((h.setCacheSignature signature).query address enabled).1, rfl, rfl⟩
  | bindPixel signature address enabled =>
      exact ⟨(h.bindPixel signature address enabled).1, (h.bindPixel signature address enabled).2, rfl⟩
  | draw d pixel pixelEnabled =>
      obtain ⟨hstatic, hroots⟩ := h.bindStatic d
      obtain ⟨hpixel, hroots'⟩ := hstatic.bindPixel d.signature pixel pixelEnabled
      rw [hroots] at hroots'
      exact ⟨hpixel, hroots', congrArg (fun g => [Roots.drawn g d.samplerUsed]) hroots'⟩

/-- And so every run of binding events leaves the roots that the same run without the cache leaves. -/
theorem Tracks.run {s : BoundList} (h : Tracks s.roots s.cache) (es : List BindingEvent) :
    s.run es = s.roots.run es := by
  induction es generalizing s with
  | nil => rfl
  | cons e es ih =>
      obtain ⟨htracks, hroots, hdrawn⟩ := h.step e
      rw [BoundList.run, Roots.run, hdrawn, ih htracks, hroots]

/-- **The cache is transparent.**  Whatever the command list holds at the start and
whatever happens to it, each draw sees in the roots it uses what it would see if
all of them were written before every draw. -/
theorem staticBindings_transparent (roots : Roots) (es : List BindingEvent) :
    (BoundList.mk roots {}).run es = roots.run es :=
  Tracks.run (tracks_invalidateAll roots {}) es

end D3D12
end BoltsRebuilt
