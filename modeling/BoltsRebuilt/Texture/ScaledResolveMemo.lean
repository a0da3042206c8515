/-
# The memos of `FindOrCreateTexture`

`src/gpu/vendored/src/graphics/pipeline/texture/cache.cpp`: the layout memo and the
scaled-resolve decision memo of `FindOrCreateTexture`, against the threads that
change the bitmap.

`FindOrCreateTexture` asks whether a texture's base or its mips were resolved at
the draw resolution scale.  The layout memo gives the extents of the two ranges by
the fields the guest layout depends on, the decision memo the answer by the ranges
and the generation of the bitmap.  Writers of the bitmap hold the global lock, and
so does a lookup; the generation is read without it.

A resolve marks pages on the command thread, between its calls; a write of the CPU
clears them on its own thread, at any time.  Both bump the generation before they
change a word.

`TextureKey` and `GetGuestLayout` are declared in a header of the SDK: the widths
are those of the packing, and the layout is a function of the ten packed fields.
The generation does not wrap.  Only keys that are tiled and of a supported format
get here.
-/

import BoltsRebuilt.Lib.Packing
import BoltsRebuilt.Lib.System
import BoltsRebuilt.Texture.ResolvedPages

namespace BoltsRebuilt
namespace TextureCache

/-- The fields `GetGuestLayout` reads. -/
structure LayoutFields where
  dimension : BitVec 2
  widthMinus1 : BitVec 13
  heightMinus1 : BitVec 13
  tiled : BitVec 1
  packedMips : BitVec 1
  depthOrArraySizeMinus1 : BitVec 10
  pitch : BitVec 9
  mipMaxLevel : BitVec 4
  format : BitVec 6
  /-- `base_page != 0`. -/
  hasBase : Bool

/-- `TextureKey`. -/
structure TextureKey where
  basePage : BitVec 17
  mipPage : BitVec 17
  dimension : BitVec 2
  widthMinus1 : BitVec 13
  heightMinus1 : BitVec 13
  tiled : BitVec 1
  packedMips : BitVec 1
  depthOrArraySizeMinus1 : BitVec 10
  pitch : BitVec 9
  mipMaxLevel : BitVec 4
  format : BitVec 6

/-- `level_data_extent_bytes` of the base and `mips_total_extent_bytes`. -/
structure Extents where
  base : BitVec 32
  mips : BitVec 32
deriving DecidableEq

namespace TextureKey

def layoutFields (key : TextureKey) : LayoutFields where
  dimension := key.dimension
  widthMinus1 := key.widthMinus1
  heightMinus1 := key.heightMinus1
  tiled := key.tiled
  packedMips := key.packedMips
  depthOrArraySizeMinus1 := key.depthOrArraySizeMinus1
  pitch := key.pitch
  mipMaxLevel := key.mipMaxLevel
  format := key.format
  hasBase := key.basePage != 0

/-- The key of the layout memo. -/
def packed (key : TextureKey) : BitVec 64 :=
  key.dimension.setWidth 64 <<< 0 ||| key.widthMinus1.setWidth 64 <<< 2 |||
    key.heightMinus1.setWidth 64 <<< 15 ||| key.tiled.setWidth 64 <<< 28 |||
    key.packedMips.setWidth 64 <<< 29 ||| key.depthOrArraySizeMinus1.setWidth 64 <<< 30 |||
    key.pitch.setWidth 64 <<< 40 ||| key.mipMaxLevel.setWidth 64 <<< 49 |||
    key.format.setWidth 64 <<< 53 ||| (BitVec.ofBool (key.basePage != 0)).setWidth 64 <<< 59 |||
    (1#1).setWidth 64 <<< 63

/-- Where a key has its entry. -/
def layoutIndex (packed : BitVec 64) : BitVec 64 := (packed * 0x9E3779B97F4A7C15#64) >>> (64 - 10)

variable {key key' : TextureKey}

/-- Keys of one packing have one layout, so the memo may be asked by the packed word. -/
theorem layoutFields_eq_of_packed_eq (h : key.packed = key'.packed) :
    key.layoutFields = key'.layoutFields := by
  have hfield : ∀ k w, key.packed.extractLsb' k w = key'.packed.extractLsb' k w := fun k w => by rw [h]
  have hdimension := hfield 0 2
  have hwidth := hfield 2 13
  have hheight := hfield 15 13
  have htiled := hfield 28 1
  have hpackedMips := hfield 29 1
  have hdepth := hfield 30 10
  have hpitch := hfield 40 9
  have hmipMaxLevel := hfield 49 4
  have hformat := hfield 53 6
  have hhasBase := hfield 59 1
  clear hfield h
  simp (disch := decide) only [packed, BitVec.extractLsb'_or, Packing.extract_place,
    Packing.extract_place_above, Packing.extract_place_below, BitVec.or_zero, BitVec.zero_or] at *
  rw [layoutFields, layoutFields, hdimension, hwidth, hheight, htiled, hpackedMips, hdepth, hpitch,
    hmipMaxLevel, hformat]
  have hbool : ∀ x y : Bool, BitVec.ofBool x = BitVec.ofBool y → x = y := by decide
  rw [hbool _ _ hhasBase]

/-- A packed key is not that of an empty entry. -/
theorem packed_ne_zero (key : TextureKey) : key.packed ≠ 0 := by
  intro h
  have hbit : key.packed.extractLsb' 63 1 = 1#1 := by
    simp (disch := decide) only [packed, BitVec.extractLsb'_or, Packing.extract_place,
      Packing.extract_place_above, BitVec.zero_or]
  rw [h] at hbit
  exact absurd hbit (by decide)

end TextureKey

/-! ### The layout memo -/

/-- `NbLayoutMemoEntry`. -/
structure NbLayoutMemoEntry where
  key : BitVec 64 := 0
  extents : Extents := ⟨0, 0⟩

abbrev LayoutMemo := BitVec 64 → NbLayoutMemoEntry

/-- The options of a call, as the frame has them. -/
structure Modes where
  memoOn : Bool
  memoVerify : Bool
  decisionOn : Bool
  decisionVerify : Bool

/-- The extents a call uses, and the memo it leaves. -/
def LayoutMemo.extents (memo : LayoutMemo) (getGuestLayout : LayoutFields → Extents) (key : TextureKey)
    (modes : Modes) : Extents × LayoutMemo :=
  if modes.memoOn then
    let packed := key.packed
    let entry := memo (TextureKey.layoutIndex packed)
    if entry.key = packed then
      if modes.memoVerify then
        let layout := getGuestLayout key.layoutFields
        (if layout.base ≠ entry.extents.base ∨ layout.mips ≠ entry.extents.mips then layout
          else entry.extents, memo)
      else (entry.extents, memo)
    else
      let layout := getGuestLayout key.layoutFields
      (layout, Function.update memo (TextureKey.layoutIndex packed) ⟨packed, layout⟩)
  else (getGuestLayout key.layoutFields, memo)

/-- The memo holds layouts. -/
def LayoutMemo.Right (memo : LayoutMemo) (getGuestLayout : LayoutFields → Extents) : Prop :=
  ∀ i key, (memo i).key = TextureKey.packed key → (memo i).extents = getGuestLayout key.layoutFields

/-- **The layout memo gives what the layout is**, whether it has the key or computes it. -/
theorem LayoutMemo.Right.extents {memo : LayoutMemo} {getGuestLayout : LayoutFields → Extents}
    (h : memo.Right getGuestLayout) (key : TextureKey) (modes : Modes) :
    (memo.extents getGuestLayout key modes).1 = getGuestLayout key.layoutFields ∧
      (memo.extents getGuestLayout key modes).2.Right getGuestLayout := by
  unfold LayoutMemo.extents
  dsimp only
  split
  · split
    · rename_i hkey
      have hextents := h _ key hkey
      split
      · refine ⟨?_, h⟩
        dsimp only
        rw [hextents, if_neg]
        rintro (hne | hne)
        · exact hne rfl
        · exact hne rfl
      · exact ⟨hextents, h⟩
    · refine ⟨rfl, fun i key' hkey' => ?_⟩
      dsimp only at hkey' ⊢
      by_cases hi : i = TextureKey.layoutIndex key.packed
      · rw [hi, Function.update_self] at hkey' ⊢
        rw [TextureKey.layoutFields_eq_of_packed_eq hkey']
      · rw [Function.update_of_ne hi] at hkey' ⊢
        exact h i key' hkey'
  · exact ⟨rfl, h⟩

/-! ### The decision memo -/

/-- `NbScaledDecisionEntry`. -/
structure NbScaledDecisionEntry where
  extents : BitVec 64 := 0
  pages : BitVec 64 := 0
  generation : ℕ := 0
  valid : Bool := false
  scaled : Bool := false

/-- A call past its layout: the key and the extents it uses. -/
structure Call where
  key : TextureKey
  extents : Extents

namespace Call

/-- `nb_extents`. -/
def nbExtents (call : Call) : BitVec 64 :=
  call.extents.base.setWidth 64 <<< 0 ||| call.extents.mips.setWidth 64 <<< 32

/-- `nb_pages`. -/
def nbPages (call : Call) : BitVec 64 :=
  call.key.basePage.setWidth 64 <<< 0 ||| call.key.mipPage.setWidth 64 <<< 17

/-- Where the decision has its entry. -/
def decisionIndex (call : Call) : BitVec 64 :=
  ((call.nbExtents * 0x9E3779B97F4A7C15#64) ^^^ (call.nbPages * 0xC2B2AE3D27D4EB4F#64)) >>> (64 - 10)

/-- What `IsRangeScaledResolved` returns on the base range, where there is one. -/
def baseScaled (call : Call) (b : ResolvedPages) : Bool :=
  call.extents.base != 0 &&
    b.isRangeScaledResolved (call.key.basePage.toNat <<< 12) call.extents.base.toNat

/-- What it returns on the range of the mips. -/
def mipsScaled (call : Call) (b : ResolvedPages) : Bool :=
  call.extents.mips != 0 &&
    b.isRangeScaledResolved (call.key.mipPage.toNat <<< 12) call.extents.mips.toNat

/-- `nb_scaled_now` on a bitmap that stands still. -/
def scaledNow (call : Call) (b : ResolvedPages) : Bool := call.baseScaled b || call.mipsScaled b

variable {call call' : Call} {b c : ResolvedPages}

/-- Whether the base is scaled depends on the pages alone, where the summary is right. -/
theorem baseScaled_congr (hb : b.Summarised) (hc : c.Summarised) (h : b.pages = c.pages) :
    call.baseScaled b = call.baseScaled c := by
  rw [baseScaled, baseScaled, ResolvedPages.isRangeScaledResolved_congr hb hc h]

/-- Whether the mips are scaled depends on the pages alone, where the summary is right. -/
theorem mipsScaled_congr (hb : b.Summarised) (hc : c.Summarised) (h : b.pages = c.pages) :
    call.mipsScaled b = call.mipsScaled c := by
  rw [mipsScaled, mipsScaled, ResolvedPages.isRangeScaledResolved_congr hb hc h]

/-- Whether the texture is scaled depends on the pages alone, where the summary is right. -/
theorem scaledNow_congr (hb : b.Summarised) (hc : c.Summarised) (h : b.pages = c.pages) :
    call.scaledNow b = call.scaledNow c := by
  rw [scaledNow, scaledNow, baseScaled_congr hb hc h, mipsScaled_congr hb hc h]

/-- A base that is not scaled is not with fewer bits. -/
theorem baseScaled_of_within (h : b.Within c) (hc : call.baseScaled c = false) :
    call.baseScaled b = false := by
  rw [← Bool.not_eq_true] at hc ⊢
  intro hb
  rw [baseScaled, Bool.and_eq_true] at hb
  refine hc ?_
  rw [baseScaled, Bool.and_eq_true]
  exact ⟨hb.1, h.isRangeScaledResolved hb.2⟩

/-- Calls of one key of the memo ask about the same ranges. -/
theorem scaledNow_eq_of_keys (hextents : call.nbExtents = call'.nbExtents)
    (hpages : call.nbPages = call'.nbPages) : call.scaledNow = call'.scaledNow := by
  have hbase := congrArg (BitVec.extractLsb' 0 32) hextents
  have hmips := congrArg (BitVec.extractLsb' 32 32) hextents
  have hbasePage := congrArg (BitVec.extractLsb' 0 17) hpages
  have hmipPage := congrArg (BitVec.extractLsb' 17 17) hpages
  simp (disch := decide) only [nbExtents, nbPages, BitVec.extractLsb'_or, Packing.extract_place,
    Packing.extract_place_above, Packing.extract_place_below, BitVec.or_zero, BitVec.zero_or]
    at hbase hmips hbasePage hmipPage
  funext b
  rw [scaledNow, scaledNow, baseScaled, baseScaled, mipsScaled, mipsScaled, hbase, hmips, hbasePage,
    hmipPage]

end Call

/-! ### The threads -/

/-- Where a writer is in the edit of a word. -/
inductive Phase where
  | bump
  | pages
  | l2

/-- The holder of the global lock: the edits it has left, and for the callback the
words of the upper level it has not read yet. -/
structure Writer where
  /-- Whether this is `MarkRangeAsResolved` on the command thread. -/
  marking : Bool := false
  edits : List Edit
  phase : Phase := .bump
  words : List ℕ := []
  first : ℕ := 0
  last : ℕ := 0
  preMask : Bool := true

/-- `MarkRangeAsResolved`, with the lock taken. -/
def Writer.mark (start length : ℕ) : Writer where
  marking := true
  edits := markEdits start length

/-- `ScaledResolveGlobalWatchCallback` for a write of the CPU. -/
def Writer.watchCallback (addressFirst addressLast : ℕ) (preMask : Bool) : Writer where
  edits := []
  words := Span.cells ((addressFirst >>> 12) / 32 / 64, (addressLast >>> 12) / 32 / 64)
  first := addressFirst >>> 12
  last := addressLast >>> 12
  preMask := preMask

/-- What a call does with the answer of its lookup. -/
inductive After where
  /-- The memo is off. -/
  | use
  /-- A miss: the answer goes into the memo under the generation read before. -/
  | store (generation : ℕ)
  /-- A hit that is verified. -/
  | verify (scaled : Bool)

/-- The command thread: in `MarkRangeAsResolved`, as part of a resolve, or in
`FindOrCreateTexture`. -/
inductive Reader where
  | idle
  | marking
  | entry (key : TextureKey) (modes : Modes)
  | load (call : Call) (verify : Bool)
  | scanBase (call : Call) (after : After)
  | scanMips (call : Call) (after : After)
  | finish (call : Call) (after : After) (scaled : Bool)
  | done (call : Call) (scaled : Bool)

structure State where
  bits : ResolvedPages
  generation : ℕ
  /-- The holder of the lock. -/
  writer : Option Writer
  layoutMemo : LayoutMemo
  decisionMemo : BitVec 64 → NbScaledDecisionEntry
  reader : Reader

namespace State

/-- A step of the holder of the lock. -/
def write (s : State) (w : Writer) : State :=
  match w.edits, w.words with
  | [], [] => { s with writer := none, reader := if w.marking then .idle else s.reader }
  | [], i :: words =>
      { s with
        writer := some { w with
          edits := unmarkEdits w.first w.last w.preMask i (s.bits.l2 i)
          words
          phase := .bump } }
  | e :: edits, _ =>
      match w.phase with
      | .bump =>
          { s with
            generation := if e.changes s.bits then s.generation + 1 else s.generation
            writer := some { w with phase := .pages } }
      | .pages => { s with bits := e.writePages s.bits, writer := some { w with phase := .l2 } }
      | .l2 => { s with bits := e.writeL2 s.bits, writer := some { w with edits, phase := .bump } }

/-- The generation is read, and the memo looked up. -/
def load (s : State) (call : Call) (verify : Bool) : State :=
  let decision := s.decisionMemo call.decisionIndex
  if decision.valid ∧ decision.extents = call.nbExtents ∧ decision.pages = call.nbPages ∧
      decision.generation = s.generation then
    { s with
      reader := if verify then .scanBase call (.verify decision.scaled) else .done call decision.scaled }
  else { s with reader := .scanBase call (.store s.generation) }

/-- What becomes of an answer. -/
def finish (s : State) (call : Call) (after : After) (scaled : Bool) : State :=
  match after with
  | .use => { s with reader := .done call scaled }
  | .store generation =>
      { s with
        decisionMemo := Function.update s.decisionMemo call.decisionIndex
          { extents := call.nbExtents, pages := call.nbPages, generation, valid := true, scaled }
        reader := .done call scaled }
  | .verify memoised =>
      { s with reader := .done call (if scaled ≠ memoised then scaled else memoised) }

/-- A step of the command thread; none while it waits for the lock. -/
def read (getGuestLayout : LayoutFields → Extents) (s : State) : Option State :=
  match s.reader with
  | .idle | .marking => none
  | .entry key modes =>
      let (extents, layoutMemo) := s.layoutMemo.extents getGuestLayout key modes
      let call : Call := ⟨key, extents⟩
      some { s with
        layoutMemo
        reader := if modes.decisionOn then .load call modes.decisionVerify else .scanBase call .use }
  | .load call verify => some (s.load call verify)
  | .scanBase call after =>
      if call.extents.base = 0 then some { s with reader := .scanMips call after }
      else if s.writer.isSome then none
      else if s.bits.isRangeScaledResolved (call.key.basePage.toNat <<< 12) call.extents.base.toNat then
        some { s with reader := .finish call after true }
      else some { s with reader := .scanMips call after }
  | .scanMips call after =>
      if call.extents.mips = 0 then some { s with reader := .finish call after false }
      else if s.writer.isSome then none
      else some { s with
        reader := .finish call after
          (s.bits.isRangeScaledResolved (call.key.mipPage.toNat <<< 12) call.extents.mips.toNat) }
  | .finish call after scaled => some (s.finish call after scaled)
  | .done _ _ => some { s with reader := .idle }

end State

/-- What can happen next. -/
inductive Step (getGuestLayout : LayoutFields → Extents) : State → State → Prop
  | markRangeAsResolved {s : State} (start length : ℕ) (hlength : length ≠ 0) (hfree : s.writer = none)
      (hidle : s.reader = .idle) :
      Step getGuestLayout s { s with writer := some (.mark start length), reader := .marking }
  | watchCallback {s : State} (addressFirst addressLast : ℕ) (preMask : Bool) (hfree : s.writer = none) :
      Step getGuestLayout s
        { s with writer := some (.watchCallback addressFirst addressLast preMask) }
  | write {s : State} {w : Writer} (hw : s.writer = some w) : Step getGuestLayout s (s.write w)
  /-- A new cache: its bitmap is zeroed before anything watches it. -/
  | construct {s : State} (hfree : s.writer = none) (hidle : s.reader = .idle) :
      Step getGuestLayout s
        { s with bits := ⟨fun _ => 0, fun _ => 0⟩, generation := s.generation + 1 }
  | findOrCreateTexture {s : State} (key : TextureKey) (modes : Modes) (hidle : s.reader = .idle) :
      Step getGuestLayout s { s with reader := .entry key modes }
  | read {s t : State} (h : s.read getGuestLayout = some t) : Step getGuestLayout s t

def initial : State where
  bits := ⟨fun _ => 0, fun _ => 0⟩
  generation := 0
  writer := none
  layoutMemo := fun _ => {}
  decisionMemo := fun _ => {}
  reader := .idle

/-- The cache and the threads around it. -/
def system (getGuestLayout : LayoutFields → Extents) : System State where
  init s := s = initial
  step := Step getGuestLayout

end TextureCache
end BoltsRebuilt
