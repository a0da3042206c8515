/-
# The decision memo against the writers of the bitmap

`src/gpu/vendored/src/graphics/pipeline/texture/cache.cpp`: why a decision of
`FindOrCreateTexture` is one of the bitmap during the call.

`Locked` describes the holder of the lock: at `held`, the generation when the lock
was taken, the bitmap is as it was then, and a word is written only at a later one.
`Known` says what a generation guarantees: an answer under the current generation
is the current answer, and the answers there are do not come from after `held`.
`Advance` is what any step does to both, so each fact about the memo and the call
is carried along by one lemma, `Known.advance`.
-/

import BoltsRebuilt.Texture.ScaledResolveMemo

namespace BoltsRebuilt
namespace TextureCache

/-! ### The lock -/

/-- The edit whose word is written and whose bit above is not. -/
def Writer.owes (w : Writer) : Option Edit :=
  match w.phase, w.edits with
  | .l2, e :: _ => some e
  | _, _ => none

/-- The edit whose word is about to be written. -/
def Writer.writes (w : Writer) : Option Edit :=
  match w.phase, w.edits with
  | .pages, e :: _ => some e
  | _, _ => none

/-- The bitmap with its writer; the lock was taken at generation `held`. -/
structure Locked (held : ℕ) (s : State) : Prop where
  le : held ≤ s.generation
  free : s.writer = none → held = s.generation
  owes : ∀ w e, s.writer = some w → w.owes = some e → e.SummarisedBut s.bits
  summarised : (∀ w, s.writer = some w → w.owes = none) → s.bits.Summarised
  settled : held = s.generation → s.bits.Summarised
  writes : ∀ w e, s.writer = some w → w.writes = some e → e.changes s.bits = true →
    held < s.generation

/-- What a step does, seen from the memo. -/
structure Advance (held : ℕ) (s : State) (held' : ℕ) (t : State) : Prop where
  locked : Locked held' t
  later : held ≤ held'
  generation : s.generation ≤ t.generation
  same : t.generation = s.generation → held = s.generation →
    t.bits.pages = s.bits.pages ∧ s.bits.Summarised ∧ t.bits.Summarised

variable {s t : State} {held held' : ℕ}

/-- A step that leaves the bitmap and its writer. -/
theorem Locked.advance_of_eq (h : Locked held s) (hbits : t.bits = s.bits)
    (hgeneration : t.generation = s.generation) (hwriter : t.writer = s.writer) :
    Advance held s held t := by
  have hlocked : Locked held t := by
    constructor
    case le => exact hgeneration ▸ h.le
    case free =>
      rw [hwriter, hgeneration]
      exact h.free
    case owes =>
      rw [hwriter, hbits]
      exact h.owes
    case summarised =>
      rw [hwriter, hbits]
      exact h.summarised
    case settled =>
      rw [hbits, hgeneration]
      exact h.settled
    case writes =>
      rw [hwriter, hbits, hgeneration]
      exact h.writes
  refine ⟨hlocked, Nat.le_refl _, hgeneration.ge, fun _ hheld => ?_⟩
  rw [hbits]
  exact ⟨rfl, h.settled hheld, h.settled hheld⟩

/-- A writer takes the lock, which advances nothing yet. -/
theorem Locked.advance_acquire (h : Locked held s) (hfree : s.writer = none) (w : Writer)
    (hphase : w.phase = .bump) (reader : Reader) :
    Advance held s held { s with writer := some w, reader } := by
  have hsettled := h.settled (h.free hfree)
  have howes : w.owes = none := by rw [Writer.owes, hphase]
  have hwrites : w.writes = none := by rw [Writer.writes, hphase]
  have hlocked : Locked held { s with writer := some w, reader } := by
    refine { h with free := nofun, owes := ?_, summarised := fun _ => hsettled, writes := ?_ }
    · rintro w' e ⟨⟩ he
      exact absurd (howes.symm.trans he) nofun
    · rintro w' e ⟨⟩ he
      exact absurd (hwrites.symm.trans he) nofun
  exact ⟨hlocked, Nat.le_refl _, Nat.le_refl _, fun _ _ => ⟨rfl, hsettled, hsettled⟩⟩

/-- With no writer under way the lock may be taken at the current generation. -/
theorem Locked.of_free (t : State) (hfree : t.writer = none) (hsummarised : t.bits.Summarised) :
    Locked t.generation t where
  le := Nat.le_refl _
  free _ := rfl
  owes _ _ hw := absurd (hfree.symm.trans hw) nofun
  summarised _ := hsummarised
  settled _ := hsummarised
  writes _ _ hw := absurd (hfree.symm.trans hw) nofun

/-- A new cache has a generation of its own, so no answer of before is taken for one of it. -/
theorem Locked.advance_construct (h : Locked held s) (hfree : s.writer = none) :
    Advance held s (s.generation + 1)
      { s with bits := ⟨fun _ => 0, fun _ => 0⟩, generation := s.generation + 1 } := by
  have hempty : ResolvedPages.Summarised ⟨fun _ => 0, fun _ => 0⟩ := fun _ hne => absurd rfl hne
  have hlocked : Locked (s.generation + 1)
      { s with bits := ⟨fun _ => 0, fun _ => 0⟩, generation := s.generation + 1 } :=
    .of_free { s with bits := ⟨fun _ => 0, fun _ => 0⟩, generation := s.generation + 1 } hfree hempty
  refine ⟨hlocked, ?_, Nat.le_succ _, ?_⟩
  · exact Nat.le_trans h.le (Nat.le_succ _)
  · intro heq
    exact absurd heq (Nat.succ_ne_self _)

/-- **A step of the writer.**  The lock may be released, at any later generation. -/
theorem Locked.advance_write (h : Locked held s) {w : Writer} (hw : s.writer = some w) :
    ∃ held', Advance held s held' (s.write w) := by
  obtain ⟨marking, edits, phase, words, first, last, preMask⟩ := w
  cases edits with
  | nil =>
      have hnone : ∀ w, s.writer = some w → w.owes = none := by
        rintro w hw'
        obtain rfl := Option.some.inj (hw.symm.trans hw')
        cases phase <;> rfl
      have hsummarised := h.summarised hnone
      cases words with
      | nil =>
          have hlocked : Locked s.generation (s.write ⟨marking, [], phase, [], first, last, preMask⟩) :=
            .of_free (s.write ⟨marking, [], phase, [], first, last, preMask⟩) rfl hsummarised
          exact ⟨s.generation, hlocked, h.le, Nat.le_refl _, fun _ _ => ⟨rfl, hsummarised, hsummarised⟩⟩
      | cons i words =>
          refine ⟨held, ?_, Nat.le_refl _, Nat.le_refl _, fun _ _ => ⟨rfl, hsummarised, hsummarised⟩⟩
          refine { h with free := nofun, owes := ?_, summarised := fun _ => hsummarised, writes := ?_ }
          · rintro w e ⟨⟩ he
            exact absurd he nofun
          · rintro w e ⟨⟩ he
            exact absurd he nofun
  | cons e edits =>
      cases phase with
      | bump =>
          have hsummarised := h.summarised fun w hw' => by
            obtain rfl := Option.some.inj (hw.symm.trans hw')
            rfl
          have hgeneration : s.generation ≤
              (s.write ⟨marking, e :: edits, .bump, words, first, last, preMask⟩).generation := by
            rw [State.write]
            dsimp only
            split
            · exact Nat.le_succ _
            · exact Nat.le_refl _
          refine ⟨held, ?_, Nat.le_refl _, hgeneration, fun _ _ => ⟨rfl, hsummarised, hsummarised⟩⟩
          constructor
          case le => exact Nat.le_trans h.le hgeneration
          case free => nofun
          case owes =>
            rintro w e' ⟨⟩ he
            exact absurd he nofun
          case summarised => exact fun _ => hsummarised
          case settled => exact fun _ => hsummarised
          case writes =>
            rintro w e' ⟨⟩ ⟨⟩ hchanges
            have hbump : e.changes s.bits = true := hchanges
            rw [State.write]
            dsimp only
            rw [if_pos hbump]
            exact Nat.lt_succ_of_le h.le
      | pages =>
          have hsummarised := h.summarised fun w hw' => by
            obtain rfl := Option.some.inj (hw.symm.trans hw')
            rfl
          -- a word that changes is written at a later generation
          have hsame : held = s.generation → e.writePages s.bits = s.bits := by
            intro hheld
            refine Edit.writePages_of_not_changes (Bool.eq_false_iff.2 fun hchanges => ?_)
            exact absurd hheld (h.writes _ e hw rfl hchanges).ne
          have hafter : held = s.generation → (e.writePages s.bits).Summarised := by
            intro hheld
            rw [hsame hheld]
            exact hsummarised
          refine ⟨held, ?_, Nat.le_refl _, Nat.le_refl _, fun _ hheld =>
            ⟨congrArg ResolvedPages.pages (hsame hheld), hsummarised, hafter hheld⟩⟩
          refine { le := h.le, free := nofun, owes := ?_, summarised := ?_, settled := hafter, writes := ?_ }
          · rintro w e' ⟨⟩ ⟨⟩
            exact Edit.summarisedBut_writePages hsummarised e
          · intro hnone
            exact absurd (hnone _ rfl) nofun
          · rintro w e' ⟨⟩ he
            exact absurd he nofun
      | l2 =>
          have hsummarised := Edit.summarised_writeL2 (h.owes _ e hw rfl)
          refine ⟨held, ?_, Nat.le_refl _, Nat.le_refl _, fun _ hheld =>
            ⟨Edit.pages_writeL2 s.bits e, h.settled hheld, hsummarised⟩⟩
          refine
            { le := h.le
              free := nofun
              owes := ?_
              summarised := fun _ => hsummarised
              settled := fun _ => hsummarised
              writes := ?_ }
          · rintro w e' ⟨⟩ he
            exact absurd he nofun
          · rintro w e' ⟨⟩ he
            exact absurd he nofun

/-! ### What a generation guarantees -/

/-- An answer `P` that was found after generation `g` was read. -/
structure Known (held : ℕ) (s : State) (g : ℕ) (P : ResolvedPages → Prop) : Prop where
  le : g ≤ s.generation
  now : g = s.generation → P s.bits
  old : g ≤ held ∨ ∀ b, P b

/-- An answer about the pages. -/
def Respects (P : ResolvedPages → Prop) : Prop :=
  ∀ b c : ResolvedPages, b.Summarised → c.Summarised → b.pages = c.pages → P b → P c

/-- What is known at a generation stays known while the pages move on, unless the generation moves
with them. -/
theorem Known.advance {g : ℕ} {P : ResolvedPages → Prop} (hP : Respects P) (h : Known held s g P)
    (ha : Advance held s held' t) (hs : Locked held s) : Known held' t g P := by
  refine ⟨Nat.le_trans h.le ha.generation, fun hg => ?_, h.old.imp_left fun hle => hle.trans ha.later⟩
  rcases h.old with hle | hall
  · have hge := ha.generation
    have hle' := h.le
    have hheld := hs.le
    obtain ⟨hpages, hbefore, hafter⟩ := ha.same (by omega) (by omega)
    exact hP _ _ hbefore hafter hpages.symm (h.now (by omega))
  · exact hall _

/-- An answer found while the lock is free is known at the current generation. -/
theorem Known.of_free {g : ℕ} {P : ResolvedPages → Prop} (hs : Locked held s) (hfree : s.writer = none)
    (hg : g ≤ s.generation) (h : P s.bits) : Known held s g P :=
  ⟨hg, fun _ => h, .inl (hs.free hfree ▸ hg)⟩

/-- Whether a call's texture is scaled depends on the pages alone. -/
theorem respects_scaledNow (call : Call) (d : Bool) : Respects fun b => call.scaledNow b = d :=
  fun _ _ hb hc h hd => (Call.scaledNow_congr hb hc h).symm.trans hd

/-- So does whether its base level is not. -/
theorem respects_baseScaled (call : Call) : Respects fun b => call.baseScaled b = false :=
  fun _ _ hb hc h hd => (Call.baseScaled_congr hb hc h).symm.trans hd

/-! ### The invariant -/

variable {getGuestLayout : LayoutFields → Extents}

/-- A call uses the extents of its layout. -/
def Call.Right (getGuestLayout : LayoutFields → Extents) (call : Call) : Prop :=
  call.extents = getGuestLayout call.key.layoutFields

/-- What is known where the command thread is. -/
def ReaderKnows (getGuestLayout : LayoutFields → Extents) (held : ℕ) (s : State) : Reader → Prop
  | .idle | .marking | .entry _ _ => True
  | .load call _ | .done call _ => call.Right getGuestLayout
  | .scanBase call after => call.Right getGuestLayout ∧ ∀ g, after = .store g → g ≤ s.generation
  | .scanMips call after => call.Right getGuestLayout ∧
      ∀ g, after = .store g → Known held s g fun b => call.baseScaled b = false
  | .finish call after scaled => call.Right getGuestLayout ∧
      ∀ g, after = .store g → Known held s g fun b => call.scaledNow b = scaled

/-- The invariant of the memos. -/
structure Inv (getGuestLayout : LayoutFields → Extents) (held : ℕ) (s : State) : Prop where
  locked : Locked held s
  layout : s.layoutMemo.Right getGuestLayout
  decisions : ∀ i (call : Call), (s.decisionMemo i).valid = true → (s.decisionMemo i).extents = call.nbExtents →
    (s.decisionMemo i).pages = call.nbPages →
    Known held s (s.decisionMemo i).generation fun b => call.scaledNow b = (s.decisionMemo i).scaled
  reader : ReaderKnows getGuestLayout held s s.reader

/-- What a reader knows of the generation it has read stays true as the writer goes on. -/
theorem ReaderKnows.advance {reader : Reader} (h : ReaderKnows getGuestLayout held s reader)
    (ha : Advance held s held' t) (hs : Locked held s) :
    ReaderKnows getGuestLayout held' t reader := by
  cases reader with
  | idle | marking | entry key modes => trivial
  | load call verify | done call scaled => exact h
  | scanBase call after => exact ⟨h.1, fun g hg => (h.2 g hg).trans ha.generation⟩
  | scanMips call after => exact ⟨h.1, fun g hg => (h.2 g hg).advance (respects_baseScaled call) ha hs⟩
  | finish call after scaled =>
      exact ⟨h.1, fun g hg => (h.2 g hg).advance (respects_scaledNow call scaled) ha hs⟩

/-- A step outside of calls keeps the invariant: what the memos hold stays known. -/
theorem Inv.advance (h : Inv getGuestLayout held s) (ha : Advance held s held' t)
    (hlayout : t.layoutMemo = s.layoutMemo) (hdecision : t.decisionMemo = s.decisionMemo)
    (hreader : t.reader = s.reader ∨ t.reader = .idle ∨ t.reader = .marking) :
    Inv getGuestLayout held' t where
  locked := ha.locked
  layout := hlayout ▸ h.layout
  decisions i call := by
    rw [hdecision]
    exact fun hvalid hextents hpages =>
      (h.decisions i call hvalid hextents hpages).advance (respects_scaledNow call _) ha h.locked
  reader := by
    rcases hreader with hreader | hreader | hreader
    · rw [hreader]
      exact h.reader.advance ha h.locked
    · rw [hreader]
      trivial
    · rw [hreader]
      trivial

/-- What a lookup of the base that found nothing leaves known: the base has no bytes, or the lock
was free and none of its pages was marked. -/
theorem known_baseScaled (hs : Locked held s) {call : Call} {g : ℕ} (hg : g ≤ s.generation)
    (h : call.extents.base = 0 ∨ s.writer = none ∧ call.baseScaled s.bits = false) :
    Known held s g fun b => call.baseScaled b = false := by
  rcases h with hzero | ⟨hfree, hbase⟩
  · have hall : ∀ b, call.baseScaled b = false := fun b => by
      rw [Call.baseScaled, hzero]
      rfl
    exact ⟨hg, fun _ => hall _, .inr hall⟩
  · exact .of_free hs hfree hg hbase

/-- A writer leaves the memos, and the command thread unless it was marking. -/
theorem write_frame (s : State) (w : Writer) :
    (s.write w).layoutMemo = s.layoutMemo ∧ (s.write w).decisionMemo = s.decisionMemo ∧
      ((s.write w).reader = s.reader ∨ w.marking = true ∧ (s.write w).reader = .idle) := by
  unfold State.write
  split
  · refine ⟨rfl, rfl, ?_⟩
    dsimp only
    split
    · exact .inr ⟨‹_›, rfl⟩
    · exact .inl rfl
  · exact ⟨rfl, rfl, .inl rfl⟩
  · split <;> exact ⟨rfl, rfl, .inl rfl⟩

/-- The command thread's own step leaves the bitmap and the lock. -/
theorem read_frame (h : s.read getGuestLayout = some t) :
    t.bits = s.bits ∧ t.generation = s.generation ∧ t.writer = s.writer := by
  unfold State.read at h
  cases hreader : s.reader with
  | idle | marking => rw [hreader] at h; exact absurd h nofun
  | entry key modes => rw [hreader] at h; cases h; exact ⟨rfl, rfl, rfl⟩
  | load call verify =>
      rw [hreader] at h
      cases h
      unfold State.load
      dsimp only
      split <;> exact ⟨rfl, rfl, rfl⟩
  | scanBase call after =>
      rw [hreader] at h
      dsimp only at h
      split_ifs at h <;> cases h <;> exact ⟨rfl, rfl, rfl⟩
  | scanMips call after =>
      rw [hreader] at h
      dsimp only at h
      split_ifs at h <;> cases h <;> exact ⟨rfl, rfl, rfl⟩
  | finish call after scaled =>
      rw [hreader] at h
      cases h
      cases after <;> exact ⟨rfl, rfl, rfl⟩
  | done call scaled => rw [hreader] at h; cases h; exact ⟨rfl, rfl, rfl⟩

/-- What is known depends on the bits and the generation alone. -/
theorem Known.of_eq {g : ℕ} {P : ResolvedPages → Prop} (h : Known held s g P) (hbits : t.bits = s.bits)
    (hgeneration : t.generation = s.generation) : Known held t g P :=
  ⟨hgeneration ▸ h.le, by rw [hbits, hgeneration]; exact h.now, h.old⟩

/-- The generation is read: a hit is the answer for the bitmap of this instant. -/
theorem knows_load (h : Inv getGuestLayout held s) {call : Call} {verify : Bool}
    (hright : call.Right getGuestLayout) :
    ReaderKnows getGuestLayout held (s.load call verify) (s.load call verify).reader ∧
      ((∃ after, (s.load call verify).reader = .scanBase call after) ∨
        ∃ scaled, (s.load call verify).reader = .done call scaled ∧ call.scaledNow s.bits = scaled) := by
  unfold State.load
  dsimp only
  split
  · rename_i hhit
    obtain ⟨hvalid, hextents, hpages, hgeneration⟩ := hhit
    have hknown := (h.decisions _ call hvalid hextents hpages).now hgeneration
    cases verify with
    | true => exact ⟨⟨hright, nofun⟩, .inl ⟨_, rfl⟩⟩
    | false => exact ⟨hright, .inr ⟨_, rfl, hknown⟩⟩
  · refine ⟨⟨hright, ?_⟩, .inl ⟨_, rfl⟩⟩
    rintro g ⟨⟩
    exact Nat.le_refl _

/-- **A step of the command thread keeps the invariant.** -/
theorem Inv.read (h : Inv getGuestLayout held s) (hread : s.read getGuestLayout = some t) :
    Inv getGuestLayout held t := by
  obtain ⟨hbits, hgeneration, hwriter⟩ := read_frame hread
  have hlocked := (h.locked.advance_of_eq hbits hgeneration hwriter).locked
  have hreader := h.reader
  have hkeep : ∀ (i : BitVec 64) (call : Call), (s.decisionMemo i).valid = true →
      (s.decisionMemo i).extents = call.nbExtents → (s.decisionMemo i).pages = call.nbPages →
      Known held t (s.decisionMemo i).generation fun b => call.scaledNow b = (s.decisionMemo i).scaled :=
    fun i call hvalid hextents hpages => (h.decisions i call hvalid hextents hpages).of_eq hbits hgeneration
  unfold State.read at hread
  cases hs : s.reader with
  | idle | marking =>
      rw [hs] at hread
      exact absurd hread nofun
  | entry key modes =>
      rw [hs] at hread
      dsimp only at hread
      obtain ⟨hextents, hmemo⟩ := h.layout.extents key modes
      generalize s.layoutMemo.extents getGuestLayout key modes = found at hextents hmemo hread
      cases hread
      refine ⟨hlocked, hmemo, hkeep, ?_⟩
      cases modes.decisionOn with
      | true => exact hextents
      | false => exact ⟨hextents, nofun⟩
  | load call verify =>
      rw [hs] at hread hreader
      cases hread
      have hmemos : (s.load call verify).layoutMemo = s.layoutMemo ∧
          (s.load call verify).decisionMemo = s.decisionMemo := by
        unfold State.load
        dsimp only
        split <;> exact ⟨rfl, rfl⟩
      refine ⟨hlocked, hmemos.1 ▸ h.layout, ?_, (knows_load h hreader).1⟩
      rw [hmemos.2]
      exact hkeep
  | scanBase call after =>
      rw [hs] at hread hreader
      dsimp only at hread
      obtain ⟨hright, hafter⟩ := hreader
      have hbase : call.extents.base = 0 ∨ s.writer = none ∧ call.baseScaled s.bits = false →
          ∀ g, after = .store g → Known held s g fun b => call.baseScaled b = false :=
        fun h' g hg => known_baseScaled h.locked (hafter g hg) h'
      split_ifs at hread with hzero hlock hscaled
      · cases hread
        exact ⟨hlocked, h.layout, hkeep, hright,
          fun g hg => (hbase (.inl hzero) g hg).of_eq rfl rfl⟩
      · cases hread
        have hfree : s.writer = none := Option.not_isSome_iff_eq_none.1 hlock
        refine ⟨hlocked, h.layout, hkeep, hright,
          fun g hg => (Known.of_free h.locked hfree (hafter g hg) ?_).of_eq rfl rfl⟩
        rw [Call.scaledNow, Call.baseScaled, hscaled, Bool.and_true, bne_iff_ne.2 hzero, Bool.true_or]
      · cases hread
        have hfree : s.writer = none := Option.not_isSome_iff_eq_none.1 hlock
        refine ⟨hlocked, h.layout, hkeep, hright,
          fun g hg => (hbase (.inr ⟨hfree, ?_⟩) g hg).of_eq rfl rfl⟩
        rw [Call.baseScaled, Bool.eq_false_iff.2 hscaled, Bool.and_false]
  | scanMips call after =>
      rw [hs] at hread hreader
      dsimp only at hread
      obtain ⟨hright, hafter⟩ := hreader
      split_ifs at hread with hzero hlock
      · cases hread
        have hmips : ∀ b, call.scaledNow b = call.baseScaled b := fun b => by
          rw [Call.scaledNow, Call.mipsScaled, hzero]
          exact Bool.or_false _
        refine ⟨hlocked, h.layout, hkeep, hright, fun g hg => ?_⟩
        simp only [hmips]
        exact (hafter g hg).of_eq rfl rfl
      · cases hread
        have hfree : s.writer = none := Option.not_isSome_iff_eq_none.1 hlock
        refine ⟨hlocked, h.layout, hkeep, hright, fun g hg => ?_⟩
        have hknown := hafter g hg
        refine ⟨hknown.le, fun hnow => ?_, .inl ?_⟩
        · rw [Call.scaledNow, hknown.now hnow, Bool.false_or, Call.mipsScaled, bne_iff_ne.2 hzero,
            Bool.true_and]
        · exact h.locked.free hfree ▸ hknown.le
  | finish call after scaled =>
      rw [hs] at hread hreader
      cases hread
      obtain ⟨hright, hafter⟩ := hreader
      cases after with
      | use =>
          exact ⟨hlocked, h.layout, hkeep, hright⟩
      | verify memoised =>
          exact ⟨hlocked, h.layout, hkeep, hright⟩
      | store g =>
          refine ⟨hlocked, h.layout, fun i call' => ?_, hright⟩
          by_cases hi : i = call.decisionIndex
          · intro _ hextents hpages
            have hentry : (s.finish call (.store g) scaled).decisionMemo i =
                { extents := call.nbExtents, pages := call.nbPages, generation := g, valid := true, scaled } :=
              hi ▸ Function.update_self ..
            rw [hentry] at hextents hpages ⊢
            rw [← Call.scaledNow_eq_of_keys hextents hpages]
            exact (hafter g rfl).of_eq rfl rfl
          · have hentry : (s.finish call (.store g) scaled).decisionMemo i = s.decisionMemo i :=
              Function.update_of_ne hi ..
            rw [hentry]
            exact hkeep i call'
  | done call scaled =>
      rw [hs] at hread
      cases hread
      exact ⟨hlocked, h.layout, hkeep, trivial⟩

/-- **Every step keeps the invariant**, one case for each constructor of `Step`. -/
theorem Inv.step (h : Inv getGuestLayout held s) (hstep : Step getGuestLayout s t) :
    ∃ held', Inv getGuestLayout held' t := by
  cases hstep with
  | markRangeAsResolved start length hlength hfree hidle =>
      exact ⟨held, h.advance (h.locked.advance_acquire hfree _ rfl _) rfl rfl (.inr (.inr rfl))⟩
  | watchCallback addressFirst addressLast preMask hfree =>
      exact ⟨held, h.advance (h.locked.advance_acquire hfree _ rfl _) rfl rfl (.inl rfl)⟩
  | @write w hw =>
      obtain ⟨held', hadvance⟩ := h.locked.advance_write hw
      obtain ⟨hlayout, hdecision, hreader⟩ := write_frame s w
      exact ⟨held', h.advance hadvance hlayout hdecision (hreader.imp_right fun hreader => .inl hreader.2)⟩
  | construct hfree hidle => exact ⟨_, h.advance (h.locked.advance_construct hfree) rfl rfl (.inl rfl)⟩
  | findOrCreateTexture key modes hidle =>
      have hlocked := (h.locked.advance_of_eq rfl rfl rfl :
        Advance held s held { s with reader := .entry key modes }).locked
      exact ⟨held, hlocked, h.layout, fun i call hvalid hextents hpages =>
        (h.decisions i call hvalid hextents hpages).of_eq rfl rfl, trivial⟩
  | read hread => exact ⟨held, h.read hread⟩

/-- Nothing is marked at the start and nobody is under way. -/
theorem inv_initial : Inv getGuestLayout 0 initial := by
  have hempty : ResolvedPages.Summarised ⟨fun _ => 0, fun _ => 0⟩ := fun _ hne => absurd rfl hne
  refine ⟨.of_free initial rfl hempty, fun i key hkey => ?_,
    fun i call hvalid => absurd hvalid Bool.false_ne_true, trivial⟩
  exact absurd hkey.symm key.packed_ne_zero

/-- Every reachable state satisfies the invariant, for what its writer holds. -/
theorem exists_inv (h : (system getGuestLayout).Reachable s) : ∃ held, Inv getGuestLayout held s := by
  refine @System.Reachable.invariant _ _ (fun s => ∃ held, Inv getGuestLayout held s) s ⟨?_, ?_⟩ h
  · rintro s rfl
    exact ⟨0, inv_initial⟩
  · rintro s t ⟨held, hinv⟩ hstep
    exact hinv.step hstep

/-! ### Who marks -/

/-- The writer at work is marking, not clearing. -/
def State.Marking (s : State) : Prop := ∃ w, s.writer = some w ∧ ∃ e ∈ w.edits, e.marks = true

/-- Marking is done by the command thread, outside of its calls. -/
structure MarksOutside (s : State) : Prop where
  thread : ∀ w, s.writer = some w → w.marking = true → s.reader = .marking
  edits : ∀ w e, s.writer = some w → e ∈ w.edits → e.marks = true → w.marking = true

/-- A write of the writer marks pages only while it is marking. -/
theorem MarksOutside.write (h : MarksOutside s) {w : Writer} (hw : s.writer = some w) :
    MarksOutside (s.write w) := by
  obtain ⟨marking, edits, phase, words, first, last, preMask⟩ := w
  have hthread := h.thread _ hw
  have hedits := fun e => h.edits _ e hw
  cases edits with
  | nil =>
      cases words with
      | nil => exact ⟨nofun, nofun⟩
      | cons i words =>
          refine ⟨?_, ?_⟩
          · rintro w ⟨⟩ hmarking
            exact hthread hmarking
          · rintro w e ⟨⟩ he hmarks
            exact absurd ((marks_unmarkEdits he).symm.trans hmarks) Bool.false_ne_true
  | cons e edits =>
      cases phase with
      | bump | pages =>
          refine ⟨?_, ?_⟩
          · rintro w ⟨⟩ hmarking
            exact hthread hmarking
          · rintro w e' ⟨⟩ he hmarks
            exact hedits e' he hmarks
      | l2 =>
          refine ⟨?_, ?_⟩
          · rintro w ⟨⟩ hmarking
            exact hthread hmarking
          · rintro w e' ⟨⟩ he hmarks
            exact hedits e' (List.mem_cons_of_mem _ he) hmarks

/-- Every step keeps it so. -/
theorem MarksOutside.step (h : MarksOutside s) (hstep : Step getGuestLayout s t) : MarksOutside t := by
  cases hstep with
  | markRangeAsResolved start length hlength hfree hidle =>
      refine ⟨fun _ _ _ => rfl, ?_⟩
      rintro w e ⟨⟩ _ _
      rfl
  | watchCallback addressFirst addressLast preMask hfree =>
      refine ⟨?_, ?_⟩
      · rintro w ⟨⟩ hmarking
        exact absurd hmarking Bool.false_ne_true
      · rintro w e ⟨⟩ he
        exact absurd he (List.not_mem_nil)
  | @write w hw => exact h.write hw
  | construct hfree hidle => exact ⟨h.thread, h.edits⟩
  | findOrCreateTexture key modes hidle =>
      refine ⟨fun w hw hmarking => ?_, h.edits⟩
      exact absurd (hidle.symm.trans (h.thread w hw hmarking)) nofun
  | read hread =>
      obtain ⟨-, -, hwriter⟩ := read_frame hread
      refine ⟨fun w hw hmarking => ?_, hwriter ▸ h.edits⟩
      have hreader := h.thread w (hwriter ▸ hw) hmarking
      unfold State.read at hread
      rw [hreader] at hread
      exact absurd hread nofun

/-- And so in every reachable state. -/
theorem marksOutside (h : (system getGuestLayout).Reachable s) : MarksOutside s := by
  refine System.Reachable.invariant ⟨?_, fun _ _ hs hstep => hs.step hstep⟩ h
  rintro s rfl
  exact ⟨nofun, nofun⟩

/-! ### A call in a run -/

variable {r : (system getGuestLayout).Run} {i j k : ℕ} {call : Call} {scaled : Bool}

/-- The answer of a call in terms of the bitmap: the base as it is at an instant
and the mips at the same or, where the base is not scaled, a later one. -/
def Answered (r : (system getGuestLayout).Run) (i k : ℕ) (call : Call) (scaled : Bool) : Prop :=
  ∃ m n, i ≤ m ∧ m ≤ n ∧ n ≤ k ∧
    scaled = (call.baseScaled (r.state m).bits || call.mipsScaled (r.state n).bits) ∧
    (m = n ∨ call.baseScaled (r.state m).bits = false)

/-- How far a call that began at `i` has come at `k`. -/
def Progress (r : (system getGuestLayout).Run) (i k : ℕ) : Reader → Prop
  | .scanMips call _ => ∃ m, i ≤ m ∧ m ≤ k ∧ call.baseScaled (r.state m).bits = false
  | .finish call _ scaled | .done call scaled => Answered r i k call scaled
  | .idle | .marking | .entry _ _ | .load _ _ | .scanBase _ _ => True

/-- Progress made by some point of a run is made by every later one. -/
theorem Progress.later {reader : Reader} (h : Progress r i j reader) (hjk : j ≤ k) :
    Progress r i k reader := by
  cases reader with
  | idle | marking | entry _ _ | load _ _ | scanBase _ _ => trivial
  | scanMips call after =>
      obtain ⟨m, him, hmj, hbase⟩ := h
      exact ⟨m, him, hmj.trans hjk, hbase⟩
  | finish call after scaled | done call scaled =>
      obtain ⟨m, n, him, hmn, hnj, hscaled⟩ := h
      exact ⟨m, n, him, hmn, hnj.trans hjk, hscaled⟩

/-- An answer for the bitmap of one instant is an answer of a call that instant lies in. -/
theorem Answered.at_instant (hi : i ≤ k) (h : call.scaledNow (r.state k).bits = scaled) :
    Answered r i k call scaled :=
  ⟨k, k, hi, Nat.le_refl _, Nat.le_refl _, h.symm, .inl rfl⟩

/-- A step of the command thread at instant `k`. -/
theorem Progress.read (h : Progress r i k (r.state k).reader) (hi : i ≤ k)
    (hinv : Inv getGuestLayout held (r.state k)) (hread : (r.state k).read getGuestLayout = some t) :
    Progress r i k t.reader := by
  have hreader := hinv.reader
  unfold State.read at hread
  cases hs : (r.state k).reader with
  | idle | marking =>
      rw [hs] at hread
      exact absurd hread nofun
  | entry key modes =>
      rw [hs] at hread
      cases hread
      dsimp only
      cases modes.decisionOn <;> trivial
  | load call verify =>
      rw [hs] at hread hreader
      cases hread
      obtain ⟨-, ⟨after, hnext⟩ | ⟨scaled, hnext, hscaled⟩⟩ := knows_load hinv hreader
      · rw [hnext]
        trivial
      · rw [hnext]
        exact .at_instant hi hscaled
  | scanBase call after =>
      rw [hs] at hread
      dsimp only at hread
      split_ifs at hread with hzero hlock hscaled
      · cases hread
        refine ⟨k, hi, Nat.le_refl _, ?_⟩
        rw [Call.baseScaled, hzero]
        rfl
      · cases hread
        refine .at_instant hi ?_
        rw [Call.scaledNow, Call.baseScaled, hscaled, Bool.and_true, bne_iff_ne.2 hzero, Bool.true_or]
      · cases hread
        refine ⟨k, hi, Nat.le_refl _, ?_⟩
        rw [Call.baseScaled, Bool.eq_false_iff.2 hscaled, Bool.and_false]
  | scanMips call after =>
      rw [hs] at hread h
      obtain ⟨m, him, hmk, hbase⟩ := h
      dsimp only at hread
      split_ifs at hread with hzero hlock
      · cases hread
        refine ⟨m, k, him, hmk, Nat.le_refl _, ?_, .inr hbase⟩
        rw [hbase, Call.mipsScaled, hzero]
        rfl
      · cases hread
        refine ⟨m, k, him, hmk, Nat.le_refl _, ?_, .inr hbase⟩
        rw [hbase, Call.mipsScaled, bne_iff_ne.2 hzero, Bool.true_and, Bool.false_or]
  | finish call after scaled =>
      rw [hs] at hread h
      cases hread
      cases after with
      | use | store g => exact h
      | verify memoised =>
          have hfresh : (if scaled ≠ memoised then scaled else memoised) = scaled := by
            split
            · rfl
            · rename_i hsame
              exact (not_not.1 hsame).symm
          rw [State.finish]
          dsimp only
          rw [hfresh]
          exact h
  | done call scaled =>
      rw [hs] at hread
      cases hread
      trivial

/-- **How a call comes to its decision**, by induction on the steps since it began. -/
theorem progress (r : (system getGuestLayout).Run) {key : TextureKey} {modes : Modes}
    (hentry : (r.state i).reader = .entry key modes) (hik : i ≤ k) :
    Progress r i k (r.state k).reader := by
  induction k, hik using Nat.le_induction with
  | base =>
      rw [hentry]
      trivial
  | succ k hik ih =>
      have hlater := ih.later (Nat.le_succ k)
      rcases r.step k with hstill | hstep
      · rw [hstill]
        exact hlater
      · generalize r.state (k + 1) = t at hstep ⊢
        cases hstep with
        | markRangeAsResolved _ _ _ _ _ => trivial
        | watchCallback _ _ _ _ | construct _ _ => exact hlater
        | @write w hw =>
            obtain ⟨-, -, hreader | ⟨-, hreader⟩⟩ := write_frame (r.state k) w
            · rw [hreader]
              exact hlater
            · rw [hreader]
              trivial
        | findOrCreateTexture key modes hidle => trivial
        | read hread =>
            obtain ⟨held, hinv⟩ := exists_inv (r.reachable k)
            exact (ih.read hik hinv hread).later (Nat.le_succ k)

/-- Without marking, a step only takes bits away. -/
theorem within_of_step (hstep : Step getGuestLayout s t) (hmarking : ¬s.Marking) :
    t.bits.Within s.bits := by
  cases hstep with
  | markRangeAsResolved _ _ _ _ _ | watchCallback _ _ _ _ | findOrCreateTexture _ _ _ => exact .refl _
  | construct _ _ =>
      exact ⟨fun _ _ h => absurd (BitVec.getLsbD_zero.symm.trans h) Bool.false_ne_true,
        fun _ _ h => absurd (BitVec.getLsbD_zero.symm.trans h) Bool.false_ne_true⟩
  | read hread => exact (read_frame hread).1 ▸ .refl _
  | @write w hw =>
      obtain ⟨marking, edits, phase, words, first, last, preMask⟩ := w
      cases edits with
      | nil => cases words <;> exact .refl _
      | cons e edits =>
          have he : e.marks = false := Bool.eq_false_iff.2 fun he =>
            hmarking ⟨_, hw, e, List.mem_cons_self .., he⟩
          cases phase with
          | bump => exact .refl _
          | pages => exact (Edit.within_of_not_marks he s.bits).1
          | l2 => exact (Edit.within_of_not_marks he s.bits).2

/-- While nobody marks, pages are only lost. -/
theorem within_of_not_marking (r : (system getGuestLayout).Run) (hij : i ≤ j)
    (hmarking : ∀ k, i ≤ k → k < j → ¬(r.state k).Marking) :
    (r.state j).bits.Within (r.state i).bits := by
  induction j, hij using Nat.le_induction with
  | base => exact .refl _
  | succ j hij ih =>
      have hbefore := ih fun k hik hkj => hmarking k hik (Nat.lt_succ_of_lt hkj)
      rcases r.step j with hstill | hstep
      · rwa [hstill]
      · exact (within_of_step hstep (hmarking j hij (Nat.lt_succ_self j))).trans hbefore

/-- The command thread is in a call. -/
def Reader.InCall : Reader → Prop
  | .idle | .marking => False
  | .entry _ _ | .load _ _ | .scanBase _ _ | .scanMips _ _ | .finish _ _ _ | .done _ _ => True

/-- A call that begins at instant `i` and returns at instant `j`. -/
structure IsCall (r : (system getGuestLayout).Run) (i j : ℕ) (call : Call) (scaled : Bool) : Prop where
  le : i ≤ j
  begins : ∃ modes, (r.state i).reader = .entry call.key modes
  inCall : ∀ k, i ≤ k → k ≤ j → (r.state k).reader.InCall
  returns : (r.state j).reader = .done call scaled

/-- **The memos are transparent.**  In every run, a call uses the extents of the
layout of its key, and its decision is what `IsRangeScaledResolved` says about the
two ranges at an instant of the call. -/
theorem scaledResolveMemo_transparent (getGuestLayout : LayoutFields → Extents)
    (r : (system getGuestLayout).Run) {i j : ℕ} {call : Call} {scaled : Bool}
    (hcall : IsCall r i j call scaled) :
    call.extents = getGuestLayout call.key.layoutFields ∧
      ∃ n, i ≤ n ∧ n ≤ j ∧ scaled = call.scaledNow (r.state n).bits := by
  obtain ⟨modes, hentry⟩ := hcall.begins
  obtain ⟨held, hinv⟩ := exists_inv (r.reachable j)
  have hreader := hinv.reader
  have hprogress := progress r hentry hcall.le
  rw [hcall.returns] at hreader hprogress
  obtain ⟨m, n, him, hmn, hnj, hscaled, hone⟩ := hprogress
  refine ⟨hreader, n, him.trans hmn, hnj, ?_⟩
  rcases hone with rfl | hbase
  · exact hscaled
  · -- the base was not scaled before the mips were looked up, and nothing marks in a call
    have hmarking : ∀ k, m ≤ k → k < n → ¬(r.state k).Marking := by
      rintro k hmk hkn ⟨w, hw, e, he, hmarks⟩
      have houtside := marksOutside (r.reachable k)
      have hin := hcall.inCall k (him.trans hmk) (by omega)
      rw [houtside.thread w hw (houtside.edits w e hw he hmarks)] at hin
      exact hin
    have hwithin := within_of_not_marking r hmn hmarking
    rw [Call.scaledNow, Call.baseScaled_of_within hwithin hbase, hscaled, hbase]

/-- The command thread alone, with one key and the memos on. -/
def State.callAgain (getGuestLayout : LayoutFields → Extents) (key : TextureKey) (s : State) : State :=
  match s.reader with
  | .idle => { s with reader := .entry key ⟨true, false, true, false⟩ }
  | _ => (s.read getGuestLayout).getD s

/-- Calls for one key, one after another. -/
def callsOf (getGuestLayout : LayoutFields → Extents) (key : TextureKey) :
    (system getGuestLayout).Run where
  state k := (State.callAgain getGuestLayout key)^[k] initial
  init := rfl
  step k := by
    rw [Function.iterate_succ_apply']
    generalize (State.callAgain getGuestLayout key)^[k] initial = s
    unfold State.callAgain
    cases hreader : s.reader with
    | idle => exact .inr (.findOrCreateTexture key _ hreader)
    | _ =>
        cases hread : s.read getGuestLayout with
        | none => exact .inl rfl
        | some t => exact .inr (.read hread)

/-- The hypotheses are satisfiable: of two calls the second hits, and is right about a bitmap
without pages. -/
theorem scaledResolveMemo_transparent_hit :
    let key : TextureKey := ⟨16, 0, 1, 63, 63, 1, 0, 0, 2, 0, 6⟩
    let layout : LayoutFields → Extents := fun _ => ⟨0x4000, 0⟩
    (⟨0x4000, 0⟩ : Extents) = layout key.layoutFields ∧ ∃ n, 8 ≤ n ∧ n ≤ 10 ∧
      false = Call.scaledNow ⟨key, ⟨0x4000, 0⟩⟩ ((callsOf layout key).state n).bits :=
  @scaledResolveMemo_transparent _
    (callsOf (fun _ => ⟨0x4000, 0⟩) ⟨16, 0, 1, 63, 63, 1, 0, 0, 2, 0, 6⟩) 8 10
    ⟨⟨16, 0, 1, 63, 63, 1, 0, 0, 2, 0, 6⟩, ⟨0x4000, 0⟩⟩ false
    { le := by decide
      begins := ⟨⟨true, false, true, false⟩, rfl⟩
      inCall := by
        intro k h₁ h₂
        obtain rfl | rfl | rfl : k = 8 ∨ k = 9 ∨ k = 10 := by omega
        · exact trivial
        · exact trivial
        · exact trivial
      returns := rfl }

end TextureCache
end BoltsRebuilt
