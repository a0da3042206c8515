/-
# Reused constants are the draw's

src/src/gpu/native/native_geometry_pass.cpp, `Record` (lines 960-1280 and 1340-1370).

Slices are written in the draw that was given them and not after, so a mapping stays right
until the frame ends; and while a draw still writes its slice, after the uploads, no mapping
is at that slice (`VertexDone.mine`).

`constant_uploads`: in every run and for every draw, what an address leads to is what the
direct path writes, whichever way it came about, and a publication that fails leaves the
mapping as it was, for a later draw to find.
-/

import BoltsRebuilt.Constants.StageUploads

namespace BoltsRebuilt
namespace Constants

/-! ### The whole draw -/

/-- What a draw's packet is with its bindings, whichever memory it is written in. -/
theorem Draw.directVertex_load {d : Draw} (h : d.completeVertexLayout = true) (m m' : Bytes) :
    (d.directVertex m).load 0 d.vertexConstants.vertexBytes =
      (d.directVertex m').load 0 d.vertexConstants.vertexBytes := by
  have hfill := (Draw.fillVertex_load h m).trans (Draw.fillVertex_load h m').symm
  unfold Draw.directVertex patchBindings
  cases d.patch with
  | none => exact hfill
  | some b => exact Bytes.load_store_congr hfill

/-- A draw whose layout allows reuse fills its whole vertex packet, whatever the slice held before. -/
theorem Draw.directVertex_of_reuse {d : Draw} (h : d.reuseVertexPacket = true) (m : Bytes) :
    (d.directVertex m).load 0 d.vertexConstants.vertexBytes = d.vertexBytes := by
  simp only [Draw.reuseVertexPacket, Draw.reuseVertexConstants, Bool.and_eq_true,
    Bool.not_eq_true'] at h
  have hpatch : d.patch = none := by
    rw [Draw.patch, h.1.2]
    rfl
  rw [Draw.directVertex, hpatch]
  exact Draw.fillVertex_load h.2 m

/-- **A draw that is served.**  An address of a packet leads to what the direct path would write, whatever it
found in the slice; a reused one did so before the draw; and the direct path has written its slice. -/
structure Served (s : PassState) (d : Draw) (t : PassState) (out : PassState.Addresses) : Prop where
  vertex : out.vertex.kind ≠ .direct → ∀ old,
    t.Holds out.vertex.address ((d.directVertex old).load 0 d.vertexConstants.vertexBytes)
  vertexReused : out.vertex.kind = .reused → ∀ old,
    s.Holds out.vertex.address ((d.directVertex old).load 0 d.vertexConstants.vertexBytes)
  vertexDirect : out.vertex.kind = .direct → ∃ old, d.vertexSlice = some (out.vertex.address, old) ∧
    t.memory out.vertex.address = d.directVertex old
  pixel : ∀ p ∈ out.pixel, p.kind ≠ .direct → ∀ old,
    t.Holds p.address ((d.directPixel old).load 0 d.pixelConstants.pixelBytes)
  pixelReused : ∀ p ∈ out.pixel, p.kind = .reused → ∀ old,
    s.Holds p.address ((d.directPixel old).load 0 d.pixelConstants.pixelBytes)
  pixelDirect : ∀ p ∈ out.pixel, p.kind = .direct → ∃ old, d.pixelSlice = some (p.address, old) ∧
    t.memory p.address = d.directPixel old

/-- Both mappings are right. -/
structure Inv (s : PassState) : Prop where
  pixel : s.pixel.mapping.Ok s
  vertex : s.vertex.mapping.Ok s

/-- The slices of this frame stay as they are. -/
structure Kept (s t : PassState) : Prop where
  frame : t.frame = s.frame
  slices : ∀ a slice, s.slices a = some slice → slice.frame = s.frame → t.slices a = some slice

/-- Slices kept by two calls are kept by both together. -/
theorem Kept.trans {s t u : PassState} (h : Kept s t) (h' : Kept t u) : Kept s u := by
  constructor
  · rw [h'.frame, h.frame]
  · intro a slice hs hslice
    exact h'.slices a slice (h.slices a slice hs hslice) (by rw [hslice, h.frame])

/-- A call that fills no slice and stays in the frame keeps them all. -/
theorem Kept.of_same {s t : PassState} (hframe : t.frame = s.frame) (hslices : t.slices = s.slices) :
    Kept s t :=
  ⟨hframe, fun a slice hs _ => by rw [hslices, hs]⟩

/-- A call that fills a slice the pool had free keeps all slices in use. -/
theorem Leaves.kept {s t : PassState} {given : Option (ℕ × Bytes)} (h : Leaves s t given)
    (hfree : ∀ g ∈ given, s.Free g.1) : Kept s t := by
  constructor
  · exact h.frame
  · intro a slice hs hslice
    rw [h.slices a fun g hg hga => hfree g hg slice (hga ▸ hs) hslice, hs]

/-- Whether an address is free depends on the frame and on its slice alone. -/
theorem PassState.Free.congr {s t : PassState} {a : ℕ} (h : s.Free a) (hframe : t.frame = s.frame)
    (hslices : t.slices a = s.slices a) : t.Free a := fun slice hs => by
  rw [hslices] at hs
  rw [hframe]
  exact h slice hs

/-- Completing an upload copies into its slice, if the upload is a direct one, and touches no
mapping. -/
theorem PassState.complete_mappings (s : PassState) (d : Draw) (v : Upload) :
    (s.complete d v).pixel = s.pixel ∧ (s.complete d v).vertex = s.vertex ∧
      (s.complete d v).frame = s.frame ∧
        ∀ a, a ≠ v.address ∨ v.kind = .reused ∨ v.kind = .published →
          (s.complete d v).slices a = s.slices a := by
  rcases v with ⟨address, kind⟩
  cases kind with
  | reused | published => exact ⟨rfl, rfl, rfl, fun _ _ => rfl⟩
  | staged | direct =>
      refine ⟨rfl, rfl, rfl, fun a ha => ?_⟩
      rcases ha with ha | ha | ha
      · exact PassState.put_slices_of_ne _ ha _
      · cases ha
      · cases ha

/-- The vertex slice once the draw is complete, where nobody else has written it. -/
theorem complete_vertex {s t u : PassState} {d : Draw} {v : Upload} (hv : VertexUploaded s d t v)
    (hleaves : Leaves s t d.vertexSlice) (hfree : ∀ g ∈ d.vertexSlice, s.Free g.1)
    (hframe : u.frame = t.frame) (hstage : u.stage = t.stage)
    (hslice : u.slices v.address = t.slices v.address) :
    (v.kind ≠ .direct → ∀ old, (u.complete d v).Holds v.address
      ((d.directVertex old).load 0 d.vertexConstants.vertexBytes)) ∧
    (v.kind = .direct → ∃ old, d.vertexSlice = some (v.address, old) ∧
      (u.complete d v).memory v.address = d.directVertex old) := by
  rcases v with ⟨address, kind⟩
  cases kind with
  | reused =>
      refine ⟨fun _ old => ?_, fun h => by cases h⟩
      obtain ⟨hreuse, b, hb, hload⟩ := hv.reused rfl
      -- a slice of this frame before the draw is not the one the draw was given
      have hkept : t.slices address = s.slices address := hleaves.slices address fun g hg hga =>
        hfree g hg _ (hga ▸ hb) rfl
      rw [Draw.directVertex_of_reuse hreuse]
      refine ⟨b, ?_, hload⟩
      change u.slices address = some ⟨u.frame, b⟩
      rw [hslice, hkept, hb, hframe, hleaves.frame]
  | published =>
      refine ⟨fun _ old => ?_, fun h => by cases h⟩
      obtain ⟨hreuse, b, hb, hload⟩ := hv.published rfl
      rw [Draw.directVertex_of_reuse hreuse]
      refine ⟨b, ?_, hload⟩
      change u.slices address = some ⟨u.frame, b⟩
      rw [hslice, hb, hframe]
  | staged =>
      refine ⟨fun _ old => ?_, fun h => by cases h⟩
      obtain ⟨hcomplete, hfilled⟩ := hv.staged rfl
      have hpatched : patchBindings u.stage d.patch = d.directVertex s.stage := by
        rw [hstage, hfilled]
        rfl
      rw [Draw.directVertex_load hcomplete old s.stage, ← hpatched]
      exact PassState.holds_put _ address _ _
  | direct =>
      refine ⟨fun h => absurd rfl h, fun _ => ?_⟩
      obtain ⟨old, hold, hmemory⟩ := hv.direct rfl
      refine ⟨old, hold, ?_⟩
      have hsame : u.memory address = t.memory address := by
        unfold PassState.memory
        rw [hslice]
      have hput : (u.complete d ⟨address, .direct⟩).memory address =
          patchBindings (u.memory address) d.patch := u.memory_put address _
      rw [hput, hsame, hmemory]
      rfl

/-- The pixel slice once the draw is complete: its bytes are still those of the draw's packet, the
vertex upload having gone to another slice. -/
theorem complete_pixel {s u w : PassState} {d : Draw} {p : Upload}
    (hp : PixelUploaded s d u d.pixelPacket p) (hleaves : Leaves s u d.pixelSlice)
    (hfree : ∀ g ∈ d.pixelSlice, s.Free g.1) (hframe : w.frame = u.frame)
    (hslice : w.slices p.address = u.slices p.address) :
    (p.kind ≠ .direct → ∀ old, w.Holds p.address
      ((d.directPixel old).load 0 d.pixelConstants.pixelBytes)) ∧
    (p.kind = .reused → ∀ old, s.Holds p.address
      ((d.directPixel old).load 0 d.pixelConstants.pixelBytes)) ∧
    (p.kind = .direct → ∃ old, d.pixelSlice = some (p.address, old) ∧
      w.memory p.address = d.directPixel old) := by
  have hreused : p.kind = .reused → ∀ old, s.Holds p.address
      ((d.directPixel old).load 0 d.pixelConstants.pixelBytes) := by
    intro hkind old
    obtain ⟨-, bytes, hpacket, hholds⟩ := hp.reused hkind
    rwa [(Draw.pixelPacket_spec hpacket old).1]
  refine ⟨fun hkind old => ?_, hreused, fun hkind => ?_⟩
  · cases hk : p.kind with
    | reused =>
        obtain ⟨b, hb, hload⟩ := hreused hk old
        have hkept : u.slices p.address = s.slices p.address := hleaves.slices p.address fun g hg hga =>
          hfree g hg _ (hga ▸ hb) rfl
        exact ⟨b, by rw [hslice, hkept, hb, hframe, hleaves.frame], hload⟩
    | published =>
        obtain ⟨bytes, hpacket, b, hb, hload⟩ := hp.published hk
        rw [(Draw.pixelPacket_spec hpacket old).1]
        exact ⟨b, by rw [hslice, hb, hframe], hload⟩
    | staged => exact absurd hk hp.notStaged
    | direct => exact absurd hk hkind
  · obtain ⟨old, hold, hmemory⟩ := hp.direct hkind
    refine ⟨old, hold, ?_⟩
    rw [← hmemory]
    unfold PassState.memory
    rw [hslice]

/-! ### From the resets to the packet -/

/-- The state of a draw that has passed its first checks: the vertex mapping may have been dropped. -/
def PassState.entered (s : PassState) (d : Draw) : PassState :=
  if d.reuseVertexConstants then s else { s with vertex := s.vertex.reset }

/-- Building a candidate touches only the packet that is not mapped. -/
theorem PixelReuse.buildCandidate_mapping (r : PixelReuse) (a : PacketArgs) :
    (r.buildCandidate a).mapping = r.mapping := by
  have hactive : (r.buildCandidate a).packets r.active = r.packets r.active :=
    Function.update_of_ne (by cases r.active <;> decide) ..
  exact congrArg (Mapping.mk r.valid r.frame r.address) hactive

/-- The candidate built is the draw's packet, in the buffer that is not mapped. -/
theorem PixelReuse.buildCandidate_bytes (r : PixelReuse) (a : PacketArgs) :
    (r.buildCandidate a).packets (!r.active) = (build a).getD [] :=
  Function.update_self ..

/-- What the draw calls its packet is `pixelPacket`, and the candidate holds it where it builds one. -/
theorem prepare_packet (s : PassState) (d : Draw) :
    (if d.buildsPixelPacket && d.doublePixelPackets then
        if (s.prepare d).pixel.candidateValid then some (s.prepare d).pixel.candidateBytes else none
      else d.pixelPacket) = d.pixelPacket ∧ CandidateIs (s.prepare d) d d.pixelPacket := by
  cases hbuilds : d.buildsPixelPacket && d.doublePixelPackets with
  | false =>
      refine ⟨rfl, fun hdouble bytes hbytes => ?_⟩
      rw [hdouble, Bool.and_true] at hbuilds
      rw [Draw.pixelPacket, hbuilds] at hbytes
      cases hbytes
  | true =>
      obtain ⟨r, hr⟩ : ∃ r : PixelReuse,
          (s.prepare d).pixel = r.buildCandidate (d.pixelConstants.packetArgs d.shared) := by
        rw [PassState.prepare, if_pos hbuilds]
        exact ⟨_, rfl⟩
      have hpacket : d.pixelPacket = build (d.pixelConstants.packetArgs d.shared) := by
        rw [Bool.and_eq_true] at hbuilds
        rw [Draw.pixelPacket, if_pos hbuilds.1]
      have hvalid : (s.prepare d).pixel.candidateValid = d.pixelPacket.isSome := by
        rw [hr, hpacket]
        rfl
      have hbytes : (s.prepare d).pixel.packets (!(s.prepare d).pixel.active) =
          d.pixelPacket.getD [] := by
        rw [hr, hpacket]
        exact r.buildCandidate_bytes _
      constructor
      · rw [if_pos rfl, PixelReuse.candidateBytes, hvalid, hbytes]
        cases d.pixelPacket <;> rfl
      · intro _ bytes hmem
        rw [hvalid, hbytes, hmem]
        exact ⟨rfl, rfl⟩

/-- The first checks leave all alone but the mappings, which stay right or are dropped. -/
theorem entered_spec {s : PassState} (hinv : Inv s) (d : Draw) :
    (s.entered d).frame = s.frame ∧ (s.entered d).slices = s.slices ∧ Inv (s.entered d) := by
  unfold PassState.entered
  split
  · exact ⟨rfl, rfl, hinv⟩
  · exact ⟨rfl, rfl, hinv.pixel, Mapping.ok_of_invalid rfl⟩

/-- Preparing a draw, which builds the candidate packet, changes neither the frame nor the slices,
and keeps the invariant. -/
theorem prepare_spec {s : PassState} (hinv : Inv s) (d : Draw) :
    (s.prepare d).frame = s.frame ∧ (s.prepare d).slices = s.slices ∧ Inv (s.prepare d) := by
  obtain ⟨w, hw, hframe, hslices, hwinv⟩ : ∃ w : PassState,
      (if d.constantReuse then s else { s with pixel := s.pixel.reset }) = w ∧
        w.frame = s.frame ∧ w.slices = s.slices ∧ Inv w := by
    refine ⟨_, rfl, ?_⟩
    split
    · exact ⟨rfl, rfl, hinv⟩
    · exact ⟨rfl, rfl, Mapping.ok_of_invalid rfl, hinv.vertex⟩
  have hprepare : s.prepare d = if d.buildsPixelPacket && d.doublePixelPackets then
      { w with pixel := w.pixel.buildCandidate (d.pixelConstants.packetArgs d.shared) } else w := by
    rw [← hw]
    rfl
  rw [hprepare]
  split
  · refine ⟨hframe, hslices, ?_, hwinv.vertex⟩
    dsimp only
    rw [PixelReuse.buildCandidate_mapping]
    exact hwinv.pixel
  · exact ⟨hframe, hslices, hwinv⟩

/-- A draw that is completed keeps the mappings right and the slices of others. -/
theorem complete_spec {s u : PassState} {d : Draw} {v : Upload} (hinv : Inv u) (hkept : Kept s u)
    (hmine : v.kind = .staged ∨ v.kind = .direct →
      ¬u.pixel.mapping.At u v.address ∧ ¬u.vertex.mapping.At u v.address ∧ s.Free v.address) :
    Inv (u.complete d v) ∧ Kept s (u.complete d v) := by
  obtain ⟨hpixel, hvertex, hframe, hslices⟩ := u.complete_mappings d v
  have hother : v.kind = .reused ∨ v.kind = .published ∨ v.kind = .staged ∨ v.kind = .direct := by
    cases v.kind <;> simp
  have hcases : (v.kind = .reused ∨ v.kind = .published) ∨
      (¬u.pixel.mapping.At u v.address ∧ ¬u.vertex.mapping.At u v.address ∧ s.Free v.address) := by
    rcases hother with h | h | h | h
    · exact .inl (.inl h)
    · exact .inl (.inr h)
    · exact .inr (hmine (.inl h))
    · exact .inr (hmine (.inr h))
  rcases hcases with hsame | ⟨hpix, hver, hfree⟩
  · have hslices' : (u.complete d v).slices = u.slices := funext fun a => hslices a (.inr hsame)
    refine ⟨⟨?_, ?_⟩, hkept.trans (.of_same hframe hslices')⟩
    · rw [hpixel]
      exact hinv.pixel.congr hframe fun a _ => congrFun hslices' a
    · rw [hvertex]
      exact hinv.vertex.congr hframe fun a _ => congrFun hslices' a
  · have hne : ∀ {m : Mapping} {a : ℕ}, ¬m.At u v.address → m.At u a → a ≠ v.address := by
      rintro m a hnot hat rfl
      exact hnot hat
    refine ⟨⟨?_, ?_⟩, ?_, fun a slice hs hslice => ?_⟩
    · rw [hpixel]
      exact hinv.pixel.congr hframe fun a hat => hslices a (.inl (hne hpix hat))
    · rw [hvertex]
      exact hinv.vertex.congr hframe fun a hat => hslices a (.inl (hne hver hat))
    · rw [hframe, hkept.frame]
    · have ha : a ≠ v.address := by
        rintro rfl
        exact hfree slice hs hslice
      rw [hslices a (.inl ha)]
      exact hkept.slices a slice hs hslice

/-- The draw after its vertex upload. -/
structure VertexDone (s : PassState) (d : Draw) (t : PassState) (v : Upload) : Prop where
  inv : Inv t
  kept : Kept s t
  pixel : t.pixel = s.pixel
  leaves : Leaves s t d.vertexSlice
  uploaded : VertexUploaded s d t v

/-- The vertex upload of a draw keeps the invariant and the slices in use, and an answer holds the
draw's vertex bytes. -/
theorem vertexDone_of_uploadVertex {s t : PassState} (hinv : Inv s) {d : Draw}
    (hfree : ∀ g ∈ d.vertexSlice, s.Free g.1) {r : Option Upload} (h : s.uploadVertex d = (t, r)) :
    Inv t ∧ Kept s t ∧ ∀ v ∈ r, VertexDone s d t v := by
  obtain ⟨hleaves, hpixel, hok, huploaded⟩ := uploadVertex_spec hinv.vertex hfree
  rw [h] at hleaves hpixel hok huploaded
  have hinv' : Inv t := ⟨by
    have hp := hleaves.ok hfree hinv.pixel
    rwa [← hpixel] at hp, hok⟩
  have hkept := hleaves.kept hfree
  exact ⟨hinv', hkept, fun v hv => ⟨hinv', hkept, hpixel, hleaves, huploaded v hv⟩⟩

/-- A slice that the draw still writes is at no mapping. -/
theorem VertexDone.mine {s t : PassState} {d : Draw} {v : Upload} (h : VertexDone s d t v) (hinv : Inv s)
    (hfree : ∀ g ∈ d.vertexSlice, s.Free g.1) (hkind : v.kind = .staged ∨ v.kind = .direct) :
    ¬t.pixel.mapping.At t v.address ∧ ¬t.vertex.mapping.At t v.address ∧ s.Free v.address := by
  have hne : v.kind ≠ .reused := by
    rintro hr
    rw [hr] at hkind
    rcases hkind with h | h <;> cases h
  obtain ⟨old, hold⟩ := h.uploaded.slice hne
  refine ⟨?_, h.uploaded.unmapped hkind, hfree _ hold⟩
  rw [h.pixel]
  rintro ⟨hvalid, hframe, haddress⟩
  exact hinv.pixel.not_at_of_free (hfree _ hold) ⟨hvalid, hframe.trans h.leaves.frame, haddress⟩

/-- An upload that was reused holds the draw's bytes already, before the draw writes anything. -/
theorem VertexDone.reused {s t : PassState} {d : Draw} {v : Upload} (h : VertexDone s d t v)
    (hkind : v.kind = .reused) (old : Bytes) :
    s.Holds v.address ((d.directVertex old).load 0 d.vertexConstants.vertexBytes) := by
  obtain ⟨hreuse, hholds⟩ := h.uploaded.reused hkind
  rwa [Draw.directVertex_of_reuse hreuse]

/-- The pixel stage is not given the vertex stage's slice. -/
theorem VertexDone.other {s t : PassState} {d : Draw} {v : Upload} (h : VertexDone s d t v)
    (hfresh : Fresh s (.draw d)) : ∀ g ∈ d.pixelSlice, g.1 ≠ v.address := by
  obtain ⟨-, hpfree, hapart⟩ := hfresh
  intro g hg
  by_cases hkind : v.kind = .reused
  · obtain ⟨b, hb, -⟩ := h.reused hkind fun _ => 0
    exact fun heq => hpfree g hg _ (heq ▸ hb) rfl
  · obtain ⟨old, hold⟩ := h.uploaded.slice hkind
    exact (hapart _ hold g hg).symm

/-- A draw whose pixel stage has the address of its vertex stage. -/
theorem VertexDone.served {s t : PassState} {d : Draw} {v : Upload} (h : VertexDone s d t v)
    (hinv : Inv s) (hfree : ∀ g ∈ d.vertexSlice, s.Free g.1) :
    Inv (t.complete d v) ∧ Kept s (t.complete d v) ∧ Served s d (t.complete d v) ⟨v, none⟩ := by
  obtain ⟨hinv', hkept⟩ := complete_spec h.inv h.kept (h.mine hinv hfree)
  obtain ⟨hvertex, hdirect⟩ := complete_vertex (u := t) h.uploaded h.leaves hfree rfl rfl rfl
  have hserved : Served s d (t.complete d v) ⟨v, none⟩ :=
    { vertex := hvertex
      vertexReused := h.reused
      vertexDirect := hdirect
      pixel := by simp
      pixelReused := by simp
      pixelDirect := by simp }
  exact ⟨hinv', hkept, hserved⟩

/-- A draw with an upload for the pixel stage. -/
theorem VertexDone.servedBoth {s t u : PassState} {d : Draw} {v : Upload} (h : VertexDone s d t v)
    (hinv : Inv s) (hfresh : Fresh s (.draw d)) (hcandidate : CandidateIs s d d.pixelPacket)
    {r : Option Upload} (hupload : t.uploadPixel d d.pixelPacket = (u, r)) :
    Inv u ∧ Kept s u ∧ ∀ p ∈ r,
      Inv (u.complete d v) ∧ Kept s (u.complete d v) ∧ Served s d (u.complete d v) ⟨v, some p⟩ := by
  have hother := h.other hfresh
  obtain ⟨hvfree, hpfree, hapart⟩ := hfresh
  have hpfree' : ∀ g ∈ d.pixelSlice, t.Free g.1 := fun g hg =>
    (hpfree g hg).congr h.leaves.frame (h.leaves.slices g.1 fun g' hg' => hapart g' hg' g hg)
  have hcandidate' : CandidateIs t d d.pixelPacket := by
    rw [CandidateIs, h.pixel]
    exact hcandidate
  obtain ⟨hleaves, hvertex, hstage, hok, hat, huploaded⟩ :=
    uploadPixel_spec h.inv.pixel hpfree' hcandidate'
  rw [hupload] at hleaves hvertex hstage hok hat huploaded
  have hinv' : Inv u := ⟨hok, by
    have hv := hleaves.ok hpfree' h.inv.vertex
    rwa [← hvertex] at hv⟩
  have hkept : Kept s u := h.kept.trans (hleaves.kept hpfree')
  refine ⟨hinv', hkept, fun p hp => ?_⟩
  have hp := huploaded p hp
  have hmine : v.kind = .staged ∨ v.kind = .direct →
      ¬u.pixel.mapping.At u v.address ∧ ¬u.vertex.mapping.At u v.address ∧ s.Free v.address := by
    intro hkind
    obtain ⟨hpix, hver, hfree⟩ := h.mine hinv hvfree hkind
    refine ⟨fun hat' => ?_, ?_, hfree⟩
    · rcases hat _ hat' with hat' | ⟨old, hold⟩
      · exact hpix hat'
      · exact hother _ hold rfl
    · rintro ⟨hvalid, hframe, haddress⟩
      have hvertex' : u.vertex = t.vertex := hvertex
      rw [hvertex'] at hvalid hframe haddress
      exact hver ⟨hvalid, hframe.trans hleaves.frame, haddress⟩
  obtain ⟨hinvC, hkeptC⟩ := complete_spec hinv' hkept hmine
  obtain ⟨-, -, hframeC, hslicesC⟩ := u.complete_mappings d v
  obtain ⟨hvertexC, hdirectC⟩ := complete_vertex (u := u) h.uploaded h.leaves hvfree hleaves.frame hstage
    (hleaves.slices v.address hother)
  -- completing the vertex slice does not write the pixel stage's
  have hslice : (u.complete d v).slices p.address = u.slices p.address := by
    refine hslicesC p.address ?_
    by_cases hkind : v.kind = .staged ∨ v.kind = .direct
    · left
      by_cases hpk : p.kind = .reused
      · intro heq
        exact (h.mine hinv hvfree hkind).1 (heq ▸ (hp.reused hpk).1)
      · obtain ⟨old, hold⟩ := hp.slice hpk
        exact hother _ hold
    · right
      cases hk : v.kind with
      | reused => exact .inl rfl
      | published => exact .inr rfl
      | staged => exact absurd (.inl hk) hkind
      | direct => exact absurd (.inr hk) hkind
  obtain ⟨hpixelC, hpreused, hpdirect⟩ := complete_pixel (w := u.complete d v) hp hleaves hpfree' hframeC
    hslice
  refine ⟨hinvC, hkeptC, ?_⟩
  constructor
  case vertex => exact hvertexC
  case vertexReused => exact h.reused
  case vertexDirect => exact hdirectC
  case pixel =>
    rintro q ⟨⟩
    exact hpixelC
  case pixelReused =>
    rintro q ⟨⟩ hkind old
    -- the mapping was there before the draw, so its slice is none the draw was given
    obtain ⟨b, hb, hload⟩ := hpreused hkind old
    have hat' := (hp.reused hkind).1
    rw [h.pixel] at hat'
    have hkept' : t.slices p.address = s.slices p.address := h.leaves.slices p.address fun g hg hga =>
      hinv.pixel.not_at_of_free (hvfree g hg)
        ⟨hat'.1, hat'.2.1.trans h.leaves.frame, hat'.2.2.trans hga.symm⟩
    exact ⟨b, by rw [← hkept', hb, h.leaves.frame], hload⟩
  case pixelDirect =>
    rintro q ⟨⟩
    exact hpdirect

/-- The uploads of a draw that is not refused. -/
def PassState.uploads (s : PassState) (d : Draw) : PassState × Option PassState.Addresses :=
  match s.uploadVertex d with
  | (t, none) => (t, none)
  | (t, some vertex) =>
    if (d.aliasUnusedPixel || (d.constantReuse && d.legacyDepthOnlyPixelBufferUnused)) &&
        vertex.address ≠ 0 then
      if d.resident then (t.complete d vertex, some ⟨vertex, none⟩) else (t, none)
    else
      match t.uploadPixel d d.pixelPacket with
      | (u, none) => (u, none)
      | (u, some pixel) =>
        if d.resident then (u.complete d vertex, some ⟨vertex, some pixel⟩) else (u, none)

/-- `Record` is an early refusal or the preparation followed by the uploads. -/
theorem record_eq (s : PassState) (d : Draw) :
    s.record d = if d.refused then (s.entered d, none) else ((s.entered d).prepare d).uploads d := by
  have h := (prepare_packet (s.entered d) d).1
  rw [PassState.uploads, ← h]
  rfl

/-- **The uploads of a draw** keep the invariant and the slices in use, and serve the draw's own
constants whenever they succeed. -/
theorem uploads_spec {s : PassState} (hinv : Inv s) {d : Draw} (hfresh : Fresh s (.draw d))
    (hcandidate : CandidateIs s d d.pixelPacket) :
    Inv (s.uploads d).1 ∧ Kept s (s.uploads d).1 ∧
      ∀ out, (s.uploads d).2 = some out → Served s d (s.uploads d).1 out := by
  rw [PassState.uploads]
  rcases hvertex : s.uploadVertex d with ⟨t, _ | v⟩
  · obtain ⟨hinv', hkept, -⟩ := vertexDone_of_uploadVertex hinv hfresh.1 hvertex
    exact ⟨hinv', hkept, fun out h => by cases h⟩
  obtain ⟨hinvT, hkeptT, hdone⟩ := vertexDone_of_uploadVertex hinv hfresh.1 hvertex
  have hv := hdone v rfl
  dsimp only
  split
  · -- the pixel stage has the same address
    split
    · obtain ⟨hinvC, hkeptC, hserved⟩ := hv.served hinv hfresh.1
      refine ⟨hinvC, hkeptC, fun out h => ?_⟩
      cases h
      exact hserved
    · exact ⟨hinvT, hkeptT, fun out h => by cases h⟩
  · rcases hpixel : t.uploadPixel d d.pixelPacket with ⟨u, _ | p⟩
    · obtain ⟨hinvU, hkeptU, -⟩ := hv.servedBoth hinv hfresh hcandidate hpixel
      exact ⟨hinvU, hkeptU, fun out h => by cases h⟩
    obtain ⟨hinvU, hkeptU, hboth⟩ := hv.servedBoth hinv hfresh hcandidate hpixel
    dsimp only
    split
    · obtain ⟨hinvC, hkeptC, hserved⟩ := hboth p rfl
      refine ⟨hinvC, hkeptC, fun out h => ?_⟩
      cases h
      exact hserved
    · exact ⟨hinvU, hkeptU, fun out h => by cases h⟩

/-- **One draw.**  The mappings stay right, no slice of the frame changes but those the draw was given, and an
address leads to the draw's bytes. -/
theorem record_spec {s : PassState} (hinv : Inv s) {d : Draw} (hfresh : Fresh s (.draw d)) :
    Inv (s.record d).1 ∧ Kept s (s.record d).1 ∧
      ∀ out, (s.record d).2 = some out → Served s d (s.record d).1 out := by
  obtain ⟨hframe₁, hslices₁, hinv₁⟩ := entered_spec hinv d
  obtain ⟨hframe₂, hslices₂, hinv₂⟩ := prepare_spec hinv₁ d
  obtain ⟨-, hcandidate⟩ := prepare_packet (s.entered d) d
  rw [record_eq]
  by_cases hrefused : d.refused = true
  · rw [if_pos hrefused]
    exact ⟨hinv₁, .of_same hframe₁ hslices₁, fun out h => by cases h⟩
  rw [if_neg hrefused]
  generalize (s.entered d).prepare d = s₂ at *
  have hsame : Kept s s₂ := .of_same (hframe₂.trans hframe₁) (hslices₂.trans hslices₁)
  have hfree₂ : ∀ {a}, s.Free a → s₂.Free a := fun hfree =>
    hfree.congr hsame.frame (by rw [hslices₂, hslices₁])
  have hfresh₂ : Fresh s₂ (.draw d) :=
    ⟨fun g hg => hfree₂ (hfresh.1 g hg), fun g hg => hfree₂ (hfresh.2.1 g hg), hfresh.2.2⟩
  have hback : ∀ {a bytes}, s₂.Holds a bytes → s.Holds a bytes := by
    rintro a bytes ⟨b, hb, hload⟩
    exact ⟨b, by rw [← hslices₁, ← hslices₂, hb, hframe₂, hframe₁], hload⟩
  obtain ⟨hinvU, hkeptU, hserved⟩ := uploads_spec hinv₂ hfresh₂ hcandidate
  refine ⟨hinvU, hsame.trans hkeptU, fun out hout => ?_⟩
  have h := hserved out hout
  exact { h with
    vertexReused := fun hkind old => hback (h.vertexReused hkind old)
    pixelReused := fun p hp hkind old => hback (h.pixelReused p hp hkind old) }

/-! ### Uploads that fail -/

/-- Preparing a draw touches no pixel mapping. -/
theorem prepare_pixel {s : PassState} {d : Draw} (h : d.constantReuse = true) :
    (s.prepare d).pixel.mapping = s.pixel.mapping := by
  rw [PassState.prepare, if_pos h]
  split
  · exact PixelReuse.buildCandidate_mapping _ _
  · rfl

/-- Without a slice to upload to, the pixel mapping is as it was. -/
theorem uploadPixel_failed {s : PassState} {d : Draw} {bytes : List UInt8}
    (hnone : ∀ g ∈ d.pixelSlice, g.1 = 0) : (s.uploadPixel d (some bytes)).1.pixel = s.pixel := by
  unfold PassState.uploadPixel
  dsimp only
  split
  · rfl
  · cases hslice : d.pixelSlice with
    | none => rfl
    | some given =>
        obtain ⟨address, old⟩ := given
        obtain rfl : address = 0 := hnone _ hslice
        dsimp only
        split
        · exact congrArg Prod.snd (if_pos (.inl rfl))
        · exact congrArg Prod.snd (if_pos (.inl rfl))

/-- And so it is after the whole of the uploads. -/
theorem uploads_pixel_failed {s : PassState} (hinv : Inv s) {d : Draw}
    (hfree : ∀ g ∈ d.vertexSlice, s.Free g.1) {bytes : List UInt8} (hbytes : d.pixelPacket = some bytes)
    (hnone : ∀ g ∈ d.pixelSlice, g.1 = 0) : (s.uploads d).1.pixel = s.pixel := by
  obtain ⟨-, hvertex, -⟩ := uploadVertex_spec hinv.vertex hfree
  rw [PassState.uploads, hbytes]
  rcases hupload : s.uploadVertex d with ⟨t, _ | v⟩
  · rw [hupload] at hvertex
    exact hvertex
  rw [hupload] at hvertex
  have hpixel := @uploadPixel_failed t d bytes hnone
  dsimp only
  split
  · split
    · exact (t.complete_mappings d v).1.trans hvertex
    · exact hvertex
  · rcases hp : t.uploadPixel d (some bytes) with ⟨u, _ | p⟩
    · rw [hp] at hpixel
      exact hpixel.trans hvertex
    rw [hp] at hpixel
    dsimp only
    split
    · exact (u.complete_mappings d v).1.trans (hpixel.trans hvertex)
    · exact hpixel.trans hvertex

/-- A pixel packet that is not published leaves the mapping as it was. -/
theorem record_pixel_failed {s : PassState} (hinv : Inv s) {d : Draw} (hfresh : Fresh s (.draw d))
    (hpacket : d.pixelPacket.isSome = true) (hnone : ∀ g ∈ d.pixelSlice, g.1 = 0) :
    (s.record d).1.pixel.mapping = s.pixel.mapping := by
  obtain ⟨bytes, hbytes⟩ := Option.isSome_iff_exists.1 hpacket
  have hreuse : d.constantReuse = true := by
    rw [Draw.pixelPacket] at hbytes
    split at hbytes
    · next h =>
        simp only [Draw.buildsPixelPacket, Bool.and_eq_true] at h
        exact h.1.1
    · cases hbytes
  have hentered : (s.entered d).pixel = s.pixel := by
    unfold PassState.entered
    split <;> rfl
  obtain ⟨hframe₁, hslices₁, hinv₁⟩ := entered_spec hinv d
  obtain ⟨hframe₂, hslices₂, hinv₂⟩ := prepare_spec hinv₁ d
  have hfree : ∀ g ∈ d.vertexSlice, ((s.entered d).prepare d).Free g.1 := fun g hg =>
    (hfresh.1 g hg).congr (hframe₂.trans hframe₁) (by rw [hslices₂, hslices₁])
  rw [record_eq]
  split
  · rw [hentered]
  · rw [uploads_pixel_failed hinv₂ hfree hbytes hnone, prepare_pixel hreuse, hentered]

/-- A vertex packet that is not published drops the mapping, and the draw is refused. -/
theorem record_vertex_failed {s : PassState} {d : Draw} (hreuse : d.reuseVertexPacket = true)
    (hrefused : d.refused = false) (hmiss : s.vertexHit d = 0) (hnone : ∀ g ∈ d.vertexSlice, g.1 = 0) :
    (s.record d).2 = none ∧ (s.record d).1.vertex.valid = false := by
  have hconstants : d.reuseVertexConstants = true := by
    rw [Draw.reuseVertexPacket, Bool.and_eq_true] at hreuse
    exact hreuse.1
  have hentered : s.entered d = s := if_pos hconstants
  have hvertex : (s.prepare d).vertex = s.vertex ∧ (s.prepare d).frame = s.frame := by
    unfold PassState.prepare
    dsimp only
    split <;> split <;> exact ⟨rfl, rfl⟩
  have hmiss' : (s.prepare d).vertexHit d = 0 := by
    rw [PassState.vertexHit, PassState.candidateFilled, hvertex.1, hvertex.2]
    exact hmiss
  rw [record_eq, if_neg (Bool.eq_false_iff.1 hrefused), hentered, PassState.uploads,
    PassState.uploadVertex, if_pos hreuse, reuseVertex_miss hmiss']
  cases hslice : d.vertexSlice with
  | none => exact ⟨rfl, rfl⟩
  | some given =>
      obtain ⟨address, old⟩ := given
      obtain rfl : address = 0 := hnone _ hslice
      have hpublish : ((s.prepare d).candidateFilled d).publish (s.prepare d).frame
          d.vertexConstants.vertexBytes 0 = (false, (s.prepare d).candidateFilled d) := if_pos (.inl rfl)
      dsimp only
      rw [hpublish]
      exact ⟨rfl, rfl⟩

/-! ### Every run -/

/-- The invariant holds initially and is kept by every step of the pass. -/
theorem inv_inductive : pass.Inductive Inv := by
  constructor
  · rintro s ⟨hpixel, hvertex⟩
    constructor
    · rw [hpixel]
      exact Mapping.ok_of_invalid rfl
    · exact Mapping.ok_of_invalid hvertex
  · rintro s t hinv ⟨e, hfresh, rfl⟩
    cases e with
    | draw d => exact (record_spec hinv hfresh).1
    | elsewhere address bytes =>
        exact ⟨hinv.pixel.put (hinv.pixel.not_at_of_free hfresh) bytes,
          hinv.vertex.put (hinv.vertex.not_at_of_free hfresh) bytes⟩
    | nextFrame => exact ⟨hinv.pixel.nextFrame, hinv.vertex.nextFrame⟩
    | restart => exact ⟨Mapping.ok_of_invalid rfl, Mapping.ok_of_invalid rfl⟩

/-- **Constants reach the draw they belong to.**  In every run and for every draw: the slices of the frame
stay as they are; an address the draw gets leads to the bytes that the direct path writes, and a reused one
did before.  A publication that fails, of either stage and in whatever state, changes nothing at all, so that
the mapping before it is found as before.  `Record` goes on from there as it must: a pixel packet that is not
published leaves the mapping as it was; without a published vertex packet it refuses the draw, and resets the
vertex mapping itself. -/
theorem constant_uploads {s : PassState} (hs : pass.Reachable s) {d : Draw} (hfresh : Fresh s (.draw d)) :
    Kept s (s.record d).1 ∧
      (∀ out, (s.record d).2 = some out → Served s d (s.record d).1 out) ∧
      (∀ (r : PixelReuse) (frame : ℕ) (bytes : List UInt8) (address : ℕ),
        (r.publish frame bytes address).1 = false → (r.publish frame bytes address).2 = r) ∧
      (∀ (r : PixelReuse) (frame address : ℕ),
        (r.publishCandidate frame address).1 = false → (r.publishCandidate frame address).2 = r) ∧
      (∀ (r : VertexReuse) (frame size address : ℕ),
        (r.publish frame size address).1 = false → (r.publish frame size address).2 = r) ∧
      (d.pixelPacket.isSome = true → (∀ g ∈ d.pixelSlice, g.1 = 0) →
        (s.record d).1.pixel.mapping = s.pixel.mapping) ∧
      (d.reuseVertexPacket = true → d.refused = false → s.vertexHit d = 0 →
        (∀ g ∈ d.vertexSlice, g.1 = 0) →
          (s.record d).2 = none ∧ (s.record d).1.vertex.valid = false) := by
  have hinv := hs.invariant inv_inductive
  obtain ⟨-, hkept, hserved⟩ := record_spec hinv hfresh
  refine ⟨hkept, hserved, fun r frame bytes address hfailed => ?_, fun r frame address hfailed => ?_,
    fun r frame size address hfailed => ?_, fun hpacket hnone => ?_, fun hreuse hrefused hmiss hnone => ?_⟩
  · exact PixelReuse.publish_failed hfailed
  · exact PixelReuse.publishCandidate_failed hfailed
  · exact VertexReuse.publish_failed hfailed
  · exact record_pixel_failed hinv hfresh hpacket hnone
  · exact record_vertex_failed hreuse hrefused hmiss hnone

/-- A pass as it is constructed. -/
def constructed : PassState where
  pixel := .initial
  vertex := ⟨fun _ _ => 0, false, 0, 0, 0, false⟩
  stage _ := 0
  frame := 7
  slices _ := none

/-- A draw of one register for each stage, with the vertex packet reused where it can be. -/
def plainDraw : Draw where
  constantReuse := false
  unusedPixelConstants := false
  doublePixelPackets := false
  stageVertexConstants := false
  vertexConstantReuse := true
  vertexPacketDiagnostics := false
  emptyConstantLayout := false
  hasPixelShader := true
  pixelBufferUnused := false
  legacyDepthOnlyPixelBufferUnused := false
  emptyVertexBufferSafe := false
  emptyPixelBufferSafe := false
  shared := ⟨none, .replicate _ 0, .replicate _ 0⟩
  extraVertexStreams := .replicate _ 0
  vs := ⟨none, [], 1, true⟩
  ps := ⟨none, [], 1, true⟩
  assetCache := false
  bindings := none
  admitted := true
  resident := true
  vertexSlice := some (4096, fun _ => 0xFF)
  pixelSlice := some (8192, fun _ => 0xFF)

/-- The pass as constructed is the initial state, where every run begins. -/
theorem constructed_reachable : pass.Reachable constructed := .of_init ⟨rfl, rfl⟩

/-- The plain draw is given slices that nothing holds. -/
theorem constructed_fresh : Fresh constructed (.draw plainDraw) := by
  refine ⟨fun v _ slice h => ?_, fun p _ slice h => ?_, ?_⟩
  · cases h
  · cases h
  · rintro v ⟨⟩ p ⟨⟩
    decide

/-- The hypotheses are satisfiable: the first draw of a pass. -/
theorem constant_uploads_first : ∃ out, (constructed.record plainDraw).2 = some out ∧
    out.vertex = ⟨4096, .published⟩ ∧
      Served constructed plainDraw (constructed.record plainDraw).1 out := by
  have hserved := (constant_uploads constructed_reachable constructed_fresh).2.1
  have hout : (constructed.record plainDraw).2 =
      some ⟨⟨4096, .published⟩, some ⟨8192, .direct⟩⟩ := by rfl
  exact ⟨_, hout, rfl, hserved _ hout⟩

end Constants
end BoltsRebuilt
