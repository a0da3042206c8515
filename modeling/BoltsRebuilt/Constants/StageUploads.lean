/-
# What a mapping leads to

src/src/gpu/native/native_constant_reuse.h, native_vertex_constant_reuse.h and
`upload_stage` of native_geometry_pass.cpp (lines 1094-1260).

An address that a draw is given without an upload must lead to the bytes the draw would
have written.  `Mapping.Ok` says so of what a pass remembers: a mapping of this frame is to
a slice of this frame that holds its bytes.  It survives whatever leaves that slice alone
(`Mapping.Ok.congr`), so for each stage it is enough to say which slice an upload writes
(`Leaves`), what stands there (`VertexUploaded`, `PixelUploaded`), and that the new mapping,
if there is one, is right.
-/

import BoltsRebuilt.Constants.Reuse

namespace BoltsRebuilt
namespace Constants

/-! ### Mappings -/

/-- What both stages remember: the bytes of a packet and where they were written. -/
structure Mapping where
  valid : Bool
  frame : ℕ
  address : ℕ
  bytes : List UInt8

def PixelReuse.mapping (r : PixelReuse) : Mapping := ⟨r.valid, r.frame, r.address, r.packets r.active⟩

def VertexReuse.mapping (r : VertexReuse) : Mapping :=
  ⟨r.valid, r.frame, r.address, (r.packets r.active).load 0 r.size⟩

/-- A slice of this frame begins with some bytes. -/
def PassState.Holds (s : PassState) (address : ℕ) (bytes : List UInt8) : Prop :=
  ∃ b, s.slices address = some ⟨s.frame, b⟩ ∧ b.load 0 bytes.length = bytes

namespace Mapping

variable {m : Mapping} {s t : PassState} {a : ℕ}

/-- A mapping of this frame is to a slice of this frame that holds its bytes. -/
def Ok (m : Mapping) (s : PassState) : Prop :=
  m.valid = true → m.frame ≤ s.frame ∧ (m.frame = s.frame → s.Holds m.address m.bytes)

/-- A mapping is at an address in this frame. -/
def At (m : Mapping) (s : PassState) (a : ℕ) : Prop := m.valid = true ∧ m.frame = s.frame ∧ m.address = a

/-- A mapping that is not valid promises nothing of any slice. -/
theorem ok_of_invalid (h : m.valid = false) : m.Ok s := fun hv => by
  rw [h] at hv
  cases hv

/-- A valid mapping never stands at an address the pool has free. -/
theorem Ok.not_at_of_free (h : m.Ok s) (hfree : s.Free a) : ¬m.At s a := by
  rintro ⟨hvalid, hframe, rfl⟩
  obtain ⟨b, hb, -⟩ := (h hvalid).2 hframe
  exact hfree _ hb rfl

/-- A mapping stays right while the slice it is at stays as it is. -/
theorem Ok.congr (h : m.Ok s) (hframe : t.frame = s.frame)
    (hslices : ∀ a, m.At s a → t.slices a = s.slices a) : m.Ok t := by
  intro hvalid
  obtain ⟨hle, hholds⟩ := h hvalid
  refine ⟨hframe ▸ hle, fun heq => ?_⟩
  rw [hframe] at heq
  obtain ⟨b, hb, hload⟩ := hholds heq
  refine ⟨b, ?_, hload⟩
  rw [hslices _ ⟨hvalid, heq, rfl⟩, hb, hframe]

/-- Filling another slice leaves a mapping's bytes as they were. -/
theorem Ok.put (h : m.Ok s) (hat : ¬m.At s a) (b : Bytes) : m.Ok (s.put a b) := by
  refine h.congr rfl fun a' ha' => Function.update_of_ne ?_ ..
  rintro rfl
  exact hat ha'

/-- A new frame invalidates no bytes; it is the frame number that makes an old mapping miss. -/
theorem Ok.nextFrame (h : m.Ok s) : m.Ok { s with frame := s.frame + 1 } := by
  intro hvalid
  have hle := (h hvalid).1
  exact ⟨Nat.le_succ_of_le hle, fun heq => by dsimp only at heq; omega⟩

end Mapping

/-- The slice that was filled holds these bytes, in this frame. -/
theorem PassState.put_slices (s : PassState) (a : ℕ) (b : Bytes) :
    (s.put a b).slices a = some ⟨s.frame, b⟩ :=
  Function.update_self ..

/-- Every other slice is as before. -/
theorem PassState.put_slices_of_ne (s : PassState) {a a' : ℕ} (h : a' ≠ a) (b : Bytes) :
    (s.put a b).slices a' = s.slices a' :=
  Function.update_of_ne h ..

/-- A slice into which bytes were stored holds them. -/
theorem PassState.holds_put (s : PassState) (a : ℕ) (old : Bytes) (bytes : List UInt8) :
    (s.put a (old.store 0 bytes)).Holds a bytes :=
  ⟨_, s.put_slices a _, Bytes.load_store_self rfl⟩

/-! ### Looking up and publishing -/

/-- **A pixel hit** is a valid mapping of this frame whose packet is the bytes asked for. -/
theorem PixelReuse.find_ne_zero {r : PixelReuse} {frame : ℕ} {bytes : List UInt8}
    (h : r.find frame bytes ≠ 0) :
    r.valid = true ∧ r.frame = frame ∧ r.packets r.active = bytes ∧ r.find frame bytes = r.address := by
  unfold PixelReuse.find at h ⊢
  split at h
  · next hcond => exact ⟨hcond.1, hcond.2.1.symm, hcond.2.2, if_pos hcond⟩
  · exact absurd rfl h

/-- **A vertex hit** is a valid mapping of this frame whose bytes are the candidate's. -/
theorem VertexReuse.find_ne_zero {r : VertexReuse} {frame size : ℕ} (h : r.find frame size ≠ 0) :
    r.valid = true ∧ r.frame = frame ∧ r.mapping.bytes = r.candidate.load 0 size ∧
      r.find frame size = r.address := by
  unfold VertexReuse.find at h ⊢
  split at h
  · next hcond =>
      obtain ⟨hvalid, -, -, hframe, hsize, hbytes⟩ := id hcond
      refine ⟨hvalid, hframe.symm, ?_, if_pos hcond⟩
      rw [VertexReuse.mapping, ← hsize]
      exact hbytes
  · exact absurd rfl h

/-- A publication of pixel constants that fails changes nothing: the mapping before it stays usable. -/
theorem PixelReuse.publish_failed {r : PixelReuse} {frame address : ℕ} {bytes : List UInt8}
    (h : (r.publish frame bytes address).1 = false) : (r.publish frame bytes address).2 = r := by
  unfold PixelReuse.publish at h ⊢
  split at h
  · next hcond => rw [if_pos hcond]
  · cases h

/-- A failed publish of a pixel packet leaves the previous mapping as it was. -/
theorem PixelReuse.publishCandidate_failed {r : PixelReuse} {frame address : ℕ}
    (h : (r.publishCandidate frame address).1 = false) : (r.publishCandidate frame address).2 = r := by
  unfold PixelReuse.publishCandidate at h ⊢
  split at h
  · next hcond => rw [if_pos hcond]
  · cases h

/-- A failed publish of vertex constants leaves the previous mapping as it was. -/
theorem VertexReuse.publish_failed {r : VertexReuse} {frame size address : ℕ}
    (h : (r.publish frame size address).1 = false) : (r.publish frame size address).2 = r := by
  unfold VertexReuse.publish at h ⊢
  split at h
  · next hcond => rw [if_pos hcond]
  · cases h

/-! ### The vertex stage -/

/-- The candidate is the buffer it was set to. -/
theorem VertexReuse.setCandidate_candidate (r : VertexReuse) (m : Bytes) :
    (r.setCandidate m).candidate = m :=
  Function.update_self ..

/-- Filling the candidate leaves the mapping alone. -/
theorem VertexReuse.setCandidate_mapping (r : VertexReuse) (m : Bytes) :
    (r.setCandidate m).mapping = r.mapping := by
  have hactive : (r.setCandidate m).packets r.active = r.packets r.active :=
    Function.update_of_ne (by cases r.active <;> decide) ..
  exact congrArg (fun b : Bytes => (⟨r.valid, r.frame, r.address, b.load 0 r.size⟩ : Mapping)) hactive

/-- A publish that succeeds maps the candidate's bytes at the new address. -/
theorem VertexReuse.publish_ok {r : VertexReuse} {frame size address : ℕ}
    (h : (r.publish frame size address).1 = true) :
    (r.publish frame size address).2.mapping = ⟨true, frame, address, r.candidate.load 0 size⟩ := by
  unfold VertexReuse.publish at h ⊢
  split at h
  · cases h
  · next hcond => rw [if_neg hcond]; rfl

/-- What a draw's packet for the vertex stage is before its bindings. -/
def Draw.vertexBytes (d : Draw) : List UInt8 :=
  vertexPacket d.shared d.extraVertexStreams d.vertexConstants

/-- A draw with a complete layout writes every byte of its vertex constants. -/
theorem Draw.covers_of_complete {d : Draw} (h : d.completeVertexLayout = true) :
    Covers d.vertexConstants := by
  rw [Draw.completeVertexLayout, Bool.and_eq_true] at h
  exact .of_complete h.2

/-- So what the buffer held before does not show in them. -/
theorem Draw.fillVertex_load {d : Draw} (h : d.completeVertexLayout = true) (m : Bytes) :
    (fillVertex m d.shared d.extraVertexStreams d.vertexConstants).load 0 d.vertexConstants.vertexBytes =
      d.vertexBytes :=
  Constants.fillVertex_load d.shared d.extraVertexStreams (Draw.covers_of_complete h)

/-- How far the vertex stage has come after its upload: an address, and what stands there. -/
structure VertexUploaded (s : PassState) (d : Draw) (t : PassState) (v : Upload) : Prop where
  reused : v.kind = .reused → d.reuseVertexPacket = true ∧ s.Holds v.address d.vertexBytes
  published : v.kind = .published → d.reuseVertexPacket = true ∧ t.Holds v.address d.vertexBytes
  staged : v.kind = .staged → d.completeVertexLayout = true ∧
    t.stage = fillVertex s.stage d.shared d.extraVertexStreams d.vertexConstants
  direct : v.kind = .direct → ∃ old, d.vertexSlice = some (v.address, old) ∧
    t.memory v.address = fillVertex old d.shared d.extraVertexStreams d.vertexConstants
  slice : v.kind ≠ .reused → ∃ old, d.vertexSlice = some (v.address, old)
  unmapped : v.kind = .staged ∨ v.kind = .direct → ¬t.vertex.mapping.At t v.address

/-- What an upload of one stage leaves alone: the frame, and every slice but the one it was given. -/
structure Leaves (s t : PassState) (given : Option (ℕ × Bytes)) : Prop where
  frame : t.frame = s.frame
  slices : ∀ a, (∀ g ∈ given, g.1 ≠ a) → t.slices a = s.slices a

/-- A call that fills no slice leaves the memory as it was. -/
theorem Leaves.same {s t : PassState} {given : Option (ℕ × Bytes)} (hframe : t.frame = s.frame)
    (hslices : t.slices = s.slices) : Leaves s t given :=
  ⟨hframe, fun _ _ => by rw [hslices]⟩

/-- A call that fills the slice it was given leaves every other one as it was. -/
theorem Leaves.of_put {s t : PassState} {a : ℕ} {old b : Bytes} (hframe : t.frame = s.frame)
    (hslices : t.slices = (s.put a b).slices) : Leaves s t (some (a, old)) :=
  ⟨hframe, fun a' ha' => by rw [hslices, s.put_slices_of_ne (ha' _ rfl).symm]⟩

/-- A mapping stays right over an upload into a free slice. -/
theorem Leaves.ok {s t : PassState} {given : Option (ℕ × Bytes)} (h : Leaves s t given)
    (hfree : ∀ g ∈ given, s.Free g.1) {m : Mapping} (hm : m.Ok s) : m.Ok t :=
  hm.congr h.frame fun a hat => h.slices a fun g hg hga =>
    hm.not_at_of_free (hfree g hg) (hga ▸ hat)

/-- The memory of the vertex stage with the draw's packet as candidate. -/
def PassState.candidateFilled (s : PassState) (d : Draw) : VertexReuse :=
  s.vertex.setCandidate
    (fillVertex s.vertex.candidate d.shared d.extraVertexStreams d.vertexConstants)

/-- The candidate filled for a complete draw holds the draw's vertex bytes. -/
theorem PassState.candidateFilled_load {s : PassState} {d : Draw} (h : d.completeVertexLayout = true) :
    (s.candidateFilled d).candidate.load 0 d.vertexConstants.vertexBytes = d.vertexBytes := by
  rw [PassState.candidateFilled, VertexReuse.setCandidate_candidate, Draw.fillVertex_load h]

/-- The address that the packet of a draw is found at, 0 for none. -/
def PassState.vertexHit (s : PassState) (d : Draw) : ℕ :=
  (s.candidateFilled d).find s.frame d.vertexConstants.vertexBytes

/-- On a hit the old address is used again and only the candidate has changed. -/
theorem reuseVertex_hit {s : PassState} {d : Draw} (h : s.vertexHit d ≠ 0) :
    s.reuseVertex d = ({ s with vertex := s.candidateFilled d }, some ⟨s.vertexHit d, .reused⟩) :=
  if_pos h

/-- On a miss the draw asks for a slice, and without one its vertex mapping is reset. -/
theorem reuseVertex_miss {s : PassState} {d : Draw} (h : s.vertexHit d = 0) :
    s.reuseVertex d =
      match d.vertexSlice with
      | none => ({ s with vertex := (s.candidateFilled d).reset }, none)
      | some (address, old) =>
        let s' := { s with vertex := s.candidateFilled d }.put address
          (old.store 0 ((s.candidateFilled d).candidate.load 0 d.vertexConstants.vertexBytes))
        match (s.candidateFilled d).publish s.frame d.vertexConstants.vertexBytes address with
        | (false, vertex) => ({ s' with vertex := vertex.reset }, none)
        | (true, vertex) => ({ s' with vertex := vertex }, some ⟨address, .published⟩) := by
  have hne : ¬s.vertexHit d ≠ 0 := not_not.2 h
  rw [PassState.candidateFilled, VertexReuse.setCandidate_candidate]
  exact if_neg hne

/-- The draw and its vertex slice after the upload through the candidate. -/
theorem reuseVertex_spec {s : PassState} {d : Draw} (hreuse : d.reuseVertexPacket = true)
    (hok : s.vertex.mapping.Ok s) :
    Leaves s (s.reuseVertex d).1 d.vertexSlice ∧ (s.reuseVertex d).1.pixel = s.pixel ∧
      (s.reuseVertex d).1.vertex.mapping.Ok (s.reuseVertex d).1 ∧
        ∀ v, (s.reuseVertex d).2 = some v → VertexUploaded s d (s.reuseVertex d).1 v := by
  have hcomplete : d.completeVertexLayout = true := by
    rw [Draw.reuseVertexPacket, Bool.and_eq_true] at hreuse
    exact hreuse.2
  have hpacket := PassState.candidateFilled_load (s := s) hcomplete
  have hmapping : (s.candidateFilled d).mapping = s.vertex.mapping := VertexReuse.setCandidate_mapping _ _
  by_cases hhit : s.vertexHit d = 0
  · rw [reuseVertex_miss hhit]
    cases hslice : d.vertexSlice with
    | none => exact ⟨.same rfl rfl, rfl, Mapping.ok_of_invalid rfl, fun v hv => by cases hv⟩
    | some given =>
        obtain ⟨address, old⟩ := given
        dsimp only
        rw [hpacket]
        cases hpublish : (s.candidateFilled d).publish s.frame d.vertexConstants.vertexBytes address with
        | mk done vertex =>
            cases done with
            | false =>
                exact ⟨.of_put rfl rfl, rfl, Mapping.ok_of_invalid rfl, fun v hv => by cases hv⟩
            | true =>
                have hnew : vertex.mapping = ⟨true, s.frame, address, d.vertexBytes⟩ := by
                  have h := VertexReuse.publish_ok (congrArg Prod.fst hpublish)
                  rwa [hpublish, hpacket] at h
                have hholds := s.holds_put address old d.vertexBytes
                refine ⟨.of_put rfl rfl, rfl, ?_, fun v hv => ?_⟩
                · dsimp only
                  rw [hnew]
                  exact fun _ => ⟨le_rfl, fun _ => hholds⟩
                · cases hv
                  exact
                    { reused := nofun
                      published := fun _ => ⟨hreuse, hholds⟩
                      staged := nofun
                      direct := nofun
                      slice := fun _ => ⟨old, hslice⟩
                      unmapped := nofun }
  · rw [reuseVertex_hit hhit]
    obtain ⟨hvalid, hframe, hbytes, haddress⟩ := VertexReuse.find_ne_zero hhit
    have hfound : s.Holds (s.vertexHit d) d.vertexBytes := by
      have haddr : s.vertexHit d = s.vertex.mapping.address := haddress
      have hb : s.vertex.mapping.bytes = d.vertexBytes := by rw [← hmapping, hbytes, hpacket]
      rw [haddr, ← hb]
      exact (hok hvalid).2 hframe
    refine ⟨.same rfl rfl, rfl, ?_, fun v hv => ?_⟩
    · dsimp only
      rw [hmapping]
      exact hok
    · cases hv
      exact
        { reused := fun _ => ⟨hreuse, hfound⟩
          published := nofun
          staged := nofun
          direct := nofun
          slice := fun h => absurd rfl h
          unmapped := nofun }

/-- Memory reads back what was last put there. -/
theorem PassState.memory_put (s : PassState) (a : ℕ) (b : Bytes) : (s.put a b).memory a = b := by
  rw [PassState.memory, s.put_slices]
  rfl

/-- **The vertex stage.**  An upload leaves all but its slice alone, keeps the mapping right, and an address
it gives leads to the packet of the draw, or will when the packet is complete. -/
theorem uploadVertex_spec {s : PassState} {d : Draw} (hok : s.vertex.mapping.Ok s)
    (hfree : ∀ g ∈ d.vertexSlice, s.Free g.1) :
    Leaves s (s.uploadVertex d).1 d.vertexSlice ∧ (s.uploadVertex d).1.pixel = s.pixel ∧
      (s.uploadVertex d).1.vertex.mapping.Ok (s.uploadVertex d).1 ∧
        ∀ v, (s.uploadVertex d).2 = some v → VertexUploaded s d (s.uploadVertex d).1 v := by
  cases hreuse : d.reuseVertexPacket with
  | true =>
      rw [PassState.uploadVertex, if_pos hreuse]
      exact reuseVertex_spec hreuse hok
  | false =>
      -- the mapping may be dropped first
      obtain ⟨u, hu, hpixel, hstage, hframe, hslices, huok⟩ : ∃ u : PassState,
          (if d.reuseVertexConstants then { s with vertex := s.vertex.reset } else s) = u ∧
            u.pixel = s.pixel ∧ u.stage = s.stage ∧ u.frame = s.frame ∧ u.slices = s.slices ∧
              u.vertex.mapping.Ok u := by
        refine ⟨_, rfl, ?_⟩
        split
        · exact ⟨rfl, rfl, rfl, rfl, Mapping.ok_of_invalid rfl⟩
        · exact ⟨rfl, rfl, rfl, rfl, hok⟩
      have hfree' : ∀ g ∈ d.vertexSlice, u.Free g.1 := fun g hg slice hslice => by
        rw [hslices] at hslice
        rw [hframe]
        exact hfree g hg slice hslice
      rw [PassState.uploadVertex, if_neg (Bool.eq_false_iff.1 hreuse), hu]
      cases hslice : d.vertexSlice with
      | none => exact ⟨.same hframe hslices, hpixel, huok, fun v hv => by cases hv⟩
      | some given =>
          obtain ⟨address, old⟩ := given
          have hput : ∀ b : Bytes, (u.put address b).slices = (s.put address b).slices := fun b => by
            unfold PassState.put
            rw [hframe, hslices]
          have hat := huok.not_at_of_free (hfree' _ hslice)
          have hkept := fun b => huok.put hat b
          dsimp only
          split
          · next hstaged =>
              rw [Bool.and_eq_true] at hstaged
              refine ⟨.of_put hframe (hput old), hpixel, hkept old, fun v hv => ?_⟩
              cases hv
              have hfilled : fillVertex u.stage d.shared d.extraVertexStreams d.vertexConstants =
                  fillVertex s.stage d.shared d.extraVertexStreams d.vertexConstants := by
                rw [hstage]
              exact
                { reused := nofun
                  published := nofun
                  staged := fun _ => ⟨hstaged.2, hfilled⟩
                  direct := nofun
                  slice := fun _ => ⟨old, hslice⟩
                  unmapped := fun _ => hat }
          · refine ⟨.of_put hframe (hput _), hpixel, hkept _, fun v hv => ?_⟩
            cases hv
            exact
              { reused := nofun
                published := nofun
                staged := nofun
                direct := fun _ => ⟨old, hslice, u.memory_put address _⟩
                slice := fun _ => ⟨old, hslice⟩
                unmapped := fun _ => hat }

/-! ### The pixel stage -/

/-- What the draw's packet for the pixel stage is, and where the pass keeps it. -/
theorem Draw.pixelPacket_spec {d : Draw} {bytes : List UInt8} (h : d.pixelPacket = some bytes)
    (m : Bytes) : (d.directPixel m).load 0 d.pixelConstants.pixelBytes = bytes ∧
      bytes.length = d.pixelConstants.pixelBytes := by
  rw [Draw.pixelPacket] at h
  split at h
  · exact fillPixel_load h
  · cases h

/-- How the pixel stage comes to an address, and what stands there. -/
structure PixelUploaded (s : PassState) (d : Draw) (t : PassState) (packet : Option (List UInt8))
    (p : Upload) : Prop where
  reused : p.kind = .reused → s.pixel.mapping.At s p.address ∧
    ∃ bytes, packet = some bytes ∧ s.Holds p.address bytes
  published : p.kind = .published → ∃ bytes, packet = some bytes ∧ t.Holds p.address bytes
  direct : p.kind = .direct → ∃ old, d.pixelSlice = some (p.address, old) ∧
    t.memory p.address = d.directPixel old
  slice : p.kind ≠ .reused → ∃ old, d.pixelSlice = some (p.address, old)
  notStaged : p.kind ≠ .staged

/-- A packet that the candidate holds, where the draw builds candidates. -/
def CandidateIs (s : PassState) (d : Draw) (packet : Option (List UInt8)) : Prop :=
  d.doublePixelPackets = true → ∀ bytes ∈ packet,
    s.pixel.candidateValid = true ∧ s.pixel.packets (!s.pixel.active) = bytes

/-- The mapping after the publication of a packet: the old one, or to the new slice. -/
theorem published_mapping {s : PassState} {d : Draw} {bytes : List UInt8}
    (hcandidate : CandidateIs s d (some bytes)) (address : ℕ) :
    let pixel := if d.doublePixelPackets then (s.pixel.publishCandidate s.frame address).2
      else (s.pixel.publish s.frame bytes address).2
    pixel = s.pixel ∨ pixel.mapping = ⟨true, s.frame, address, bytes⟩ := by
  cases hdouble : d.doublePixelPackets with
  | true =>
      obtain ⟨-, hbytes⟩ := hcandidate hdouble bytes rfl
      dsimp only
      rw [if_pos rfl, PixelReuse.publishCandidate]
      split
      · exact .inl rfl
      · right
        rw [PixelReuse.mapping, hbytes]
  | false =>
      dsimp only
      rw [if_neg Bool.false_ne_true, PixelReuse.publish]
      split
      · exact .inl rfl
      · right
        exact congrArg (Mapping.mk true s.frame address) (Function.update_self ..)

/-- What the pixel stage leaves and gives: as for the vertex stage; and a mapping after it is the one
before, or to the slice this draw was given. -/
structure PixelStage (s : PassState) (d : Draw) (packet : Option (List UInt8))
    (out : PassState × Option Upload) : Prop where
  leaves : Leaves s out.1 d.pixelSlice
  vertex : out.1.vertex = s.vertex
  stage : out.1.stage = s.stage
  ok : out.1.pixel.mapping.Ok out.1
  mapped : ∀ a, out.1.pixel.mapping.At out.1 a →
    s.pixel.mapping.At s a ∨ ∃ old, d.pixelSlice = some (a, old)
  uploaded : ∀ p, out.2 = some p → PixelUploaded s d out.1 packet p

/-- A packet is found again where its mapping holds it, or published to the slice the draw was
given. -/
theorem pixelStage_packet {s : PassState} {d : Draw} {bytes : List UInt8}
    (hok : s.pixel.mapping.Ok s) (hfree : ∀ g ∈ d.pixelSlice, s.Free g.1)
    (hcandidate : CandidateIs s d (some bytes)) :
    PixelStage s d (some bytes) (s.uploadPixel d (some bytes)) := by
  unfold PassState.uploadPixel
  dsimp only
  by_cases hhit : s.pixel.find s.frame bytes = 0
  · rw [if_neg (not_not.2 hhit)]
    cases hslice : d.pixelSlice with
    | none =>
        exact
          { leaves := .same rfl rfl
            vertex := rfl
            stage := rfl
            ok := hok
            mapped := fun _ h => .inl h
            uploaded := nofun }
    | some given =>
        obtain ⟨address, old⟩ := given
        have hholds := s.holds_put address old bytes
        have hfreea := hfree _ hslice
        have hcand := @published_mapping (s.put address (old.store 0 bytes)) d bytes hcandidate address
        dsimp only at hcand ⊢
        constructor
        case leaves =>
          rw [hslice]
          exact .of_put rfl rfl
        case vertex | stage => rfl
        case ok =>
          rcases hcand with hsame | hnew
          · rw [hsame]
            exact hok.put (hok.not_at_of_free hfreea) _
          · rw [hnew]
            exact fun _ => ⟨le_rfl, fun _ => hholds⟩
        case mapped =>
          intro a hat
          rcases hcand with hsame | hnew
          · rw [hsame] at hat
            exact .inl hat
          · rw [hnew] at hat
            exact .inr ⟨old, by rw [hslice, ← hat.2.2]⟩
        case uploaded =>
          intro p hp
          cases hp
          exact
            { reused := nofun
              published := fun _ => ⟨bytes, rfl, hholds⟩
              direct := nofun
              slice := fun _ => ⟨old, hslice⟩
              notStaged := nofun }
  · rw [if_pos hhit]
    obtain ⟨hvalid, hframe, hbytes, haddress⟩ := PixelReuse.find_ne_zero hhit
    have haddr : s.pixel.find s.frame bytes = s.pixel.mapping.address := haddress
    have hb : s.pixel.mapping.bytes = bytes := hbytes
    have hholds : s.Holds (s.pixel.find s.frame bytes) bytes := by
      rw [haddr, ← hb]
      exact (hok hvalid).2 hframe
    refine
      { leaves := .same rfl rfl
        vertex := rfl
        stage := rfl
        ok := hok
        mapped := fun _ h => .inl h
        uploaded := fun p hp => ?_ }
    cases hp
    exact
      { reused := fun _ => ⟨⟨hvalid, hframe, haddr.symm⟩, bytes, rfl, hholds⟩
        published := nofun
        direct := nofun
        slice := fun h => absurd rfl h
        notStaged := nofun }

/-- Without a packet the constants are written to the slice directly; the mapping may be dropped
first. -/
theorem pixelStage_direct {s : PassState} {d : Draw} (hok : s.pixel.mapping.Ok s)
    (hfree : ∀ g ∈ d.pixelSlice, s.Free g.1) : PixelStage s d none (s.uploadPixel d none) := by
  obtain ⟨u, hu, hvertex, hstage, hframe, hslices, huok, hat⟩ : ∃ u : PassState,
      (if d.constantReuse then { s with pixel := s.pixel.reset } else s) = u ∧
        u.vertex = s.vertex ∧ u.stage = s.stage ∧ u.frame = s.frame ∧ u.slices = s.slices ∧
          u.pixel.mapping.Ok u ∧ ∀ a, u.pixel.mapping.At u a → s.pixel.mapping.At s a := by
    refine ⟨_, rfl, ?_⟩
    split
    · exact ⟨rfl, rfl, rfl, rfl, Mapping.ok_of_invalid rfl, fun _ h => absurd h.1 Bool.false_ne_true⟩
    · exact ⟨rfl, rfl, rfl, rfl, hok, fun _ h => h⟩
  unfold PassState.uploadPixel
  dsimp only
  rw [hu]
  cases hslice : d.pixelSlice with
  | none =>
      exact
        { leaves := .same hframe hslices
          vertex := hvertex
          stage := hstage
          ok := huok
          mapped := fun a h => .inl (hat a h)
          uploaded := nofun }
  | some given =>
      obtain ⟨address, old⟩ := given
      have hput : (u.put address (d.directPixel old)).slices =
          (s.put address (d.directPixel old)).slices := by
        unfold PassState.put
        rw [hframe, hslices]
      have hfreea : u.Free address := fun slice hs => by
        rw [hslices] at hs
        rw [hframe]
        exact hfree _ hslice slice hs
      have hleaves : Leaves s (u.put address (d.directPixel old)) d.pixelSlice := by
        rw [hslice]
        exact .of_put hframe hput
      refine
        { leaves := hleaves
          vertex := hvertex
          stage := hstage
          ok := huok.put (huok.not_at_of_free hfreea) _
          mapped := fun a h => .inl (hat a h)
          uploaded := fun p hp => ?_ }
      cases hp
      exact
        { reused := nofun
          published := nofun
          direct := fun _ => ⟨old, hslice, u.memory_put address _⟩
          slice := fun _ => ⟨old, hslice⟩
          notStaged := nofun }

/-- **The pixel stage** does what `PixelStage` says, with a packet and without. -/
theorem uploadPixel_spec {s : PassState} {d : Draw} {packet : Option (List UInt8)}
    (hok : s.pixel.mapping.Ok s) (hfree : ∀ g ∈ d.pixelSlice, s.Free g.1)
    (hcandidate : CandidateIs s d packet) : PixelStage s d packet (s.uploadPixel d packet) := by
  cases packet with
  | some bytes => exact pixelStage_packet hok hfree hcandidate
  | none => exact pixelStage_direct hok hfree

end Constants
end BoltsRebuilt
