/-
# Cutting a deferred command list into chunks

`src/gpu/vendored/src/graphics/d3d12/deferred_command_list.cpp`: `Execute`,
`ResolvePipelineHandlesForReplay`, `WriteCommand`, `Reset`, `SwapStorage`;
`src/tools/test_native_deferred_command_list.cpp`.

`Recorded l rs`: the list holds the recorded calls `rs`, and nothing else of
what its storage ever held.  Such a list replays to what the calls stand for
(`Recorded.execute`), and so it does after its pipeline handles are resolved
(`Recorded.resolve`).  `chunks_transparent` compares the chunks of a recording,
each resolved on its own and replayed with one carried state, with the whole.
-/

import BoltsRebuilt.Replay.Commands
import Mathlib.Algebra.BigOperators.Group.List.Basic

namespace BoltsRebuilt
namespace Replay

/-! ### Execute and ResolvePipelineHandlesForReplay -/

/-- The command with a value, if there is one. -/
def Command.ofCode (code : ℕ) : Option Command :=
  if code ≤ Command.d3DSetNativeGraphicsConstantBufferViews.ctorIdx then some (Command.ofNat code)
  else none

/-- The code a command is recorded under names that command again. -/
theorem Command.ofCode_ctorIdx (command : Command) : Command.ofCode command.ctorIdx = some command := by
  cases command <;> rfl

/-- The loop of `Execute`.  A record longer than what remains ends the loop here;
`ResolvePipelineHandlesForReplay` refuses a list with such a record. -/
def executeFrom (lookup : Lookup) (list1 : Bool) (m : Bytes) (offset remaining : ℕ)
    (current : Address) : Issued :=
  if remaining = 0 then issued current []
  else
    let elements := ofLe (m.load (8 * offset + 4) 4)
    let i := match Command.ofCode (ofLe (m.load (8 * offset) 4)) with
      | some command => command.issue lookup list1 m (8 * (offset + 1)) current
      | none => issued current []
    i.andThen (executeFrom lookup list1 m (offset + 1 + elements) (remaining - 1 - elements))
termination_by remaining

/-- The loop of `ResolvePipelineHandlesForReplay`: whether it returns true, the
stream afterwards, and how often the counter of null handles is incremented. -/
def resolveFrom (lookup : Lookup) (m : Bytes) (offset used : ℕ) : Bool × Bytes × ℕ :=
  if offset = used then (true, m, 0)
  else if used - offset < 1 then (false, m, 0)
  else
    match Command.ofCode (ofLe (m.load (8 * offset) 4)) with
    | none => (false, m, 0)
    | some command =>
        let elements := ofLe (m.load (8 * offset + 4) 4)
        let arguments := offset + 1
        if elements > used - arguments then (false, m, 0)
        else if command = .setPipelineStateHandle ∧ elements ≠ 1 then (false, m, 0)
        else if command = .setPipelineStateHandle then
          let pipeline := lookup (m.blob (8 * arguments) 8)
          let rest := resolveFrom lookup
            ((m.store (8 * arguments) pipeline.1).store (8 * offset)
              (le 4 Command.d3DSetPipelineState.ctorIdx)) (arguments + elements) used
          (rest.1, rest.2.1, (if pipeline ≠ nullAddress then 0 else 1) + rest.2.2)
        else resolveFrom lookup m (arguments + elements) used
termination_by used - offset

namespace DeferredCommandList

/-- `Execute`, with the current pipeline of its `ReplayState`. -/
def execute (lookup : Lookup) (list1 : Bool) (l : DeferredCommandList) (current : Address) :
    Issued :=
  executeFrom lookup list1 l.commandStream 0 l.commandStreamUsed current

/-- `ResolvePipelineHandlesForReplay`. -/
def resolvePipelineHandlesForReplay (lookup : Lookup) (l : DeferredCommandList) :
    Bool × DeferredCommandList × ℕ :=
  if l.commandStreamUsed > l.size then
    (false, { l with pipelineHandlesResolvedForReplay := false }, 0)
  else
    let resolved := resolveFrom lookup l.commandStream 0 l.commandStreamUsed
    (resolved.1,
      { l with
        commandStream := resolved.2.1
        pipelineHandlesResolvedForReplay := resolved.1 },
      resolved.2.2)

end DeferredCommandList

/-- A recording function: whether it returns, and the list afterwards. -/
def Recorder.record (maxSize : ℕ) (grows : Bool) (r : Recorder) (l : DeferredCommandList) :
    Bool × DeferredCommandList :=
  match r.packet with
  | none => (true, l)
  | some p =>
      match l.writeCommand maxSize grows p.command p.argumentsSizeBytes with
      | (none, l) => (false, l)
      | (some arguments, l) =>
          (true,
            { l with
              commandStream := l.commandStream.storeAll arguments p.pieces
              pipelineHandlesResolvedForReplay :=
                p.command ≠ .setPipelineStateHandle && l.pipelineHandlesResolvedForReplay })

/-- The list holds these recorded calls: they were recorded since the last
`Reset`, which may have left anything in the storage.  A call that threw is not
among them. -/
inductive Recorded (maxSize : ℕ) : DeferredCommandList → List Recorder → Prop
  | reset (l : DeferredCommandList) (reuse : Bool) : Recorded maxSize (l.reset reuse) []
  | record {l l' rs} (grows : Bool) (r : Recorder) : Recorded maxSize l rs →
      r.record maxSize grows l = (true, l') → Recorded maxSize l' (rs ++ [r])
  | throw {l l' rs} (grows : Bool) (r : Recorder) : Recorded maxSize l rs →
      r.record maxSize grows l = (false, l') → Recorded maxSize l' rs
  | swap {l rs} (other : DeferredCommandList) : Recorded maxSize l rs →
      Recorded maxSize (l.swapStorage other).2 rs

/-! ### What recorded calls stand for -/

/-- The recorded calls, replayed one after another. -/
def replay (lookup : Lookup) (list1 : Bool) : List Recorder → Address → Issued
  | [], current => issued current []
  | r :: rs, current => (r.issue lookup list1 current).andThen (replay lookup list1 rs)

/-- A recorded call after its handle is resolved. -/
def Recorder.resolved (lookup : Lookup) : Recorder → Recorder
  | setPipelineStateHandle handle => d3DSetPipelineState (lookup handle)
  | r => r

/-- The handles among the recorded calls that resolve to null. -/
def nullHandles (lookup : Lookup) : List Recorder → ℕ
  | [] => 0
  | .setPipelineStateHandle handle :: rs =>
      (if lookup handle ≠ nullAddress then 0 else 1) + nullHandles lookup rs
  | _ :: rs => nullHandles lookup rs

/-! ### Records in the stream -/

/-- A record stands at an element of the stream. -/
structure Held (m : Bytes) (offset : ℕ) (p : Packet) : Prop where
  command : m.load (8 * offset) 4 = le 4 p.command.ctorIdx
  elements : m.load (8 * offset + 4) 4 = le 4 p.elements
  pieces : Loads m (8 * (offset + 1)) p.pieces

/-- The records of the calls stand one after another. -/
def Holds (m : Bytes) : ℕ → List Recorder → ℕ → Prop
  | offset, [], used => offset = used
  | offset, r :: rs, used =>
      match r.packet with
      | none => Holds m offset rs used
      | some p => Held m offset p ∧ p.elements < 2 ^ 32 ∧ Holds m (offset + 1 + p.elements) rs used

section Records

variable {m m' : Bytes} {offset used : ℕ} {r : Recorder} {rs rs' : List Recorder} {p : Packet}

/-- The arguments of a packet fit the 64-bit elements that were reserved for them. -/
theorem Packet.argumentsSizeBytes_le (p : Packet) : p.argumentsSizeBytes ≤ 8 * p.elements := by
  rw [Packet.elements, DeferredCommandList.argumentsSizeElements]
  split <;> omega

/-- The fields of a record are apart and inside it. -/
theorem packet_pieces (hp : r.packet = some p) :
    Bytes.Apart p.pieces ∧ ∀ q ∈ p.pieces, q.1 + q.2.length ≤ p.argumentsSizeBytes := by
  cases r with
  | d3DIASetIndexBuffer view =>
      rcases view with _ | ⟨location, size, format⟩ <;> cases hp <;> simp [Bytes.Apart]
  | d3DIASetVertexBuffers | d3DResourceBarrier =>
      simp only [Recorder.packet] at hp
      split at hp <;> cases hp
      simp [Bytes.Apart]
      omega
  | d3DSetComputeRoot32BitConstants | d3DSetGraphicsRoot32BitConstants =>
      simp only [Recorder.packet] at hp
      split at hp <;> cases hp
      simp [constantsPacket, Bytes.Apart]
      omega
  | d3DClearDepthStencilView | d3DClearRenderTargetView | d3DClearUnorderedAccessViewUint =>
      cases hp
      simp [Bytes.Apart]
      omega
  | d3DCopyTextureRegion dst dstX dstY dstZ src srcBox =>
      cases srcBox <;> cases hp <;> simp [Bytes.Apart]
  | d3DOMSetRenderTargets num descriptors range depthStencil =>
      have hcount : (if min num.toNat 8 ≠ 0 then if range then 1 else min num.toNat 8 else 0) ≤ 8 := by
        split
        · split <;> omega
        · omega
      simp only [Recorder.packet] at hp
      generalize (if min num.toNat 8 ≠ 0 then if range then 1 else min num.toNat 8 else 0) = k
        at hp hcount
      cases depthStencil <;> cases hp <;> simp [Bytes.Apart] <;> omega
  | d3DSetSamplePositions numSamples numPixels positions =>
      cases hp
      simp [Bytes.Apart]
      omega
  | beginDebugMarker | insertDebugMarker =>
      cases hp
      simp [markerPacket, Bytes.Apart]
      omega
  | _ =>
      cases hp
      simp [wordsPacket, queryPacket, addressPacket, rootPacket, Bytes.Apart]

/-- A packet held in the stream is held in any other that agrees with it on the packet's bytes. -/
theorem Held.congr (h : Held m offset p) (hp : r.packet = some p)
    (hm : ∀ i, 8 * offset ≤ i → i < 8 * (offset + 1 + p.elements) → m' i = m i) :
    Held m' offset p where
  command := (Bytes.load_congr fun i _ _ => hm i (by omega) (by omega)).trans h.command
  elements := (Bytes.load_congr fun i _ _ => hm i (by omega) (by omega)).trans h.elements
  pieces q hq := by
    have hfits := (packet_pieces hp).2 q hq
    have hsize := p.argumentsSizeBytes_le
    refine (Bytes.load_congr fun i _ _ => hm i ?_ ?_).trans (h.pieces q hq) <;> omega

/-- The header of a record reads back as the command it was recorded under. -/
theorem Held.ofLe_command (h : Held m offset p) :
    Command.ofCode (ofLe (m.load (8 * offset) 4)) = some p.command := by
  have hlt : p.command.ctorIdx < 256 ^ 4 := by cases p.command <;> decide
  rw [h.command, ofLe_le, Nat.mod_eq_of_lt hlt, Command.ofCode_ctorIdx]

/-- The number of elements in a packet's header is read back, since it is a 32-bit word. -/
theorem Held.ofLe_elements (h : Held m offset p) (hlt : p.elements < 2 ^ 32) :
    ofLe (m.load (8 * offset + 4) 4) = p.elements := by
  rw [h.elements, ofLe_le]
  exact Nat.mod_eq_of_lt hlt

/-- Packets held from an offset on end no earlier than they begin. -/
theorem Holds.le (h : Holds m offset rs used) : offset ≤ used := by
  induction rs generalizing offset with
  | nil => exact Nat.le_of_eq h
  | cons r rs ih =>
      simp only [Holds] at h
      split at h
      · exact ih h
      · have := ih h.2.2
        omega

/-- Packets held up to some element are held in any stream that agrees up to it. -/
theorem Holds.congr (h : Holds m offset rs used)
    (hm : ∀ i, 8 * offset ≤ i → i < 8 * used → m' i = m i) : Holds m' offset rs used := by
  induction rs generalizing offset with
  | nil => exact h
  | cons r rs ih =>
      simp only [Holds] at h ⊢
      split at h
      next => exact ih h hm
      next p hp =>
        obtain ⟨hheld, hlt, hrest⟩ := h
        have hle := hrest.le
        exact ⟨hheld.congr hp fun i hi hi' => hm i hi (by omega), hlt,
          ih hrest fun i hi hi' => hm i (by omega) hi'⟩

/-- One more record at the end is held with those before it. -/
theorem Holds.append {used' : ℕ} (h : Holds m offset rs used) (h' : Holds m used rs' used') :
    Holds m offset (rs ++ rs') used' := by
  induction rs generalizing offset with
  | nil =>
      rw [show offset = used from h]
      exact h'
  | cons r rs ih =>
      simp only [Holds, List.cons_append] at h ⊢
      split at h
      · exact ih h
      · exact ⟨h.1, h.2.1, ih h.2.2⟩

end Records

/-! ### Recording -/

section Recording

variable {maxSize : ℕ} {grows : Bool} {command : Command} {n : ℕ} {l l' : DeferredCommandList}
  {r : Recorder} {rs : List Recorder} {p : Packet}

/-- `WriteCommand` throws and leaves the list as it was, or reserves a header and its elements at
the end of a list grown to hold them. -/
theorem writeCommand_cases (maxSize : ℕ) (grows : Bool) (command : Command) (n : ℕ)
    (l : DeferredCommandList) :
    l.writeCommand maxSize grows command n = (none, l) ∨
      DeferredCommandList.argumentsSizeElements n < 2 ^ 32 ∧
        ∃ l', l' = l.grown
            (l.commandStreamUsed + 1 + DeferredCommandList.argumentsSizeElements n) ∧
          l.writeCommand maxSize grows command n = (some (8 * (l.commandStreamUsed + 1)),
            { l' with
              commandStreamUsed :=
                l.commandStreamUsed + 1 + DeferredCommandList.argumentsSizeElements n
              commandStream := (l'.commandStream.store (8 * l.commandStreamUsed)
                (le 4 command.ctorIdx)).store (8 * l.commandStreamUsed + 4)
                (le 4 (DeferredCommandList.argumentsSizeElements n)) }) := by
  rw [DeferredCommandList.writeCommand]
  dsimp only
  split
  · exact .inl rfl
  split
  · exact .inl rfl
  next hbound _ => exact .inr ⟨by omega, _, rfl, rfl⟩

/-- A list that was grown for some elements holds them. -/
theorem size_grown (l : DeferredCommandList) (required : ℕ) : required ≤ (l.grown required).size := by
  rw [DeferredCommandList.grown]
  split
  · exact Nat.le_refl _
  · omega

/-- Growing the storage leaves what was recorded before. -/
theorem commandStream_grown (l : DeferredCommandList) (required : ℕ) {i : ℕ} (h : i < 8 * l.size) :
    (l.grown required).commandStream i = l.commandStream i := by
  rw [DeferredCommandList.grown]
  split
  · exact if_neg (by omega)
  · rfl

/-- **A `WriteCommand` that throws changes nothing**, so what was recorded before can still be
executed. -/
theorem writeCommand_throw (h : (l.writeCommand maxSize grows command n).1 = none) :
    (l.writeCommand maxSize grows command n).2 = l := by
  rcases writeCommand_cases maxSize grows command n l with hout | ⟨-, _, -, hout⟩ <;>
    rw [hout] at h ⊢
  cases h

/-- What a recording function that returns leaves: its record at the end, and every record before
it. -/
theorem record_return (h : r.record maxSize grows l = (true, l'))
    (hused : l.commandStreamUsed ≤ l.size) :
    l'.commandStreamUsed ≤ l'.size ∧
      (∀ i < 8 * l.commandStreamUsed, l'.commandStream i = l.commandStream i) ∧
      Holds l'.commandStream l.commandStreamUsed [r] l'.commandStreamUsed := by
  rw [Recorder.record] at h
  split at h
  next hnone =>
    cases h
    exact ⟨hused, fun _ _ => rfl, by simp [Holds, hnone]⟩
  next p hp =>
    obtain ⟨hapart, hfits⟩ := packet_pieces hp
    have hsize := p.argumentsSizeBytes_le
    rcases writeCommand_cases maxSize grows p.command p.argumentsSizeBytes l with
      hout | ⟨hlt, l₁, hl₁, hout⟩ <;> rw [hout] at h <;> cases h
    have hgrown := size_grown l
      (l.commandStreamUsed + 1 + DeferredCommandList.argumentsSizeElements p.argumentsSizeBytes)
    rw [← hl₁] at hgrown
    refine ⟨hgrown, fun i hi => ?_, ?_⟩
    · dsimp only
      rw [Bytes.storeAll_frame fun q _ => by omega, Bytes.store, if_neg (by omega), Bytes.store,
        if_neg (by omega), hl₁, commandStream_grown _ _ (by omega)]
    · have hframe : ∀ a, a + 4 ≤ 8 * (l.commandStreamUsed + 1) → ∀ m : Bytes,
          (m.storeAll (8 * (l.commandStreamUsed + 1)) p.pieces).load a 4 = m.load a 4 :=
        fun a ha m => Bytes.load_congr fun i _ _ => Bytes.storeAll_frame fun q _ => by omega
      simp only [Holds, hp]
      refine ⟨⟨?_, ?_, Bytes.load_storeAll hapart⟩, hlt, rfl⟩
      · rw [hframe _ (by omega), Bytes.load_store_of_disjoint (by simp)]
        exact Bytes.load_store_self (length_le 4 _)
      · rw [hframe _ (by omega)]
        exact Bytes.load_store_self (length_le 4 _)

/-- A recording that throws has written nothing. -/
theorem record_throw (h : r.record maxSize grows l = (false, l')) : l' = l := by
  rw [Recorder.record] at h
  split at h
  · cases h
  next p _ =>
    rcases writeCommand_cases maxSize grows p.command p.argumentsSizeBytes l with
      hout | ⟨-, _, -, hout⟩ <;> rw [hout] at h <;> cases h
    rfl

/-- The storage of a list that holds recorded calls begins with their records. -/
theorem Recorded.holds (h : Recorded maxSize l rs) :
    l.commandStreamUsed ≤ l.size ∧ Holds l.commandStream 0 rs l.commandStreamUsed := by
  induction h with
  | reset l reuse => exact ⟨Nat.zero_le _, rfl⟩
  | record grows r _ hrecord ih =>
      obtain ⟨hsize, hframe, hlast⟩ := record_return hrecord ih.1
      exact ⟨hsize, (ih.2.congr fun i _ hi => hframe i hi).append hlast⟩
  | throw grows r _ hrecord ih => rwa [record_throw hrecord]
  | swap other _ ih => exact ih

end Recording

/-! ### Replaying -/

section Replaying

variable {lookup : Lookup} {list1 : Bool} {m : Bytes} {offset used : ℕ} {current : Address}
  {maxSize : ℕ} {l : DeferredCommandList} {rs : List Recorder}

/-- A list that issues nothing is followed by the rest alone. -/
@[simp] theorem issued_nil_andThen (rest : Address → Issued) :
    (issued current []).andThen rest = rest current := by
  simp [issued, Issued.andThen]

/-- Three lists, one after the other, issue the same however they are grouped. -/
theorem Issued.andThen_assoc (i : Issued) (f g : Address → Issued) :
    (i.andThen f).andThen g = i.andThen fun current => (f current).andThen g := by
  simp [Issued.andThen, List.append_assoc, Nat.add_assoc]

/-- `Execute` over the records of recorded calls makes the calls they stand for. -/
theorem executeFrom_holds (h : Holds m offset rs used) :
    executeFrom lookup list1 m offset (used - offset) current = replay lookup list1 rs current := by
  induction rs generalizing offset current with
  | nil =>
      rw [show offset = used from h, Nat.sub_self, executeFrom, if_pos rfl]
      rfl
  | cons r rs ih =>
      simp only [Holds] at h
      split at h
      next hnone =>
        rw [ih h, replay, issue_of_packet_none hnone, issued_nil_andThen]
      next p hp =>
        obtain ⟨hheld, hlt, hrest⟩ := h
        have hle := hrest.le
        rw [executeFrom, if_neg (by omega)]
        simp only [hheld.ofLe_command, hheld.ofLe_elements hlt]
        rw [issue_packet hp hheld.pieces, replay,
          show used - offset - 1 - p.elements = used - (offset + 1 + p.elements) by omega]
        exact congrArg _ (funext fun current => ih hrest)

/-- A list replays to what its recorded calls stand for. -/
theorem Recorded.execute (h : Recorded maxSize l rs) (lookup : Lookup) (list1 : Bool)
    (current : Address) :
    l.execute lookup list1 current = replay lookup list1 rs current :=
  executeFrom_holds h.holds.2

/-- Only `SetPipelineStateHandle` records a handle; resolving leaves the other
calls as they are. -/
theorem packet_command (lookup : Lookup) {r : Recorder} {p : Packet} (hp : r.packet = some p) :
    (∃ handle, r = .setPipelineStateHandle handle) ∨
      p.command ≠ .setPipelineStateHandle ∧ r.resolved lookup = r ∧
        ∀ rs, nullHandles lookup (r :: rs) = nullHandles lookup rs := by
  cases r with
  | setPipelineStateHandle handle => exact .inl ⟨handle, rfl⟩
  | d3DIASetIndexBuffer view =>
      rcases view with _ | ⟨location, size, format⟩ <;> cases hp <;>
        exact .inr ⟨Command.noConfusion, rfl, fun _ => rfl⟩
  | d3DIASetVertexBuffers | d3DResourceBarrier | d3DSetComputeRoot32BitConstants
  | d3DSetGraphicsRoot32BitConstants =>
      simp only [Recorder.packet] at hp
      split at hp <;> cases hp
      exact .inr ⟨Command.noConfusion, rfl, fun _ => rfl⟩
  | _ =>
      cases hp
      exact .inr ⟨Command.noConfusion, rfl, fun _ => rfl⟩

/-- A recorder call that records no packet has no handle to resolve. -/
theorem resolved_of_packet_none (lookup : Lookup) {r : Recorder} (hp : r.packet = none) :
    r.resolved lookup = r ∧ ∀ rs, nullHandles lookup (r :: rs) = nullHandles lookup rs := by
  cases r with
  | setPipelineStateHandle => cases hp
  | _ => exact ⟨rfl, fun _ => rfl⟩

/-- A packet of one address takes one element. -/
theorem elements_addressPacket (command : Command) (address : Address) :
    (addressPacket command address).elements = 1 := by
  simp [Packet.elements, addressPacket, DeferredCommandList.argumentsSizeElements]

/-- The record of a handle becomes the record of its pipeline. -/
theorem Held.resolve {handle pipeline : Address}
    (h : Held m offset (addressPacket .setPipelineStateHandle handle)) :
    Held ((m.store (8 * (offset + 1)) pipeline.1).store (8 * offset)
      (le 4 Command.d3DSetPipelineState.ctorIdx)) offset
      (addressPacket .d3DSetPipelineState pipeline) where
  command := Bytes.load_store_self (length_le 4 _)
  elements := by
    rw [Bytes.load_store_of_disjoint (by simp), Bytes.load_store_of_disjoint (by simp; omega)]
    exact h.elements
  pieces := by
    simp only [addressPacket, loads_cons, Blob.length_val, Nat.add_zero, loads_nil, and_true]
    rw [Bytes.load_store_of_disjoint (by simp; omega)]
    exact Bytes.load_store_self pipeline.2

/-- Resolving the records of recorded calls leaves the records of the resolved
calls, and what is before them. -/
theorem resolveFrom_holds (lookup : Lookup) (h : Holds m offset rs used) :
    ∃ m', resolveFrom lookup m offset used = (true, m', nullHandles lookup rs) ∧
      Holds m' offset (rs.map (Recorder.resolved lookup)) used ∧
      ∀ i < 8 * offset, m' i = m i := by
  induction rs generalizing m offset with
  | nil =>
      rw [show offset = used from h, resolveFrom, if_pos rfl]
      exact ⟨m, rfl, rfl, fun _ _ => rfl⟩
  | cons r rs ih =>
      simp only [Holds] at h
      split at h
      next hnone =>
        obtain ⟨hresolved, hnull⟩ := resolved_of_packet_none lookup hnone
        obtain ⟨m', hm', hholds, hframe⟩ := ih h
        refine ⟨m', by rw [hm', hnull], ?_, hframe⟩
        rw [List.map_cons, hresolved]
        simpa only [Holds, hnone] using hholds
      next p hp =>
        obtain ⟨hheld, hlt, hrest⟩ := h
        have hle := hrest.le
        rw [resolveFrom, if_neg (by omega), if_neg (by omega)]
        simp only [hheld.ofLe_command, hheld.ofLe_elements hlt]
        rw [if_neg (by omega)]
        rcases packet_command lookup hp with ⟨handle, rfl⟩ | ⟨hcommand, hresolved, hnull⟩
        · cases hp
          have hhandle : m.blob (8 * (offset + 1)) 8 = handle := by
            have hpieces := hheld.pieces
            simp only [addressPacket, loads_cons, Blob.length_val, Nat.add_zero] at hpieces
            exact blob_eq hpieces.1
          rw [elements_addressPacket] at hrest hle
          have hrest' : Holds ((m.store (8 * (offset + 1)) (lookup handle).1).store (8 * offset)
              (le 4 Command.d3DSetPipelineState.ctorIdx)) (offset + 1 + 1) rs used :=
            hrest.congr fun i hi _ => by
              rw [Bytes.store, if_neg (by simp; omega), Bytes.store, if_neg (by simp; omega)]
          obtain ⟨m', hm', hholds, hframe⟩ := ih hrest'
          refine ⟨m', ?_, ?_, fun i hi => ?_⟩
          · rw [elements_addressPacket, if_neg (by simp),
              if_pos (show (addressPacket .setPipelineStateHandle handle).command =
                .setPipelineStateHandle from rfl), hhandle, hm']
            rfl
          · simp only [Holds, List.map_cons, Recorder.resolved, Recorder.packet]
            rw [elements_addressPacket]
            refine ⟨hheld.resolve.congr (r := .d3DSetPipelineState (lookup handle)) rfl
              fun i _ hi => hframe i ?_, by decide, hholds⟩
            rwa [elements_addressPacket] at hi
          · rw [hframe i (by omega), Bytes.store, if_neg (by omega), Bytes.store, if_neg (by omega)]
        · rw [if_neg (fun hc => hcommand hc.1), if_neg hcommand]
          obtain ⟨m', hm', hholds, hframe⟩ := ih hrest
          refine ⟨m', by rw [hm', hnull], ?_, fun i hi => hframe i (by omega)⟩
          rw [List.map_cons, hresolved]
          simp only [Holds, hp]
          exact ⟨hheld.congr hp fun i _ hi => hframe i hi, hlt, hholds⟩

/-- Resolving a list succeeds, and the list then holds the resolved calls. -/
theorem Recorded.resolve (h : Recorded maxSize l rs) (lookup : Lookup) :
    ∃ l', l.resolvePipelineHandlesForReplay lookup = (true, l', nullHandles lookup rs) ∧
      ∀ lookup' list1 current, l'.execute lookup' list1 current =
        replay lookup' list1 (rs.map (Recorder.resolved lookup)) current := by
  obtain ⟨hsize, hholds⟩ := h.holds
  obtain ⟨m', hm', hholds', -⟩ := resolveFrom_holds lookup hholds
  rw [DeferredCommandList.resolvePipelineHandlesForReplay, if_neg (by omega)]
  simp only [hm']
  exact ⟨_, rfl, fun _ _ _ => executeFrom_holds hholds'⟩

/-! ### Resolved calls -/

/-- A resolved call no longer looks a handle up, and makes the same calls. -/
theorem issue_resolved (lookup lookup' : Lookup) (r : Recorder) :
    (r.resolved lookup).issue lookup' list1 current =
      { r.issue lookup list1 current with nullHandles := 0 } := by
  cases r <;> rfl

/-- **Resolving the handles before the replay or during it issues the same calls**, and leaves no
handle to be found null later. -/
theorem replay_resolved (lookup lookup' : Lookup) (rs : List Recorder) :
    replay lookup' list1 (rs.map (Recorder.resolved lookup)) current =
      { replay lookup list1 rs current with nullHandles := 0 } := by
  induction rs generalizing current with
  | nil => rfl
  | cons r rs ih =>
      simp only [List.map_cons, replay, issue_resolved, Issued.andThen, ih]

/-- Two stretches replayed one after the other are both replayed at once. -/
theorem replay_append (rs rs' : List Recorder) :
    replay lookup list1 (rs ++ rs') current =
      (replay lookup list1 rs current).andThen (replay lookup list1 rs') := by
  induction rs generalizing current with
  | nil => rw [List.nil_append, replay, issued_nil_andThen]
  | cons r rs ih =>
      rw [List.cons_append, replay, replay, Issued.andThen_assoc]
      exact congrArg _ (funext fun current => ih)

/-- Handles found null in two stretches add up. -/
theorem nullHandles_append (rs rs' : List Recorder) :
    nullHandles lookup (rs ++ rs') = nullHandles lookup rs + nullHandles lookup rs' := by
  induction rs with
  | nil => simp [nullHandles]
  | cons r rs ih => cases r <;> simp [nullHandles, ih, Nat.add_assoc]

/-- A replay counts exactly the null handles of what it replays. -/
theorem nullHandles_replay (rs : List Recorder) :
    (replay lookup list1 rs current).nullHandles = nullHandles lookup rs := by
  induction rs generalizing current with
  | nil => rfl
  | cons r rs ih =>
      rw [replay, Issued.andThen, ih]
      cases r with
      | setPipelineStateHandle => rfl
      | _ => exact Nat.zero_add _

/-- Only the pipelines of the recorded handles matter to a replay. -/
theorem replay_congr {lookup' : Lookup}
    (h : ∀ handle, .setPipelineStateHandle handle ∈ rs → lookup' handle = lookup handle)
    (list1 : Bool) (current : Address) :
    replay lookup' list1 rs current = replay lookup list1 rs current := by
  induction rs generalizing current with
  | nil => rfl
  | cons r rs ih =>
      have hissue : r.issue lookup' list1 current = r.issue lookup list1 current := by
        cases r with
        | setPipelineStateHandle handle =>
            rw [Recorder.issue, Recorder.issue, h handle List.mem_cons_self]
        | _ => rfl
      rw [replay, replay, hissue]
      exact congrArg _ (funext fun current => ih (fun handle hmem => h handle (.tail _ hmem)) current)

end Replaying

/-! ### Chunks -/

/-- A chunk: the list that holds its calls, and the pipelines of the handles when
it is resolved and when it is replayed. -/
structure Chunk where
  list : DeferredCommandList
  recorded : List Recorder
  resolving : Lookup
  replaying : Lookup

/-- The list the worker is handed. -/
def Chunk.resolved (c : Chunk) : Bool × DeferredCommandList × ℕ :=
  c.list.resolvePipelineHandlesForReplay c.resolving

/-- The chunks are executed one after another with one `ReplayState`. -/
def executeChunks (list1 : Bool) : List Chunk → Address → Issued
  | [], current => issued current []
  | c :: cs, current =>
      (c.resolved.2.1.execute c.replaying list1 current).andThen (executeChunks list1 cs)

section Chunks

variable {maxSize : ℕ} {lookup : Lookup} {chunks : List Chunk}

/-- Chunks executed one after the other issue what replaying all of their commands at once issues,
when each chunk was resolved as the lookup says. -/
theorem executeChunks_eq
    (hchunks : ∀ c ∈ chunks, Recorded maxSize c.list c.recorded)
    (hlookup : ∀ c ∈ chunks, ∀ handle, .setPipelineStateHandle handle ∈ c.recorded →
      c.resolving handle = lookup handle) (list1 : Bool) (current : Address) :
    executeChunks list1 chunks current =
      { replay lookup list1 (chunks.flatMap (·.recorded)) current with nullHandles := 0 } := by
  induction chunks generalizing current with
  | nil => rfl
  | cons c cs ih =>
      rw [List.forall_mem_cons] at hchunks hlookup
      obtain ⟨l', hl', hexecute⟩ := hchunks.1.resolve c.resolving
      have hreplay := replay_congr hlookup.1 list1 current
      simp only [executeChunks, Chunk.resolved, hl', hexecute, replay_resolved, hreplay,
        List.flatMap_cons, replay_append, Issued.andThen, ih hchunks.2 hlookup.2]

/-- And the null handles their resolutions have counted are those of the whole. -/
theorem sum_nullHandles (hchunks : ∀ c ∈ chunks, Recorded maxSize c.list c.recorded)
    (hlookup : ∀ c ∈ chunks, ∀ handle, .setPipelineStateHandle handle ∈ c.recorded →
      c.resolving handle = lookup handle) :
    (chunks.map (·.resolved.2.2)).sum = nullHandles lookup (chunks.flatMap (·.recorded)) := by
  induction chunks with
  | nil => rfl
  | cons c cs ih =>
      rw [List.forall_mem_cons] at hchunks hlookup
      obtain ⟨l', hl', -⟩ := hchunks.1.resolve c.resolving
      have hnull := congrArg Issued.nullHandles (replay_congr hlookup.1 true nullAddress)
      rw [nullHandles_replay, nullHandles_replay] at hnull
      rw [List.map_cons, List.sum_cons, ih hchunks.2 hlookup.2, List.flatMap_cons,
        nullHandles_append, ← hnull, Chunk.resolved, hl']

/-- **Chunking and storage reuse are transparent.**  The list `whole` and the
lists of the chunks hold the same recorded calls, one in a single sequence and
the others cut anywhere.  Then every chunk resolves; the chunks, executed with
one carried state, issue what one `Execute` of the whole issues with the live
handles, and leave the same pipeline; the null handles are counted once.  What
is issued depends on the calls recorded since the last `Reset` alone, and a
`WriteCommand` that throws leaves its list as it was. -/
theorem chunks_transparent {whole : DeferredCommandList}
    (hwhole : Recorded maxSize whole (chunks.flatMap (·.recorded)))
    (hchunks : ∀ c ∈ chunks, Recorded maxSize c.list c.recorded)
    (hlookup : ∀ c ∈ chunks, ∀ handle, .setPipelineStateHandle handle ∈ c.recorded →
      c.resolving handle = lookup handle) (list1 : Bool) (current : Address) :
    (∀ c ∈ chunks, c.resolved.1 = true) ∧
      (executeChunks list1 chunks current).calls = (whole.execute lookup list1 current).calls ∧
      (executeChunks list1 chunks current).currentPipelineState =
        (whole.execute lookup list1 current).currentPipelineState ∧
      (chunks.map (·.resolved.2.2)).sum + (executeChunks list1 chunks current).nullHandles =
        (whole.execute lookup list1 current).nullHandles ∧
      whole.execute lookup list1 current =
        replay lookup list1 (chunks.flatMap (·.recorded)) current ∧
      ∀ grows command n (l : DeferredCommandList),
        (l.writeCommand maxSize grows command n).1 = none →
          (l.writeCommand maxSize grows command n).2 = l := by
  have hexecute := hwhole.execute lookup list1 current
  have hchunked := executeChunks_eq hchunks hlookup list1 current
  refine ⟨fun c hc => ?_, ?_, ?_, ?_, hexecute, fun _ _ _ _ => writeCommand_throw⟩
  · obtain ⟨l', hl', -⟩ := (hchunks c hc).resolve c.resolving
    rw [Chunk.resolved, hl']
  · rw [hchunked, hexecute]
  · rw [hchunked, hexecute]
  · rw [hchunked, hexecute, nullHandles_replay, Nat.add_zero, sum_nullHandles hchunks hlookup]

end Chunks

section Example

private def staleList : DeferredCommandList := ⟨fun _ => 255, 32, 32, true, true⟩

private def onePipeline : Address := ⟨List.replicate 8 1, rfl⟩

private def setOne : Recorder := .setPipelineStateHandle onePipeline

private def drawThree : Recorder := .d3DDrawInstanced (word 3) (word 3) (word 3) (word 3)

/-- The list that holds a call, in storage full of stale bytes. -/
private def holding (r : Recorder) : DeferredCommandList :=
  (r.record 64 true (staleList.reset true)).2

private def twoChunks : List Chunk :=
  [⟨holding setOne, [setOne], id, fun _ => nullAddress⟩,
    ⟨holding drawThree, [drawThree], id, fun _ => nullAddress⟩]

/-- The hypotheses are satisfiable: a pipeline handle and a draw, cut between the two; the draw of
the second chunk is not suppressed. -/
theorem chunks_transparent_draw :
    (executeChunks true twoChunks nullAddress).calls =
      [⟨.setPipelineState, [.bytes onePipeline.1]⟩,
        ⟨.drawInstanced, List.replicate 4 (.bytes [3, 0, 0, 0])⟩] := by
  have hreset : Recorded 64 (staleList.reset true) [] := .reset staleList true
  have hset : Recorded 64 (holding setOne) [setOne] := hreset.record true setOne rfl
  have hdraw : Recorded 64 (holding drawThree) [drawThree] := hreset.record true drawThree rfl
  have hwhole : Recorded 64 (drawThree.record 64 true (holding setOne)).2
      (twoChunks.flatMap (·.recorded)) := hset.record true drawThree rfl
  have hchunks : ∀ c ∈ twoChunks, Recorded 64 c.list c.recorded := by simp [twoChunks, hset, hdraw]
  have hlookup : ∀ c ∈ twoChunks, ∀ handle, .setPipelineStateHandle handle ∈ c.recorded →
      c.resolving handle = id handle := by simp [twoChunks]
  obtain ⟨-, hcalls, -, -, hwhole', -⟩ := chunks_transparent hwhole hchunks hlookup true nullAddress
  rw [hcalls, hwhole']
  rfl

end Example

end Replay
end BoltsRebuilt
