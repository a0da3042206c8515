/-
# Where a packet ends

`ExecutePacketType3` ends with an assert that the reader has moved on by the number of words
in the header (`vendored/src/graphics/command_processor.cpp`, lines 966-967); nothing else
makes the packets of a buffer follow each other, and a wrong count makes the interpreter take
operands for headers.
-/

import BoltsRebuilt.Pm4.Packets
import BoltsRebuilt.Registers.Batch

namespace BoltsRebuilt
namespace Pm4

open BoltsRebuilt.Registers

/-- What the interpreter relies on of the ring buffer, besides what the register writes do. -/
structure Sdk.Documented {σ ρ Shader : Type} (sdk : Sdk σ ρ Shader) : Prop where
  env : sdk.env.Documented
  /-- A word that is read is not left. -/
  readCount : ∀ r, 4 ≤ sdk.env.readCount r →
    sdk.env.readCount (sdk.env.advance r) = sdk.env.readCount r - 4
  /-- Skipping words that are left is reading them. -/
  advanceRead : ∀ r n, n * 4 ≤ sdk.env.readCount r → sdk.advanceRead r (n * 4) = sdk.env.advance^[n] r

section Takes

variable {σ ρ Shader : Type} {sdk : Sdk σ ρ Shader} {fromMem : WriteFromMem σ} (hsdk : sdk.Documented)
  {n k : ℕ}

/-- The ring buffers as sources of words. -/
def Sdk.Documented.source : Source ρ where
  advance := sdk.env.advance
  left r := sdk.env.readCount r / 4
  left_advance r n h := by
    rw [hsdk.readCount r (by omega)]
    omega

open Reading

/-- Reading a word from the ring takes that word. -/
theorem takes_readAndSwap : Takes hsdk.source n 1 (readAndSwap sdk) := by
  rintro s _ _ - ⟨⟩
  rfl

/-- Skipping bytes takes the words they make up. -/
theorem takes_advanceRead (hk : k ≤ n) : Takes hsdk.source n k (advanceRead sdk (k * 4)) := by
  rintro s _ _ hleft ⟨⟩
  have hleft : n ≤ sdk.env.readCount s.2 / 4 := hleft
  exact hsdk.advanceRead s.2 k (by omega)

/-- A change of the registers alone takes nothing from the ring. -/
theorem takes_onRegs (f : Processor σ → Processor σ) :
    Takes (S := Cp σ Shader) hsdk.source n 0 (onRegs f) :=
  Takes.update _

/-- Nor does a register write. -/
theorem takes_write (index : ℕ) (value : BitVec 32) : Takes hsdk.source n 0 (write sdk index value) :=
  takes_onRegs hsdk _

/-- Writing a range of registers from the ring takes one word for each of them. -/
theorem takes_range (hk : k ≤ n) (base : ℕ) :
    Takes hsdk.source n k (writeRegisterRangeFromRing sdk fromMem base k) := by
  intro s a s' hleft hs
  have hleft : n ≤ sdk.env.readCount s.2 / 4 := hleft
  rw [writeRegisterRangeFromRing] at hs
  split at hs
  · rename_i hzero
    cases hs
    rw [hzero]
    rfl
  · cases hs
    exact hsdk.env.endRead s.2 k (by omega) (by omega)

/-- A word is read, and what follows it takes the words that are left. -/
theorem takes_word {α : Type} {f : BitVec 32 → Packet σ ρ Shader α}
    (hf : ∀ word, Takes hsdk.source (n - 1) k (f word)) :
    Takes hsdk.source n (k + 1) (readAndSwap sdk >>= f) :=
  ((takes_readAndSwap hsdk).bind hf).eq (Nat.add_comm 1 k)

/-- Skipping words at the end of a packet takes as many and answers as the packet does. -/
theorem takes_skip {α : Type} (hk : k ≤ n) (a : α) :
    Takes (S := Cp σ Shader) hsdk.source n k (do advanceRead sdk (k * 4); return a) :=
  (takes_advanceRead hsdk hk).bind fun _ => .pure a

/-- Writing words to registers one by one takes one word for each, by induction on how many are
left. -/
theorem takes_writeRegisters (targetIndex : ℕ → ℕ) (m count : ℕ) :
    Takes hsdk.source n count (writeRegisters sdk targetIndex m count) := by
  induction count generalizing m n with
  | zero => exact .pure ()
  | succ count ih => exact takes_word hsdk fun word => .step (takes_write hsdk _ _) fun _ => ih _

/-- Reading words takes as many. -/
theorem takes_readWords (count : ℕ) : Takes hsdk.source n count (readWords sdk count) := by
  induction count generalizing n with
  | zero => exact .pure []
  | succ count ih => exact takes_word hsdk fun word => ih.bind fun words => .pure _

/-- Copying words to guest memory takes as many. -/
theorem takes_storeWords (count : ℕ) (writeAddr : BitVec 32) :
    Takes hsdk.source n count (storeWords sdk count writeAddr) := by
  induction count generalizing writeAddr n with
  | zero => exact .pure ()
  | succ count ih => exact takes_word hsdk fun word => .step (takes_onRegs hsdk _) fun _ => ih _

/-- Polling a register or an address takes nothing from the ring. -/
theorem takes_polledValue (waitInfo pollRegAddr : BitVec 32) :
    Takes hsdk.source n 0 (polledValue sdk waitInfo pollRegAddr) :=
  .ite (fun _ => .step .look fun _ => .pure _) fun _ =>
    .ite (fun _ => .step (takes_onRegs hsdk _) fun _ => .step .look fun _ => .pure _)
      fun _ => .step .look fun _ => .pure _

/-- The polls read no words, however many there are. -/
theorem takes_poll (waitInfo pollRegAddr ref mask wait : BitVec 32) (polls : ℕ) :
    Takes hsdk.source n 0 (poll sdk waitInfo pollRegAddr ref mask wait polls) := by
  induction polls with
  | zero =>
    intro s a s' _ hs
    cases hs
  | succ polls ih =>
    rw [poll]
    refine .step (takes_polledValue hsdk _ _) fun value => .ite (fun _ => .pure true) fun _ => ?_
    exact .step (takes_onRegs hsdk _) fun _ => .step .look fun cp => .ite (fun _ => .pure false) fun _ => ih

/-! ### The draws -/

/-- Issuing a draw takes the words of its packet that were not read before, whether or not it
succeeds. -/
theorem takes_issue {countRemaining : ℕ} (h : countRemaining ≤ n) (drawSucceeded : Bool)
    (initiator : DrawInitiator) (info : Option IndexBufferInfo) :
    Takes hsdk.source n countRemaining (issue sdk countRemaining drawSucceeded initiator info) :=
  (takes_advanceRead hsdk h).bind fun _ => .step (.update _) fun _ => .pure true

/-- A draw takes all its words, also when one is missing. -/
theorem takes_draw (count : ℕ) : Takes hsdk.source count count (draw sdk count) := by
  rw [draw]
  refine .ite (fun hzero => hzero ▸ .pure false) fun hpos => ?_
  refine (takes_word hsdk fun word => .step (takes_write hsdk _ _) fun _ =>
    (?_ : Takes hsdk.source _ (count - 1) _)).eq (by omega)
  split
  · refine .ite (fun hone => hone ▸ .pure false) fun hmore => ?_
    refine (takes_word hsdk fun base => .step (takes_write hsdk _ _) fun _ =>
      (?_ : Takes hsdk.source _ (count - 2) _)).eq (by omega)
    refine .ite (fun htwo => htwo ▸ .pure false) fun hmore => ?_
    refine (takes_word hsdk fun size => .step (takes_write hsdk _ _) fun _ =>
      takes_issue hsdk (show count - 3 ≤ _ by omega) _ _ _).eq (by omega)
  · exact takes_issue hsdk (Nat.le_refl _) _ _ _
  · exact takes_issue hsdk (Nat.le_refl _) _ _ _
  · exact takes_issue hsdk (Nat.le_refl _) _ _ _

/-! ### The opcodes -/

/-- An indirect buffer packet takes its address and its length; what the buffer itself holds is read
through another reader. -/
theorem takes_indirectBuffer {indirect : BitVec 32 → ℕ → Cp σ Shader → Option (Cp σ Shader)} :
    Takes hsdk.source n 2 (indirectBuffer sdk indirect) := by
  refine takes_word hsdk fun listPtr => takes_word hsdk fun listLength => .step ?_ fun _ => .pure true
  -- the buffer has a reader of its own
  intro s a s' _ hs
  obtain ⟨cp, -, hresult⟩ := Option.map_eq_some_iff.1 hs
  cases hresult
  rfl

/-- `SET_CONSTANT2` takes its first word and a word for each register. -/
theorem takes_setConstant2 {count : ℕ} :
    Takes hsdk.source count (count - 1 + 1) (setConstant2 sdk fromMem count) :=
  takes_word hsdk fun _ => (takes_range hsdk (Nat.le_refl _) _).bind fun _ => .pure true

/-- Activating a shader takes nothing from the ring. -/
theorem takes_activate (type : ShaderType) (address : BitVec 32) (host sizeDwords : ℕ) :
    Takes hsdk.source n 0 (activate sdk type address host sizeDwords) :=
  .step (.update _) fun _ => .pure _

/-- A packet that sets one field takes one word. -/
theorem takes_setWord (f : BitVec 32 → Cp σ Shader → Cp σ Shader) : Takes hsdk.source n 1 (setWord sdk f) :=
  takes_word hsdk fun _ => .step (.update _) fun _ => .pure true

/-- A packet that sets a 64-bit mask takes two words. -/
theorem takes_setBin (f : BitVec 64 → Cp σ Shader → Cp σ Shader) : Takes hsdk.source n 2 (setBin sdk f) :=
  takes_word hsdk fun _ => takes_word hsdk fun _ => .step (.update _) fun _ => .pure true

/-- The words a packet reads that are not a matter of its count. -/
def fixedWords : Opcode → Option ℕ
  | .interrupt => some 1
  | .indirectBuffer => some 2
  | .indirectBufferPfd => some 2
  | .waitRegMem => some 5
  | .regRmw => some 3
  | .regToMem => some 2
  | .condWrite => some 6
  | .eventWriteShd => some 3
  | .eventWriteExt => some 2
  | .eventWriteZpd => some 1
  | .loadAluConstant => some 3
  | .imLoad => some 2
  | .invalidateState => some 1
  | .vizQuery => some 1
  | .setBinMaskLo => some 1
  | .setBinMaskHi => some 1
  | .setBinSelectLo => some 1
  | .setBinSelectHi => some 1
  | .setBinMask => some 2
  | .setBinSelect => some 2
  | .contextUpdate => some 1
  | .waitForIdle => some 1
  | _ => none

/-- The words of any packet but `IM_LOAD_IMMEDIATE`, one case for each opcode. -/
theorem takes_executeOpcode {indirect : BitVec 32 → ℕ → Cp σ Shader → Option (Cp σ Shader)} {polls count : ℕ}
    {opcode : Opcode} (hcount : 0 < count) (hsmall : count < 2 ^ 32) (hswap : opcode = .xeSwap → 4 ≤ count)
    (himmediate : opcode ≠ .imLoadImmediate) :
    Takes hsdk.source count ((fixedWords opcode).getD count)
      (executeOpcode sdk fromMem indirect polls count opcode) := by
  have hall : count - 1 + 1 = count := by omega
  cases opcode with
  | meInit =>
    exact .step (.update _) fun _ => (takes_readWords hsdk count).bind fun _ => .step (.update _) fun _ => .pure true
  | nop => exact takes_skip hsdk (Nat.le_refl _) true
  | interrupt => exact takes_word hsdk fun _ => .step (takes_onRegs hsdk _) fun _ => .pure true
  | xeSwap =>
    have hcount : 4 ≤ count := hswap rfl
    have hleft : (BitVec.ofNat 32 count - 4).toNat = count - 4 := by
      rw [BitVec.toNat_sub_of_le (by rw [BitVec.le_def, BitVec.toNat_ofNat, Nat.mod_eq_of_lt hsmall]; exact hcount),
        BitVec.toNat_ofNat, Nat.mod_eq_of_lt hsmall]
      rfl
    refine Takes.eq (k := count - 4 + 0 + 1 + 1 + 1 + 1) ?_ (by show _ = count; omega)
    refine takes_word hsdk fun _ => takes_word hsdk fun _ => takes_word hsdk fun _ => takes_word hsdk fun _ => ?_
    rw [hleft]
    have hrest : count - 4 ≤ count - 1 - 1 - 1 - 1 := by omega
    exact (takes_advanceRead hsdk hrest).bind fun _ => .step (takes_onRegs hsdk _) fun _ =>
      .step (.update _) fun _ => .pure true
  | indirectBuffer => exact takes_indirectBuffer hsdk
  | indirectBufferPfd => exact takes_indirectBuffer hsdk
  | waitRegMem =>
    exact takes_word hsdk fun _ => takes_word hsdk fun _ => takes_word hsdk fun _ => takes_word hsdk fun _ =>
      takes_word hsdk fun _ => takes_poll hsdk _ _ _ _ _ _
  | regRmw =>
    exact takes_word hsdk fun _ => takes_word hsdk fun _ => takes_word hsdk fun _ => .step .look fun _ =>
      .step (takes_write hsdk _ _) fun _ => .pure true
  | regToMem =>
    exact takes_word hsdk fun _ => takes_word hsdk fun _ => .step (takes_onRegs hsdk _) fun _ => .pure true
  | memWrite =>
    exact (takes_word hsdk fun _ => (takes_storeWords hsdk (count - 1) _).bind fun _ => .pure true).eq hall
  | condWrite =>
    exact takes_word hsdk fun _ => takes_word hsdk fun _ => takes_word hsdk fun _ => takes_word hsdk fun _ =>
      takes_word hsdk fun _ => takes_word hsdk fun _ => .step (takes_onRegs hsdk _) fun _ => .pure true
  | eventWrite =>
    refine (takes_word hsdk (k := count - 1) fun _ => .step (takes_write hsdk _ _) fun _ => ?_).eq hall
    refine .ite (fun hone => ?_) fun _ => takes_skip hsdk (Nat.le_refl _) true
    rw [hone]
    exact .pure true
  | eventWriteShd =>
    exact takes_word hsdk fun _ => takes_word hsdk fun _ => takes_word hsdk fun _ =>
      .step (takes_write hsdk _ _) fun _ => .step .look fun _ => .step (takes_onRegs hsdk _) fun _ => .pure true
  | eventWriteExt =>
    exact takes_word hsdk fun _ => takes_word hsdk fun _ => .step (takes_write hsdk _ _) fun _ =>
      .step (takes_onRegs hsdk _) fun _ => .pure true
  | eventWriteZpd =>
    exact takes_word hsdk fun _ => .step (takes_write hsdk _ _) fun _ => .step (takes_onRegs hsdk _) fun _ =>
      .pure true
  | drawIndx =>
    exact .ite (fun hzero => absurd hzero (by omega)) fun _ =>
      (takes_word hsdk fun _ => takes_draw hsdk (count - 1)).eq hall
  | drawIndx2 => exact takes_draw hsdk count
  | setConstant =>
    refine (takes_word hsdk (k := count - 1) fun offsetType => ?_).eq hall
    split
    next => exact (takes_range hsdk (Nat.le_refl _) _).bind fun _ => .pure true
    next => exact takes_skip hsdk (Nat.le_refl _) true
  | setConstant2 => exact (takes_setConstant2 hsdk).eq hall
  | loadAluConstant =>
    refine takes_word hsdk fun _ => takes_word hsdk fun offsetType => takes_word hsdk fun _ => ?_
    split
    next => exact .step (takes_onRegs hsdk _) fun _ => .pure true
    next => exact .pure true
  | setShaderConstants => exact (takes_setConstant2 hsdk).eq hall
  | imLoad => exact takes_word hsdk fun _ => takes_word hsdk fun _ => takes_activate hsdk _ _ _ _
  | imLoadImmediate => exact absurd rfl himmediate
  | invalidateState => exact takes_word hsdk fun _ => .pure true
  | vizQuery =>
    exact takes_word hsdk fun _ => .ite (fun _ => .step (takes_write hsdk _ _) fun _ => .pure true) fun _ =>
      .step (takes_write hsdk _ _) fun _ => .step (takes_onRegs hsdk _) fun _ => .pure true
  | setBinMaskLo => exact takes_setWord hsdk _
  | setBinMaskHi => exact takes_setWord hsdk _
  | setBinSelectLo => exact takes_setWord hsdk _
  | setBinSelectHi => exact takes_setWord hsdk _
  | setBinMask => exact takes_setBin hsdk fun value cp => { cp with binMask := value }
  | setBinSelect => exact takes_setBin hsdk fun value cp => { cp with binSelect := value }
  | contextUpdate => exact takes_setWord hsdk _
  | waitForIdle => exact takes_setWord hsdk _
  | unimplemented => exact takes_skip hsdk (Nat.le_refl _) false

/-! ### The words of a packet -/

/-- The word at the reader. -/
def word (sdk : Sdk σ ρ Shader) (s : Cp σ Shader × ρ) : BitVec 32 :=
  sdk.env.loadAndSwap s.1.regs.rest (sdk.env.address s.2)

/-- What is after that word. -/
def next (sdk : Sdk σ ρ Shader) (s : Cp σ Shader × ρ) : Cp σ Shader × ρ := (s.1, sdk.env.advance s.2)

/-- The words after its header, as the header of a packet of type 0 or 3 counts them. -/
def headerCount (packet : BitVec 32) : ℕ := ((packet >>> 16) &&& 0x3FFF).toNat + 1

/-- A header names at most `0x4000` words. -/
theorem headerCount_le (packet : BitVec 32) : headerCount packet ≤ 0x4000 := by
  have hmask : ((packet >>> 16) &&& 0x3FFF).toNat ≤ 0x3FFF := by
    rw [BitVec.toNat_and]
    exact Nat.and_le_right
  rw [headerCount]
  omega

/-- `ExecutePacketType3` passes over the packet: it is predicated, and no bin passes or it is a swap. -/
def Skipped (sdk : Sdk σ ρ Shader) (packet : BitVec 32) (cp : Cp σ Shader) : Prop :=
  packet &&& 1 ≠ 0 ∧ (cp.binSelect &&& cp.binMask = 0 ∨ sdk.opcode (packet.extractLsb' 8 7) = .xeSwap)

instance (sdk : Sdk σ ρ Shader) (packet : BitVec 32) (cp : Cp σ Shader) : Decidable (Skipped sdk packet cp) :=
  inferInstanceAs (Decidable (_ ∧ (_ ∨ _)))

/-- A type-3 packet is refused when the ring holds too little of it, skipped when its predicate
fails, and otherwise executed by its opcode. -/
theorem executePacketType3_eq (fromMem : WriteFromMem σ) (indirect : BitVec 32 → ℕ → Cp σ Shader → Option (Cp σ Shader))
    (polls : ℕ) (packet : BitVec 32) (s : Cp σ Shader × ρ) :
    executePacketType3 sdk fromMem indirect polls packet s =
      if sdk.env.readCount s.2 < headerCount packet * 4 then some (false, s)
      else if Skipped sdk packet s.1 then
        (do
          advanceRead sdk (headerCount packet * 4)
          return true) s
      else
        executeOpcode sdk fromMem indirect polls (headerCount packet) (sdk.opcode (packet.extractLsb' 8 7)) s :=
  rfl

/-- The words `IM_LOAD_IMMEDIATE` reads: two, and the shader if it is of a type. -/
def immediateWords (sdk : Sdk σ ρ Shader) (s : Cp σ Shader × ρ) : ℕ :=
  if sdk.shaderType (word sdk s) = .other then 2 else 2 + (word sdk (next sdk s) &&& 0xFFFF).toNat

/-- The words a type-3 packet reads of those its header counts. -/
def operandWords (sdk : Sdk σ ρ Shader) (count : ℕ) (opcode : Opcode) (s : Cp σ Shader × ρ) : ℕ :=
  if opcode = .imLoadImmediate then immediateWords sdk s else (fixedWords opcode).getD count

include hsdk

/-- `IM_LOAD_IMMEDIATE` moves the reader over its two words and the shader that follows them. -/
theorem imLoadImmediate_reader {s s' : Cp σ Shader × ρ} {ok : Bool}
    (hleft : immediateWords sdk s * 4 ≤ sdk.env.readCount s.2) (h : imLoadImmediate sdk s = some (ok, s')) :
    s'.2 = sdk.env.advance^[immediateWords sdk s] s.2 := by
  obtain ⟨dword0, s₁, h₀, h⟩ := bind_eq_some.1 h
  cases h₀
  obtain ⟨dword1, s₂, h₁, h⟩ := bind_eq_some.1 h
  cases h₁
  dsimp only at h
  obtain ⟨loaded, s₃, h₂, h⟩ := bind_eq_some.1 h
  obtain ⟨_, s₄, hactivate, hloaded⟩ := bind_eq_some.1 h₂
  cases hactivate
  cases hloaded
  rw [immediateWords] at hleft ⊢
  by_cases hother : sdk.shaderType (sdk.env.loadAndSwap s.1.regs.rest (sdk.env.address s.2)) = .other
  · rw [if_neg fun hloaded => absurd hother (of_decide_eq_true hloaded)] at h
    cases h
    have htype : sdk.shaderType (word sdk s) = .other := hother
    rw [if_pos htype]
    rfl
  · rw [if_pos (decide_eq_true hother)] at h
    have htype : ¬sdk.shaderType (word sdk s) = .other := hother
    rw [if_neg htype] at hleft ⊢
    obtain ⟨_, s₅, hadvance, hend⟩ := bind_eq_some.1 h
    cases hadvance
    cases hend
    rw [Nat.add_comm, Function.iterate_add_apply]
    refine hsdk.advanceRead _ _ ?_
    have hfirst := hsdk.readCount s.2 (by omega)
    have hsecond := hsdk.readCount (sdk.env.advance s.2) (by omega)
    show (word sdk (next sdk s) &&& 0xFFFF).toNat * 4 ≤ sdk.env.readCount (sdk.env.advance (sdk.env.advance s.2))
    omega

/-- Where the operands of a packet end, once its opcode has been executed. -/
theorem executeOpcode_reader {indirect : BitVec 32 → ℕ → Cp σ Shader → Option (Cp σ Shader)}
    {polls count : ℕ} {opcode : Opcode} {s s' : Cp σ Shader × ρ} {ok : Bool} (hcount : 0 < count)
    (hsmall : count < 2 ^ 32) (hswap : opcode = .xeSwap → 4 ≤ count)
    (hread : count * 4 ≤ sdk.env.readCount s.2)
    (hwords : operandWords sdk count opcode s * 4 ≤ sdk.env.readCount s.2)
    (h : executeOpcode sdk fromMem indirect polls count opcode s = some (ok, s')) :
    s'.2 = sdk.env.advance^[operandWords sdk count opcode s] s.2 := by
  rw [operandWords] at hwords ⊢
  by_cases himmediate : opcode = .imLoadImmediate
  · rw [if_pos himmediate] at hwords ⊢
    subst himmediate
    exact imLoadImmediate_reader hsdk hwords h
  · rw [if_neg himmediate]
    have hleft : count ≤ sdk.env.readCount s.2 / 4 := by omega
    exact takes_executeOpcode hsdk hcount hsmall hswap himmediate s ok s' hleft h

/-! ### The end of a packet -/

/-- A packet skipped by its predicate moves the reader over all its words. -/
theorem executePacketType3_skipped {indirect : BitVec 32 → ℕ → Cp σ Shader → Option (Cp σ Shader)}
    {polls : ℕ} {packet : BitVec 32} {s s' : Cp σ Shader × ρ} {ok : Bool}
    (hread : headerCount packet * 4 ≤ sdk.env.readCount s.2) (hskipped : Skipped sdk packet s.1)
    (h : executePacketType3 sdk fromMem indirect polls packet s = some (ok, s')) :
    s'.2 = sdk.env.advance^[headerCount packet] s.2 := by
  rw [executePacketType3_eq, if_neg (Nat.not_lt.2 hread), if_pos hskipped] at h
  exact takes_skip hsdk (Nat.le_refl _) true s ok s' ((Nat.le_div_iff_mul_le (by omega)).2 hread) h

/-- An executed packet moves the reader over all its words, provided its opcode takes as many as the
header says. -/
theorem executePacketType3_executed {indirect : BitVec 32 → ℕ → Cp σ Shader → Option (Cp σ Shader)}
    {polls : ℕ} {packet : BitVec 32} {s s' : Cp σ Shader × ρ} {ok : Bool}
    (hread : headerCount packet * 4 ≤ sdk.env.readCount s.2) (hskipped : ¬Skipped sdk packet s.1)
    (hswap : sdk.opcode (packet.extractLsb' 8 7) = .xeSwap → 4 ≤ headerCount packet)
    (hwords : operandWords sdk (headerCount packet) (sdk.opcode (packet.extractLsb' 8 7)) s * 4 ≤
      sdk.env.readCount s.2)
    (h : executePacketType3 sdk fromMem indirect polls packet s = some (ok, s')) :
    s'.2 = sdk.env.advance^[operandWords sdk (headerCount packet) (sdk.opcode (packet.extractLsb' 8 7)) s] s.2 := by
  rw [executePacketType3_eq, if_neg (Nat.not_lt.2 hread), if_neg hskipped] at h
  have hle := headerCount_le packet
  exact executeOpcode_reader hsdk (Nat.succ_pos _) (by omega) hswap hread hwords h

/-- **The assert of `ExecutePacketType3`** (lines 966-967).  Whatever the opcode and its operands, a
packet that the buffer holds leaves the reader where its header says if and only if it was passed over
or reads as many words as the header counts. -/
theorem executePacketType3_ends_iff {indirect : BitVec 32 → ℕ → Cp σ Shader → Option (Cp σ Shader)}
    {polls : ℕ} {packet : BitVec 32} {s s' : Cp σ Shader × ρ} {ok : Bool}
    (hread : headerCount packet * 4 ≤ sdk.env.readCount s.2)
    (hswap : sdk.opcode (packet.extractLsb' 8 7) = .xeSwap → 4 ≤ headerCount packet)
    (hwords : operandWords sdk (headerCount packet) (sdk.opcode (packet.extractLsb' 8 7)) s * 4 ≤
      sdk.env.readCount s.2)
    (h : executePacketType3 sdk fromMem indirect polls packet s = some (ok, s')) :
    s'.2 = sdk.env.advance^[headerCount packet] s.2 ↔
      Skipped sdk packet s.1 ∨
        operandWords sdk (headerCount packet) (sdk.opcode (packet.extractLsb' 8 7)) s = headerCount packet := by
  by_cases hskipped : Skipped sdk packet s.1
  · exact ⟨fun _ => .inl hskipped, fun _ => executePacketType3_skipped hsdk hread hskipped h⟩
  have hend := executePacketType3_executed hsdk hread hskipped hswap hwords h
  constructor
  · intro hassert
    refine .inr (hsdk.source.advance_inj (r := s.2) ?_ ?_ (hend.symm.trans hassert))
    · exact (Nat.le_div_iff_mul_le (by omega)).2 hwords
    · exact (Nat.le_div_iff_mul_le (by omega)).2 hread
  · rintro (hpredicate | hcount)
    · exact absurd hpredicate hskipped
    · rw [hend, hcount]

/-! ### The packets of a buffer -/

/-- The words of a packet after its header. -/
def packetWords (packet : BitVec 32) : ℕ :=
  if packet = 0 then 0
  else
    match (packet >>> 30).toNat with
    | 0 => headerCount packet
    | 1 => 2
    | 2 => 0
    | _ => headerCount packet

/-- A packet whose words are in the buffer, and that reads no others. -/
structure WellFormed (sdk : Sdk σ ρ Shader) (s : Cp σ Shader × ρ) : Prop where
  read : packetWords (word sdk s) * 4 ≤ sdk.env.readCount (sdk.env.advance s.2)
  operands : 3 ≤ (word sdk s >>> 30).toNat → ¬Skipped sdk (word sdk s) s.1 →
    operandWords sdk (headerCount (word sdk s)) (sdk.opcode ((word sdk s).extractLsb' 8 7)) (next sdk s) =
      headerCount (word sdk s)
  swap : 3 ≤ (word sdk s >>> 30).toNat → sdk.opcode ((word sdk s).extractLsb' 8 7) = .xeSwap →
    4 ≤ headerCount (word sdk s)

omit hsdk in
/-- The two top bits of a header name one of the four types of packets. -/
theorem packetType_cases (packet : BitVec 32) :
    (packet >>> 30).toNat = 0 ∨ (packet >>> 30).toNat = 1 ∨ (packet >>> 30).toNat = 2 ∨
      (packet >>> 30).toNat = 3 := by
  have hlt : (packet >>> 30).toNat < 4 := by
    rw [BitVec.toNat_ushiftRight, Nat.shiftRight_eq_div_pow]
    exact Nat.div_lt_of_lt_mul packet.isLt
  omega

omit hsdk in
/-- A packet is well formed exactly when the ring holds all of it and its opcode takes the words its
header counts. -/
theorem wellFormed_iff (s : Cp σ Shader × ρ) :
    WellFormed sdk s ↔
      packetWords (word sdk s) * 4 ≤ sdk.env.readCount (sdk.env.advance s.2) ∧
        (3 ≤ (word sdk s >>> 30).toNat → ¬Skipped sdk (word sdk s) s.1 →
          operandWords sdk (headerCount (word sdk s)) (sdk.opcode ((word sdk s).extractLsb' 8 7)) (next sdk s) =
            headerCount (word sdk s)) ∧
        (3 ≤ (word sdk s >>> 30).toNat → sdk.opcode ((word sdk s).extractLsb' 8 7) = .xeSwap →
          4 ≤ headerCount (word sdk s)) :=
  ⟨fun h => ⟨h.read, h.operands, h.swap⟩, fun h => ⟨h.1, h.2.1, h.2.2⟩⟩

instance (s : Cp σ Shader × ρ) : Decidable (WellFormed sdk s) := decidable_of_iff _ (wellFormed_iff s).symm

/-- A type-0 packet moves the reader over one word for each register it writes, by either path. -/
theorem executePacketType0_reader {registerFastpath : Bool} {packet : BitVec 32} {s s' : Cp σ Shader × ρ}
    {ok : Bool} (hread : headerCount packet * 4 ≤ sdk.env.readCount s.2)
    (h : executePacketType0 sdk fromMem registerFastpath packet s = some (ok, s')) :
    s'.2 = sdk.env.advance^[headerCount packet] s.2 := by
  have hleft : headerCount packet ≤ sdk.env.readCount s.2 / 4 := (Nat.le_div_iff_mul_le (by omega)).2 hread
  change (if sdk.env.readCount s.2 < headerCount packet * 4 then _ else _) = _ at h
  rw [if_neg (Nat.not_lt.2 hread)] at h
  split at h
  · exact ((takes_range hsdk (Nat.le_refl _) _).bind fun _ => .pure true) s ok s' hleft h
  · exact ((takes_writeRegisters hsdk _ 0 _).bind fun _ => .pure true) s ok s' hleft h

/-- A type-1 packet takes two words. -/
theorem takes_executePacketType1 {n : ℕ} (packet : BitVec 32) :
    Takes hsdk.source n 2 (executePacketType1 sdk packet) :=
  takes_word hsdk fun _ => takes_word hsdk fun _ => .step (takes_write hsdk _ _) fun _ =>
    .step (takes_write hsdk _ _) fun _ => .pure true

/-- **Where a well-formed packet ends**: behind the words its header names, whatever it does and
whether or not it succeeds. -/
theorem executePacket_reader {registerFastpath : Bool}
    {indirect : BitVec 32 → ℕ → Cp σ Shader → Option (Cp σ Shader)} {polls : ℕ} {s s' : Cp σ Shader × ρ}
    {ok : Bool} (hwell : WellFormed sdk s)
    (h : executePacket sdk fromMem registerFastpath indirect polls s = some (ok, s')) :
    s'.2 = sdk.env.advance^[packetWords (word sdk s) + 1] s.2 := by
  have hread := hwell.read
  rw [packetWords] at hread ⊢
  rw [Function.iterate_succ_apply]
  change (if word sdk s = 0 then _ else _ : Packet σ ρ Shader Bool) (next sdk s) = _ at h
  split at h
  next hzero =>
    rw [if_pos hzero]
    cases h
    rfl
  next hpacket =>
    rw [if_neg hpacket] at hread ⊢
    rcases packetType_cases (word sdk s) with htype | htype | htype | htype
    all_goals
      change (match (word sdk s >>> 30).toNat with
        | 0 => _
        | 1 => _
        | 2 => _
        | _ => _ : Packet σ ρ Shader Bool) (next sdk s) = _ at h
      rw [htype] at h hread ⊢
    · exact executePacketType0_reader hsdk hread h
    · exact takes_executePacketType1 hsdk (n := 0) (word sdk s) (next sdk s) ok s' (Nat.zero_le _) h
    · cases h
      rfl
    · by_cases hskipped : Skipped sdk (word sdk s) s.1
      · exact executePacketType3_skipped hsdk (s := next sdk s) hread hskipped h
      · have hcount := hwell.operands htype.ge hskipped
        refine (executePacketType3_executed hsdk (s := next sdk s) hread hskipped (hwell.swap htype.ge) ?_ h).trans ?_
        · rw [hcount]
          exact hread
        · rw [hcount]
          rfl

/-- The states before the packets that the loop of a buffer executes. -/
def executed (sdk : Sdk σ ρ Shader) (packet : Packet σ ρ Shader Bool) :
    ℕ → Cp σ Shader × ρ → List (Cp σ Shader × ρ)
  | 0, _ => []
  | packets + 1, s =>
    s :: match packet s with
      | some (true, s') => if sdk.env.readCount s'.2 ≠ 0 then executed sdk packet packets s' else []
      | some (false, _) => []
      | none => []

section Loop

variable {packet : Packet σ ρ Shader Bool} {s s' : Cp σ Shader × ρ} (packets : ℕ)

omit hsdk

/-- A packet that fails is the last one executed. -/
theorem executed_false (h : packet s = some (false, s')) : executed sdk packet (packets + 1) s = [s] := by
  rw [executed, h]

/-- So is one after which the ring is empty. -/
theorem executed_last (h : packet s = some (true, s')) (hdone : sdk.env.readCount s'.2 = 0) :
    executed sdk packet (packets + 1) s = [s] := by
  rw [executed, h]
  exact congrArg (s :: ·) (if_neg (not_not.2 hdone))

/-- Otherwise the packets of the ring that is left follow it. -/
theorem executed_next (h : packet s = some (true, s')) (hmore : sdk.env.readCount s'.2 ≠ 0) :
    executed sdk packet (packets + 1) s = s :: executed sdk packet packets s' := by
  rw [executed, h]
  exact congrArg (s :: ·) (if_pos hmore)

/-- The loop stops at a packet that fails, in the state that packet left. -/
theorem executePackets_false (h : packet s = some (false, s')) :
    executePackets sdk packet (packets + 1) s = some ((), s') := by
  rw [executePackets, bind_eq_some]
  exact ⟨false, s', h, rfl⟩

/-- It stops when the ring is empty. -/
theorem executePackets_last (h : packet s = some (true, s')) (hdone : sdk.env.readCount s'.2 = 0) :
    executePackets sdk packet (packets + 1) s = some ((), s') := by
  rw [executePackets, bind_eq_some]
  exact ⟨true, s', h, if_neg (not_not.2 hdone)⟩

/-- Otherwise it goes on from the state the packet has left. -/
theorem executePackets_next (h : packet s = some (true, s')) (hmore : sdk.env.readCount s'.2 ≠ 0) :
    executePackets sdk packet (packets + 1) s = executePackets sdk packet packets s' := by
  rw [executePackets]
  show (packet s).bind _ = _
  rw [h]
  exact if_pos hmore

end Loop

/-- The words of packets, their headers included. -/
def wordsIn (sdk : Sdk σ ρ Shader) (packets : List (Cp σ Shader × ρ)) : ℕ :=
  (packets.map fun s => packetWords (word sdk s) + 1).sum

omit hsdk in
/-- The words of a sequence of packets are those of its first, with its header, and those of the
rest. -/
theorem wordsIn_cons (s : Cp σ Shader × ρ) (packets : List (Cp σ Shader × ρ)) :
    wordsIn sdk (s :: packets) = wordsIn sdk packets + (packetWords (word sdk s) + 1) :=
  Nat.add_comm _ _

/-- The packets lie one after another, from where the buffer starts on and within its `n` words. -/
structure Framed (sdk : Sdk σ ρ Shader) (start : ρ) (n : ℕ) (packets : List (Cp σ Shader × ρ)) : Prop where
  starts : ∀ i s, packets[i]? = some s → s.2 = sdk.env.advance^[wordsIn sdk (packets.take i)] start
  within : wordsIn sdk packets ≤ n

omit hsdk in
/-- One packet that fits the ring is framed on its own. -/
theorem Framed.single {s : Cp σ Shader × ρ} {n : ℕ} (h : packetWords (word sdk s) + 1 ≤ n) :
    Framed sdk s.2 n [s] where
  starts i t ht := by
    cases i with
    | zero => cases ht; rfl
    | succ i => cases ht
  within := h

omit hsdk in
/-- A packet before packets that start where it ends. -/
theorem Framed.cons {s : Cp σ Shader × ρ} {n : ℕ} {packets : List (Cp σ Shader × ρ)}
    (hsize : packetWords (word sdk s) + 1 ≤ n)
    (h : Framed sdk (sdk.env.advance^[packetWords (word sdk s) + 1] s.2) (n - (packetWords (word sdk s) + 1))
      packets) :
    Framed sdk s.2 n (s :: packets) where
  starts i t ht := by
    cases i with
    | zero => cases ht; rfl
    | succ i =>
      rw [h.starts i t ht, List.take_succ_cons, wordsIn_cons]
      exact (Function.iterate_add_apply _ _ _ _).symm
  within := by
    have hwithin := h.within
    rw [wordsIn_cons]
    omega

/-- Reading `k` of `m` words leaves `m - k` of them. -/
theorem readCount_iterate {r : ρ} {m : ℕ} (k : ℕ) (hk : k ≤ m) (h : sdk.env.readCount r = m * 4) :
    sdk.env.readCount (sdk.env.advance^[k] r) = (m - k) * 4 := by
  induction k with
  | zero => exact h
  | succ k ih =>
    have ih := ih (by omega)
    rw [Function.iterate_succ_apply', hsdk.readCount _ (by omega), ih]
    omega

/-- **The packets of a buffer.**  Where each packet that the loop executes is well-formed and returns,
the loop is over after at most as many packets as the buffer has words; the packets lie back to back in
it, whether the ring wraps between them or inside one, and the reader ends where the last one does,
which is the write offset unless that packet failed. -/
theorem executePackets_framed {registerFastpath : Bool}
    {indirect : BitVec 32 → ℕ → Cp σ Shader → Option (Cp σ Shader)} {polls n fuel : ℕ}
    {s : Cp σ Shader × ρ} (hn : 0 < n) (hfuel : n ≤ fuel)
    (hleft : sdk.env.readCount (sdk.env.advance s.2) = (n - 1) * 4)
    (hwell : ∀ t ∈ executed sdk (executePacket sdk fromMem registerFastpath indirect polls) fuel s, WellFormed sdk t)
    (hreturns : ∀ t ∈ executed sdk (executePacket sdk fromMem registerFastpath indirect polls) fuel s,
      executePacket sdk fromMem registerFastpath indirect polls t ≠ none) :
    let packet := executePacket sdk fromMem registerFastpath indirect polls
    let packets := executed sdk packet fuel s
    ∃ s', executePackets sdk packet fuel s = some ((), s') ∧ Framed sdk s.2 n packets ∧
      s'.2 = sdk.env.advance^[wordsIn sdk packets] s.2 ∧
      (wordsIn sdk packets = n ∨ ∃ t ∈ packets.getLast?, packet t = some (false, s')) := by
  intro packet packets
  induction fuel generalizing s n with
  | zero => omega
  | succ fuel ih =>
    obtain ⟨⟨ok, s'⟩, hs'⟩ := Option.ne_none_iff_exists'.1 (hreturns s List.mem_cons_self)
    have hend := executePacket_reader hsdk (hwell s List.mem_cons_self) hs'
    have hread := (hwell s List.mem_cons_self).read
    have hsize : packetWords (word sdk s) + 1 ≤ n := by omega
    cases ok with
    | false =>
      have hone : packets = [s] := executed_false fuel hs'
      rw [hone]
      exact ⟨s', executePackets_false fuel hs', .single hsize, hend, .inr ⟨s, rfl, hs'⟩⟩
    | true =>
      have hleft' : sdk.env.readCount s'.2 = (n - (packetWords (word sdk s) + 1)) * 4 := by
        rw [hend, Function.iterate_succ_apply, readCount_iterate hsdk _ (by omega) hleft]
        omega
      by_cases hdone : sdk.env.readCount s'.2 = 0
      · have hone : packets = [s] := executed_last fuel hs' hdone
        rw [hone]
        refine ⟨s', executePackets_last fuel hs' hdone, .single hsize, hend, .inl ?_⟩
        show packetWords (word sdk s) + 1 = n
        omega
      · have hmore : packets = s :: executed sdk packet fuel s' := executed_next fuel hs' hdone
        have hleft'' : sdk.env.readCount (sdk.env.advance s'.2) =
            (n - (packetWords (word sdk s) + 1) - 1) * 4 := by
          rw [hsdk.readCount _ (by omega), hleft']
          omega
        have hmem : ∀ t ∈ executed sdk packet fuel s', t ∈ packets := fun t ht =>
          hmore ▸ List.mem_cons_of_mem s ht
        obtain ⟨s'', hloop, hframed, hreader, hlast⟩ := ih (by omega) (by omega) hleft''
          (fun t ht => hwell t (hmem t ht)) fun t ht => hreturns t (hmem t ht)
        rw [hend] at hframed hreader
        rw [hmore, wordsIn_cons]
        refine ⟨s'', (executePackets_next fuel hs' hdone).trans hloop, .cons hsize hframed, ?_, ?_⟩
        · rw [hreader]
          exact (Function.iterate_add_apply _ _ _ _).symm
        · rcases hlast with hall | ⟨t, ht, hfailed⟩
          · left
            omega
          · refine .inr ⟨t, ?_, hfailed⟩
            rw [List.getLast?_cons, show (executed sdk packet fuel s').getLast? = some t from ht]
            rfl

end Takes

/-! ### A ring of eight words -/

/-- A ring of eight words, which are the memory; of the opcodes it has `NOP` and `SET_CONSTANT`. -/
def eightWords : Sdk (List (BitVec 32)) (ℕ × ℕ) Unit where
  env :=
    { Registers.eightWords with
      loadAndSwap := fun memory address => memory.getD (address / 4) 0
      readCount := fun ring => if ring.2 ≤ 8 then ring.2 * 4 else 0 }
  opcode := fun opcode => if opcode = 0x10 then .nop else if opcode = 0x2D then .setConstant else .unimplemented
  shaderType := fun type => if type = 0 then .kVertex else if type = 1 then .kPixel else .other
  drawInitiator := fun word => ⟨(word &&& 0x3F).toNat, .kAutoIndex, 0, false, (word >>> 16).toNat⟩
  dmaSize := fun word => ((word &&& 0xFFFFFF).toNat, (word >>> 30).toNat)
  isMajorModeExplicit := fun _ _ => false
  vizQueryKills := fun _ => false
  coherStatus := fun word => word.msb
  coherStatusHost := 0x0A2F
  vgtEventInitiator := 0x21F9
  vgtDrawInitiator := 0x21FC
  vgtDmaBase := 0x21FA
  vgtDmaSize := 0x21FB
  paScVizQuery := 0x2293
  paScVizQueryStatus0 := 0x0C44
  paScVizQueryStatus1 := 0x0C45
  vizQueryStart := 7
  vizQueryEnd := 8
  gpuSwap := fun value _ => value
  gpuToCpu := fun address => address
  translatePhysical := fun address => address.toNat
  load := fun memory address => memory.getD (address / 4) 0
  store := fun memory address value => memory.set (address / 4) value
  storeExtents := fun memory _ => memory
  advanceRead := fun ring bytes => (ring.1 + bytes / 4, ring.2 - bytes / 4)
  ringBuffer := fun _ _ => (0, 0)
  setOffsets := fun _ first last => (first / 4, if first < last then (last - first) / 4 else (32 - first + last) / 4)
  readPtr := fun ring => 4 * (ring.1 % 8)
  issueSwap := fun _ _ _ regs => regs
  issueDraw := fun _ cp => (true, cp)
  loadShader := fun _ _ _ _ regs => (none, regs)
  dispatchInterrupt := fun _ regs => regs
  occlusionQuery := fun regs => regs
  onPrimaryBufferEnd := fun regs => regs
  pause := fun _ regs => regs
  workerRunning := fun _ => true

/-- The ring of eight words used below behaves as the processor's documentation asks. -/
theorem eightWords_documented : eightWords.Documented where
  env := by
    have hread : ∀ (ring : ℕ × ℕ) n, n * 4 ≤ eightWords.env.readCount ring →
        n * 4 ≤ Registers.eightWords.readCount ring := by
      intro ring n hn
      change n * 4 ≤ (if ring.2 ≤ 8 then ring.2 * 4 else 0) at hn
      show n * 4 ≤ min ring.2 8 * 4
      split at hn
      · omega
      · omega
    have henv := Registers.eightWords_documented
    exact ⟨henv.constants, henv.special, fun ring n hn h => henv.beginRead ring n hn (hread ring n h),
      fun ring n hn h => henv.endRead ring n hn (hread ring n h)⟩
  readCount ring h := by
    change 4 ≤ (if ring.2 ≤ 8 then ring.2 * 4 else 0) at h
    show (if ring.2 - 1 ≤ 8 then (ring.2 - 1) * 4 else 0) = (if ring.2 ≤ 8 then ring.2 * 4 else 0) - 4
    split at h
    · rw [if_pos (by omega), if_pos ‹_›]
      omega
    · omega
  advanceRead ring n _ := by
    show (ring.1 + n * 4 / 4, ring.2 - n * 4 / 4) = Registers.eightWords.advance^[n] ring
    rw [Registers.eightWords_advance, Nat.mul_div_cancel n (by decide : 0 < 4)]

/-- Two constants and a `NOP`; the ring wraps inside the first packet, which starts at its word 6. -/
def wrapped : Cp (List (BitVec 32)) Unit × (ℕ × ℕ) :=
  (⟨{ Registers.frameOpen with
      rest := [0x3F800000, 0x40000000, 0xC0001000, 0xBEEF, 0, 0, 0xC0022D00, 0x00000004] },
    0, 0, [], 0, none, none⟩, (6, 6))

/-- The hypotheses are satisfiable: two packets in a ring of eight words, the second of which wraps
around its end. -/
theorem executePackets_framed_wrapped :
    let packet := executePacket eightWords (Registers.writeRegistersFromMem eightWords.env) true
      (fun _ _ _ => none) 0
    ∃ s', executePackets eightWords packet 6 wrapped = some ((), s') ∧
      Framed eightWords (6, 6) 6 (executed eightWords packet 6 wrapped) ∧
      s'.2 = eightWords.env.advance^[wordsIn eightWords (executed eightWords packet 6 wrapped)] (6, 6) ∧
      (wordsIn eightWords (executed eightWords packet 6 wrapped) = 6 ∨
        ∃ t ∈ (executed eightWords packet 6 wrapped).getLast?, packet t = some (false, s')) :=
  executePackets_framed eightWords_documented (by decide) (by decide) (by decide) (by decide) (by decide)

/-- The hypotheses are satisfiable: the first of those packets, whose header has been read. -/
theorem executePacketType3_ends_iff_wrapped :
    ∃ ok s', executePacketType3 eightWords (Registers.writeRegistersFromMem eightWords.env) (fun _ _ _ => none) 0
        0xC0022D00 (next eightWords wrapped) = some (ok, s') ∧
      (s'.2 = eightWords.env.advance^[headerCount 0xC0022D00] (next eightWords wrapped).2 ↔
        Skipped eightWords 0xC0022D00 wrapped.1 ∨
          operandWords eightWords (headerCount 0xC0022D00) .setConstant (next eightWords wrapped) =
            headerCount 0xC0022D00) := by
  obtain ⟨⟨ok, s'⟩, hs'⟩ := Option.ne_none_iff_exists'.1 (show executePacketType3 eightWords
    (Registers.writeRegistersFromMem eightWords.env) (fun _ _ _ => none) 0 0xC0022D00 (next eightWords wrapped) ≠ none
    by decide)
  exact ⟨ok, s', hs', executePacketType3_ends_iff eightWords_documented (by decide) (by decide) (by decide) hs'⟩

end Pm4
end BoltsRebuilt
