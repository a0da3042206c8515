/-
# Batched register writes in whole runs

`D3D12CommandProcessor::WriteRegistersFromMem` writes the constants of a range at once
(`vendored/src/graphics/d3d12/command_processor.cpp`, lines 2235-2348), and
`nb_native_register_fastpath` sends type-0 packets there (`command_processor.cpp`, lines 774-781).
A buffer is executed as it is without either: register by register, by the base class.
-/

import BoltsRebuilt.Pm4.Framing

namespace BoltsRebuilt
namespace Pm4

open BoltsRebuilt.Registers

section Batch

variable {σ ρ Shader : Type} {sdk : Sdk σ ρ Shader}

/-- The loop of `ExecutePacketType0`, over the registers alone, is the one of the register writes. -/
theorem writeRegisters_regs (targetIndex : ℕ → ℕ) (m count : ℕ) (s : Cp σ Shader × ρ) :
    writeRegisters sdk targetIndex m count s =
      some ((),
        { s.1 with
          regs := (Registers.writeRegisters sdk.env s.1.regs s.2 (fun i => targetIndex (m + i)) count).1 },
        (Registers.writeRegisters sdk.env s.1.regs s.2 (fun i => targetIndex (m + i)) count).2) := by
  induction count generalizing m s with
  | zero => rfl
  | succ count ih =>
    rw [Registers.writeRegisters, List.range_succ_eq_map, List.foldl_cons, List.foldl_map]
    refine (ih (m + 1) _).trans ?_
    rw [Registers.writeRegisters]
    simp only [Nat.add_assoc, Nat.add_comm 1, Nat.succ_eq_add_one]
    rfl

/-- The range writer over the whole processor is the one over the registers alone, with the rest of
the processor left as it is. -/
theorem writeRegisterRangeFromRing_regs (base count : ℕ) (s : Cp σ Shader × ρ) :
    writeRegisterRangeFromRing sdk (Registers.writeRegistersFromMem sdk.env) base count s =
      some ((), { s.1 with regs := (Registers.writeRegisterRangeFromRing sdk.env s.1.regs s.2 base count).1 },
        (Registers.writeRegisterRangeFromRing sdk.env s.1.regs s.2 base count).2) := by
  rw [writeRegisterRangeFromRing, Registers.writeRegisterRangeFromRing]
  split
  · rfl
  · rfl

/-- `ExecutePacketType0` over the whole processor is the one over the registers alone, with and
without the fast path. -/
theorem executePacketType0_regs (registerFastpath : Bool) (packet : BitVec 32) (s : Cp σ Shader × ρ) :
    executePacketType0 sdk (Registers.writeRegistersFromMem sdk.env) registerFastpath packet s =
      some ((Registers.executePacketType0 sdk.env registerFastpath s.1.regs s.2 packet).1,
        { s.1 with regs := (Registers.executePacketType0 sdk.env registerFastpath s.1.regs s.2 packet).2.1 },
        (Registers.executePacketType0 sdk.env registerFastpath s.1.regs s.2 packet).2.2) := by
  have hreturn : ∀ {p : Packet σ ρ Shader Unit} {s s' : Cp σ Shader × ρ}, p s = some ((), s') →
      (do p; return true : Packet σ ρ Shader Bool) s = some (true, s') := fun h =>
    congrArg (fun r => r.bind fun q => some (true, q.2)) h
  rw [executePacketType0, Registers.executePacketType0]
  dsimp only
  split
  next => rfl
  next =>
    split
    next => exact hreturn (writeRegisterRangeFromRing_regs _ _ s)
    next =>
      have hloop := @writeRegisters_regs σ ρ Shader sdk
        (fun m => if packet >>> 15 &&& 1 ≠ 0 then (packet &&& 0x7FFF).toNat
          else (packet &&& 0x7FFF).toNat + m) 0 (((packet >>> 16) &&& 0x3FFF).toNat + 1) s
      simp only [Nat.zero_add] at hloop
      exact hreturn hloop

variable (hsdk : sdk.Documented)

include hsdk

/-- The ranges of the backend are written as the base class writes them. -/
theorem fromMem_eq : Registers.writeRegistersFromMem sdk.env = baseWriteRegistersFromMem sdk.env := by
  funext p start base n
  exact writeRegistersFromMem_eq hsdk.env p start base n

/-- A type-0 packet is executed as without the fast path. -/
theorem executePacketType0_fastpath (registerFastpath : Bool) (packet : BitVec 32) :
    executePacketType0 sdk (Registers.writeRegistersFromMem sdk.env) registerFastpath packet =
      executePacketType0 sdk (Registers.writeRegistersFromMem sdk.env) false packet := by
  funext s
  rw [executePacketType0_regs, executePacketType0_regs, Registers.executePacketType0_fastpath hsdk.env]

/-- One packet is executed alike with the register fast path and without it. -/
theorem executePacket_fastpath (registerFastpath : Bool)
    (indirect : BitVec 32 → ℕ → Cp σ Shader → Option (Cp σ Shader)) (polls : ℕ) :
    executePacket sdk (Registers.writeRegistersFromMem sdk.env) registerFastpath indirect polls =
      executePacket sdk (Registers.writeRegistersFromMem sdk.env) false indirect polls := by
  rw [executePacket, executePacket]
  simp only [executePacketType0_fastpath hsdk registerFastpath]

/-- An indirect buffer, and the buffers it executes, by induction on the nesting. -/
theorem executeIndirectBuffer_fastpath (registerFastpath : Bool) (fuel : ℕ) :
    executeIndirectBuffer sdk (Registers.writeRegistersFromMem sdk.env) registerFastpath fuel =
      executeIndirectBuffer sdk (Registers.writeRegistersFromMem sdk.env) false fuel := by
  induction fuel with
  | zero => rfl
  | succ fuel ih =>
    funext ptr count cp
    rw [executeIndirectBuffer, executeIndirectBuffer, ih, executePacket_fastpath hsdk registerFastpath]

/-- **Batching shows in no run.**  A primary buffer, with the buffers it executes to any depth, is
executed with the backend's ranges and with the fast path or not as it is by the base class's loop
over single registers: the same state of the processor at the end, or neither run returns. -/
theorem executePrimaryBuffer_batched (registerFastpath : Bool) (fuel : ℕ) (primaryBufferPtr : BitVec 32)
    (primaryBufferSize readIndex writeIndex : ℕ) (cp : Cp σ Shader) :
    executePrimaryBuffer sdk (Registers.writeRegistersFromMem sdk.env) registerFastpath fuel primaryBufferPtr
        primaryBufferSize readIndex writeIndex cp =
      executePrimaryBuffer sdk (baseWriteRegistersFromMem sdk.env) false fuel primaryBufferPtr primaryBufferSize
        readIndex writeIndex cp := by
  rw [← fromMem_eq hsdk, executePrimaryBuffer, executePrimaryBuffer, executeIndirectBuffer_fastpath hsdk,
    executePacket_fastpath hsdk registerFastpath]

end Batch

/-- The hypotheses are satisfiable: the ring of two packets of which the second wraps around its
end. -/
theorem executePrimaryBuffer_batched_wrapped :
    executePrimaryBuffer eightWords (Registers.writeRegistersFromMem eightWords.env) true 6 0 32 6 4 wrapped.1 =
      executePrimaryBuffer eightWords (baseWriteRegistersFromMem eightWords.env) false 6 0 32 6 4 wrapped.1 :=
  executePrimaryBuffer_batched eightWords_documented true 6 0 32 6 4 wrapped.1

end Pm4
end BoltsRebuilt
