import CLangExamples.Lemmas.Step

/-!
# The memory indices of a run

The only check of the source on a memory index is `pc >= MEMORY_SIZE` at the head of `cpu_step`. It lets `pc = 0xFFF`
through, whose second byte lies past the end, and `I` is checked nowhere. `memory_in_bounds_iff` says exactly which runs
stay inside the memory; `memory_bounds_broken` is a ROM of one instruction, and one of two, that do not.
-/

namespace CLangExamples.Emulator

/-- The state before a step when every memory index of that step is in range: `pc` is not at the last byte of the memory
(beyond it the guard stops the step), and `I` is low enough for the instruction at `pc`. -/
structure InBounds (m : Machine) : Prop where
  notLastByte : m.cpu.pc.toNat ≠ 0xFFF
  bcd : opcodeAt m &&& 0xF0FF#16 = 0xF033#16 → m.cpu.i.toNat + 2 < memorySize
  registers : opcodeAt m &&& 0xF0FF#16 = 0xF055#16 ∨ opcodeAt m &&& 0xF0FF#16 = 0xF065#16 →
    m.cpu.i.toNat + (opcodeDecodeRegisterX (opcodeAt m)).val < memorySize
  sprite : opcodeAt m &&& 0xF000#16 = 0xD000#16 →
    ∀ k < (opcodeDecodeConst4bit (opcodeAt m)).toNat, m.cpu.i.toNat + k < memorySize

namespace MemoryBoundsAux

/-- The three conditions on `I` say that the instruction at `pc` stays in the memory. -/
theorem inBounds_iff {m : Machine} {i : Instr} (hf : Fetchable m) (hd : decode (opcodeAt m) = some i) :
    InBounds m ↔ i.InMemory (cpuPcAdvance m) := by
  have hlast : m.cpu.pc.toNat ≠ 0xFFF := by
    have h1 : m.cpu.pc.toNat + 1 < 4096 := hf
    omega
  constructor
  · intro h
    have he := decode_encodes hd
    cases i with
    | bcd x => exact h.bcd he
    | dump x =>
      obtain ⟨hop, rfl⟩ := he
      exact h.registers (Or.inl hop)
    | restore x =>
      obtain ⟨hop, rfl⟩ := he
      exact h.registers (Or.inr hop)
    | draw x y n =>
      obtain ⟨hop, rfl⟩ := he
      exact h.sprite hop
    | _ => trivial
  · intro h
    refine ⟨hlast, fun hop => ?_, fun hop => ?_, fun hop => ?_⟩
    · rw [decode_bcd hop] at hd
      cases hd
      exact h
    · rcases hop with hop | hop
      · rw [decode_dump hop] at hd
        cases hd
        exact h
      · rw [decode_restore hop] at hd
        cases hd
        exact h
    · rw [decode_draw hop] at hd
      cases hd
      exact h

/-- Away from the last byte, an opcode that is not supported puts no condition on `I`. -/
theorem inBounds_of_decode_none {m : Machine} (hl : m.cpu.pc.toNat ≠ 0xFFF) (hd : decode (opcodeAt m) = none) :
    InBounds m := by
  refine ⟨hl, fun hop => ?_, fun hop => ?_, fun hop => ?_⟩
  · rw [decode_bcd hop] at hd
    cases hd
  · rcases hop with hop | hop
    · rw [decode_dump hop] at hd
      cases hd
    · rw [decode_restore hop] at hd
      cases hd
  · rw [decode_draw hop] at hd
    cases hd

/-- Away from the last byte, the zero opcode (and `pc` past the memory) puts no condition on `I`. -/
theorem inBounds_of_zero {m : Machine} (hl : m.cpu.pc.toNat ≠ 0xFFF) (h0 : opcodeAt m = 0) : InBounds m := by
  refine ⟨hl, ?_, ?_, ?_⟩ <;> rw [h0]
  · intro h
    exact absurd h (by decide)
  · intro h
    exact absurd h (by decide)
  · intro h
    exact absurd h (by decide)

/-- A step touches the memory past its end exactly when the state before it is not in bounds. -/
theorem cpuStep_memoryFault_iff (inp : Input) (m : Machine) : ¬MemoryFault (cpuStep inp m) ↔ InBounds m := by
  rcases fetch_cases m with hp | hp | hf
  · have hm : memorySize = 4096 := rfl
    refine iff_of_true ?_ (inBounds_of_zero (by omega) (opcodeAt_of_ge m hp))
    rw [cpuStep_pcOverflow inp hp]
    rintro ⟨index, h⟩
    cases h
  · refine iff_of_false (fun h => h ⟨_, cpuStep_last_byte inp hp⟩) (fun h => h.notLastByte hp)
  · have hl : m.cpu.pc.toNat ≠ 0xFFF := by
      have h1 : m.cpu.pc.toNat + 1 < 4096 := hf
      omega
    by_cases h0 : opcodeAt m = 0
    · refine iff_of_true ?_ (inBounds_of_zero hl h0)
      rw [cpuStep_fetchable inp hf, if_pos h0]
      rintro ⟨index, h⟩
      cases h
    · cases hd : decode (opcodeAt m) with
      | none =>
        refine iff_of_true ?_ (inBounds_of_decode_none hl hd)
        rw [cpuStep_fetchable inp hf, if_neg h0, hd]
        rintro ⟨index, h⟩
        cases h
      | some i =>
        rw [cpuStep_eq_exec inp hf h0 hd, exec_memoryFault_iff, inBounds_iff hf hd, Classical.not_not]

/-- The timers do not enter the condition. -/
theorem inBounds_updateTimers (m : Machine) (inp : Input) : InBounds (machineUpdateTimers m inp) ↔ InBounds m :=
  ⟨fun h => ⟨h.1, h.2, h.3, h.4⟩, fun h => ⟨h.1, h.2, h.3, h.4⟩⟩

end MemoryBoundsAux

/-- Which runs stay in the memory. For every ROM that is accepted and every list of inputs, no iteration of the run uses
an index of `cpu->memory` from `MEMORY_SIZE` on exactly when every iteration starts in bounds: `pc` is never at `0xFFF`,
and Fx33, Fx55, Fx65 and Dxyn are executed only with an `I` whose range ends below `MEMORY_SIZE`. -/
theorem memory_in_bounds_iff (rom : List Byte) (delayNow soundNow : BitVec 64) (m₀ : Machine)
    (_hboot : machineBoot rom delayNow soundNow = .ok m₀) (inputs : List Input) :
    EveryIteration m₀ inputs (fun inp m => ¬MemoryFault (machineIteration inp m)) ↔
      EveryIteration m₀ inputs (fun _ m => InBounds m) := by
  refine Transition.along_congr (fun inp m => ?_) inputs
  rw [machineIteration, MemoryBoundsAux.cpuStep_memoryFault_iff, MemoryBoundsAux.inBounds_updateTimers]

/-- The ROM `60 2A`: one load, whose single iteration is in bounds. -/
theorem memory_in_bounds_iff_load :
    ∃ m₀, machineBoot [0x60, 0x2A] 0 0 = .ok m₀ ∧
      (EveryIteration m₀ [idleInput] (fun inp m => ¬MemoryFault (machineIteration inp m)) ↔
        EveryIteration m₀ [idleInput] (fun _ m => InBounds m)) :=
  ⟨_, rfl, memory_in_bounds_iff [0x60, 0x2A] 0 0 _ rfl [idleInput]⟩

/-- The ROM `1F FF` jumps to the last byte of the memory, and the next fetch reads the index `0x1000`. The ROM
`AF FF F0 33` sets `I` to that byte, and the store of the tens digit writes the index `0x1000`. -/
theorem memory_bounds_broken :
    (∃ m₀, machineBoot [0x1F, 0xFF] 0 0 = .ok m₀ ∧
      ¬EveryIteration m₀ [idleInput, idleInput] (fun inp m => ¬MemoryFault (machineIteration inp m))) ∧
    (∃ m₀, machineBoot [0xAF, 0xFF, 0xF0, 0x33] 0 0 = .ok m₀ ∧
      ¬EveryIteration m₀ [idleInput, idleInput] (fun inp m => ¬MemoryFault (machineIteration inp m))) := by
  refine ⟨⟨_, rfl, fun h => ?_⟩, ⟨_, rfl, fun h => ?_⟩⟩
  · refine h [idleInput] idleInput [] _ _ rfl (.next idleInput .start rfl) ⟨0x1000, ?_⟩
    exact cpuStep_last_byte idleInput rfl
  · exact h [idleInput] idleInput [] _ _ rfl (.next idleInput .start rfl) ⟨0x1000, rfl⟩

end CLangExamples.Emulator
