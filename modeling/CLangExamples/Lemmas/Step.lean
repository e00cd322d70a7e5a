import CLangExamples.Emulator.Run
import CLangExamples.Lemmas.Exec

/-!
# What a step can do

The other half of `exec_effect`: `Failure` lists every reason for which an instruction halts. Then one step of the CPU, and
one iteration of the main loop, are brought to the form "guard, fetch, decode, execute" over the opcode at `pc`.
-/

namespace CLangExamples.Emulator

open Transition

/-! ## Why an instruction halts -/

/-- The range of the memory that an instruction reads or writes, besides its own two bytes, lies in the memory. -/
def Instr.InMemory (m : Machine) : Instr → Prop
  | .draw _ _ n => ∀ k < n.toNat, m.cpu.i.toNat + k < memorySize
  | .bcd _ => m.cpu.i.toNat + 2 < memorySize
  | .dump x => m.cpu.i.toNat + x.val < memorySize
  | .restore x => m.cpu.i.toNat + x.val < memorySize
  | _ => True

/-- The reasons for which an instruction halts. -/
inductive Failure (m : Machine) : Instr → Halt → Prop where
  | sys {nnn : Address} (h : stackCapacity ≤ m.cpu.stackCount) : Failure m (.sys nnn) .stackOverflow
  | call {nnn : Address} (h : stackCapacity ≤ m.cpu.stackCount) : Failure m (.call nnn) .stackOverflow
  | ret (h : m.cpu.stackCount = 0) : Failure m .ret .stackUnderflow
  | stackIndex (h : stackCapacity < m.cpu.stackCount) : Failure m .ret (.stackIndex (m.cpu.stackCount - 1))
  | arith {x : RegisterIndex} {a : Arith} : Failure m (.arith x a) .vfOperand
  | memory {i : Instr} {index : Nat} (h : ¬i.InMemory m) : Failure m i (.memoryIndex index)

/-- A call halts when the stack is full, and only then. -/
theorem callTo_error {m : Machine} {nnn : Address} {e : Halt} (h : m.callTo nnn = .error e) :
    e = .stackOverflow ∧ stackCapacity ≤ m.cpu.stackCount := by
  unfold Machine.callTo at h
  rw [cpuStackPush] at h
  split at h
  · rename_i hfull
    cases h
    exact ⟨rfl, hfull⟩
  · cases h

theorem callTo_full {m : Machine} (nnn : Address) (h : stackCapacity ≤ m.cpu.stackCount) :
    m.callTo nnn = .error .stackOverflow := by
  unfold Machine.callTo
  rw [cpuStackPush, dif_pos h]
  rfl

theorem error_of_memoryFault {α : Type} {x : Except Halt α} {e : Halt} (hf : MemoryFault x) (h : x = .error e) :
    ∃ index, e = .memoryIndex index := by
  obtain ⟨index, hi⟩ := hf
  rw [hi] at h
  cases h
  exact ⟨index, rfl⟩

/-- The ranges of Fx55 and Fx65 in terms of the loop that runs over them. -/
theorem registersUpTo_range (addr : Nat) (x : RegisterIndex) :
    addr + (registersUpTo x).length ≤ memorySize ↔ addr + x.val < memorySize := by
  rw [length_registersUpTo]
  omega

/-- An instruction whose range leaves the memory halts on an index past the end. -/
theorem exec_fault (inp : Input) {m : Machine} {i : Instr} (h : ¬i.InMemory m) : MemoryFault (i.exec inp m) := by
  cases i with
  | draw x y n =>
    obtain ⟨index, hf⟩ := readSprite_fault m n.toNat m.cpu.i.toNat h
    exact ⟨index, by rw [Instr.exec, hf]; rfl⟩
  | bcd x => exact storeBcd_fault m (m.register x) h
  | dump x => exact regDumpLoop_fault _ _ m (registersUpTo_ne_nil x) (fun hr => h ((registersUpTo_range _ x).mp hr))
  | restore x => exact regLoadLoop_fault _ _ m (registersUpTo_ne_nil x) (fun hr => h ((registersUpTo_range _ x).mp hr))
  | _ => exact absurd trivial h

/-- An instruction that halts has one of its failures. -/
theorem exec_failure {inp : Input} {m : Machine} {i : Instr} {e : Halt} (h : i.exec inp m = .error e) :
    Failure m i e := by
  by_cases hr : i.InMemory m
  · cases i with
    | ret =>
      rw [Instr.exec, cpuStackPop] at h
      split at h
      · rename_i h0
        cases h
        exact .ret h0
      · simp only at h
        split at h
        · cases h
        · rename_i h0 hlt
          cases h
          exact .stackIndex (by omega)
    | sys nnn =>
      obtain ⟨rfl, hfull⟩ := callTo_error h
      exact .sys hfull
    | call nnn =>
      obtain ⟨rfl, hfull⟩ := callTo_error h
      exact .call hfull
    | arith x a =>
      rw [Instr.exec] at h
      split at h
      · cases h
        exact .arith
      · cases h
    | draw x y n =>
      obtain ⟨sprite, hs⟩ := readSprite_ok m n.toNat m.cpu.i.toNat hr
      rw [Instr.exec, hs] at h
      cases h
    | waitKey x =>
      rw [Instr.exec] at h
      split at h <;> cases h
    | bcd x =>
      obtain ⟨digits, -, hs⟩ := storeBcd_ok m (m.register x) hr
      rw [Instr.exec, hs] at h
      cases h
    | dump x =>
      rw [Instr.exec, regDumpLoop_ok _ _ _ ((registersUpTo_range _ x).mpr hr)] at h
      cases h
    | restore x =>
      obtain ⟨regs, -, -, hs⟩ := regLoadLoop_ok (registersUpTo x) m.cpu.i m ((registersUpTo_range _ x).mpr hr)
      rw [Instr.exec, hs] at h
      cases h
    | _ => cases h
  · obtain ⟨index, rfl⟩ := error_of_memoryFault (exec_fault inp hr) h
    exact .memory hr

/-- An instruction touches the memory past its end exactly when its range leaves the memory. -/
theorem exec_memoryFault_iff (inp : Input) (m : Machine) (i : Instr) :
    MemoryFault (i.exec inp m) ↔ ¬i.InMemory m := by
  constructor
  · rintro ⟨index, h⟩
    cases exec_failure h with
    | memory hr => exact hr
  · exact exec_fault inp

/-! ## One step -/

theorem cell_of_lt (m : Machine) {index : Nat} (h : index < memorySize) : m.cell index = m.memory ⟨index, h⟩ := by
  unfold Machine.cell
  rw [dif_pos h]

theorem cell_of_ge (m : Machine) {index : Nat} (h : ¬index < memorySize) : m.cell index = 0 := by
  unfold Machine.cell
  rw [dif_neg h]

/-- Past the end of the memory there is no opcode. -/
theorem opcodeAt_of_ge (m : Machine) (h : memorySize ≤ m.cpu.pc.toNat) : opcodeAt m = 0 := by
  unfold opcodeAt
  rw [cell_of_ge m (by omega), cell_of_ge m (by omega)]
  rfl

/-- Both bytes of the instruction at `pc` lie in the memory. -/
def Fetchable (m : Machine) : Prop := m.cpu.pc.toNat + 1 < memorySize

/-- The fetch returns the opcode at `pc` when both its bytes lie in the memory. -/
theorem fetchOpcode_ok {m : Machine} (h : Fetchable m) : fetchOpcode m = .ok (opcodeAt m) := by
  have h1 : m.cpu.pc.toNat + 1 < memorySize := h
  have h0 : m.cpu.pc.toNat < memorySize := by omega
  rw [fetchOpcode, readMemory_of_lt m h0, ok_bind, readMemory_of_lt m h1, ok_bind, opcodeAt, cell_of_lt m h0,
    cell_of_lt m h1]
  rfl

/-- At the last byte of the memory the guard on `pc` passes and the second byte of the fetch lies past the end. -/
theorem cpuStep_last_byte (inp : Input) {m : Machine} (h : m.cpu.pc.toNat = 0xFFF) :
    cpuStep inp m = .error (.memoryIndex 0x1000) := by
  have h0 : m.cpu.pc.toNat < memorySize := by rw [h]; decide
  have h1 : ¬m.cpu.pc.toNat + 1 < memorySize := by rw [h]; decide
  unfold cpuStep
  rw [if_neg (by omega), fetchOpcode, readMemory_of_lt m h0, ok_bind, readMemory_of_ge m h1]
  show Except.error (Halt.memoryIndex (m.cpu.pc.toNat + 1)) = _
  rw [h]

/-- With `pc` past the memory the step ends in the `program counter (PC) overflow` error. -/
theorem cpuStep_pcOverflow (inp : Input) {m : Machine} (h : memorySize ≤ m.cpu.pc.toNat) :
    cpuStep inp m = .error .pcOverflow := by
  unfold cpuStep
  rw [if_pos h]

/-- A step that fetches its opcode asserts that it is not zero, advances `pc` and executes it. -/
theorem cpuStep_fetchable (inp : Input) {m : Machine} (h : Fetchable m) :
    cpuStep inp m = if opcodeAt m = 0 then .error .zeroOpcode
      else (decode (opcodeAt m)).elim (.error (.unsupportedOpcode (opcodeAt m))) (Instr.exec inp (cpuPcAdvance m)) := by
  have h1 : m.cpu.pc.toNat + 1 < memorySize := h
  unfold cpuStep
  rw [if_neg (by omega), fetchOpcode_ok h, ok_bind, cpuDecodeAndExecOpcode_eq]

/-- The three cases of a step: `pc` past the memory, `pc` at its last byte, and both bytes of the opcode in the memory. -/
theorem fetch_cases (m : Machine) : memorySize ≤ m.cpu.pc.toNat ∨ m.cpu.pc.toNat = 0xFFF ∨ Fetchable m := by
  have hm : memorySize = 4096 := rfl
  unfold Fetchable
  omega

/-- A step that does not halt fetched a nonzero opcode, decoded it and executed the instruction. -/
theorem cpuStep_ok {inp : Input} {m m' : Machine} (h : cpuStep inp m = .ok m') :
    Fetchable m ∧ opcodeAt m ≠ 0 ∧ ∃ i, decode (opcodeAt m) = some i ∧ Effect inp (cpuPcAdvance m) i m' := by
  rcases fetch_cases m with hp | hp | hf
  · rw [cpuStep_pcOverflow inp hp] at h
    cases h
  · rw [cpuStep_last_byte inp hp] at h
    cases h
  · rw [cpuStep_fetchable inp hf] at h
    split at h
    · cases h
    · rename_i h0
      cases hd : decode (opcodeAt m) with
      | none => rw [hd] at h; cases h
      | some i =>
        rw [hd] at h
        exact ⟨hf, h0, i, rfl, exec_effect h⟩

/-- A step that halts does so before it decodes an instruction, or the instruction has one of its failures. -/
theorem cpuStep_error {inp : Input} {m : Machine} {e : Halt} (h : cpuStep inp m = .error e) :
    (memorySize ≤ m.cpu.pc.toNat ∧ e = .pcOverflow) ∨ (m.cpu.pc.toNat = 0xFFF ∧ e = .memoryIndex 0x1000) ∨
      (Fetchable m ∧ opcodeAt m = 0 ∧ e = .zeroOpcode) ∨
      (Fetchable m ∧ opcodeAt m ≠ 0 ∧ decode (opcodeAt m) = none ∧ e = .unsupportedOpcode (opcodeAt m)) ∨
      Fetchable m ∧ opcodeAt m ≠ 0 ∧ ∃ i, decode (opcodeAt m) = some i ∧ Failure (cpuPcAdvance m) i e := by
  rcases fetch_cases m with hp | hp | hf
  · rw [cpuStep_pcOverflow inp hp] at h
    cases h
    exact Or.inl ⟨hp, rfl⟩
  · rw [cpuStep_last_byte inp hp] at h
    cases h
    exact Or.inr (Or.inl ⟨hp, rfl⟩)
  · rw [cpuStep_fetchable inp hf] at h
    split at h
    · rename_i h0
      cases h
      exact Or.inr (Or.inr (Or.inl ⟨hf, h0, rfl⟩))
    · rename_i h0
      cases hd : decode (opcodeAt m) with
      | none =>
        rw [hd] at h
        cases h
        exact Or.inr (Or.inr (Or.inr (Or.inl ⟨hf, h0, rfl, rfl⟩)))
      | some i =>
        rw [hd] at h
        exact Or.inr (Or.inr (Or.inr (Or.inr ⟨hf, h0, i, rfl, exec_failure h⟩)))

/-- A step of an instruction that was decoded is its execution. -/
theorem cpuStep_eq_exec (inp : Input) {m : Machine} {i : Instr} (hf : Fetchable m) (h0 : opcodeAt m ≠ 0)
    (hd : decode (opcodeAt m) = some i) : cpuStep inp m = i.exec inp (cpuPcAdvance m) := by
  rw [cpuStep_fetchable inp hf, if_neg h0, hd]
  rfl

/-! ## One iteration -/

/-- The timers are not part of what the fetch reads. -/
theorem opcodeAt_updateTimers (m : Machine) (inp : Input) : opcodeAt (machineUpdateTimers m inp) = opcodeAt m := rfl

end CLangExamples.Emulator
