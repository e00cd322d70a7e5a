import CLangExamples.Emulator.Run
import CLangExamples.Lemmas.Step
import Mathlib.Algebra.GroupWithZero.Nat
import Mathlib.Data.List.Nodup

/-!
# Saving and restoring registers

Fx55 stores V0 to Vx from `I` on and Fx65 loads them from there. Both loops take the register `k` to the cell `I + k`, so
each undoes what the other does to its own half of the machine.
-/

namespace CLangExamples.Emulator

/-- The machine with another register file. -/
def Machine.withRegisters (m : Machine) (registers : RegisterIndex → Byte) : Machine :=
  { m with cpu := { m.cpu with registers := registers } }

namespace RegisterSaveAux

/-- The `k`-th register that the loops visit is `Vk`. -/
theorem registersUpTo_val : ∀ x : RegisterIndex, (registersUpTo x).map Fin.val = List.range (x.val + 1) := by decide

theorem getElem_registersUpTo (x : RegisterIndex) {k : Nat} (hk : k < (registersUpTo x).length) :
    ((registersUpTo x)[k]).val = k := by
  have hval := List.getElem_map Fin.val (l := registersUpTo x) (h := by simpa using hk)
  simp only [registersUpTo_val, List.getElem_range] at hval
  exact hval.symm

theorem nodup_registersUpTo (x : RegisterIndex) : (registersUpTo x).Nodup := by
  have hrange : ((registersUpTo x).map Fin.val).Nodup := by
    rw [registersUpTo_val]
    exact List.nodup_range
  exact List.Nodup.of_map _ hrange

/-- The place of a register among those that the loops visit. -/
theorem registersUpTo_at {x r : RegisterIndex} (h : r ≤ x) :
    ∃ hk : r.val < (registersUpTo x).length, (registersUpTo x)[r.val] = r := by
  have hk : r.val < (registersUpTo x).length := by
    rw [length_registersUpTo]
    exact Nat.lt_succ_of_le h
  exact ⟨hk, Fin.ext (getElem_registersUpTo x hk)⟩

variable (inp : Input) (m : Machine) {opcode : Word}

/-- Fx55 copies V0 to Vx into the memory. -/
theorem exec_dump (h : opcode &&& 0xF0FF#16 = 0xF055#16)
    (hI : m.cpu.i.toNat + (opcodeDecodeRegisterX opcode).val < memorySize) :
    cpuDecodeAndExecOpcode inp m opcode = .ok { m with
      memory := memcpy m.memory m.cpu.i.toNat ((registersUpTo (opcodeDecodeRegisterX opcode)).map m.register) } := by
  rw [cpuDecodeAndExecOpcode_eq, decode_dump h]
  apply regDumpLoop_ok
  rw [length_registersUpTo]
  omega

/-- Fx65 loads V0 to Vx from the memory and changes nothing else. -/
theorem exec_restore (h : opcode &&& 0xF0FF#16 = 0xF065#16)
    (hI : m.cpu.i.toNat + (opcodeDecodeRegisterX opcode).val < memorySize) :
    ∃ regs : RegisterIndex → Byte, cpuDecodeAndExecOpcode inp m opcode = .ok (m.withRegisters regs) ∧
      (∀ r, ¬r ≤ opcodeDecodeRegisterX opcode → regs r = m.register r) ∧
      ∀ r, r ≤ opcodeDecodeRegisterX opcode → regs r = m.cell (m.cpu.i.toNat + r.val) := by
  obtain ⟨regs, hother, hloaded, heq⟩ := regLoadLoop_ok (registersUpTo (opcodeDecodeRegisterX opcode)) m.cpu.i m (by
    rw [length_registersUpTo]
    omega)
  refine ⟨regs, ?_, ?_, ?_⟩
  · rw [cpuDecodeAndExecOpcode_eq, decode_restore h]
    exact heq
  · intro r hr
    apply hother
    rw [mem_registersUpTo]
    exact hr
  · intro r hr
    obtain ⟨hk, hat⟩ := registersUpTo_at hr
    have hload := hloaded (nodup_registersUpTo _) r.val hk
    rw [hat] at hload
    rw [hload, cell_of_lt]

/-- After a copy the cell `I + r` holds the register `r`. -/
theorem cell_memcpy {m' : Machine} {start : Nat} {x r : RegisterIndex} (regs : RegisterIndex → Byte)
    (hmem : m'.memory = memcpy m.memory start ((registersUpTo x).map regs)) (hr : r ≤ x)
    (hI : start + x.val < memorySize) : m'.cell (start + r.val) = regs r := by
  obtain ⟨hk, hat⟩ := registersUpTo_at hr
  have hle : r.val ≤ x.val := hr
  rw [cell_of_lt m' (by omega), hmem, memcpy_of_mem _ _ _ _ r.val (by simpa using hk) rfl, List.getElem_map, hat]

/-- Copying what is already there changes nothing. -/
theorem memcpy_same {start : Nat} {x : RegisterIndex} (regs : RegisterIndex → Byte) (hI : start + x.val < memorySize)
    (h : ∀ r, r ≤ x → regs r = m.cell (start + r.val)) :
    memcpy m.memory start ((registersUpTo x).map regs) = m.memory := by
  funext a
  by_cases hin : start ≤ a.val ∧ a.val < start + ((registersUpTo x).map regs).length
  · obtain ⟨hge, hlt⟩ := hin
    have hlen : ((registersUpTo x).map regs).length = x.val + 1 := by rw [List.length_map, length_registersUpTo]
    obtain ⟨k, hk⟩ : ∃ k, a.val = start + k := ⟨a.val - start, by omega⟩
    have hx16 : x.val < 16 := x.isLt
    have hr : (⟨k, by omega⟩ : RegisterIndex) ≤ x := by
      show k ≤ x.val
      omega
    obtain ⟨hk', hat⟩ := registersUpTo_at hr
    rw [memcpy_of_mem _ _ _ _ k (by omega) hk, List.getElem_map, hat, h _ hr, cell_of_lt m (by omega)]
    exact congrArg m.memory (Fin.ext hk.symm)
  · exact memcpy_of_not_mem _ _ _ _ hin

end RegisterSaveAux

open RegisterSaveAux

/-- Fx55, any other register file, then Fx65 with the same `I` bring back V0 to Vx and keep the other registers, `I` and
every cell outside `I` to `I + x`; Fx55 right after Fx65 changes nothing. -/
theorem save_restore_round_trip (inp inp' : Input) (m : Machine) {save restore : Word}
    (hs : save &&& 0xF0FF#16 = 0xF055#16) (hr : restore &&& 0xF0FF#16 = 0xF065#16)
    (hx : opcodeDecodeRegisterX restore = opcodeDecodeRegisterX save)
    (hI : m.cpu.i.toNat + (opcodeDecodeRegisterX save).val < memorySize) :
    (∀ regs, ∃ m₁ m₂, cpuDecodeAndExecOpcode inp m save = .ok m₁ ∧
      cpuDecodeAndExecOpcode inp' (m₁.withRegisters regs) restore = .ok m₂ ∧
      (∀ r, r ≤ opcodeDecodeRegisterX save → m₂.register r = m.register r) ∧
      (∀ r, ¬r ≤ opcodeDecodeRegisterX save → m₂.register r = regs r) ∧ m₂.cpu.i = m.cpu.i ∧
      ∀ a : Fin memorySize, ¬(m.cpu.i.toNat ≤ a.val ∧ a.val ≤ m.cpu.i.toNat + (opcodeDecodeRegisterX save).val) →
        m₂.memory a = m.memory a) ∧
    ∃ m₁, cpuDecodeAndExecOpcode inp m restore = .ok m₁ ∧ cpuDecodeAndExecOpcode inp' m₁ save = .ok m₁ := by
  constructor
  · intro regs
    have hsave := exec_dump inp m hs hI
    obtain ⟨regs', hrestore, hother, hloaded⟩ := exec_restore inp' (({ m with
      memory := memcpy m.memory m.cpu.i.toNat ((registersUpTo (opcodeDecodeRegisterX save)).map m.register)
      } : Machine).withRegisters regs) hr (by rw [hx]; exact hI)
    rw [hx] at hother hloaded
    refine ⟨_, _, hsave, hrestore, ?_, hother, rfl, ?_⟩
    · intro r hle
      exact (hloaded r hle).trans (cell_memcpy m m.register rfl hle hI)
    · intro a hout
      apply memcpy_of_not_mem
      rw [List.length_map, length_registersUpTo]
      omega
  · obtain ⟨regs, hrestore, -, hloaded⟩ := exec_restore inp m hr (by rw [hx]; exact hI)
    rw [hx] at hloaded
    have hsave := exec_dump inp' (m.withRegisters regs) hs hI
    have hsame : memcpy m.memory m.cpu.i.toNat ((registersUpTo (opcodeDecodeRegisterX save)).map regs) = m.memory :=
      memcpy_same m regs hI hloaded
    refine ⟨m.withRegisters regs, hrestore, hsave.trans ?_⟩
    have hmem : memcpy (m.withRegisters regs).memory (m.withRegisters regs).cpu.i.toNat
        ((registersUpTo (opcodeDecodeRegisterX save)).map (m.withRegisters regs).register) =
        (m.withRegisters regs).memory := hsame
    rw [hmem]

/-- All sixteen registers at the start of the program area. -/
theorem save_restore_all_registers :
    ∃ m₁ m₂, cpuDecodeAndExecOpcode idleInput machineInit 0xFF55#16 = .ok m₁ ∧
      cpuDecodeAndExecOpcode idleInput (m₁.withRegisters fun _ => 7) 0xFF65#16 = .ok m₂ ∧
      ∀ r, m₂.register r = machineInit.register r := by
  obtain ⟨hsave, -⟩ := @save_restore_round_trip idleInput idleInput machineInit 0xFF55#16 0xFF65#16 (by decide) (by decide)
    rfl (by decide)
  obtain ⟨m₁, m₂, h₁, h₂, hrestored, -⟩ := hsave (fun _ => 7)
  exact ⟨m₁, m₂, h₁, h₂, fun r => hrestored r (Fin.le_last r)⟩

end CLangExamples.Emulator
