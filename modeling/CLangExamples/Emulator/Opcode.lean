import Mathlib.Logic.Function.Basic

/-!
# Opcodes of the Chip-8 emulator

`opcode.h` and `opcode.c`: the word of an instruction and its operand fields. A `Register` of the source is a `uint8_t`
that holds either an index into V0..VF or a value; here an index is a `Fin 16` (the decoder masks four bits, so it can
be nothing else) and a value is a `Byte`.
-/

namespace CLangExamples.Emulator

/-- `uint8_t`: a cell of the memory, the value of a register, a `Const`. -/
abbrev Byte : Type := BitVec 8

/-- `Word`: an opcode as it is fetched. -/
abbrev Word : Type := BitVec 16

/-- `Address`: `pc`, `I` and the entries of the stack. -/
abbrev Address : Type := BitVec 16

/-- The index of a register, V0 to VF. -/
abbrev RegisterIndex : Type := Fin 16

/-- `V0`, which `Bnnn` adds to its address. -/
def v0 : RegisterIndex := 0

/-- `VF`, the flag register. -/
def vf : RegisterIndex := 15

/-- `opcode & 0x0FFF`. -/
def opcodeDecodeAddress (opcode : Word) : Address := opcode &&& 0x0FFF#16

/-- A field of four bits is an index of a register. -/
theorem nibble_lt (opcode : Word) (n : Nat) : (opcode >>> n &&& 0x000F#16).toNat < 16 := by
  have h : (opcode >>> n &&& 0x000F#16).toNat ≤ (0x000F#16 : Word).toNat := by
    rw [BitVec.toNat_and]
    exact Nat.and_le_right
  have hf : (0x000F#16 : Word).toNat = 15 := rfl
  omega

/-- Masking a field in place and shifting it down, as the source does, is shifting and then masking. -/
theorem mask_shift (opcode mask : Word) (n : Nat) : (opcode &&& mask) >>> n = opcode >>> n &&& mask >>> n := by
  exact BitVec.ushiftRight_and_distrib opcode mask n

/-- `(opcode & 0x0F00) >> (2 * 4)`. -/
def opcodeDecodeRegisterX (opcode : Word) : RegisterIndex :=
  ⟨((opcode &&& 0x0F00#16) >>> 8).toNat, by rw [mask_shift]; exact nibble_lt opcode 8⟩

/-- `(opcode & 0x00F0) >> (1 * 4)`. -/
def opcodeDecodeRegisterY (opcode : Word) : RegisterIndex :=
  ⟨((opcode &&& 0x00F0#16) >>> 4).toNat, by rw [mask_shift]; exact nibble_lt opcode 4⟩

/-- `opcode & 0x00FF`, stored in a `uint8_t`. -/
def opcodeDecodeConst8bit (opcode : Word) : Byte := (opcode &&& 0x00FF#16).setWidth 8

/-- `opcode & 0x000F`, stored in a `uint8_t`. -/
def opcodeDecodeConst4bit (opcode : Word) : Byte := (opcode &&& 0x000F#16).setWidth 8

/-- Two masked comparisons of one opcode agree on the bits both of them read. So two rows of a dispatch chain whose
patterns differ on a common bit never match the same opcode. -/
theorem mask_compat {opcode M P m p : Word} (h : opcode &&& M = P) (h' : opcode &&& m = p) : P &&& m = p &&& M := by
  rw [← h, ← h', BitVec.and_assoc, BitVec.and_assoc, BitVec.and_comm M m]

end CLangExamples.Emulator
