import CLangExamples.Emulator.Cpu
import CLangExamples.Emulator.Disassembler

/-!
# The listing of a program

`machine_disassemble`: the loop over the words of the program area that prints the address, the opcode and the line of the
disassembler for each of them.
-/

namespace CLangExamples.Emulator

open Printf

/-- What `machine_disassemble` leaves: what it wrote to `file`, one entry for each iteration of its loop, and how it ends.
An index past the memory is a `Halt`; otherwise the end is the value of `unsupported_opcode_found`, with `exit(1)` when it
is true. -/
structure Listing where
  file : List (List Char)
  ending : Except Halt Bool

/-- `(m->memory[addr] << 8) | (m->memory[addr + 1])` -/
def Machine.readWord (m : Machine) (addr : Address) : Except Halt Word := do
  let high ← m.readMemory addr.toNat
  let low ← m.readMemory (addr.toNat + 1)
  return wordOfBytes high low

/-- `machine_first_opcode` -/
def machineFirstOpcode (m : Machine) : Except Halt Word := m.readWord (BitVec.ofNat 16 memoryProgramStartingAddress)

/-- `ADDRESS_FMT ": OPCODE[" OPCODE_FMT "]: "` with the address and the opcode. -/
def listingHeader : List (Piece (Address × Word)) :=
  [.lit "0x".toList, .num .x04 (fun arg => arg.1.toNat), .lit ": OPCODE[0x".toList, .num .x04 (fun arg => arg.2.toNat),
    .lit "]: ".toList]

/-- What one iteration prints: the two calls of `fprintf`. -/
def listingEntry (addr : Address) (opcode : Word) : List Char :=
  render (addr, opcode) listingHeader ++ (disassemblerDisassemble opcode).2

/-- The address of the next word does not wrap while the condition of the loop holds. -/
theorem toNat_next_word {addr : Address} (h : addr.toNat < memorySize) : (addr + 2).toNat = addr.toNat + 2 := by
  have hm : memorySize = 4096 := rfl
  have h2 : (2 : Address).toNat = 2 := rfl
  rw [BitVec.toNat_add, h2]
  omega

/-- The loop of `machine_disassemble`. The next opcode is read in the increment, before the condition on the address is
tested again. -/
def machineDisassembleLoop (m : Machine) (addr : Address) (opcode : Word) : Listing :=
  if _inRange : opcode ≠ 0 ∧ addr.toNat < memorySize then
    if (disassemblerDisassemble opcode).1 then
      match m.readWord (addr + 2) with
      | .error e => ⟨[listingEntry addr opcode], .error e⟩
      | .ok next =>
        let rest := machineDisassembleLoop m (addr + 2) next
        ⟨listingEntry addr opcode :: rest.file, rest.ending⟩
    else ⟨[listingEntry addr opcode], .ok true⟩
  else ⟨[], .ok false⟩
termination_by memorySize - addr.toNat
decreasing_by
  have hnext := toNat_next_word _inRange.2
  omega

/-- `machine_disassemble` -/
def machineDisassemble (m : Machine) : Listing :=
  match machineFirstOpcode m with
  | .error e => ⟨[], .error e⟩
  | .ok opcode => machineDisassembleLoop m (BitVec.ofNat 16 memoryProgramStartingAddress) opcode

end CLangExamples.Emulator
