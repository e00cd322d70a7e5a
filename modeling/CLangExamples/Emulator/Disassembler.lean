import CLangExamples.Emulator.Opcode
import CLangExamples.Lib.Printf

/-!
# The disassembler

`disassembler.c`: a second chain of masked comparisons over the same opcodes, which prints a line to a file instead of
executing. A `disassemble_*` function of the source decodes its operands and makes one call of `fprintf`; here it is the
format of that call, with the decoded operand of the opcode as the argument of each conversion.
-/

namespace CLangExamples.Emulator

open Printf

/-- The format string of a call of `fprintf`, with its arguments as functions of the opcode. -/
abbrev Line : Type := List (Piece Word)

/-! ## Pieces of a line -/

/-- Literal text. -/
def text (s : String) : Line := [.lit s.toList]

/-- `REGISTER_FMT` with `opcode_decode_register_x`. -/
def registerX : Line := text "V" ++ [.num .hu (fun opcode => (opcodeDecodeRegisterX opcode).val)]

/-- `REGISTER_FMT` with `opcode_decode_register_y`. -/
def registerY : Line := text "V" ++ [.num .hu (fun opcode => (opcodeDecodeRegisterY opcode).val)]

/-- `CONST_FMT` with `opcode_decode_const_8bit`. -/
def const8bit : Line := text "0x" ++ [.num .x02 (fun opcode => (opcodeDecodeConst8bit opcode).toNat)]

/-- `CONST_FMT` with `opcode_decode_const_4bit`. -/
def const4bit : Line := text "0x" ++ [.num .x02 (fun opcode => (opcodeDecodeConst4bit opcode).toNat)]

/-- `ADDRESS_FMT` with `opcode_decode_address`. -/
def address : Line := text "0x" ++ [.num .x04 (fun opcode => (opcodeDecodeAddress opcode).toNat)]

/-- `OPCODE_FMT` with the opcode. -/
def wholeOpcode : Line := text "0x" ++ [.num .x04 BitVec.toNat]

/-! ## The lines -/

/-- 00E0 -/
def disassembleDisplayClear : Line := text "Clear the screen\n"

/-- 00EE -/
def disassembleReturn : Line := text "Return from a subroutine\n"

/-- 0nnn -/
def disassembleCall : Line := text "Call machine code at address " ++ address ++ text "\n"

/-- 1nnn -/
def disassembleGoto : Line := text "goto " ++ address ++ text "\n"

/-- 2nnn -/
def disassembleCallSubroutine : Line := text "Call subroutine at address " ++ address ++ text "\n"

/-- 3xkk -/
def disassembleIfEquals : Line := text "if (" ++ registerX ++ text " == " ++ const8bit ++ text ")\n"

/-- 4xkk -/
def disassembleIfNotEquals : Line := text "if (" ++ registerX ++ text " != " ++ const8bit ++ text ")\n"

/-- 5xy0 -/
def disassembleSkipNextIfVxEqualsVy : Line :=
  text "skip next if (" ++ registerX ++ text " == " ++ registerY ++ text ")\n"

/-- 6xkk -/
def disassembleSetRegister : Line := registerX ++ text " = " ++ const8bit ++ text "\n"

/-- 7xkk -/
def disassembleAddToVx : Line := registerX ++ text " += " ++ const8bit ++ text "\n"

/-- A line on two registers with an assignment operator between them: 8xy0 to 8xy5. -/
def assignment (operator : String) : Line := registerX ++ text operator ++ registerY ++ text "\n"

/-- 8xy0 -/
def disassembleSetVxFromVy : Line := assignment " = "

/-- 8xy1 -/
def disassembleSetVxToVxOr : Line := assignment " |= "

/-- 8xy2 -/
def disassembleSetVxToVxAnd : Line := assignment " &= "

/-- 8xy3 -/
def disassembleSetVxToVxXor : Line := assignment " ^= "

/-- 8xy4 -/
def disassembleVxPlusVy : Line := assignment " += "

/-- 8xy5 -/
def disassembleVxMinusVy : Line := assignment " -= "

/-- 8xy6: y is not printed. -/
def disassembleSetVxRshiftOne : Line := registerX ++ text " >>= 1\n"

/-- 8xy7 -/
def disassembleSetVxVyMinusVx : Line :=
  registerX ++ text " = " ++ registerY ++ text " - " ++ registerX ++ text "\n"

/-- 8xyE: y is not printed. -/
def disassembleSetVxLshiftOne : Line := registerX ++ text " <<= 1\n"

/-- 9xy0 -/
def disassembleIfVxNotEqualsToVy : Line := text "if (" ++ registerX ++ text " != " ++ registerY ++ text ")\n"

/-- Annn -/
def disassembleSetIRegister : Line := text "I = " ++ address ++ text "\n"

/-- Bnnn -/
def disassembleJumpToAddrPlusV0 : Line := text "PC = V0 + " ++ address ++ text "\n"

/-- Cxkk -/
def disassembleSetVxRandAnd : Line := registerX ++ text " = rand() & " ++ const8bit ++ text "\n"

/-- Dxyn -/
def disassembleDisplayDrawSpriteAt : Line :=
  text "draw(" ++ registerX ++ text ", " ++ registerY ++ text ", " ++ const4bit ++ text ")\n"

/-- Ex9E -/
def disassembleIfKeyEqualsToVx : Line := text "if (key() == " ++ registerX ++ text ")\n"

/-- ExA1 -/
def disassembleIfKeyNotEqualsToVx : Line := text "if (key() != " ++ registerX ++ text ")\n"

/-- Fx07 -/
def disassembleSetVxFromDelayTimer : Line := registerX ++ text " = get_delay()\n"

/-- Fx0A -/
def disassembleSetVxFromKey : Line := registerX ++ text " = get_key()\n"

/-- Fx15 -/
def disassembleSetDelayTimerFromVx : Line := text "delay_timer(" ++ registerX ++ text ")\n"

/-- Fx18 -/
def disassembleSetSoundTimer : Line := text "sound_timer(" ++ registerX ++ text ")\n"

/-- Fx1E -/
def disassembleAddVxToI : Line := text "I += " ++ registerX ++ text "\n"

/-- Fx29 -/
def disassembleSetIToSpriteAddr : Line := text "I = sprite_addr[" ++ registerX ++ text "]\n"

/-- Fx33 -/
def disassembleSetBcd : Line := text "set_bcd(" ++ registerX ++ text ")\n"

/-- Fx55 -/
def disassembleRegDump : Line := text "reg_dump(" ++ registerX ++ text ", &I)\n"

/-- Fx65 -/
def disassembleRegLoad : Line := text "reg_load(" ++ registerX ++ text ", &I)\n"

/-- The line of an unsupported opcode. -/
def disassembleUnsupported : Line := text "error: unsupported opcode. opcode=" ++ wholeOpcode ++ text "\n"

/-! ## The dispatch -/

/-- `fprintf(d->file, ...)` and `return true`. -/
def printed (opcode : Word) (line : Line) : Bool × List Char := (true, render opcode line)

/-- `disassembler_disassemble`: the value it returns and what it appends to `d->file`. -/
def disassemblerDisassemble (opcode : Word) : Bool × List Char :=
  if opcode = 0x00E0#16 then printed opcode disassembleDisplayClear
  else if opcode = 0x00EE#16 then printed opcode disassembleReturn
  else if opcode &&& 0xF000#16 = 0x0000#16 then printed opcode disassembleCall
  else if opcode &&& 0xF000#16 = 0x1000#16 then printed opcode disassembleGoto
  else if opcode &&& 0xF000#16 = 0x2000#16 then printed opcode disassembleCallSubroutine
  else if opcode &&& 0xF000#16 = 0x3000#16 then printed opcode disassembleIfEquals
  else if opcode &&& 0xF000#16 = 0x4000#16 then printed opcode disassembleIfNotEquals
  else if opcode &&& 0xF00F#16 = 0x5000#16 then printed opcode disassembleSkipNextIfVxEqualsVy
  else if opcode &&& 0xF000#16 = 0x6000#16 then printed opcode disassembleSetRegister
  else if opcode &&& 0xF000#16 = 0x7000#16 then printed opcode disassembleAddToVx
  else if opcode &&& 0xF00F#16 = 0x8000#16 then printed opcode disassembleSetVxFromVy
  else if opcode &&& 0xF00F#16 = 0x8001#16 then printed opcode disassembleSetVxToVxOr
  else if opcode &&& 0xF00F#16 = 0x8002#16 then printed opcode disassembleSetVxToVxAnd
  else if opcode &&& 0xF00F#16 = 0x8003#16 then printed opcode disassembleSetVxToVxXor
  else if opcode &&& 0xF00F#16 = 0x8004#16 then printed opcode disassembleVxPlusVy
  else if opcode &&& 0xF00F#16 = 0x8005#16 then printed opcode disassembleVxMinusVy
  else if opcode &&& 0xF00F#16 = 0x8006#16 then printed opcode disassembleSetVxRshiftOne
  else if opcode &&& 0xF00F#16 = 0x8007#16 then printed opcode disassembleSetVxVyMinusVx
  else if opcode &&& 0xF00F#16 = 0x800E#16 then printed opcode disassembleSetVxLshiftOne
  else if opcode &&& 0xF00F#16 = 0x9000#16 then printed opcode disassembleIfVxNotEqualsToVy
  else if opcode &&& 0xF000#16 = 0xA000#16 then printed opcode disassembleSetIRegister
  else if opcode &&& 0xF000#16 = 0xB000#16 then printed opcode disassembleJumpToAddrPlusV0
  else if opcode &&& 0xF000#16 = 0xC000#16 then printed opcode disassembleSetVxRandAnd
  else if opcode &&& 0xF000#16 = 0xD000#16 then printed opcode disassembleDisplayDrawSpriteAt
  else if opcode &&& 0xF0FF#16 = 0xE09E#16 then printed opcode disassembleIfKeyEqualsToVx
  else if opcode &&& 0xF0FF#16 = 0xE0A1#16 then printed opcode disassembleIfKeyNotEqualsToVx
  else if opcode &&& 0xF0FF#16 = 0xF007#16 then printed opcode disassembleSetVxFromDelayTimer
  else if opcode &&& 0xF0FF#16 = 0xF00A#16 then printed opcode disassembleSetVxFromKey
  else if opcode &&& 0xF0FF#16 = 0xF015#16 then printed opcode disassembleSetDelayTimerFromVx
  else if opcode &&& 0xF0FF#16 = 0xF018#16 then printed opcode disassembleSetSoundTimer
  else if opcode &&& 0xF0FF#16 = 0xF01E#16 then printed opcode disassembleAddVxToI
  else if opcode &&& 0xF0FF#16 = 0xF029#16 then printed opcode disassembleSetIToSpriteAddr
  else if opcode &&& 0xF0FF#16 = 0xF033#16 then printed opcode disassembleSetBcd
  else if opcode &&& 0xF0FF#16 = 0xF055#16 then printed opcode disassembleRegDump
  else if opcode &&& 0xF0FF#16 = 0xF065#16 then printed opcode disassembleRegLoad
  else (false, render opcode disassembleUnsupported)

end CLangExamples.Emulator
