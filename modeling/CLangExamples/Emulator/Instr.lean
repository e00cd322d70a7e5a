import CLangExamples.Emulator.Cpu
import Mathlib.Tactic.SplitIfs

/-!
# The instruction set

The instructions of Chip-8 as data, what each does to the machine, and how an opcode is decoded to one. The source has no
such type: the dispatch of the CPU and the dispatch of the disassembler are two chains of masked comparisons, each on its
own. `cpuDecodeAndExecOpcode_eq` says that the chain of the CPU is `decode` followed by `Instr.exec`; what holds of every
opcode is then proved by cases on nineteen constructors and carried back to opcodes by `decode_encodes` and
`decode_of_row`.
-/

namespace CLangExamples.Emulator

/-- The condition of a skip instruction: 3xkk, 4xkk, 5xy0, 9xy0, Ex9E, ExA1. -/
inductive Skip where
  | eqByte (x : RegisterIndex) (kk : Byte)
  | neByte (x : RegisterIndex) (kk : Byte)
  | eqReg (x y : RegisterIndex)
  | neReg (x y : RegisterIndex)
  | key (x : RegisterIndex)
  | noKey (x : RegisterIndex)

/-- Where the new value of Vx comes from: 6xkk, 7xkk, 8xy0 to 8xy3, Cxkk, Fx07. -/
inductive Source where
  | byte (kk : Byte)
  | addByte (kk : Byte)
  | reg (y : RegisterIndex)
  | or (y : RegisterIndex)
  | and (y : RegisterIndex)
  | xor (y : RegisterIndex)
  | rand (kk : Byte)
  | delay

/-- The operations that set VF besides Vx: 8xy4, 8xy5, 8xy6, 8xy7, 8xyE. -/
inductive Arith where
  | add (y : RegisterIndex)
  | sub (y : RegisterIndex)
  | shr
  | subn (y : RegisterIndex)
  | shl

/-- An instruction with its operands. -/
inductive Instr where
  | cls
  | ret
  | sys (nnn : Address)
  | jp (nnn : Address)
  | call (nnn : Address)
  | skip (c : Skip)
  | load (x : RegisterIndex) (s : Source)
  | arith (x : RegisterIndex) (a : Arith)
  | setI (nnn : Address)
  | jpV0 (nnn : Address)
  | draw (x y : RegisterIndex) (n : Byte)
  | waitKey (x : RegisterIndex)
  | setDelay (x : RegisterIndex)
  | setSound (x : RegisterIndex)
  | addI (x : RegisterIndex)
  | sprite (x : RegisterIndex)
  | bcd (x : RegisterIndex)
  | dump (x : RegisterIndex)
  | restore (x : RegisterIndex)

/-! ## What an instruction does -/

/-- Whether the next instruction is skipped. -/
def Skip.holds (inp : Input) (m : Machine) : Skip → Bool
  | .eqByte x kk => m.register x == kk
  | .neByte x kk => m.register x != kk
  | .eqReg x y => m.register x == m.register y
  | .neReg x y => m.register x != m.register y
  | .key x => keyboardIsKeyPressed inp (m.register x)
  | .noKey x => !keyboardIsKeyPressed inp (m.register x)

/-- The new value of Vx. -/
def Source.value (inp : Input) (m : Machine) (x : RegisterIndex) : Source → Byte
  | .byte kk => kk
  | .addByte kk => m.register x + kk
  | .reg y => m.register y
  | .or y => m.register x ||| m.register y
  | .and y => m.register x &&& m.register y
  | .xor y => m.register x ^^^ m.register y
  | .rand kk => randomU8 inp &&& kk
  | .delay => m.delayTimer.value

/-- The second operand of an operation that sets VF; the shifts have none. -/
def Arith.operand : Arith → Option RegisterIndex
  | .add y => some y
  | .sub y => some y
  | .subn y => some y
  | .shr => none
  | .shl => none

/-- The flag an operation leaves in VF. -/
def Arith.flag (m : Machine) (x : RegisterIndex) : Arith → Bool
  | .add y => decide ((m.register x).toNat + (m.register y).toNat > 255)
  | .sub y => decide ((m.register x).toNat > (m.register y).toNat)
  | .shr => bitIsSet (m.register x) 0
  | .subn y => decide ((m.register y).toNat > (m.register x).toNat)
  | .shl => bitIsSet (m.register x) 7

/-- The value an operation leaves in Vx. -/
def Arith.value (m : Machine) (x : RegisterIndex) : Arith → Byte
  | .add y => BitVec.ofNat 8 ((m.register x).toNat + (m.register y).toNat)
  | .sub y => m.register x - m.register y
  | .shr => m.register x >>> 1
  | .subn y => m.register y - m.register x
  | .shl => m.register x <<< 1

/-- A call: push `pc` and go to the address. -/
def Machine.callTo (m : Machine) (nnn : Address) : Except Halt Machine := do
  let m ← cpuStackPush m m.cpu.pc
  return cpuGotoAddress m nnn

/-- Fx33: the three decimal digits of Vx, from `I` on. -/
def Machine.storeBcd (m : Machine) (vx : Byte) : Except Halt Machine := do
  let m₁ ← m.writeMemory m.cpu.i.toNat (BitVec.ofNat 8 (vx.toNat % 1000 / 100))
  let m₂ ← m₁.writeMemory (m.cpu.i.toNat + 1) (BitVec.ofNat 8 (vx.toNat % 100 / 10))
  m₂.writeMemory (m.cpu.i.toNat + 2) (BitVec.ofNat 8 (vx.toNat % 10 / 1))

/-- Dxyn: the machine after the bytes of the sprite are drawn. -/
def Machine.drawn (m : Machine) (x y : RegisterIndex) (sprite : List Byte) : Machine :=
  let drawn := displayDrawSprite m.display (m.register x) (m.register y) sprite
  { m with display := drawn.1 }.setFlag drawn.2

/-- What an instruction does to a machine whose `pc` already points past it. -/
def Instr.exec (inp : Input) (m : Machine) : Instr → Except Halt Machine
  | .cls => .ok { m with display := displayClear }
  | .ret => do
    let (address, m) ← cpuStackPop m
    return cpuGotoAddress m address
  | .sys nnn => m.callTo nnn
  | .jp nnn => .ok (cpuGotoAddress m nnn)
  | .call nnn => m.callTo nnn
  | .skip c => .ok (skipIf m (c.holds inp m))
  | .load x s => .ok (m.setRegister x (s.value inp m x))
  | .arith x a =>
    if x = vf ∨ a.operand = some vf then .error .vfOperand
    else .ok ((m.setFlag (a.flag m x)).setRegister x (a.value m x))
  | .setI nnn => .ok (m.setI nnn)
  | .jpV0 nnn => .ok (cpuGotoAddress m (nnn + (m.register v0).setWidth 16))
  | .draw x y n => do
    let sprite ← m.readSprite m.cpu.i.toNat n.toNat
    return m.drawn x y sprite
  | .waitKey x =>
    match keyboardGetPressedKey inp with
    | some key => .ok (m.setRegister x key)
    | none => .ok (cpuPcAdvanceBack m)
  | .setDelay x => .ok { m with delayTimer := timerSetValue m.delayTimer (m.register x) }
  | .setSound x => .ok { m with soundTimer := timerSetValue m.soundTimer (m.register x) }
  | .addI x => .ok (m.setI (m.cpu.i + (m.register x).setWidth 16))
  | .sprite x => .ok (m.setI (memoryAddressFromSpriteValue (m.register x)))
  | .bcd x => m.storeBcd (m.register x)
  | .dump x => regDumpLoop (registersUpTo x) m.cpu.i m
  | .restore x => regLoadLoop (registersUpTo x) m.cpu.i m

/-! ## Decoding -/

/-- A row of the dispatch: an opcode that gives the pattern under the mask is the instruction that `build` reads off. -/
structure Row where
  mask : Word
  pattern : Word
  build : Word → Instr

/-- The rows after 00E0 and 00EE, in the order of the source. No opcode matches two of them. -/
def rows : List Row :=
  ⟨0xF000#16, 0x0000#16, fun op => .sys (opcodeDecodeAddress op)⟩ ::
  ⟨0xF000#16, 0x1000#16, fun op => .jp (opcodeDecodeAddress op)⟩ ::
  ⟨0xF000#16, 0x2000#16, fun op => .call (opcodeDecodeAddress op)⟩ ::
  ⟨0xF000#16, 0x3000#16, fun op => .skip (.eqByte (opcodeDecodeRegisterX op) (opcodeDecodeConst8bit op))⟩ ::
  ⟨0xF000#16, 0x4000#16, fun op => .skip (.neByte (opcodeDecodeRegisterX op) (opcodeDecodeConst8bit op))⟩ ::
  ⟨0xF00F#16, 0x5000#16, fun op => .skip (.eqReg (opcodeDecodeRegisterX op) (opcodeDecodeRegisterY op))⟩ ::
  ⟨0xF000#16, 0x6000#16, fun op => .load (opcodeDecodeRegisterX op) (.byte (opcodeDecodeConst8bit op))⟩ ::
  ⟨0xF000#16, 0x7000#16, fun op => .load (opcodeDecodeRegisterX op) (.addByte (opcodeDecodeConst8bit op))⟩ ::
  ⟨0xF00F#16, 0x8000#16, fun op => .load (opcodeDecodeRegisterX op) (.reg (opcodeDecodeRegisterY op))⟩ ::
  ⟨0xF00F#16, 0x8001#16, fun op => .load (opcodeDecodeRegisterX op) (.or (opcodeDecodeRegisterY op))⟩ ::
  ⟨0xF00F#16, 0x8002#16, fun op => .load (opcodeDecodeRegisterX op) (.and (opcodeDecodeRegisterY op))⟩ ::
  ⟨0xF00F#16, 0x8003#16, fun op => .load (opcodeDecodeRegisterX op) (.xor (opcodeDecodeRegisterY op))⟩ ::
  ⟨0xF00F#16, 0x8004#16, fun op => .arith (opcodeDecodeRegisterX op) (.add (opcodeDecodeRegisterY op))⟩ ::
  ⟨0xF00F#16, 0x8005#16, fun op => .arith (opcodeDecodeRegisterX op) (.sub (opcodeDecodeRegisterY op))⟩ ::
  ⟨0xF00F#16, 0x8006#16, fun op => .arith (opcodeDecodeRegisterX op) .shr⟩ ::
  ⟨0xF00F#16, 0x8007#16, fun op => .arith (opcodeDecodeRegisterX op) (.subn (opcodeDecodeRegisterY op))⟩ ::
  ⟨0xF00F#16, 0x800E#16, fun op => .arith (opcodeDecodeRegisterX op) .shl⟩ ::
  ⟨0xF00F#16, 0x9000#16, fun op => .skip (.neReg (opcodeDecodeRegisterX op) (opcodeDecodeRegisterY op))⟩ ::
  ⟨0xF000#16, 0xA000#16, fun op => .setI (opcodeDecodeAddress op)⟩ ::
  ⟨0xF000#16, 0xB000#16, fun op => .jpV0 (opcodeDecodeAddress op)⟩ ::
  ⟨0xF000#16, 0xC000#16, fun op => .load (opcodeDecodeRegisterX op) (.rand (opcodeDecodeConst8bit op))⟩ ::
  ⟨0xF000#16, 0xD000#16, fun op => .draw (opcodeDecodeRegisterX op) (opcodeDecodeRegisterY op) (opcodeDecodeConst4bit op)⟩ ::
  ⟨0xF0FF#16, 0xE09E#16, fun op => .skip (.key (opcodeDecodeRegisterX op))⟩ ::
  ⟨0xF0FF#16, 0xE0A1#16, fun op => .skip (.noKey (opcodeDecodeRegisterX op))⟩ ::
  ⟨0xF0FF#16, 0xF007#16, fun op => .load (opcodeDecodeRegisterX op) .delay⟩ ::
  ⟨0xF0FF#16, 0xF00A#16, fun op => .waitKey (opcodeDecodeRegisterX op)⟩ ::
  ⟨0xF0FF#16, 0xF015#16, fun op => .setDelay (opcodeDecodeRegisterX op)⟩ ::
  ⟨0xF0FF#16, 0xF018#16, fun op => .setSound (opcodeDecodeRegisterX op)⟩ ::
  ⟨0xF0FF#16, 0xF01E#16, fun op => .addI (opcodeDecodeRegisterX op)⟩ ::
  ⟨0xF0FF#16, 0xF029#16, fun op => .sprite (opcodeDecodeRegisterX op)⟩ ::
  ⟨0xF0FF#16, 0xF033#16, fun op => .bcd (opcodeDecodeRegisterX op)⟩ ::
  ⟨0xF0FF#16, 0xF055#16, fun op => .dump (opcodeDecodeRegisterX op)⟩ ::
  ⟨0xF0FF#16, 0xF065#16, fun op => .restore (opcodeDecodeRegisterX op)⟩ ::
  []

/-- The first row an opcode matches. -/
def decodeRows (opcode : Word) : List Row → Option Instr
  | [] => none
  | r :: rest => if opcode &&& r.mask = r.pattern then some (r.build opcode) else decodeRows opcode rest

/-- The instruction of an opcode, if it is supported. -/
def decode (opcode : Word) : Option Instr :=
  if opcode = 0x00E0#16 then some .cls
  else if opcode = 0x00EE#16 then some .ret
  else decodeRows opcode rows

end CLangExamples.Emulator
