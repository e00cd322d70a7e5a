import CLangExamples.Emulator.Machine

/-!
# The CPU

`cpu.c`: fetch, the handlers `exec_*`, the dispatch on the opcode, and one step. Every access to `cpu->memory` goes
through `Machine.readMemory` and `Machine.writeMemory`, which halt on an index past the end; the source has no check
there. An index is computed as C computes it: `cpu->pc + 1` and `cpu->i + 2` are `int` sums and do not wrap, while the
`Address addr` that the loops of Fx55 and Fx65 increment wraps at 16 bits.
-/

namespace CLangExamples.Emulator

/-! ## Access to the parts of the machine -/

/-- `cpu->memory[index]` -/
def Machine.readMemory (m : Machine) (index : Nat) : Except Halt Byte :=
  if h : index < memorySize then .ok (m.memory ⟨index, h⟩) else .error (.memoryIndex index)

/-- `cpu->memory[index] = value` -/
def Machine.writeMemory (m : Machine) (index : Nat) (value : Byte) : Except Halt Machine :=
  if h : index < memorySize then .ok { m with memory := Function.update m.memory ⟨index, h⟩ value }
  else .error (.memoryIndex index)

/-- `cpu->registers[r]` -/
def Machine.register (m : Machine) (r : RegisterIndex) : Byte := m.cpu.registers r

/-- `cpu->registers[r] = value` -/
def Machine.setRegister (m : Machine) (r : RegisterIndex) (value : Byte) : Machine :=
  { m with cpu := { m.cpu with registers := Function.update m.cpu.registers r value } }

/-- `cpu->i = address` -/
def Machine.setI (m : Machine) (address : Address) : Machine := { m with cpu := { m.cpu with i := address } }

/-- `cpu_goto_address` -/
def cpuGotoAddress (m : Machine) (address : Address) : Machine := { m with cpu := { m.cpu with pc := address } }

/-- `cpu_pc_advance`: `cpu->pc += sizeof(Word)`. -/
def cpuPcAdvance (m : Machine) : Machine := cpuGotoAddress m (m.cpu.pc + 2)

/-- `cpu_pc_advance_back`: `cpu->pc -= sizeof(Word)`. -/
def cpuPcAdvanceBack (m : Machine) : Machine := cpuGotoAddress m (m.cpu.pc - 2)

/-- `cpu_stack_push` -/
def cpuStackPush (m : Machine) (address : Address) : Except Halt Machine :=
  if h : m.cpu.stackCount ≥ stackCapacity then .error .stackOverflow
  else
    let stack := Function.update m.cpu.stack ⟨m.cpu.stackCount, by omega⟩ address
    .ok { m with cpu := { m.cpu with stack := stack, stackCount := m.cpu.stackCount + 1 } }

/-- `cpu_stack_pop`: the address it returns and the machine it leaves. -/
def cpuStackPop (m : Machine) : Except Halt (Address × Machine) :=
  if m.cpu.stackCount = 0 then .error .stackUnderflow
  else
    let stackCount := m.cpu.stackCount - 1
    if h : stackCount < stackCapacity then
      .ok (m.cpu.stack ⟨stackCount, h⟩, { m with cpu := { m.cpu with stackCount := stackCount } })
    else .error (.stackIndex stackCount)

/-! ## The handlers -/

/-- 00E0 -/
def execDisplayClear (m : Machine) (_opcode : Word) : Except Halt Machine := .ok { m with display := displayClear }

/-- 00EE -/
def execReturn (m : Machine) (_opcode : Word) : Except Halt Machine := do
  let (retAddr, m) ← cpuStackPop m
  return cpuGotoAddress m retAddr

/-- What 0nnn and 2nnn share: push `pc`, which already points past the instruction, and go to the address. -/
def pushAndGoto (m : Machine) (opcode : Word) : Except Halt Machine := do
  let address := opcodeDecodeAddress opcode
  let m ← cpuStackPush m m.cpu.pc
  return cpuGotoAddress m address

/-- 0nnn, after the warning `obsolete instruction NATIVE CALL`. -/
def execCall (m : Machine) (opcode : Word) : Except Halt Machine := pushAndGoto m opcode

/-- 1nnn -/
def execGoto (m : Machine) (opcode : Word) : Except Halt Machine := .ok (cpuGotoAddress m (opcodeDecodeAddress opcode))

/-- 2nnn -/
def execCallSubroutine (m : Machine) (opcode : Word) : Except Halt Machine := pushAndGoto m opcode

/-- The skip instructions: advance `pc` once more when the condition holds. -/
def skipIf (m : Machine) (condition : Bool) : Machine := if condition then cpuPcAdvance m else m

/-- 3xkk -/
def execIfEquals (m : Machine) (opcode : Word) : Except Halt Machine :=
  .ok (skipIf m (m.register (opcodeDecodeRegisterX opcode) == opcodeDecodeConst8bit opcode))

/-- 4xkk -/
def execIfNotEquals (m : Machine) (opcode : Word) : Except Halt Machine :=
  .ok (skipIf m (m.register (opcodeDecodeRegisterX opcode) != opcodeDecodeConst8bit opcode))

/-- 5xy0 -/
def execSkipNextIfVxEqualsVy (m : Machine) (opcode : Word) : Except Halt Machine :=
  .ok (skipIf m (m.register (opcodeDecodeRegisterX opcode) == m.register (opcodeDecodeRegisterY opcode)))

/-- 6xkk -/
def execSetRegister (m : Machine) (opcode : Word) : Except Halt Machine :=
  .ok (m.setRegister (opcodeDecodeRegisterX opcode) (opcodeDecodeConst8bit opcode))

/-- 7xkk -/
def execAddToVx (m : Machine) (opcode : Word) : Except Halt Machine :=
  let x := opcodeDecodeRegisterX opcode
  .ok (m.setRegister x (m.register x + opcodeDecodeConst8bit opcode))

/-- The handlers 8xy0 to 8xy3: Vx becomes `op Vx Vy`. -/
def setVxTo (op : Byte → Byte → Byte) (m : Machine) (opcode : Word) : Except Halt Machine :=
  let x := opcodeDecodeRegisterX opcode
  let y := opcodeDecodeRegisterY opcode
  .ok (m.setRegister x (op (m.register x) (m.register y)))

/-- 8xy0 -/
def execSetVxFromVy : Machine → Word → Except Halt Machine := setVxTo (fun _ vy => vy)

/-- 8xy1 -/
def execSetVxToVxOr : Machine → Word → Except Halt Machine := setVxTo (fun vx vy => vx ||| vy)

/-- 8xy2 -/
def execSetVxToVxAnd : Machine → Word → Except Halt Machine := setVxTo (fun vx vy => vx &&& vy)

/-- 8xy3 -/
def execSetVxToVxXor : Machine → Word → Except Halt Machine := setVxTo (fun vx vy => vx ^^^ vy)

/-- `cpu->registers[VF] = condition ? 0x01 : 0x00` -/
def Machine.setFlag (m : Machine) (condition : Bool) : Machine := m.setRegister vf (if condition then 1 else 0)

/-- 8xy4. The sum is taken in a `size_t` before VF is written. -/
def execVxPlusVy (m : Machine) (opcode : Word) : Except Halt Machine :=
  let x := opcodeDecodeRegisterX opcode
  let y := opcodeDecodeRegisterY opcode
  if x = vf ∨ y = vf then .error .vfOperand
  else
    let sum := (m.register x).toNat + (m.register y).toNat
    let m := m.setFlag (decide (sum > 255))
    .ok (m.setRegister x (BitVec.ofNat 8 sum))

/-- 8xy5. VF is written first, and neither operand is VF. -/
def execVxMinusVy (m : Machine) (opcode : Word) : Except Halt Machine :=
  let x := opcodeDecodeRegisterX opcode
  let y := opcodeDecodeRegisterY opcode
  if x = vf ∨ y = vf then .error .vfOperand
  else
    let m := m.setFlag (decide ((m.register x).toNat > (m.register y).toNat))
    .ok (m.setRegister x (m.register x - m.register y))

/-- 8xy6. The y of the opcode is not read. -/
def execSetVxRshiftOne (m : Machine) (opcode : Word) : Except Halt Machine :=
  let x := opcodeDecodeRegisterX opcode
  if x = vf then .error .vfOperand
  else
    let m := m.setFlag (bitIsSet (m.register x) 0)
    .ok (m.setRegister x (m.register x >>> 1))

/-- 8xy7 -/
def execSetVxVyMinusVx (m : Machine) (opcode : Word) : Except Halt Machine :=
  let x := opcodeDecodeRegisterX opcode
  let y := opcodeDecodeRegisterY opcode
  if x = vf ∨ y = vf then .error .vfOperand
  else
    let m := m.setFlag (decide ((m.register y).toNat > (m.register x).toNat))
    .ok (m.setRegister x (m.register y - m.register x))

/-- 8xyE. The y of the opcode is not read. -/
def execSetVxLshiftOne (m : Machine) (opcode : Word) : Except Halt Machine :=
  let x := opcodeDecodeRegisterX opcode
  if x = vf then .error .vfOperand
  else
    let m := m.setFlag (bitIsSet (m.register x) 7)
    .ok (m.setRegister x (m.register x <<< 1))

/-- 9xy0 -/
def execIfVxNotEqualsToVy (m : Machine) (opcode : Word) : Except Halt Machine :=
  .ok (skipIf m (m.register (opcodeDecodeRegisterX opcode) != m.register (opcodeDecodeRegisterY opcode)))

/-- Annn -/
def execSetIRegister (m : Machine) (opcode : Word) : Except Halt Machine := .ok (m.setI (opcodeDecodeAddress opcode))

/-- Bnnn -/
def execJumpToAddrPlusV0 (m : Machine) (opcode : Word) : Except Halt Machine :=
  .ok (cpuGotoAddress m (opcodeDecodeAddress opcode + (m.register v0).setWidth 16))

/-- Cxkk -/
def execSetVxRandAnd (inp : Input) (m : Machine) (opcode : Word) : Except Halt Machine :=
  .ok (m.setRegister (opcodeDecodeRegisterX opcode) (randomU8 inp &&& opcodeDecodeConst8bit opcode))

/-- The bytes `sprite[0..n)` that `display_draw_sprite` reads through the pointer `&cpu->memory[index]`. -/
def Machine.readSprite (m : Machine) : Nat → Nat → Except Halt (List Byte)
  | _, 0 => .ok []
  | index, n + 1 => do
    let byte ← m.readMemory index
    let rest ← m.readSprite (index + 1) n
    return byte :: rest

/-- Dxyn -/
def execDisplayDrawSpriteAt (m : Machine) (opcode : Word) : Except Halt Machine := do
  let x := opcodeDecodeRegisterX opcode
  let y := opcodeDecodeRegisterY opcode
  let value := opcodeDecodeConst4bit opcode
  let sprite ← m.readSprite m.cpu.i.toNat value.toNat
  let (display, pixelErased) := displayDrawSprite m.display (m.register x) (m.register y) sprite
  return { m with display := display }.setFlag pixelErased

/-- Ex9E -/
def execIfKeyEqualsToVx (inp : Input) (m : Machine) (opcode : Word) : Except Halt Machine :=
  .ok (skipIf m (keyboardIsKeyPressed inp (m.register (opcodeDecodeRegisterX opcode))))

/-- ExA1 -/
def execIfKeyNotEqualsToVx (inp : Input) (m : Machine) (opcode : Word) : Except Halt Machine :=
  .ok (skipIf m (!keyboardIsKeyPressed inp (m.register (opcodeDecodeRegisterX opcode))))

/-- Fx07 -/
def execSetVxFromDelayTimer (m : Machine) (opcode : Word) : Except Halt Machine :=
  .ok (m.setRegister (opcodeDecodeRegisterX opcode) (timerGetValue m.delayTimer))

/-- Fx0A. With no key down the instruction is executed again. -/
def execSetVxFromKey (inp : Input) (m : Machine) (opcode : Word) : Except Halt Machine :=
  match keyboardGetPressedKey inp with
  | some key => .ok (m.setRegister (opcodeDecodeRegisterX opcode) key)
  | none => .ok (cpuPcAdvanceBack m)

/-- Fx15 -/
def execSetDelayTimerFromVx (m : Machine) (opcode : Word) : Except Halt Machine :=
  .ok { m with delayTimer := timerSetValue m.delayTimer (m.register (opcodeDecodeRegisterX opcode)) }

/-- Fx18 -/
def execSetSoundTimer (m : Machine) (opcode : Word) : Except Halt Machine :=
  .ok { m with soundTimer := timerSetValue m.soundTimer (m.register (opcodeDecodeRegisterX opcode)) }

/-- Fx1E -/
def execAddVxToI (m : Machine) (opcode : Word) : Except Halt Machine :=
  .ok (m.setI (m.cpu.i + (m.register (opcodeDecodeRegisterX opcode)).setWidth 16))

/-- Fx29 -/
def execSetIToSpriteAddr (m : Machine) (opcode : Word) : Except Halt Machine :=
  .ok (m.setI (memoryAddressFromSpriteValue (m.register (opcodeDecodeRegisterX opcode))))

/-- Fx33 -/
def execSetBcd (m : Machine) (opcode : Word) : Except Halt Machine := do
  let vx := (m.register (opcodeDecodeRegisterX opcode)).toNat
  let hundreds := BitVec.ofNat 8 (vx % 1000 / 100)
  let tens := BitVec.ofNat 8 (vx % 100 / 10)
  let ones := BitVec.ofNat 8 (vx % 10 / 1)
  let index := m.cpu.i.toNat
  let m ← m.writeMemory index hundreds
  let m ← m.writeMemory (index + 1) tens
  m.writeMemory (index + 2) ones

/-- The registers that the loops `for (Register i = 0; i <= x; i++)` visit, in order. -/
def registersUpTo (x : RegisterIndex) : List RegisterIndex := (List.finRange 16).filter (fun r => r ≤ x)

/-- The loop of Fx55. -/
def regDumpLoop : List RegisterIndex → Address → Machine → Except Halt Machine
  | [], _, m => .ok m
  | r :: rest, addr, m => do
    let m ← m.writeMemory addr.toNat (m.register r)
    regDumpLoop rest (addr + 1) m

/-- Fx55 -/
def execRegDump (m : Machine) (opcode : Word) : Except Halt Machine :=
  regDumpLoop (registersUpTo (opcodeDecodeRegisterX opcode)) m.cpu.i m

/-- The loop of Fx65. -/
def regLoadLoop : List RegisterIndex → Address → Machine → Except Halt Machine
  | [], _, m => .ok m
  | r :: rest, addr, m => do
    let byte ← m.readMemory addr.toNat
    regLoadLoop rest (addr + 1) (m.setRegister r byte)

/-- Fx65 -/
def execRegLoad (m : Machine) (opcode : Word) : Except Halt Machine :=
  regLoadLoop (registersUpTo (opcodeDecodeRegisterX opcode)) m.cpu.i m

/-! ## Dispatch and step -/

/-- `cpu_decode_and_exec_opcode` -/
def cpuDecodeAndExecOpcode (inp : Input) (m : Machine) (opcode : Word) : Except Halt Machine :=
  if opcode = 0x00E0#16 then execDisplayClear m opcode
  else if opcode = 0x00EE#16 then execReturn m opcode
  else if opcode &&& 0xF000#16 = 0x0000#16 then execCall m opcode
  else if opcode &&& 0xF000#16 = 0x1000#16 then execGoto m opcode
  else if opcode &&& 0xF000#16 = 0x2000#16 then execCallSubroutine m opcode
  else if opcode &&& 0xF000#16 = 0x3000#16 then execIfEquals m opcode
  else if opcode &&& 0xF000#16 = 0x4000#16 then execIfNotEquals m opcode
  else if opcode &&& 0xF00F#16 = 0x5000#16 then execSkipNextIfVxEqualsVy m opcode
  else if opcode &&& 0xF000#16 = 0x6000#16 then execSetRegister m opcode
  else if opcode &&& 0xF000#16 = 0x7000#16 then execAddToVx m opcode
  else if opcode &&& 0xF00F#16 = 0x8000#16 then execSetVxFromVy m opcode
  else if opcode &&& 0xF00F#16 = 0x8001#16 then execSetVxToVxOr m opcode
  else if opcode &&& 0xF00F#16 = 0x8002#16 then execSetVxToVxAnd m opcode
  else if opcode &&& 0xF00F#16 = 0x8003#16 then execSetVxToVxXor m opcode
  else if opcode &&& 0xF00F#16 = 0x8004#16 then execVxPlusVy m opcode
  else if opcode &&& 0xF00F#16 = 0x8005#16 then execVxMinusVy m opcode
  else if opcode &&& 0xF00F#16 = 0x8006#16 then execSetVxRshiftOne m opcode
  else if opcode &&& 0xF00F#16 = 0x8007#16 then execSetVxVyMinusVx m opcode
  else if opcode &&& 0xF00F#16 = 0x800E#16 then execSetVxLshiftOne m opcode
  else if opcode &&& 0xF00F#16 = 0x9000#16 then execIfVxNotEqualsToVy m opcode
  else if opcode &&& 0xF000#16 = 0xA000#16 then execSetIRegister m opcode
  else if opcode &&& 0xF000#16 = 0xB000#16 then execJumpToAddrPlusV0 m opcode
  else if opcode &&& 0xF000#16 = 0xC000#16 then execSetVxRandAnd inp m opcode
  else if opcode &&& 0xF000#16 = 0xD000#16 then execDisplayDrawSpriteAt m opcode
  else if opcode &&& 0xF0FF#16 = 0xE09E#16 then execIfKeyEqualsToVx inp m opcode
  else if opcode &&& 0xF0FF#16 = 0xE0A1#16 then execIfKeyNotEqualsToVx inp m opcode
  else if opcode &&& 0xF0FF#16 = 0xF007#16 then execSetVxFromDelayTimer m opcode
  else if opcode &&& 0xF0FF#16 = 0xF00A#16 then execSetVxFromKey inp m opcode
  else if opcode &&& 0xF0FF#16 = 0xF015#16 then execSetDelayTimerFromVx m opcode
  else if opcode &&& 0xF0FF#16 = 0xF018#16 then execSetSoundTimer m opcode
  else if opcode &&& 0xF0FF#16 = 0xF01E#16 then execAddVxToI m opcode
  else if opcode &&& 0xF0FF#16 = 0xF029#16 then execSetIToSpriteAddr m opcode
  else if opcode &&& 0xF0FF#16 = 0xF033#16 then execSetBcd m opcode
  else if opcode &&& 0xF0FF#16 = 0xF055#16 then execRegDump m opcode
  else if opcode &&& 0xF0FF#16 = 0xF065#16 then execRegLoad m opcode
  else .error (.unsupportedOpcode opcode)

/-- `(high << 8) | low`: the word of two bytes, the high one first. -/
def wordOfBytes (high low : Byte) : Word := high.setWidth 16 <<< 8 ||| low.setWidth 16

/-- `fetch_opcode` -/
def fetchOpcode (m : Machine) : Except Halt Word := do
  let high ← m.readMemory m.cpu.pc.toNat
  let low ← m.readMemory (m.cpu.pc.toNat + 1)
  return wordOfBytes high low

/-- `cpu_step`, without its trace on `stderr` (the disassembly of the opcode, whose result the source ignores). -/
def cpuStep (inp : Input) (m : Machine) : Except Halt Machine :=
  if m.cpu.pc.toNat ≥ memorySize then .error .pcOverflow
  else do
    let opcode ← fetchOpcode m
    if opcode = 0 then .error .zeroOpcode
    else cpuDecodeAndExecOpcode inp (cpuPcAdvance m) opcode

/-- One iteration of the loop of `machine_run`: the timers, then one instruction. -/
def machineIteration (inp : Input) (m : Machine) : Except Halt Machine := cpuStep inp (machineUpdateTimers m inp)

end CLangExamples.Emulator
