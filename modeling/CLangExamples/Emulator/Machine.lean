import CLangExamples.Emulator.Opcode

/-!
# The machine: memory, display, timers, keyboard and the state of the CPU

`memory.c`, `display.c`, `timer.c`, `keyboard.c`, `utils/bits.c`, `utils/random.c` and the initialisation in `machine.c`
and `cpu.c`. The `struct cpu` of the source reaches the memory, the display and the timers through pointers into the
`struct machine` that holds it; here the functions of the CPU take the whole `Machine`. The SDL window and renderer hold
no state that an instruction reads and are left out.

The assertions of the source are taken as enabled. What ends the process, and what leaves C's defined behaviour (an index
past the end of the memory or of the stack), is a `Halt`: the run stops there.
-/

namespace CLangExamples.Emulator

/-- Why a step does not return. The first seven are exits of the source (`exit(1)` after a message, or a failed `assert`);
the last two are array accesses past the end, at the index they carry. -/
inductive Halt where
  /-- `error: program counter (PC) overflow` -/
  | pcOverflow
  /-- `assert(opcode != 0)` -/
  | zeroOpcode
  /-- `error: cpu: runtime: stack overflow` -/
  | stackOverflow
  /-- `error: cpu: runtime: stack underflow` -/
  | stackUnderflow
  /-- `log_fatal(FATAL_MSG_OPCODE_USING_VF_REGISTER)` -/
  | vfOperand
  /-- `log_fatalf("unsupported opcode. opcode=0x%04X")` -/
  | unsupportedOpcode (opcode : Word)
  /-- `failed to load program rom: program size is too big` -/
  | romTooBig (size : Nat)
  /-- `cpu->memory[index]` with `index >= MEMORY_SIZE` -/
  | memoryIndex (index : Nat)
  /-- `cpu->stack[index]` with `index >= STACK_CAPACITY` -/
  | stackIndex (index : Nat)
  deriving DecidableEq, Repr

/-! ## Memory -/

/-- `MEMORY_SIZE` -/
abbrev memorySize : Nat := 4096

/-- `MEMORY_PROGRAM_STARTING_ADDRESS` -/
abbrev memoryProgramStartingAddress : Nat := 0x200

/-- `PROGRAM_MAX_SIZE` -/
abbrev programMaxSize : Nat := memorySize - memoryProgramStartingAddress

/-- `uint8_t memory[MEMORY_SIZE]` -/
abbrev Memory : Type := Fin memorySize → Byte

/-- `FONT_SPRITE_SIZE` -/
def fontSpriteSize : Nat := 5

/-- `FONT_MEM_ADDRESS` -/
def fontMemAddress : Nat := 0x0000

/-- The sprites of the sixteen hexadecimal digits, five bytes each. -/
def fontSprites : List Byte := [
  0xF0, 0x90, 0x90, 0x90, 0xF0,
  0x20, 0x60, 0x20, 0x20, 0x70,
  0xF0, 0x10, 0xF0, 0x80, 0xF0,
  0xF0, 0x10, 0xF0, 0x10, 0xF0,
  0x90, 0x90, 0xF0, 0x10, 0x10,
  0xF0, 0x80, 0xF0, 0x10, 0xF0,
  0xF0, 0x80, 0xF0, 0x90, 0xF0,
  0xF0, 0x10, 0x20, 0x40, 0x40,
  0xF0, 0x90, 0xF0, 0x90, 0xF0,
  0xF0, 0x90, 0xF0, 0x10, 0xF0,
  0xF0, 0x90, 0xF0, 0x90, 0x90,
  0xE0, 0x90, 0xE0, 0x90, 0xE0,
  0xF0, 0x80, 0x80, 0x80, 0xF0,
  0xE0, 0x90, 0x90, 0x90, 0xE0,
  0xF0, 0x80, 0xF0, 0x80, 0xF0,
  0xF0, 0x80, 0xF0, 0x80, 0x80]

/-- `memcpy(&mem[start], bytes, len)`, for bytes that fit. -/
def memcpy (mem : Memory) (start : Nat) (bytes : List Byte) : Memory :=
  fun a => if start ≤ a.val then (bytes[a.val - start]?).getD (mem a) else mem a

/-- `memory_init`: zeros, and the font sprites at the bottom. -/
def memoryInit : Memory := memcpy (fun _ => 0) fontMemAddress fontSprites

/-- `memory_address_from_sprite_value`: no check that the value is one of the sixteen digits. -/
def memoryAddressFromSpriteValue (spriteValue : Byte) : Address :=
  BitVec.ofNat 16 (fontMemAddress + spriteValue.toNat * fontSpriteSize)

/-! ## Display -/

/-- `DISPLAY_WIDTH` -/
abbrev displayWidth : Nat := 64

/-- `DISPLAY_HEIGHT` -/
abbrev displayHeight : Nat := 32

/-- `Pixel buffer[DISPLAY_WIDTH][DISPLAY_HEIGHT]` -/
abbrev Buffer : Type := Fin displayWidth → Fin displayHeight → Bool

/-- `display_clear` -/
def displayClear : Buffer := fun _ _ => false

/-- `bit_is_set`; its assertion `bit_order < 8` holds at every call of the source. -/
def bitIsSet (num : Byte) (bitOrder : Nat) : Bool := (num &&& 1#8 <<< bitOrder) != 0

/-- `*current_pixel ^= new_pixel` at column `x` and row `y`. -/
def Buffer.xorPixel (buffer : Buffer) (x : Fin displayWidth) (y : Fin displayHeight) (newPixel : Bool) : Buffer :=
  Function.update buffer x (Function.update (buffer x) y (buffer x y ^^ newPixel))

/-- The inner loop of `display_draw_sprite`, over the bits of one byte of the sprite from bit `n - 1` down to bit 0. The
offset of the source, which starts at 0 with bit 7, is `7 - bit`. -/
def drawSpriteBits (pixelX pixelY : Nat) (spriteByte : Byte) : Nat → Buffer × Bool → Buffer × Bool
  | 0, acc => acc
  | bit + 1, (buffer, pixelErased) =>
    let newPixel := bitIsSet spriteByte bit
    let x : Fin displayWidth := Fin.ofNat displayWidth (pixelX + (7 - bit))
    let y : Fin displayHeight := Fin.ofNat displayHeight pixelY
    let pixelErased := if buffer x y && !newPixel then true else pixelErased
    drawSpriteBits pixelX pixelY spriteByte bit (buffer.xorPixel x y newPixel, pixelErased)

/-- The outer loop of `display_draw_sprite`, one row of the display for each byte of the sprite. -/
def drawSpriteRows (pixelX : Nat) : Nat → List Byte → Buffer × Bool → Buffer × Bool
  | _, [], acc => acc
  | pixelY, spriteByte :: rest, acc =>
    drawSpriteRows pixelX ((pixelY + 1) % displayHeight) rest (drawSpriteBits pixelX pixelY spriteByte 8 acc)

/-- `display_draw_sprite`: the buffer it leaves and the flag it returns. -/
def displayDrawSprite (buffer : Buffer) (x y : Byte) (sprite : List Byte) : Buffer × Bool :=
  drawSpriteRows (x.toNat % displayWidth) (y.toNat % displayHeight) sprite (buffer, false)

/-! ## Timers -/

/-- `struct timer` -/
structure Timer where
  lastTickTimestampMs : BitVec 64
  value : Byte
  deriving DecidableEq, Repr

/-- `CLOCK_TIMEUP_DURATION_MS`: `1 * 1000 / 60`. -/
def clockTimeupDurationMs : BitVec 64 := 16

/-- `timer_init` -/
def timerInit : Timer := { lastTickTimestampMs := 0, value := 0 }

/-- `timer_start`, with what `SDL_GetTicks64` returns. -/
def timerStart (t : Timer) (now : BitVec 64) : Timer := { t with lastTickTimestampMs := now }

/-- `timer_tick` -/
def timerTick (t : Timer) : Timer := if 0 < t.value.toNat then { t with value := t.value - 1 } else t

/-- `while (ticks_count--) timer_tick(t);` -/
def timerTicks : Nat → Timer → Timer
  | 0, t => t
  | n + 1, t => timerTicks n (timerTick t)

/-- `timer_is_active` -/
def timerIsActive (t : Timer) : Bool := decide (0 < t.value.toNat)

/-- `timer_update`, with what `SDL_GetTicks64` returns (the build does not define `EXIT_AT_MULTIPLE_TICKS`). The source
leaves `last_tick_timestamp_ms` as it is. -/
def timerUpdate (t : Timer) (now : BitVec 64) : Timer :=
  if !timerIsActive t then t
  else
    let elapsedTimeMs := now - t.lastTickTimestampMs
    if elapsedTimeMs.toNat < clockTimeupDurationMs.toNat then t
    else timerTicks (elapsedTimeMs / clockTimeupDurationMs).toNat t

/-- `timer_get_value` -/
def timerGetValue (t : Timer) : Byte := t.value

/-- `timer_set_value` -/
def timerSetValue (t : Timer) (value : Byte) : Timer := { t with value := value }

/-! ## What the host supplies -/

/-- The SDL scan codes that the key map names. -/
inductive Scancode where
  | n1 | n2 | n3 | n4
  | q | w | e | r
  | a | s | d | f
  | z | x | c | v
  deriving DecidableEq, Repr

/-- `keymap`: the scan code of each of the sixteen keys, in the order of their values. -/
def keymap : Vector Scancode 16 :=
  #v[.x, .n1, .n2, .n3, .q, .w, .e, .a, .s, .d, .z, .c, .n4, .r, .f, .v]

/-- What one iteration of the main loop receives from outside: the two readings of the clock that the timers are updated
with, the state of the keyboard, and the number `rand()` returns. Nothing is assumed of any of them. -/
structure Input where
  /-- `SDL_GetTicks64()` in `timer_update(&m->delay_timer)` -/
  delayTicks : BitVec 64
  /-- `SDL_GetTicks64()` in `timer_update(&m->sound_timer)` -/
  soundTicks : BitVec 64
  /-- `SDL_GetKeyboardState(NULL)`, by scan code -/
  keyboardState : Scancode → Byte
  /-- what `keyboard_state[keymap[k]]` reads for a `k` past the sixteen entries of `keymap` -/
  pastKeymap : Byte → Byte
  /-- `rand()` -/
  rand : Nat

/-- The state of the key `kb_value`. The source indexes `keymap` without a check, so a value from 16 on reads past it. -/
def keyState (inp : Input) (kbValue : Byte) : Byte :=
  if h : kbValue.toNat < 16 then inp.keyboardState keymap[kbValue.toNat] else inp.pastKeymap kbValue

/-- `keyboard_is_key_pressed` -/
def keyboardIsKeyPressed (inp : Input) (kbValue : Byte) : Bool := keyState inp kbValue == 1

/-- `keyboard_get_pressed_key`: the first key, from 0 up, that is down. -/
def keyboardGetPressedKey (inp : Input) : Option Byte :=
  ((List.range 16).map (BitVec.ofNat 8)).find? (fun k => keyState inp k == 1)

/-- `random_u8`: `rand() % (UINT8_MAX + 1)`. -/
def randomU8 (inp : Input) : Byte := BitVec.ofNat 8 (inp.rand % 256)

/-! ## The state -/

/-- `STACK_CAPACITY` -/
abbrev stackCapacity : Nat := 12

/-- `struct cpu`, without its pointers into the machine. -/
structure Cpu where
  registers : RegisterIndex → Byte
  pc : Address
  i : Address
  stack : Fin stackCapacity → Address
  stackCount : Nat

/-- `struct machine` -/
structure Machine where
  memory : Memory
  cpu : Cpu
  display : Buffer
  delayTimer : Timer
  soundTimer : Timer

/-- `cpu_init` -/
def cpuInit : Cpu where
  registers := fun _ => 0
  pc := BitVec.ofNat 16 memoryProgramStartingAddress
  i := BitVec.ofNat 16 memoryProgramStartingAddress
  stack := fun _ => 0
  stackCount := 0

/-- `machine_init` -/
def machineInit : Machine where
  memory := memoryInit
  cpu := cpuInit
  display := displayClear
  delayTimer := timerInit
  soundTimer := timerInit

/-- `machine_load_rom`, with the bytes `file_read_contents` returns (none when the file is missing or empty). -/
def machineLoadRom (m : Machine) (rom : List Byte) : Except Halt Machine :=
  if rom.length > programMaxSize then .error (.romTooBig rom.length)
  else
    let zeroed := memcpy m.memory memoryProgramStartingAddress (List.replicate programMaxSize 0)
    .ok { m with memory := memcpy zeroed memoryProgramStartingAddress rom }

/-- `timer_start` of the two timers, at the start of `machine_run`. -/
def machineStartTimers (m : Machine) (delayNow soundNow : BitVec 64) : Machine :=
  { m with delayTimer := timerStart m.delayTimer delayNow, soundTimer := timerStart m.soundTimer soundNow }

/-- The two `timer_update` calls of an iteration of `machine_run`. -/
def machineUpdateTimers (m : Machine) (inp : Input) : Machine :=
  { m with delayTimer := timerUpdate m.delayTimer inp.delayTicks, soundTimer := timerUpdate m.soundTimer inp.soundTicks }

end CLangExamples.Emulator
