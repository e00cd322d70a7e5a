import CLangExamples.Emulator.Cpu
import CLangExamples.Lib.Run

/-!
# Runs of the emulator

The loop of `machine_run` as a transition system: one iteration updates the timers and executes one instruction. The
history of a run is the list of the instructions executed, each with the address it was fetched from.
-/

namespace CLangExamples.Emulator

/-- `main` up to the loop of `machine_run`: initialise, load the ROM, start the timers at the given readings of the
clock. -/
def machineBoot (rom : List Byte) (delayNow soundNow : BitVec 64) : Except Halt Machine := do
  let m ← machineLoadRom machineInit rom
  return machineStartTimers m delayNow soundNow

/-- An input with no key down, `rand()` at zero and a clock that stands still. -/
def idleInput : Input where
  delayTicks := 0
  soundTicks := 0
  keyboardState := fun _ => 0
  pastKeymap := fun _ => 0
  rand := 0

/-- The byte at an index of the memory; zero past its end, where the source reads what it should not. -/
def Machine.cell (m : Machine) (index : Nat) : Byte := if h : index < memorySize then m.memory ⟨index, h⟩ else 0

/-- The opcode at `pc`. -/
def opcodeAt (m : Machine) : Word := wordOfBytes (m.cell m.cpu.pc.toNat) (m.cell (m.cpu.pc.toNat + 1))

/-- An instruction executed: the address it was fetched from and its opcode. -/
abbrev Executed : Type := Address × Word

/-- What the history keeps of an iteration. -/
def executedAt (_inp : Input) (m : Machine) : Executed := (m.cpu.pc, opcodeAt m)

/-- A run of the main loop: the inputs it consumed, the instructions it executed and the machine it reached. -/
def Run (m₀ : Machine) : List Input → List Executed → Machine → Prop := Transition.Run machineIteration executedAt m₀

/-- A property of every iteration that a list of inputs takes from `m₀`. -/
def EveryIteration (m₀ : Machine) (inputs : List Input) (P : Input → Machine → Prop) : Prop :=
  Transition.Along machineIteration executedAt m₀ inputs P

end CLangExamples.Emulator
