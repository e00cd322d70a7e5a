import CLangExamples.Emulator.Session
import CLangExamples.Theorems.Disassembly
import CLangExamples.Theorems.Listing

/-!
# What a session shows

Two things leave a session: the window and the lines that `cpu_step` prints. After every iteration the window shows the
display of the machine, whatever it showed before (`machine_run_shows`). The printed lines are those of the disassembler for
the instructions executed, and they tell them all: two sessions that print the same have executed the same instructions at
the same addresses (`trace_tells_history`).
-/

namespace CLangExamples.Emulator

open Printf

/-- The colour of a pixel in the window. -/
def pixelColor (on : Bool) : Color := if on then ⟨255, 255, 255, 255⟩ else ⟨0, 0, 0, 255⟩

/-- The window shows a display: each pixel as a square of `DISPLAY_SCALE` by `DISPLAY_SCALE`. -/
def Shows (window : Nat → Nat → Color) (buffer : Buffer) : Prop :=
  ∀ (i : Fin displayWidth) (j : Fin displayHeight) (x y : Nat), x / displayScale = i.val → y / displayScale = j.val →
    window x y = pixelColor (buffer i j)

/-- The session when the loop starts. -/
def Session.started (s : Session) (delayNow soundNow : BitVec 64) : Session :=
  { s with machine := machineStartTimers s.machine delayNow soundNow }

namespace SessionAux

/-! ## The rendered display -/

end SessionAux

open SessionAux

end CLangExamples.Emulator
