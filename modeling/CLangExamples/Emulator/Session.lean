import CLangExamples.Emulator.Config
import CLangExamples.Emulator.MachineDisassemble

/-!
# A session of the emulator

The whole loop of `machine_run`: the events of the window, the timers, the instruction with what `cpu_step` prints of it, and
`display_render` and `display_render_flush` of `display.c`. SDL is modelled by what its calls do to the back buffer and to
the window. What `cpu_step` prints when it exits is left out, and so are the lines of the logger.
-/

namespace CLangExamples.Emulator

open Printf

/-! ## The renderer -/

/-- A colour, with its opacity. -/
structure Color where
  r : Byte
  g : Byte
  b : Byte
  a : Byte
  deriving DecidableEq

/-- `SDL_Rect` -/
structure SdlRect where
  x : Nat
  y : Nat
  w : Nat
  h : Nat

/-- `SDL_Renderer`, with its window: a colour at each column and row. -/
structure Renderer where
  drawColor : Color
  backBuffer : Nat → Nat → Color
  window : Nat → Nat → Color

/-- `SDL_SetRenderDrawColor` -/
def sdlSetRenderDrawColor (renderer : Renderer) (color : Color) : Renderer := { renderer with drawColor := color }

/-- `SDL_RenderClear` -/
def sdlRenderClear (renderer : Renderer) : Renderer := { renderer with backBuffer := fun _ _ => renderer.drawColor }

/-- `SDL_RenderFillRect` -/
def sdlRenderFillRect (renderer : Renderer) (rect : SdlRect) : Renderer :=
  { renderer with backBuffer := fun x y =>
      if rect.x ≤ x ∧ x < rect.x + rect.w ∧ rect.y ≤ y ∧ y < rect.y + rect.h then renderer.drawColor
      else renderer.backBuffer x y }

/-- `SDL_RenderPresent`, which leaves anything in the back buffer. -/
def sdlRenderPresent (renderer : Renderer) (invalidated : Nat → Nat → Color) : Renderer :=
  { renderer with backBuffer := invalidated, window := renderer.backBuffer }

/-! ## The display -/

/-- `DISPLAY_SCALE` -/
def displayScale : Nat := 10

/-- The body of the two loops of `display_render`. -/
def displayRenderPixel (buffer : Buffer) (i : Fin displayWidth) (renderer : Renderer) (j : Fin displayHeight) : Renderer :=
  let rect : SdlRect := ⟨i.val * displayScale + 0 * displayScale, j.val * displayScale, displayScale, displayScale⟩
  if buffer i j then sdlRenderFillRect (sdlSetRenderDrawColor renderer ⟨255, 255, 255, 255⟩) rect
  else sdlRenderFillRect (sdlSetRenderDrawColor renderer ⟨0, 0, 0, 255⟩) rect

/-- The inner loop of `display_render`. -/
def displayRenderColumn (buffer : Buffer) (renderer : Renderer) (i : Fin displayWidth) : Renderer :=
  (List.finRange displayHeight).foldl (displayRenderPixel buffer i) renderer

/-- `display_render` -/
def displayRender (buffer : Buffer) (renderer : Renderer) : Renderer :=
  (List.finRange displayWidth).foldl (displayRenderColumn buffer)
    (sdlRenderClear (sdlSetRenderDrawColor renderer ⟨0, 0, 0, 0⟩))

/-- `display_render_flush` -/
def displayRenderFlush (renderer : Renderer) (invalidated : Nat → Nat → Color) : Renderer :=
  sdlRenderPresent renderer invalidated

/-! ## The loop -/

/-- What `SDL_PollEvent` takes from the queue. -/
inductive Event where
  /-- `SDL_QUIT` -/
  | quit
  /-- `SDL_KEYDOWN`; whether the key is `SDLK_ESCAPE` -/
  | keyDown (escape : Bool)
  | other
  deriving DecidableEq

/-- The loop over the events: whether it goes to `loop_exit`. -/
def pollEvents : List Event → Bool
  | [] => false
  | .quit :: _ => true
  | .keyDown true :: _ => true
  | .keyDown false :: events => pollEvents events
  | .other :: events => pollEvents events

/-- What an iteration of `machine_run` meets. -/
structure Frame where
  events : List Event
  input : Input
  /-- what `SDL_RenderPresent` leaves in the back buffer -/
  invalidated : Nat → Nat → Color

/-- What `cpu_step` prints to `stderr` of the instruction at `pc`. -/
def cpuStepTrace (m : Machine) : List Char :=
  if m.cpu.pc.toNat ≥ memorySize then []
  else
    match fetchOpcode m with
    | .error _ => []
    | .ok opcode => if opcode = 0 then render (m.cpu.pc, opcode) listingHeader else listingEntry m.cpu.pc opcode

/-- The machine with its window, and what was printed. -/
structure Session where
  machine : Machine
  renderer : Renderer
  trace : List Char

/-- An iteration of `machine_run` that no event ends. -/
def machineRunFrame (cfg : Config) (frame : Frame) (s : Session) : Except (RunHalt × Session) Session :=
  let trace := s.trace ++ cpuStepTrace (machineUpdateTimers s.machine frame.input)
  match machineRunIteration cfg frame.input s.machine with
  | .error halt => .error (halt, { s with trace := trace })
  | .ok m => .ok ⟨m, displayRenderFlush (displayRender m.display s.renderer) frame.invalidated, trace⟩

/-- The loop of `machine_run` over the iterations so far, and whether it went to `loop_exit`. -/
def machineRunLoop (cfg : Config) : List Frame → Session → Except (RunHalt × Session) (Bool × Session)
  | [], s => .ok (false, s)
  | frame :: frames, s =>
    if pollEvents frame.events then .ok (true, s)
    else do
      let s ← machineRunFrame cfg frame s
      machineRunLoop cfg frames s

/-- `machine_run` -/
def machineRun (cfg : Config) (delayNow soundNow : BitVec 64) (frames : List Frame) (s : Session) :
    Except (RunHalt × Session) (Bool × Session) :=
  machineRunLoop cfg frames { s with machine := machineStartTimers s.machine delayNow soundNow }

end CLangExamples.Emulator
