import CLangExamples.Lib.Simulation
import CLangExamples.Lemmas.Step

/-!
# What the program cannot see

The sound timer is written by Fx18 and the clock and read by no instruction; the display is read by Dxyn alone, which
leaves its answer in VF. So a run does not depend on the sound timer at all, and on the display only from its first Dxyn
on. A machine is `hidden` behind another display and sound timer, and every instruction is shown to treat it alike.
-/

namespace CLangExamples.Emulator

open Transition

/-- The instruction at `pc` is a Dxyn. -/
def Draws (m : Machine) : Prop := opcodeAt m &&& 0xF000#16 = 0xD000#16

/-- All that an instruction other than Dxyn reads: the memory, the registers with the stack, and the delay timer. -/
def Machine.seen (m : Machine) : Memory × Cpu × Timer := (m.memory, m.cpu, m.delayTimer)

/-- The machine with another display and sound timer. -/
def Machine.hidden (m : Machine) (display : Buffer) (soundTimer : Timer) : Machine :=
  { m with display := display, soundTimer := soundTimer }

namespace NoninterferenceAux

variable (inp : Input) (m : Machine) (display : Buffer) (soundTimer : Timer)

/-- Two machines of which the same is seen. -/
def Alike (m m' : Machine) : Prop := ∃ display soundTimer, m' = m.hidden display soundTimer

/-- Two machines that differ in the sound timer at most. -/
def AlikeShown (m m' : Machine) : Prop := ∃ soundTimer, m' = m.hidden m.display soundTimer

theorem alike_of_seen {m m' : Machine} (h : m'.seen = m.seen) : Alike m m' := by
  obtain ⟨memory, cpu, display, delayTimer, soundTimer⟩ := m
  obtain ⟨memory', cpu', display', delayTimer', soundTimer'⟩ := m'
  simp only [Machine.seen, Prod.mk.injEq] at h
  obtain ⟨rfl, rfl, rfl⟩ := h
  exact ⟨display', soundTimer', rfl⟩

theorem alikeShown_of_seen {m m' : Machine} (h : m'.seen = m.seen) (hdisplay : m'.display = m.display) :
    AlikeShown m m' := by
  obtain ⟨display, soundTimer, rfl⟩ := alike_of_seen h
  have hsame : display = m.display := hdisplay
  exact ⟨soundTimer, by rw [hsame]⟩

theorem seen_of_alike {m m' : Machine} (h : Alike m m') : m'.seen = m.seen := by
  obtain ⟨display, soundTimer, rfl⟩ := h
  rfl

/-! ## The accesses to the machine -/

theorem writeMemory_hidden (index : Nat) (value : Byte) :
    (m.hidden display soundTimer).writeMemory index value =
      (m.writeMemory index value).map (·.hidden display soundTimer) := by
  unfold Machine.writeMemory
  split <;> rfl

theorem regDumpLoop_hidden (rs : List RegisterIndex) (addr : Address) :
    regDumpLoop rs addr (m.hidden display soundTimer) = (regDumpLoop rs addr m).map (·.hidden display soundTimer) := by
  induction rs generalizing addr m with
  | nil => rfl
  | cons r rest ih =>
    unfold regDumpLoop
    have hregister : (m.hidden display soundTimer).register r = m.register r := rfl
    rw [writeMemory_hidden, hregister]
    cases m.writeMemory addr.toNat (m.register r) with
    | error e => rfl
    | ok m' => exact ih m' (addr + 1)

theorem regLoadLoop_hidden (rs : List RegisterIndex) (addr : Address) :
    regLoadLoop rs addr (m.hidden display soundTimer) = (regLoadLoop rs addr m).map (·.hidden display soundTimer) := by
  induction rs generalizing addr m with
  | nil => rfl
  | cons r rest ih =>
    unfold regLoadLoop
    have hread : (m.hidden display soundTimer).readMemory addr.toNat = m.readMemory addr.toNat := rfl
    rw [hread]
    cases m.readMemory addr.toNat with
    | error e => rfl
    | ok byte => exact ih (m.setRegister r byte) (addr + 1)

theorem storeBcd_hidden (vx : Byte) :
    (m.hidden display soundTimer).storeBcd vx = (m.storeBcd vx).map (·.hidden display soundTimer) := by
  unfold Machine.storeBcd
  have hi : (m.hidden display soundTimer).cpu.i = m.cpu.i := rfl
  rw [hi, writeMemory_hidden]
  cases m.writeMemory m.cpu.i.toNat (BitVec.ofNat 8 (vx.toNat % 1000 / 100)) with
  | error e => rfl
  | ok m₁ =>
    simp only [Except.map, ok_bind]
    rw [writeMemory_hidden]
    cases m₁.writeMemory (m.cpu.i.toNat + 1) (BitVec.ofNat 8 (vx.toNat % 100 / 10)) with
    | error e => rfl
    | ok m₂ => exact writeMemory_hidden m₂ display soundTimer _ _

theorem callTo_hidden (nnn : Address) :
    (m.hidden display soundTimer).callTo nnn = (m.callTo nnn).map (·.hidden display soundTimer) := by
  unfold Machine.callTo cpuStackPush
  by_cases hfull : m.cpu.stackCount ≥ stackCapacity
  · have hfull' : (m.hidden display soundTimer).cpu.stackCount ≥ stackCapacity := hfull
    rw [dif_pos hfull, dif_pos hfull']
    rfl
  · have hfull' : ¬(m.hidden display soundTimer).cpu.stackCount ≥ stackCapacity := hfull
    rw [dif_neg hfull, dif_neg hfull']
    rfl

theorem cpuStackPop_hidden :
    cpuStackPop (m.hidden display soundTimer) =
      (cpuStackPop m).map fun popped => (popped.1, popped.2.hidden display soundTimer) := by
  unfold cpuStackPop
  have hcount : (m.hidden display soundTimer).cpu.stackCount = m.cpu.stackCount := rfl
  rw [hcount]
  split
  · rfl
  · simp only
    split <;> rfl

theorem ret_hidden :
    Instr.exec inp (m.hidden display soundTimer) .ret = (Instr.exec inp m .ret).map (·.hidden display soundTimer) := by
  simp only [Instr.exec]
  rw [cpuStackPop_hidden]
  cases cpuStackPop m with
  | error e => rfl
  | ok popped => rfl

theorem readSprite_hidden (index n : Nat) :
    (m.hidden display soundTimer).readSprite index n = m.readSprite index n := by
  induction n generalizing index with
  | zero => rfl
  | succ n ih =>
    unfold Machine.readSprite
    rw [ih]
    rfl

/-! ## One instruction -/

/-- An instruction other than Dxyn does the same to what is seen, whatever is hidden. -/
theorem exec_alike {i : Instr} (hdraw : ∀ x y n, i ≠ .draw x y n) :
    Matches Alike (i.exec inp m) (i.exec inp (m.hidden display soundTimer)) := by
  have hkeeps : ∀ s, Alike s (s.hidden display soundTimer) := fun s => ⟨display, soundTimer, rfl⟩
  cases i with
  | draw x y n => exact absurd rfl (hdraw x y n)
  | cls => exact .ok ⟨displayClear, soundTimer, rfl⟩
  | setSound x => exact .ok ⟨display, timerSetValue soundTimer (m.register x), rfl⟩
  | ret =>
    rw [ret_hidden]
    exact matches_map hkeeps _
  | sys nnn =>
    simp only [Instr.exec, callTo_hidden]
    exact matches_map hkeeps _
  | call nnn =>
    simp only [Instr.exec, callTo_hidden]
    exact matches_map hkeeps _
  | skip c =>
    have hholds : c.holds inp (m.hidden display soundTimer) = c.holds inp m := by cases c <;> rfl
    simp only [Instr.exec, hholds]
    cases c.holds inp m with
    | true => exact .ok ⟨display, soundTimer, rfl⟩
    | false => exact .ok ⟨display, soundTimer, rfl⟩
  | load x s =>
    have hvalue : s.value inp (m.hidden display soundTimer) x = s.value inp m x := by cases s <;> rfl
    simp only [Instr.exec, hvalue]
    exact .ok ⟨display, soundTimer, rfl⟩
  | arith x a =>
    have hflag : a.flag (m.hidden display soundTimer) x = a.flag m x := by cases a <;> rfl
    have hvalue : a.value (m.hidden display soundTimer) x = a.value m x := by cases a <;> rfl
    simp only [Instr.exec, hflag, hvalue]
    split
    · exact .error _
    · exact .ok ⟨display, soundTimer, rfl⟩
  | waitKey x =>
    simp only [Instr.exec]
    cases keyboardGetPressedKey inp with
    | some key => exact .ok ⟨display, soundTimer, rfl⟩
    | none => exact .ok ⟨display, soundTimer, rfl⟩
  | bcd x =>
    simp only [Instr.exec, storeBcd_hidden]
    exact matches_map hkeeps _
  | dump x =>
    simp only [Instr.exec, regDumpLoop_hidden]
    exact matches_map hkeeps _
  | restore x =>
    simp only [Instr.exec, regLoadLoop_hidden]
    exact matches_map hkeeps _
  | _ => exact .ok ⟨display, soundTimer, rfl⟩

/-- What an instruction other than Dxyn leaves on the display does not depend on the rest of the machine. -/
theorem effect_shown {m m' : Machine} {i : Instr} (h : Effect inp m i m') (hdraw : ∀ x y n, i ≠ .draw x y n) :
    (i = .cls ∧ m'.display = displayClear) ∨ (i ≠ .cls ∧ m'.display = m.display) := by
  cases h with
  | cls => exact Or.inl ⟨rfl, rfl⟩
  | draw sprite => exact absurd rfl (hdraw _ _ _)
  | _ => exact Or.inr ⟨by simp, rfl⟩

/-- A Dxyn with the same display behind it does the same. -/
theorem draw_hidden (x y : RegisterIndex) (n : Byte) :
    Instr.exec inp (m.hidden m.display soundTimer) (.draw x y n) =
      (Instr.exec inp m (.draw x y n)).map fun m' => m'.hidden m'.display soundTimer := by
  simp only [Instr.exec]
  have hi : (m.hidden m.display soundTimer).cpu.i = m.cpu.i := rfl
  rw [readSprite_hidden, hi]
  cases m.readSprite m.cpu.i.toNat n.toNat with
  | error e => rfl
  | ok sprite => rfl

/-- Every instruction does the same to all but the sound timer, whatever the sound timer is. -/
theorem exec_alikeShown (i : Instr) :
    Matches AlikeShown (i.exec inp m) (i.exec inp (m.hidden m.display soundTimer)) := by
  by_cases hdraw : ∃ x y n, i = .draw x y n
  · obtain ⟨x, y, n, rfl⟩ := hdraw
    rw [draw_hidden]
    exact matches_map (fun m' => ⟨soundTimer, rfl⟩) _
  · have hother : ∀ x y n, i ≠ .draw x y n := fun x y n h => hdraw ⟨x, y, n, h⟩
    have hmatch := exec_alike inp m m.display soundTimer hother
    cases hx : i.exec inp m with
    | error e =>
      rw [(hmatch.error_iff e).mp hx]
      exact .error e
    | ok m₁ =>
      rw [hx] at hmatch
      obtain ⟨m₁', hx', halike⟩ := hmatch.of_ok
      rw [hx']
      refine .ok (alikeShown_of_seen (seen_of_alike halike) ?_)
      rcases effect_shown inp (exec_effect hx) hother with ⟨rfl, hshown⟩ | ⟨hne, hshown⟩
      · rcases effect_shown inp (exec_effect hx') hother with ⟨-, hshown'⟩ | ⟨hne, -⟩
        · rw [hshown, hshown']
        · exact absurd rfl hne
      · rcases effect_shown inp (exec_effect hx') hother with ⟨heq, -⟩ | ⟨-, hshown'⟩
        · exact absurd heq hne
        · rw [hshown, hshown']
          rfl

/-! ## One iteration -/

variable {R : Machine → Machine → Prop}

/-- A step matches as the execution of its instruction does. -/
theorem cpuStep_matches
    (hexec : ∀ i, decode (opcodeAt m) = some i →
      Matches R (i.exec inp (cpuPcAdvance m)) (i.exec inp ((cpuPcAdvance m).hidden display soundTimer))) :
    Matches R (cpuStep inp m) (cpuStep inp (m.hidden display soundTimer)) := by
  rcases fetch_cases m with hp | hp | hf
  · have hp' : memorySize ≤ (m.hidden display soundTimer).cpu.pc.toNat := hp
    rw [cpuStep_pcOverflow inp hp, cpuStep_pcOverflow inp hp']
    exact .error _
  · have hp' : (m.hidden display soundTimer).cpu.pc.toNat = 0xFFF := hp
    rw [cpuStep_last_byte inp hp, cpuStep_last_byte inp hp']
    exact .error _
  · have hf' : Fetchable (m.hidden display soundTimer) := hf
    have hop : opcodeAt (m.hidden display soundTimer) = opcodeAt m := rfl
    rw [cpuStep_fetchable inp hf, cpuStep_fetchable inp hf', hop]
    split
    · exact .error _
    · cases hd : decode (opcodeAt m) with
      | none => exact .error _
      | some i => exact hexec i hd

theorem not_draw {m : Machine} (h : ¬Draws m) {i : Instr} (hd : decode (opcodeAt m) = some i) (x y : RegisterIndex)
    (n : Byte) : i ≠ .draw x y n := by
  rintro rfl
  exact h (decode_encodes hd).1

/-- An iteration that executes no Dxyn matches on machines of which the same is seen. -/
theorem iteration_alike {m m' : Machine} (h : Alike m m') (hdraw : ¬Draws m) :
    Matches Alike (machineIteration inp m) (machineIteration inp m') := by
  obtain ⟨display, soundTimer, rfl⟩ := h
  refine cpuStep_matches inp (machineUpdateTimers m inp) display (timerUpdate soundTimer inp.soundTicks) ?_
  intro i hd
  exact exec_alike inp _ _ _ (not_draw hdraw hd)

/-- Every iteration matches on machines that differ in the sound timer at most. -/
theorem iteration_alikeShown {m m' : Machine} (h : AlikeShown m m') :
    Matches AlikeShown (machineIteration inp m) (machineIteration inp m') := by
  obtain ⟨soundTimer, rfl⟩ := h
  refine cpuStep_matches inp (machineUpdateTimers m inp) m.display (timerUpdate soundTimer inp.soundTicks) ?_
  intro i hd
  exact exec_alikeShown inp (cpuPcAdvance (machineUpdateTimers m inp)) _ i

end NoninterferenceAux

open NoninterferenceAux

/-- What a run does not depend on. Of two machines that differ in the sound timer at most, every run of the one is followed
by a run of the other on the same inputs that executes the same instructions and ends in the same memory, registers, stack,
delay timer and display, and from there the two stop for the same reasons. If the displays differ too, the same holds, the
display apart, of every run whose iterations, and the one after it, execute no Dxyn. -/
theorem sound_and_display_unseen (m₀ m₀' : Machine) (h₀ : m₀'.seen = m₀.seen) (inputs : List Input)
    (history : List Executed) (m : Machine) (r : Run m₀ inputs history m) (next : Input) :
    (m₀'.display = m₀.display →
      ∃ m', Run m₀' inputs history m' ∧ m'.seen = m.seen ∧ m'.display = m.display ∧
        ∀ e, machineIteration next m = .error e ↔ machineIteration next m' = .error e) ∧
    ((EveryIteration m₀ (inputs ++ [next]) fun _ m => ¬Draws m) →
      ∃ m', Run m₀' inputs history m' ∧ m'.seen = m.seen ∧
        ∀ e, machineIteration next m = .error e ↔ machineIteration next m' = .error e) := by
  constructor
  · intro hdisplay
    have halong : EveryIteration m₀ inputs fun _ _ => True := fun _ _ _ _ _ _ _ => trivial
    obtain ⟨m', r', soundTimer, rfl⟩ := halong.lockstep (R := AlikeShown) (fun _ s t h => by obtain ⟨_, rfl⟩ := h; rfl)
      (fun i s t h _ => iteration_alikeShown i h) (alikeShown_of_seen h₀ hdisplay) (List.append_nil inputs).symm r
    exact ⟨_, r', rfl, rfl, (iteration_alikeShown next ⟨soundTimer, rfl⟩).error_iff⟩
  · intro hdraw
    obtain ⟨m', r', halike⟩ := hdraw.lockstep (R := Alike) (fun _ s t h => by obtain ⟨_, _, rfl⟩ := h; rfl)
      (fun i s t h hnot => iteration_alike i h hnot) (alike_of_seen h₀) rfl r
    have hlast : ¬Draws m := hdraw inputs next [] history m rfl r
    exact ⟨m', r', seen_of_alike halike, (iteration_alike next halike hlast).error_iff⟩

/-- A ROM of one jump to itself, with the sound timer running and with a pixel set. -/
theorem sound_and_display_unseen_jump :
    ∃ m₀ m, machineBoot [0x12, 0x00] 0 0 = .ok m₀ ∧ Run m₀ [idleInput] [(0x200#16, 0x1200#16)] m ∧
      ∃ m', Run (m₀.hidden (fun _ _ => true) ⟨0, 9⟩) [idleInput] [(0x200#16, 0x1200#16)] m' ∧ m'.seen = m.seen := by
  obtain ⟨m₀, m, hboot, hop, hpc, hstep, hpc', hop'⟩ : ∃ m₀ m, machineBoot [0x12, 0x00] 0 0 = .ok m₀ ∧
      opcodeAt m₀ = 0x1200#16 ∧ m₀.cpu.pc = 0x200#16 ∧ machineIteration idleInput m₀ = .ok m ∧ m.cpu.pc = 0x200#16 ∧
      opcodeAt m = 0x1200#16 :=
    ⟨_, _, rfl, rfl, rfl, rfl, rfl, rfl⟩
  have hx : executedAt idleInput m₀ = (0x200#16, 0x1200#16) := by
    unfold executedAt
    rw [hop, hpc]
  have r : Run m₀ [idleInput] [(0x200#16, 0x1200#16)] m := by
    rw [← hx]
    exact .next idleInput .start hstep
  have hdraw : EveryIteration m₀ ([idleInput] ++ [idleInput]) fun _ m => ¬Draws m := by
    refine Along.cons ?_ fun m₁ hstep₁ => Along.cons ?_ fun _ _ => Along.nil
    · unfold Draws
      rw [hop]
      decide
    · unfold Draws
      rw [Except.ok.inj (hstep₁.symm.trans hstep), hop']
      decide
  obtain ⟨m', r', hseen, -⟩ := (sound_and_display_unseen m₀ (m₀.hidden (fun _ _ => true) ⟨0, 9⟩) rfl [idleInput] _ m r
    idleInput).2 hdraw
  exact ⟨m₀, m, hboot, r, m', r', hseen⟩

end CLangExamples.Emulator
