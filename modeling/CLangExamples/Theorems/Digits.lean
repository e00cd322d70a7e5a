import CLangExamples.Lemmas.Display
import CLangExamples.Lemmas.Footprint

/-!
# Showing a digit

A Chip-8 program shows a digit with an Fx29, which points `I` to its sprite in the font, and a Dxy5 behind it. The font lies
in the first 80 bytes of the memory, where nothing protects it; as long as the program has not stored there, the digit that
is drawn is the one of the font.
-/

namespace CLangExamples.Emulator

open Transition

/-- The sprite of a hexadecimal digit: its five bytes of the font. -/
def fontSprite (digit : Fin 16) : List Byte := (fontSprites.drop (fontSpriteSize * digit.val)).take fontSpriteSize

/-- The word behind the instruction at `pc`. -/
def nextWord (m : Machine) : Word := wordOfBytes (m.cell (m.cpu.pc.toNat + 2)) (m.cell (m.cpu.pc.toNat + 3))

namespace DigitsAux

variable {inp : Input} {m m₀ m₁ : Machine}

theorem word_low_zero : ∀ b : Byte, wordOfBytes b 0 &&& 0x00FF#16 = 0 := by decide

/-- An opcode whose last byte is not zero lies in the memory. -/
theorem fetchable_of_low {mask pattern : Word} (h : opcodeAt m &&& mask = pattern) (hlow : pattern &&& 0x00FF#16 ≠ 0) :
    Fetchable m ∧ opcodeAt m ≠ 0 := by
  have hne : opcodeAt m &&& 0x00FF#16 ≠ 0 := by
    intro hzero
    apply hlow
    rw [← h, BitVec.and_assoc, BitVec.and_comm mask, ← BitVec.and_assoc, hzero]
    exact BitVec.zero_and
  refine ⟨?_, fun hzero => hne (by rw [hzero]; exact BitVec.zero_and)⟩
  by_contra hnot
  apply hne
  have hcell : m.cell (m.cpu.pc.toNat + 1) = 0 := cell_of_ge m hnot
  unfold opcodeAt
  rw [hcell]
  exact word_low_zero _

/-! ## The font -/

/-- The font is in the memory of a machine that is booted. -/
theorem font_of_boot {rom : List Byte} {delayNow soundNow : BitVec 64} (h : machineBoot rom delayNow soundNow = .ok m₀)
    {j : Nat} (hj : j < fontSprites.length) : m₀.cell j = fontSprites[j] := by
  have hlen : fontSprites.length = 80 := rfl
  have hlt : j < memorySize := by
    have hmemory : memorySize = 4096 := rfl
    omega
  obtain ⟨m, hload, hstart⟩ := bind_eq_ok h
  unfold machineLoadRom at hload
  split at hload
  · cases hload
  · have hmem : m₀.memory = memcpy (memcpy memoryInit memoryProgramStartingAddress (List.replicate programMaxSize 0))
        memoryProgramStartingAddress rom := by rw [← Except.ok.inj hstart, ← Except.ok.inj hload]; rfl
    have hlow : ¬memoryProgramStartingAddress ≤ j := by
      have hprogram : memoryProgramStartingAddress = 512 := rfl
      omega
    rw [cell_of_lt m₀ hlt, hmem, memcpy_of_not_mem _ _ _ _ (fun h => hlow h.1),
      memcpy_of_not_mem _ _ _ _ (fun h => hlow h.1)]
    exact memcpy_of_mem _ _ _ _ j hj (Nat.zero_add j).symm

/-- The bytes of a sprite that lies in the memory. -/
theorem readSprite_eq (m : Machine) (index n : Nat) (h : index + n ≤ memorySize) :
    m.readSprite index n = .ok ((List.range' index n).map m.cell) := by
  induction n generalizing index with
  | zero => rfl
  | succ n ih =>
    unfold Machine.readSprite
    rw [readMemory_of_lt m (by omega), ih (index + 1) (by omega), List.range'_succ, List.map_cons,
      cell_of_lt m (show index < memorySize by omega)]
    rfl

theorem fontSprite_eq : ∀ digit : Fin 16,
    (List.range' (fontSpriteSize * digit.val) fontSpriteSize).map (fun j => fontSprites[j]?.getD 0) = fontSprite digit := by
  decide

/-- The sprite of a digit lies in the font. -/
theorem fontSprite_le : ∀ digit : Fin 16, fontSpriteSize * digit.val + fontSpriteSize ≤ fontSprites.length := by decide

theorem spriteAddress_digit : ∀ digit : Fin 16,
    (BitVec.ofNat 16 (fontMemAddress + digit.val * fontSpriteSize)).toNat = fontSpriteSize * digit.val := by
  decide

/-- Fx29 finds the sprite of a digit. -/
theorem toNat_spriteAddress {value : Byte} {digit : Fin 16} (h : value.toNat = digit.val) :
    (memoryAddressFromSpriteValue value).toNat = fontSpriteSize * digit.val := by
  unfold memoryAddressFromSpriteValue
  rw [h]
  exact spriteAddress_digit digit

/-- Where the font is in the memory, the sprite of a digit is read from its address. -/
theorem readSprite_font (hfont : ∀ j (hj : j < fontSprites.length), m.cell j = fontSprites[j]) (digit : Fin 16) :
    m.readSprite (fontSpriteSize * digit.val) fontSpriteSize = .ok (fontSprite digit) := by
  have hle := fontSprite_le digit
  have hlen : fontSprites.length = 80 := rfl
  have hmemory : memorySize = 4096 := rfl
  rw [readSprite_eq m _ _ (by omega), ← fontSprite_eq]
  refine congrArg Except.ok (List.map_congr_left ?_)
  intro j hj
  rw [List.mem_range'_1] at hj
  rw [hfont j (by omega), List.getElem?_eq_getElem (by omega), Option.getD_some]

/-! ## The two instructions -/

/-- Fx29 points `I` to the sprite and goes on to the next instruction. -/
theorem iteration_sprite (inp : Input) (hop : opcodeAt m &&& 0xF0FF#16 = 0xF029#16) :
    Fetchable m ∧ machineIteration inp m = .ok ((cpuPcAdvance (machineUpdateTimers m inp)).setI
      (memoryAddressFromSpriteValue (m.register (opcodeDecodeRegisterX (opcodeAt m))))) := by
  obtain ⟨hfetch, hne⟩ := fetchable_of_low hop (by decide)
  have hd : decode (opcodeAt (machineUpdateTimers m inp)) = some (.sprite (opcodeDecodeRegisterX (opcodeAt m))) :=
    decode_of_high_row ⟨0xF0FF#16, 0xF029#16, fun op => .sprite (opcodeDecodeRegisterX op)⟩ (by simp [rows]) (by decide) hop
  refine ⟨hfetch, ?_⟩
  exact cpuStep_eq_exec inp (m := machineUpdateTimers m inp) hfetch hne hd

/-- The parts of an opcode Dxy5. -/
theorem draw_five {opcode : Word} (h : opcode &&& 0xF00F#16 = 0xD005#16) :
    opcode &&& 0xF000#16 = 0xD000#16 ∧ opcodeDecodeConst4bit opcode = 5 := by
  have hlow : opcode &&& 0x000F#16 = 0x0005#16 := by
    have hmask := congrArg (· &&& 0x000F#16) h
    simp only [BitVec.and_assoc] at hmask
    exact hmask
  refine ⟨FrameAux.top_nibble h, ?_⟩
  unfold opcodeDecodeConst4bit
  rw [hlow]
  rfl

/-- Dxy5 with `I` on a digit of the font draws that digit. -/
theorem iteration_draw (inp : Input) (hop : opcodeAt m &&& 0xF00F#16 = 0xD005#16) {digit : Fin 16}
    (hi : m.cpu.i.toNat = fontSpriteSize * digit.val)
    (hfont : ∀ j (hj : j < fontSprites.length), m.cell j = fontSprites[j]) :
    ∃ m', machineIteration inp m = .ok m' ∧
      m'.display = (displayDrawSprite m.display (m.register (opcodeDecodeRegisterX (opcodeAt m)))
        (m.register (opcodeDecodeRegisterY (opcodeAt m))) (fontSprite digit)).1 := by
  obtain ⟨hfetch, hne⟩ := fetchable_of_low hop (by decide)
  obtain ⟨htop, hfive⟩ := draw_five hop
  have hd := decode_draw htop
  rw [hfive] at hd
  have hsprite : (cpuPcAdvance (machineUpdateTimers m inp)).readSprite m.cpu.i.toNat (5 : Byte).toNat =
      .ok (fontSprite digit) := by
    rw [hi]
    exact readSprite_font (m := cpuPcAdvance (machineUpdateTimers m inp)) hfont digit
  have hstep := cpuStep_eq_exec inp (m := machineUpdateTimers m inp) hfetch hne hd
  have hexec : Instr.exec inp (cpuPcAdvance (machineUpdateTimers m inp))
      (.draw (opcodeDecodeRegisterX (opcodeAt m)) (opcodeDecodeRegisterY (opcodeAt m)) 5) =
      .ok ((cpuPcAdvance (machineUpdateTimers m inp)).drawn (opcodeDecodeRegisterX (opcodeAt m))
        (opcodeDecodeRegisterY (opcodeAt m)) (fontSprite digit)) := by
    simp only [Instr.exec]
    have hi' : (cpuPcAdvance (machineUpdateTimers m inp)).cpu.i = m.cpu.i := rfl
    rw [hi', hsprite]
    rfl
  exact ⟨_, hstep.trans hexec, rfl⟩

end DigitsAux

open DigitsAux

/-- A digit of the font is drawn as it is. Boot a ROM and let a run follow in which no iteration stores to the 80 bytes of
the font. If the run stands at an Fx29 whose register holds a digit `d` from 0 to 15, with a Dxy5 behind it, then the next
two iterations do not halt, and the display after them is the one before, with the pixels of the sprite of `d` at Vx, Vy
flipped and all others as they were. -/
theorem font_digit_is_drawn (rom : List Byte) (delayNow soundNow : BitVec 64) (m₀ : Machine)
    (hboot : machineBoot rom delayNow soundNow = .ok m₀) (inputs : List Input) (history : List Executed) (m : Machine)
    (r : Run m₀ inputs history m)
    (hkeeps : ∀ j < fontSprites.length, EveryIteration m₀ inputs fun _ m => ¬StoresTo m j)
    (hop : opcodeAt m &&& 0xF0FF#16 = 0xF029#16) (hdraw : nextWord m &&& 0xF00F#16 = 0xD005#16) (digit : Fin 16)
    (hdigit : (m.register (opcodeDecodeRegisterX (opcodeAt m))).toNat = digit.val) (inp inp' : Input) :
    ∃ m₁ m₂, machineIteration inp m = .ok m₁ ∧ machineIteration inp' m₁ = .ok m₂ ∧
      ∀ a b, m₂.display a b = (m.display a b ^^
        (spriteBit (m.register (opcodeDecodeRegisterX (nextWord m))) (m.register (opcodeDecodeRegisterY (nextWord m)))
          (fontSprite digit) a b == some true)) := by
  have hfont : ∀ j (hj : j < fontSprites.length), m.cell j = fontSprites[j] := by
    intro j hj
    rw [cell_run (hkeeps j hj) (List.append_nil inputs).symm r, font_of_boot hboot hj]
  obtain ⟨hfetch, hfirst⟩ := iteration_sprite inp hop
  generalize hm₁ : (cpuPcAdvance (machineUpdateTimers m inp)).setI
      (memoryAddressFromSpriteValue (m.register (opcodeDecodeRegisterX (opcodeAt m)))) = m₁ at hfirst
  have hpc : m₁.cpu.pc.toNat = m.cpu.pc.toNat + 2 := by
    have hlt : m.cpu.pc.toNat + 1 < 4096 := hfetch
    have htwo : (2 : Address).toNat = 2 := rfl
    rw [← hm₁]
    show (m.cpu.pc + 2).toNat = _
    rw [BitVec.toNat_add, htwo]
    omega
  have hcell : ∀ j, m₁.cell j = m.cell j := by
    intro j
    rw [← hm₁]
    rfl
  have hnext : opcodeAt m₁ = nextWord m := by
    unfold opcodeAt nextWord
    rw [hpc, hcell, hcell]
  have hi : m₁.cpu.i.toNat = fontSpriteSize * digit.val := by
    rw [← hm₁]
    exact toNat_spriteAddress hdigit
  obtain ⟨m₂, hsecond, hdisplay⟩ := iteration_draw inp' (by rw [hnext]; exact hdraw) hi
    (fun j hj => (hcell j).trans (hfont j hj))
  refine ⟨m₁, m₂, hfirst, hsecond, ?_⟩
  intro a b
  have hshort : (fontSprite digit).length ≤ displayHeight := by
    unfold fontSprite
    rw [List.length_take]
    exact Nat.le_trans (Nat.min_le_left _ _) (by decide)
  rw [hdisplay, displayDrawSprite_pixel _ _ _ hshort, hnext, ← hm₁]
  rfl

/-- The ROM `F0 29 D0 15` shows the digit in V0, a zero, at V0, V1. -/
theorem font_digit_is_drawn_zero :
    ∃ m₀ m₁ m₂, machineBoot [0xF0, 0x29, 0xD0, 0x15] 0 0 = .ok m₀ ∧ machineIteration idleInput m₀ = .ok m₁ ∧
      machineIteration idleInput m₁ = .ok m₂ ∧
      ∀ a b, m₂.display a b = (m₀.display a b ^^
        (spriteBit (m₀.register (opcodeDecodeRegisterX (nextWord m₀))) (m₀.register (opcodeDecodeRegisterY (nextWord m₀)))
          (fontSprite 0) a b == some true)) := by
  obtain ⟨m₀, hboot, hop, hdraw, hdigit⟩ : ∃ m₀, machineBoot [0xF0, 0x29, 0xD0, 0x15] 0 0 = .ok m₀ ∧
      opcodeAt m₀ = 0xF029#16 ∧ nextWord m₀ = 0xD015#16 ∧
      (m₀.register (opcodeDecodeRegisterX (opcodeAt m₀))).toNat = (0 : Fin 16).val :=
    ⟨_, rfl, rfl, rfl, rfl⟩
  obtain ⟨m₁, m₂, hfirst, hsecond, hdisplay⟩ := font_digit_is_drawn _ 0 0 m₀ hboot [] [] m₀ .start
    (fun _ _ => Along.nil) (by rw [hop]; decide) (by rw [hdraw]; decide) 0 hdigit idleInput idleInput
  exact ⟨m₀, m₁, m₂, hboot, hfirst, hsecond, hdisplay⟩

end CLangExamples.Emulator
