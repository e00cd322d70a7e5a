import CLangExamples.Lemmas.Display
import CLangExamples.Lemmas.Exec
import CLangExamples.Lemmas.Decode
import Mathlib.Algebra.GroupWithZero.Nat

/-!
# The display

A draw is an XOR with the bits of the sprite, around the edges, so a sequence of draws leaves at each pixel the parity of
the draws that set it. The flag of a draw does not tell that a pixel was erased: the source compares the bit of the sprite
the wrong way round.
-/

namespace CLangExamples.Emulator

/-- A call of `display_draw_sprite`: the position and the bytes of the sprite, at most the 15 that Dxyn can pass. -/
structure Draw where
  x : Byte
  y : Byte
  bytes : List Byte
  length_le : bytes.length ≤ 15

/-- The call, on a display. -/
def Draw.draw (d : Draw) (buffer : Buffer) : Buffer × Bool := displayDrawSprite buffer d.x d.y d.bytes

/-- The sprite has a set bit at the pixel. -/
def Draw.sets (d : Draw) (a : Fin displayWidth) (b : Fin displayHeight) : Bool :=
  spriteBit d.x d.y d.bytes a b == some true

/-- The draws of a list, in order. -/
def drawAll (draws : List Draw) (buffer : Buffer) : Buffer := draws.foldl (fun buffer d => (d.draw buffer).1) buffer

/-- Some pixel was on before and is off after. -/
def Erases (before after : Buffer) : Prop := ∃ a b, before a b = true ∧ after a b = false

/-- Some pixel that is on lies under a bit of the sprite with the value `v`. -/
def OnUnder (buffer : Buffer) (x y : Byte) (sprite : List Byte) (v : Bool) : Prop :=
  ∃ a b, buffer a b = true ∧ spriteBit x y sprite a b = some v

namespace DisplayAux

theorem draw_pixel (d : Draw) (buffer : Buffer) (a : Fin displayWidth) (b : Fin displayHeight) :
    (d.draw buffer).1 a b = (buffer a b ^^ d.sets a b) :=
  displayDrawSprite_pixel buffer d.x d.y (le_trans d.length_le (by decide)) a b

/-- A draw erases a pixel when a pixel that is on lies under a set bit. -/
theorem erases_iff (buffer : Buffer) (x y : Byte) {sprite : List Byte} (h : sprite.length ≤ displayHeight) :
    Erases buffer (displayDrawSprite buffer x y sprite).1 ↔ OnUnder buffer x y sprite true := by
  constructor
  · rintro ⟨a, b, hon, hoff⟩
    rw [displayDrawSprite_pixel buffer x y h, hon] at hoff
    exact ⟨a, b, hon, by simpa using hoff⟩
  · rintro ⟨a, b, hon, hbit⟩
    refine ⟨a, b, hon, ?_⟩
    rw [displayDrawSprite_pixel buffer x y h, hon, hbit]
    rfl

/-- The flag agrees with the erasure exactly when the pixels under clear bits agree with those under set bits. -/
theorem flag_erases_iff (buffer : Buffer) (x y : Byte) {sprite : List Byte} (h : sprite.length ≤ displayHeight) :
    ((displayDrawSprite buffer x y sprite).2 = true ↔ Erases buffer (displayDrawSprite buffer x y sprite).1) ↔
      (OnUnder buffer x y sprite false ↔ OnUnder buffer x y sprite true) := by
  rw [displayDrawSprite_flag buffer x y h, erases_iff buffer x y h]
  rfl

theorem length_readSprite {m : Machine} {index n : Nat} {sprite : List Byte} (h : m.readSprite index n = .ok sprite) :
    sprite.length = n := by
  induction n generalizing index sprite with
  | zero =>
    cases h
    rfl
  | succ n ih =>
    unfold Machine.readSprite at h
    obtain ⟨byte, -, h⟩ := Transition.bind_eq_ok h
    obtain ⟨rest, hrest, h⟩ := Transition.bind_eq_ok h
    cases h
    rw [List.length_cons, ih hrest]

theorem const4bit_le (opcode : Word) : (opcodeDecodeConst4bit opcode).toNat ≤ 15 := by
  have hlt := nibble_lt opcode 0
  rw [BitVec.ushiftRight_zero] at hlt
  have hle : (opcodeDecodeConst4bit opcode).toNat ≤ (opcode &&& 0x000F#16).toNat := by
    unfold opcodeDecodeConst4bit
    rw [BitVec.toNat_setWidth]
    exact Nat.mod_le _ _
  omega

/-- The flag that Dxyn leaves in VF. -/
theorem drawn_vf (m : Machine) (x y : RegisterIndex) (sprite : List Byte) :
    (m.drawn x y sprite).register vf = 1 ↔
      (displayDrawSprite m.display (m.register x) (m.register y) sprite).2 = true := by
  unfold Machine.drawn
  rw [setFlag_register_vf]
  cases (displayDrawSprite m.display (m.register x) (m.register y) sprite).2 <;> decide

theorem drawAll_cons (d : Draw) (draws : List Draw) (buffer : Buffer) :
    drawAll (d :: draws) buffer = drawAll draws (d.draw buffer).1 := rfl

/-- At each pixel a sequence of draws leaves the parity of the draws that set it. -/
theorem drawAll_pixel (draws : List Draw) (buffer : Buffer) (a : Fin displayWidth) (b : Fin displayHeight) :
    drawAll draws buffer a b = (buffer a b ^^ decide (draws.countP (fun d => d.sets a b) % 2 = 1)) := by
  induction draws generalizing buffer with
  | nil => simp [drawAll]
  | cons d draws ih =>
    rw [drawAll_cons, ih, draw_pixel, List.countP_cons, Bool.xor_assoc]
    congr 1
    cases d.sets a b
    · simp
    · rcases Nat.mod_two_eq_zero_or_one (draws.countP (fun d => d.sets a b)) with h | h <;> simp [Nat.add_mod, h]

end DisplayAux

open DisplayAux

/-- Sprites are XORed with wrap-around: the final value of a pixel is its initial value XOR the parity of the draws that
have a set bit there. The order of the draws does not matter, and drawing the same sprite twice restores the buffer. -/
theorem draws_xor_parity (draws : List Draw) (buffer : Buffer) :
    (∀ a b, drawAll draws buffer a b = (buffer a b ^^ decide (draws.countP (fun d => d.sets a b) % 2 = 1))) ∧
      (∀ draws', draws.Perm draws' → drawAll draws buffer = drawAll draws' buffer) ∧
      ∀ d, drawAll (d :: d :: draws) buffer = drawAll draws buffer := by
  refine ⟨drawAll_pixel draws buffer, ?_, ?_⟩
  · intro draws' hperm
    funext a b
    rw [drawAll_pixel, drawAll_pixel, hperm.countP_eq]
  · intro d
    rw [drawAll_cons, drawAll_cons]
    congr 1
    funext a b
    rw [draw_pixel, draw_pixel, Bool.xor_assoc, Bool.xor_self, Bool.xor_false]

/-- The flag of a draw tells whether a pixel was erased exactly when a pixel that is on lies under a clear bit of the
sprite just in case one lies under a set bit; the same for the VF that Dxyn leaves. -/
theorem draw_flag_tells_erasure_iff (buffer : Buffer) :
    (∀ d : Draw, ((d.draw buffer).2 = true ↔ Erases buffer (d.draw buffer).1) ↔
      (OnUnder buffer d.x d.y d.bytes false ↔ OnUnder buffer d.x d.y d.bytes true)) ∧
    ∀ (inp : Input) (m : Machine) (opcode : Word) (sprite : List Byte), m.display = buffer →
      opcode &&& 0xF000#16 = 0xD000#16 →
      m.readSprite m.cpu.i.toNat (opcodeDecodeConst4bit opcode).toNat = .ok sprite →
      ∃ m', cpuDecodeAndExecOpcode inp m opcode = .ok m' ∧
        ((m'.register vf = 1 ↔ Erases buffer m'.display) ↔
          (OnUnder buffer (m.register (opcodeDecodeRegisterX opcode)) (m.register (opcodeDecodeRegisterY opcode))
              sprite false ↔
            OnUnder buffer (m.register (opcodeDecodeRegisterX opcode)) (m.register (opcodeDecodeRegisterY opcode))
              sprite true)) := by
  constructor
  · intro d
    exact flag_erases_iff buffer d.x d.y (le_trans d.length_le (by decide))
  · rintro inp m opcode sprite rfl hop hsprite
    have hlen : sprite.length ≤ displayHeight := by
      rw [length_readSprite hsprite]
      exact le_trans (const4bit_le opcode) (by decide)
    refine ⟨m.drawn (opcodeDecodeRegisterX opcode) (opcodeDecodeRegisterY opcode) sprite, ?_, ?_⟩
    · rw [cpuDecodeAndExecOpcode_eq, decode_draw hop, Option.elim_some, Instr.exec, hsprite]
      rfl
    · rw [drawn_vf]
      exact flag_erases_iff m.display _ _ hlen

/-- A sprite of one set bit drawn on the one pixel that is on erases it, and the flag is not returned. -/
theorem draw_flag_misses_erasure :
    ¬∀ (d : Draw) (buffer : Buffer), (d.draw buffer).2 = true ↔ Erases buffer (d.draw buffer).1 := by
  intro h
  have hflag := (h ⟨0, 0, [0x80], by decide⟩ (fun a b => a == 0 && b == 0)).2 ⟨0, 0, rfl, rfl⟩
  exact absurd hflag (by decide)

end CLangExamples.Emulator
