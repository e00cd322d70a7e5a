import CLangExamples.Emulator.Cpu
import CLangExamples.Lib.InPlace
import CLangExamples.Lib.Ring

/-!
# Drawing a sprite

`display_draw_sprite` is one pass in place over the pixels of an 8 x n rectangle that goes around the edges of the display.
A sprite of at most 32 rows meets no pixel twice, so the buffer it leaves and the flag it returns are functions of the
buffer before the call and of the bit that the sprite has at each pixel (`spriteBit`).
-/

namespace CLangExamples.Emulator

open Ring InPlace

/-! ## What a sprite has at a pixel -/

/-- The column of a sprite drawn at `x` that falls on column `a` of the display: `(a - x) mod 64`. -/
def spriteColumn (x : Byte) (a : Fin displayWidth) : Nat := (((a.val : Int) - x.toNat) % 64).toNat

/-- The row of a sprite drawn at `y` that falls on row `b` of the display: `(b - y) mod 32`. -/
def spriteRow (y : Byte) (b : Fin displayHeight) : Nat := (((b.val : Int) - y.toNat) % 32).toNat

/-- The bit that a sprite drawn at `x`, `y` has at a pixel; none outside its rectangle. Bit 7 is the leftmost. -/
def spriteBit (x y : Byte) (sprite : List Byte) (a : Fin displayWidth) (b : Fin displayHeight) : Option Bool :=
  if spriteColumn x a < 8 then (sprite[spriteRow y b]?).map (fun byte => byte.getLsbD (7 - spriteColumn x a)) else none

theorem spriteBit_eq_some (x y : Byte) (sprite : List Byte) (a : Fin displayWidth) (b : Fin displayHeight) (v : Bool) :
    spriteBit x y sprite a b = some v ↔
      spriteColumn x a < 8 ∧ ∃ byte, sprite[spriteRow y b]? = some byte ∧ byte.getLsbD (7 - spriteColumn x a) = v := by
  unfold spriteBit
  by_cases hc : spriteColumn x a < 8
  · rw [if_pos hc, Option.map_eq_some_iff, and_iff_right hc]
  · rw [if_neg hc]
    constructor
    · intro h
      cases h
    · rintro ⟨h, -⟩
      exact absurd h hc

theorem bitIsSet_eq_getLsbD (num : Byte) (bitOrder : Nat) : bitIsSet num bitOrder = num.getLsbD bitOrder := by
  have hpow : 1#8 <<< bitOrder = BitVec.twoPow 8 bitOrder := BitVec.twoPow_eq 8 bitOrder ▸ rfl
  unfold bitIsSet
  rw [hpow, BitVec.and_twoPow]
  cases hb : num.getLsbD bitOrder
  · rfl
  · have hlt : bitOrder < 8 := BitVec.lt_of_getLsbD hb
    have hne : BitVec.twoPow 8 bitOrder ≠ 0#8 := by
      intro h
      have hbit := congrArg (fun n => BitVec.getLsbD n bitOrder) h
      simp [hlt] at hbit
    simpa using hne

namespace DisplayAux

/-! ## The writes of a draw -/

/-- The pixels of the display. -/
abbrev Cell : Type := Fin displayWidth × Fin displayHeight

instance displayWidth_neZero : NeZero displayWidth := ⟨by decide⟩

instance displayHeight_neZero : NeZero displayHeight := ⟨by decide⟩

/-- The writes of the inner loop, for the bits from `n - 1` down. -/
def bitWrites (column : Fin displayWidth) (row : Fin displayHeight) (spriteByte : Byte) : Nat → List (Cell × Bool)
  | 0 => []
  | bit + 1 => ((walk column (7 - bit), row), bitIsSet spriteByte bit) :: bitWrites column row spriteByte bit

/-- The writes of the outer loop. -/
def spriteWrites (column : Fin displayWidth) : Fin displayHeight → List Byte → List (Cell × Bool)
  | _, [] => []
  | row, spriteByte :: rest => bitWrites column row spriteByte 8 ++ spriteWrites column (walk row 1) rest

theorem mem_bitWrites (column : Fin displayWidth) (row : Fin displayHeight) (spriteByte : Byte) (n : Nat)
    (w : Cell × Bool) : w ∈ bitWrites column row spriteByte n ↔
      ∃ bit < n, w = ((walk column (7 - bit), row), bitIsSet spriteByte bit) := by
  induction n with
  | zero => simp [bitWrites]
  | succ n ih =>
    rw [bitWrites, List.mem_cons, ih]
    constructor
    · rintro (rfl | ⟨bit, hbit, rfl⟩)
      · exact ⟨n, by omega, rfl⟩
      · exact ⟨bit, by omega, rfl⟩
    · rintro ⟨bit, hbit, rfl⟩
      rcases Nat.lt_succ_iff_lt_or_eq.1 hbit with hlt | rfl
      · exact Or.inr ⟨bit, hlt, rfl⟩
      · exact Or.inl rfl

theorem mem_spriteWrites (column : Fin displayWidth) (row : Fin displayHeight) (sprite : List Byte) (w : Cell × Bool) :
    w ∈ spriteWrites column row sprite ↔ ∃ r byte, sprite[r]? = some byte ∧
      ∃ bit < 8, w = ((walk column (7 - bit), walk row r), bitIsSet byte bit) := by
  induction sprite generalizing row with
  | nil => simp [spriteWrites]
  | cons spriteByte rest ih =>
    rw [spriteWrites, List.mem_append, ih, mem_bitWrites]
    constructor
    · rintro (⟨bit, hbit, rfl⟩ | ⟨r, byte, hr, bit, hbit, rfl⟩)
      · exact ⟨0, spriteByte, rfl, bit, hbit, by rw [walk_zero]⟩
      · exact ⟨r + 1, byte, hr, bit, hbit, by rw [walk_walk, Nat.add_comm]⟩
    · rintro ⟨r, byte, hr, bit, hbit, rfl⟩
      cases r with
      | zero =>
        obtain rfl : spriteByte = byte := by simpa using hr
        exact Or.inl ⟨bit, hbit, by rw [walk_zero]⟩
      | succ r => exact Or.inr ⟨r, byte, hr, bit, hbit, by rw [walk_walk, Nat.add_comm]⟩

/-- The eight bits of a byte fall on eight pixels. -/
theorem nodup_bitWrites (column : Fin displayWidth) (row : Fin displayHeight) (spriteByte : Byte) {n : Nat} (hn : n ≤ 8) :
    ((bitWrites column row spriteByte n).map Prod.fst).Nodup := by
  induction n with
  | zero => exact List.nodup_nil
  | succ n ih =>
    rw [bitWrites, List.map_cons, List.nodup_cons]
    refine ⟨?_, ih (by omega)⟩
    intro h
    obtain ⟨w, hw, hcell⟩ := List.mem_map.1 h
    obtain ⟨bit, hbit, rfl⟩ := (mem_bitWrites column row spriteByte n w).1 hw
    have hcol : walk column (7 - bit) = walk column (7 - n) := congrArg Prod.fst hcell
    exact walk_ne (i := column) (show 7 - n < 7 - bit by omega) (by show 7 - bit < 64; omega) hcol.symm

/-- A sprite of at most 32 rows meets no pixel twice. -/
theorem nodup_spriteWrites (column : Fin displayWidth) (row : Fin displayHeight) (sprite : List Byte)
    (h : sprite.length ≤ displayHeight) : ((spriteWrites column row sprite).map Prod.fst).Nodup := by
  induction sprite generalizing row with
  | nil => exact List.nodup_nil
  | cons spriteByte rest ih =>
    rw [List.length_cons] at h
    rw [spriteWrites, List.map_append, List.nodup_append]
    refine ⟨nodup_bitWrites column row spriteByte (le_refl 8), ih (walk row 1) (by omega), ?_⟩
    intro p hp q hq hpq
    obtain ⟨w, hw, rfl⟩ := List.mem_map.1 hp
    obtain ⟨w', hw', rfl⟩ := List.mem_map.1 hq
    obtain ⟨bit, -, rfl⟩ := (mem_bitWrites column row spriteByte 8 w).1 hw
    obtain ⟨r, byte, hr, bit', -, rfl⟩ := (mem_spriteWrites column (walk row 1) rest w').1 hw'
    -- the rows below are at most 31 steps away and never come back to this one
    have hlen : r < rest.length := (List.getElem?_eq_some_iff.1 hr).1
    have hrow : row = walk (walk row 1) r := congrArg Prod.snd hpq
    rw [walk_walk] at hrow
    exact walk_ne (i := row) (show 0 < 1 + r by omega) (by omega) (by rw [walk_zero]; exact hrow)

/-! ## The draw is the pass -/

/-- The buffer as one array of pixels, with the flag. -/
def flat (s : Buffer × Bool) : (Cell → Bool) × Bool := (Function.uncurry s.1, s.2)

/-- When the source raises its flag: the pixel is on and the bit of the sprite is clear. -/
def raisesFlag (pixel newPixel : Bool) : Bool := pixel && !newPixel

theorem flat_xorPixel (buffer : Buffer) (flag : Bool) (x : Fin displayWidth) (y : Fin displayHeight) (v : Bool) :
    flat (buffer.xorPixel x y v, raisesFlag (buffer x y) v || flag) =
      write Bool.xor raisesFlag (flat (buffer, flag)) ((x, y), v) := by
  unfold flat write
  refine Prod.ext ?_ rfl
  funext p
  obtain ⟨a, b⟩ := p
  by_cases ha : a = x
  · subst ha
    by_cases hb : b = y
    · subst hb
      simp [Function.uncurry_apply_pair, Buffer.xorPixel]
    · have hne : (a, b) ≠ (a, y) := fun h => hb (congrArg Prod.snd h)
      simp [Function.uncurry_apply_pair, Buffer.xorPixel, Function.update_of_ne hne, Function.update_of_ne hb]
  · have hne : (a, b) ≠ (x, y) := fun h => ha (congrArg Prod.fst h)
    simp [Function.uncurry_apply_pair, Buffer.xorPixel, Function.update_of_ne hne, Function.update_of_ne ha]

theorem flat_drawSpriteBits (column : Fin displayWidth) (row : Fin displayHeight) (spriteByte : Byte) (n : Nat)
    (s : Buffer × Bool) : flat (drawSpriteBits column.val row.val spriteByte n s) =
      pass Bool.xor raisesFlag (bitWrites column row spriteByte n) (flat s) := by
  induction n generalizing s with
  | zero => rfl
  | succ bit ih =>
    obtain ⟨buffer, flag⟩ := s
    have hrow : Fin.ofNat displayHeight row.val = row := walk_zero row
    have hflag : (if buffer (walk column (7 - bit)) row && !bitIsSet spriteByte bit then true else flag) =
        (raisesFlag (buffer (walk column (7 - bit)) row) (bitIsSet spriteByte bit) || flag) := by
      unfold raisesFlag
      cases buffer (walk column (7 - bit)) row && !bitIsSet spriteByte bit <;> rfl
    rw [bitWrites, pass_cons, ← flat_xorPixel, ← ih, drawSpriteBits, hrow, ← hflag]
    rfl

theorem flat_drawSpriteRows (column : Fin displayWidth) (row : Fin displayHeight) (sprite : List Byte)
    (s : Buffer × Bool) : flat (drawSpriteRows column.val row.val sprite s) =
      pass Bool.xor raisesFlag (spriteWrites column row sprite) (flat s) := by
  induction sprite generalizing row s with
  | nil => rfl
  | cons spriteByte rest ih =>
    rw [spriteWrites, pass_append, ← flat_drawSpriteBits, ← ih]
    rfl

theorem spriteColumn_eq (x : Byte) (a : Fin displayWidth) : spriteColumn x a = steps x.toNat a := rfl

theorem spriteRow_eq (y : Byte) (b : Fin displayHeight) : spriteRow y b = steps y.toNat b := rfl

/-- The writes of a draw at `x`, `y` are the bits of the sprite at the pixels. -/
theorem mem_spriteWrites_iff (x y : Byte) (sprite : List Byte) (h : sprite.length ≤ displayHeight)
    (a : Fin displayWidth) (b : Fin displayHeight) (v : Bool) :
    ((a, b), v) ∈ spriteWrites (Fin.ofNat displayWidth x.toNat) (Fin.ofNat displayHeight y.toNat) sprite ↔
      spriteBit x y sprite a b = some v := by
  rw [mem_spriteWrites, spriteBit_eq_some]
  constructor
  · rintro ⟨r, byte, hr, bit, hbit, heq⟩
    obtain ⟨hcell, rfl⟩ := Prod.mk.inj heq
    obtain ⟨rfl, rfl⟩ := Prod.mk.inj hcell
    have hlen : r < sprite.length := (List.getElem?_eq_some_iff.1 hr).1
    have hwidth : 7 - bit < displayWidth := lt_of_le_of_lt (Nat.sub_le 7 bit) (by decide)
    rw [spriteColumn_eq, spriteRow_eq, steps_walk _ hwidth, steps_walk _ (lt_of_lt_of_le hlen h), bitIsSet_eq_getLsbD,
      show 7 - (7 - bit) = bit by omega]
    exact ⟨by omega, byte, hr, rfl⟩
  · rintro ⟨hc, byte, hr, rfl⟩
    refine ⟨spriteRow y b, byte, hr, 7 - spriteColumn x a, by omega, ?_⟩
    rw [bitIsSet_eq_getLsbD, show 7 - (7 - spriteColumn x a) = spriteColumn x a by omega, spriteColumn_eq, spriteRow_eq,
      walk_steps, walk_steps]

theorem flat_displayDrawSprite (buffer : Buffer) (x y : Byte) (sprite : List Byte) :
    flat (displayDrawSprite buffer x y sprite) = pass Bool.xor raisesFlag
      (spriteWrites (Fin.ofNat displayWidth x.toNat) (Fin.ofNat displayHeight y.toNat) sprite) (flat (buffer, false)) :=
  flat_drawSpriteRows (Fin.ofNat displayWidth x.toNat) (Fin.ofNat displayHeight y.toNat) sprite (buffer, false)

end DisplayAux

open DisplayAux

/-! ## What a draw leaves -/

/-- A draw XORs the bits of the sprite onto the pixels and leaves every other pixel alone. -/
theorem displayDrawSprite_pixel (buffer : Buffer) (x y : Byte) {sprite : List Byte} (h : sprite.length ≤ displayHeight)
    (a : Fin displayWidth) (b : Fin displayHeight) :
    (displayDrawSprite buffer x y sprite).1 a b = (buffer a b ^^ (spriteBit x y sprite a b == some true)) := by
  have hflat := congrArg (fun s => s.1 (a, b)) (flat_displayDrawSprite buffer x y sprite)
  refine Eq.trans hflat ?_
  have hmem := mem_spriteWrites_iff x y sprite h a b
  cases hbit : spriteBit x y sprite a b with
  | none =>
    rw [pass_of_not_mem]
    · simp [flat]
    · intro hkey
      obtain ⟨⟨p, v⟩, hw, rfl⟩ := List.mem_map.1 hkey
      exact absurd ((hmem v).1 hw) (by rw [hbit]; simp)
  | some v =>
    rw [pass_of_mem _ _ (nodup_spriteWrites _ _ sprite h) _ ((hmem v).2 hbit)]
    cases v <;> rfl

/-- The flag is returned when a pixel was on where the sprite has a clear bit. -/
theorem displayDrawSprite_flag (buffer : Buffer) (x y : Byte) {sprite : List Byte} (h : sprite.length ≤ displayHeight) :
    (displayDrawSprite buffer x y sprite).2 = true ↔ ∃ a b, buffer a b = true ∧ spriteBit x y sprite a b = some false := by
  have hflat := congrArg Prod.snd (flat_displayDrawSprite buffer x y sprite)
  rw [show (displayDrawSprite buffer x y sprite).2 = _ from hflat, pass_flag _ _ (nodup_spriteWrites _ _ sprite h)]
  have hmem := mem_spriteWrites_iff x y sprite h
  constructor
  · rintro (hfalse | ⟨⟨⟨a, b⟩, v⟩, hw, hraise⟩)
    · cases hfalse
    · obtain ⟨hon, hv⟩ : buffer a b = true ∧ v = false := by simpa [raisesFlag, flat] using hraise
      subst hv
      exact ⟨a, b, hon, (hmem a b false).1 hw⟩
  · rintro ⟨a, b, hon, hbit⟩
    refine Or.inr ⟨((a, b), false), (hmem a b false).2 hbit, ?_⟩
    simpa [raisesFlag, flat] using hon

end CLangExamples.Emulator
