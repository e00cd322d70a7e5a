import CLangExamples.Lemmas.Step

/-!
# The frame law of the instruction set

Which part of the machine a step can change, by the class of the opcode at `pc`, and where `pc` goes. Each component of
the state has a lemma about `Effect`, by cases on the instruction; `cpuStep_frame` carries them back to opcodes.
-/

namespace CLangExamples.Emulator

/-- A skip instruction whose condition holds. -/
def SkipTaken (inp : Input) (m : Machine) (opcode : Word) : Prop :=
  let vx := m.register (opcodeDecodeRegisterX opcode)
  let vy := m.register (opcodeDecodeRegisterY opcode)
  let kk := opcodeDecodeConst8bit opcode
  (opcode &&& 0xF000#16 = 0x3000#16 ∧ vx = kk) ∨
  (opcode &&& 0xF000#16 = 0x4000#16 ∧ vx ≠ kk) ∨
  (opcode &&& 0xF00F#16 = 0x5000#16 ∧ vx = vy) ∨
  (opcode &&& 0xF00F#16 = 0x9000#16 ∧ vx ≠ vy) ∨
  (opcode &&& 0xF0FF#16 = 0xE09E#16 ∧ keyboardIsKeyPressed inp vx = true) ∨
  (opcode &&& 0xF0FF#16 = 0xE0A1#16 ∧ keyboardIsKeyPressed inp vx = false)

/-- What a step on `opcode` from `m` to `m'` leaves alone, and where it goes. -/
structure FrameLaw (inp : Input) (opcode : Word) (m m' : Machine) : Prop where
  /-- memory: only Fx33 inside `I..I+2` and Fx55 inside `I..I+x` -/
  memory : ∀ a, m'.memory a ≠ m.memory a →
    (opcode &&& 0xF0FF#16 = 0xF033#16 ∧ m.cpu.i.toNat ≤ a.val ∧ a.val ≤ m.cpu.i.toNat + 2) ∨
    (opcode &&& 0xF0FF#16 = 0xF055#16 ∧ m.cpu.i.toNat ≤ a.val ∧
      a.val ≤ m.cpu.i.toNat + (opcodeDecodeRegisterX opcode).val)
  /-- pixels: only 00E0 and Dxyn -/
  pixel : ∀ x y, m'.display x y ≠ m.display x y → opcode = 0x00E0#16 ∨ opcode &&& 0xF000#16 = 0xD000#16
  /-- the count of the stack: one less under 00EE, one more under a call, the same otherwise -/
  stackCount : (opcode = 0x00EE#16 ∧ m'.cpu.stackCount + 1 = m.cpu.stackCount) ∨
    (IsCall opcode ∧ m'.cpu.stackCount = m.cpu.stackCount + 1) ∨
    (opcode ≠ 0x00EE#16 ∧ ¬IsCall opcode ∧ m'.cpu.stackCount = m.cpu.stackCount)
  /-- the entries below both counts -/
  stack : ∀ j : Fin stackCapacity, j.val < m.cpu.stackCount → j.val < m'.cpu.stackCount →
    m'.cpu.stack j = m.cpu.stack j
  /-- `I`: only Annn, Fx1E, Fx29 -/
  i : m'.cpu.i ≠ m.cpu.i →
    opcode &&& 0xF000#16 = 0xA000#16 ∨ opcode &&& 0xF0FF#16 = 0xF01E#16 ∨ opcode &&& 0xF0FF#16 = 0xF029#16
  /-- the delay timer: only Fx15 -/
  delayTimer : m'.delayTimer ≠ m.delayTimer → opcode &&& 0xF0FF#16 = 0xF015#16
  /-- the sound timer: only Fx18 -/
  soundTimer : m'.soundTimer ≠ m.soundTimer → opcode &&& 0xF0FF#16 = 0xF018#16
  /-- registers: Vx of 6xkk, 7xkk, 8xy*, Cxkk, Fx07, Fx0A; VF of 8xy4 to 8xy7, 8xyE, Dxyn; V0 to Vx of Fx65 -/
  register : ∀ r, m'.register r ≠ m.register r →
    (r = opcodeDecodeRegisterX opcode ∧
      (opcode &&& 0xF000#16 = 0x6000#16 ∨ opcode &&& 0xF000#16 = 0x7000#16 ∨ opcode &&& 0xF000#16 = 0x8000#16 ∨
        opcode &&& 0xF000#16 = 0xC000#16 ∨ opcode &&& 0xF0FF#16 = 0xF007#16 ∨ opcode &&& 0xF0FF#16 = 0xF00A#16)) ∨
    (r = vf ∧ (IsArith opcode ∨ opcode &&& 0xF000#16 = 0xD000#16)) ∨
    (r ≤ opcodeDecodeRegisterX opcode ∧ opcode &&& 0xF0FF#16 = 0xF065#16)
  /-- `pc` after 00EE: the entry popped -/
  pcReturn : opcode = 0x00EE#16 → ∃ j : Fin stackCapacity, j.val + 1 = m.cpu.stackCount ∧ m'.cpu.pc = m.cpu.stack j
  /-- `pc` after 0nnn, 1nnn, 2nnn: the address -/
  pcJump : IsCall opcode ∨ opcode &&& 0xF000#16 = 0x1000#16 → m'.cpu.pc = opcodeDecodeAddress opcode
  /-- `pc` after Bnnn: the address plus V0 -/
  pcJumpV0 : opcode &&& 0xF000#16 = 0xB000#16 →
    m'.cpu.pc = opcodeDecodeAddress opcode + (m.register v0).setWidth 16
  /-- `pc` after a taken skip: the instruction after the next -/
  pcSkip : SkipTaken inp m opcode → m'.cpu.pc = m.cpu.pc + 4
  /-- `pc` after Fx0A with no key down: the same instruction -/
  pcWait : opcode &&& 0xF0FF#16 = 0xF00A#16 → keyboardGetPressedKey inp = none → m'.cpu.pc = m.cpu.pc
  /-- `pc` after everything else: the next instruction -/
  pcNext : opcode ≠ 0x00EE#16 → ¬IsCall opcode → opcode &&& 0xF000#16 ≠ 0x1000#16 →
    opcode &&& 0xF000#16 ≠ 0xB000#16 → ¬SkipTaken inp m opcode →
    ¬(opcode &&& 0xF0FF#16 = 0xF00A#16 ∧ keyboardGetPressedKey inp = none) → m'.cpu.pc = m.cpu.pc + 2

namespace FrameAux

variable {inp : Input} {m m' : Machine} {i : Instr}

/-! ## One component at a time -/

/-- The bytes a store changes lie in its range. -/
theorem memcpy_ne {mem : Memory} {start : Nat} {bytes : List Byte} {a : Fin memorySize}
    (h : memcpy mem start bytes a ≠ mem a) : start ≤ a.val ∧ a.val < start + bytes.length :=
  Decidable.byContradiction fun hn => h (memcpy_of_not_mem mem start bytes a hn)

theorem effect_memory (h : Effect inp m i m') (a : Fin memorySize) (ha : m'.memory a ≠ m.memory a) :
    (∃ x, i = .bcd x ∧ m.cpu.i.toNat ≤ a.val ∧ a.val ≤ m.cpu.i.toNat + 2) ∨
    ∃ x : RegisterIndex, i = .dump x ∧ m.cpu.i.toNat ≤ a.val ∧ a.val ≤ m.cpu.i.toNat + x.val := by
  cases h with
  | bcd hlen =>
    have := memcpy_ne ha
    exact Or.inl ⟨_, rfl, this.1, by omega⟩
  | @dump x =>
    have := memcpy_ne ha
    rw [List.length_map, length_registersUpTo] at this
    exact Or.inr ⟨x, rfl, this.1, by omega⟩
  | _ => exact absurd rfl ha

theorem effect_display (h : Effect inp m i m') (hd : m'.display ≠ m.display) :
    i = .cls ∨ ∃ x y n, i = .draw x y n := by
  cases h with
  | cls => exact Or.inl rfl
  | draw sprite => exact Or.inr ⟨_, _, _, rfl⟩
  | _ => exact absurd rfl hd

theorem effect_i (h : Effect inp m i m') (hi : m'.cpu.i ≠ m.cpu.i) :
    (∃ nnn, i = .setI nnn) ∨ (∃ x, i = .addI x) ∨ ∃ x, i = .sprite x := by
  cases h with
  | setI => exact Or.inl ⟨_, rfl⟩
  | addI => exact Or.inr (Or.inl ⟨_, rfl⟩)
  | sprite => exact Or.inr (Or.inr ⟨_, rfl⟩)
  | _ => exact absurd rfl hi

theorem effect_delayTimer (h : Effect inp m i m') (ht : m'.delayTimer ≠ m.delayTimer) : ∃ x, i = .setDelay x := by
  cases h with
  | setDelay => exact ⟨_, rfl⟩
  | _ => exact absurd rfl ht

theorem effect_soundTimer (h : Effect inp m i m') (ht : m'.soundTimer ≠ m.soundTimer) : ∃ x, i = .setSound x := by
  cases h with
  | setSound => exact ⟨_, rfl⟩
  | _ => exact absurd rfl ht

/-- Where a register that changed comes from. -/
theorem effect_register (h : Effect inp m i m') (r : RegisterIndex) (hr : m'.register r ≠ m.register r) :
    (∃ s, i = .load r s) ∨ (∃ a, i = .arith r a) ∨ i = .waitKey r ∨
    (r = vf ∧ ((∃ x a, i = .arith x a) ∨ ∃ x y n, i = .draw x y n)) ∨ ∃ x, r ≤ x ∧ i = .restore x := by
  cases h with
  | @load x s =>
    by_cases hx : r = x
    · subst hx
      exact Or.inl ⟨s, rfl⟩
    · exact absurd (setRegister_register_ne m _ hx) hr
  | @arith x a =>
    by_cases hx : r = x
    · subst hx
      exact Or.inr (Or.inl ⟨a, rfl⟩)
    · by_cases hv : r = vf
      · exact Or.inr (Or.inr (Or.inr (Or.inl ⟨hv, Or.inl ⟨x, a, rfl⟩⟩)))
      · exact absurd ((setRegister_register_ne _ _ hx).trans (setFlag_register_ne m _ hv)) hr
  | @draw x y n sprite =>
    by_cases hv : r = vf
    · exact Or.inr (Or.inr (Or.inr (Or.inl ⟨hv, Or.inr ⟨x, y, n, rfl⟩⟩)))
    · exact absurd (setFlag_register_ne _ _ hv) hr
  | @key x key hk =>
    by_cases hx : r = x
    · subst hx
      exact Or.inr (Or.inr (Or.inl rfl))
    · exact absurd (setRegister_register_ne m _ hx) hr
  | @restore x regs hregs =>
    by_cases hx : r ≤ x
    · exact Or.inr (Or.inr (Or.inr (Or.inr ⟨x, hx, rfl⟩)))
    · exact absurd (hregs r hx) hr
  | _ => exact absurd rfl hr

/-! ## Back to opcodes -/

/-- The condition of a skip does not read `pc`. -/
theorem holds_pcAdvance (c : Skip) : c.holds inp (cpuPcAdvance m) = c.holds inp m := by
  cases c <;> rfl

/-- A taken skip is a skip instruction whose condition holds. -/
theorem skipTaken_iff {opcode : Word} (hd : decode opcode = some i) :
    SkipTaken inp m opcode ↔ ∃ c, i = .skip c ∧ c.holds inp m = true := by
  have row : ∀ r ∈ rows, r.pattern &&& 0xF000#16 ≠ 0 → opcode &&& r.mask = r.pattern → i = r.build opcode := by
    intro r hr hp hm
    exact Option.some.inj (hd.symm.trans (decode_of_high_row r hr hp hm))
  constructor
  · rintro (⟨hop, h⟩ | ⟨hop, h⟩ | ⟨hop, h⟩ | ⟨hop, h⟩ | ⟨hop, h⟩ | ⟨hop, h⟩)
    · exact ⟨_, row ⟨_, _, fun op => .skip (.eqByte (opcodeDecodeRegisterX op) (opcodeDecodeConst8bit op))⟩
        (by simp [rows]) (by decide) hop, by simp [Skip.holds, h]⟩
    · exact ⟨_, row ⟨_, _, fun op => .skip (.neByte (opcodeDecodeRegisterX op) (opcodeDecodeConst8bit op))⟩
        (by simp [rows]) (by decide) hop, by simp [Skip.holds, h]⟩
    · exact ⟨_, row ⟨_, _, fun op => .skip (.eqReg (opcodeDecodeRegisterX op) (opcodeDecodeRegisterY op))⟩
        (by simp [rows]) (by decide) hop, by simp [Skip.holds, h]⟩
    · exact ⟨_, row ⟨_, _, fun op => .skip (.neReg (opcodeDecodeRegisterX op) (opcodeDecodeRegisterY op))⟩
        (by simp [rows]) (by decide) hop, by simp [Skip.holds, h]⟩
    · exact ⟨_, row ⟨_, _, fun op => .skip (.key (opcodeDecodeRegisterX op))⟩ (by simp [rows]) (by decide) hop,
        by simp [Skip.holds, h]⟩
    · exact ⟨_, row ⟨_, _, fun op => .skip (.noKey (opcodeDecodeRegisterX op))⟩ (by simp [rows]) (by decide) hop,
        by simp [Skip.holds, h]⟩
  · rintro ⟨c, rfl, h⟩
    have he := decode_encodes hd
    cases c with
    | eqByte x kk =>
      obtain ⟨hop, rfl, rfl⟩ := he
      exact Or.inl ⟨hop, by simpa [Skip.holds] using h⟩
    | neByte x kk =>
      obtain ⟨hop, rfl, rfl⟩ := he
      exact Or.inr (Or.inl ⟨hop, by simpa [Skip.holds] using h⟩)
    | eqReg x y =>
      obtain ⟨hop, rfl, rfl⟩ := he
      exact Or.inr (Or.inr (Or.inl ⟨hop, by simpa [Skip.holds] using h⟩))
    | neReg x y =>
      obtain ⟨hop, rfl, rfl⟩ := he
      exact Or.inr (Or.inr (Or.inr (Or.inl ⟨hop, by simpa [Skip.holds] using h⟩)))
    | key x =>
      obtain ⟨hop, rfl⟩ := he
      exact Or.inr (Or.inr (Or.inr (Or.inr (Or.inl ⟨hop, h⟩))))
    | noKey x =>
      obtain ⟨hop, rfl⟩ := he
      exact Or.inr (Or.inr (Or.inr (Or.inr (Or.inr ⟨hop, by simpa [Skip.holds] using h⟩))))

/-- The class of an opcode under a finer mask fixes its top nibble. -/
theorem top_nibble {opcode pattern : Word} (h : opcode &&& 0xF00F#16 = pattern) :
    opcode &&& 0xF000#16 = pattern &&& 0xF000#16 := by
  rw [← h, BitVec.and_assoc]
  rfl

/-- The registers that a step changed, by the class of the opcode. -/
theorem register_frame {opcode : Word} (hd : decode opcode = some i) (he : Effect inp m i m') (r : RegisterIndex)
    (hr : m'.register r ≠ m.register r) :
    (r = opcodeDecodeRegisterX opcode ∧
      (opcode &&& 0xF000#16 = 0x6000#16 ∨ opcode &&& 0xF000#16 = 0x7000#16 ∨ opcode &&& 0xF000#16 = 0x8000#16 ∨
        opcode &&& 0xF000#16 = 0xC000#16 ∨ opcode &&& 0xF0FF#16 = 0xF007#16 ∨ opcode &&& 0xF0FF#16 = 0xF00A#16)) ∨
    (r = vf ∧ (IsArith opcode ∨ opcode &&& 0xF000#16 = 0xD000#16)) ∨
    (r ≤ opcodeDecodeRegisterX opcode ∧ opcode &&& 0xF0FF#16 = 0xF065#16) := by
  rcases effect_register he r hr with ⟨s, rfl⟩ | ⟨a, rfl⟩ | rfl | ⟨hv, ⟨x, a, rfl⟩ | ⟨x, y, n, rfl⟩⟩ | ⟨x, hx, rfl⟩
  · obtain ⟨hop, hx⟩ := decode_encodes hd
    refine Or.inl ⟨hx, ?_⟩
    rcases hop with h | h | h | h | h | h | h | h
    · exact Or.inl h
    · exact Or.inr (Or.inl h)
    · exact Or.inr (Or.inr (Or.inl (top_nibble h)))
    · exact Or.inr (Or.inr (Or.inl (top_nibble h)))
    · exact Or.inr (Or.inr (Or.inl (top_nibble h)))
    · exact Or.inr (Or.inr (Or.inl (top_nibble h)))
    · exact Or.inr (Or.inr (Or.inr (Or.inl h)))
    · exact Or.inr (Or.inr (Or.inr (Or.inr (Or.inl h))))
  · obtain ⟨hop, hx⟩ := decode_encodes hd
    refine Or.inl ⟨hx, Or.inr (Or.inr (Or.inl ?_))⟩
    rcases hop with h | h | h | h | h <;> exact top_nibble h
  · obtain ⟨hop, hx⟩ := decode_encodes hd
    exact Or.inl ⟨hx, Or.inr (Or.inr (Or.inr (Or.inr (Or.inr hop))))⟩
  · exact Or.inr (Or.inl ⟨hv, Or.inl (decode_encodes hd).1⟩)
  · exact Or.inr (Or.inl ⟨hv, Or.inr (decode_encodes hd).1⟩)
  · obtain ⟨hop, rfl⟩ := decode_encodes hd
    exact Or.inr (Or.inr ⟨hx, hop⟩)

/-- The count of the stack and the entries below it, by the class of the opcode. -/
theorem stack_frame {opcode : Word} (hd : decode opcode = some i) (he : Effect inp m i m') :
    ((opcode = 0x00EE#16 ∧ m'.cpu.stackCount + 1 = m.cpu.stackCount) ∨
      (IsCall opcode ∧ m'.cpu.stackCount = m.cpu.stackCount + 1) ∨
      (opcode ≠ 0x00EE#16 ∧ ¬IsCall opcode ∧ m'.cpu.stackCount = m.cpu.stackCount)) ∧
    ∀ j : Fin stackCapacity, j.val < m.cpu.stackCount → j.val < m'.cpu.stackCount → m'.cpu.stack j = m.cpu.stack j := by
  rcases effect_stack he with ⟨rfl, k, hk, hs, hc, -⟩ | ⟨hcall, k, hk, hs, hc⟩ | ⟨hret, hcall, hs, hc⟩
  · refine ⟨Or.inl ⟨(decode_ret_iff hd).mpr rfl, by omega⟩, fun j _ _ => by rw [hs]⟩
  · refine ⟨Or.inr (Or.inl ⟨(decode_call_iff hd).mpr hcall, by omega⟩), fun j hj _ => ?_⟩
    have hne : j ≠ k := by
      rintro rfl
      omega
    rw [hs, Function.update_of_ne hne]
  · refine ⟨Or.inr (Or.inr ⟨fun h => hret ((decode_ret_iff hd).mp h), fun h => hcall ((decode_call_iff hd).mp h), hc⟩),
      fun j _ _ => by rw [hs]⟩

/-- The instruction of an opcode that is none of those that set `pc` on their own leaves it at the next instruction. -/
theorem pc_next {opcode : Word} (hd : decode opcode = some i) (he : Effect inp (cpuPcAdvance m) i m')
    (hE : opcode ≠ 0x00EE#16) (hcall : ¬IsCall opcode) (h1 : opcode &&& 0xF000#16 ≠ 0x1000#16)
    (hB : opcode &&& 0xF000#16 ≠ 0xB000#16) (hskip : ¬SkipTaken inp m opcode)
    (hkey : ¬(opcode &&& 0xF0FF#16 = 0xF00A#16 ∧ keyboardGetPressedKey inp = none)) : m'.cpu.pc = m.cpu.pc + 2 := by
  have henc := decode_encodes hd
  cases he with
  | ret _ => exact absurd henc hE
  | sys _ => exact absurd henc.1 hcall
  | call _ => exact absurd henc.1 hcall
  | jp => exact absurd henc.1 h1
  | jpV0 => exact absurd henc.1 hB
  | skip hc => exact absurd ((skipTaken_iff hd).mpr ⟨_, rfl, (holds_pcAdvance _).symm.trans hc⟩) hskip
  | noKey hk => exact absurd ⟨henc.1, hk⟩ hkey
  | _ => rfl

end FrameAux

open FrameAux in
/-- The frame law. A step that does not halt (so that it also stays inside the memory) changes, for the opcode it executes,
only what `FrameLaw` allows, and leaves `pc` where `FrameLaw` says. -/
theorem cpuStep_frame (inp : Input) (m m' : Machine) (h : cpuStep inp m = .ok m') :
    FrameLaw inp (opcodeAt m) m m' := by
  obtain ⟨-, -, i, hd, he⟩ := cpuStep_ok h
  have hstack := stack_frame hd he
  refine ⟨?_, ?_, hstack.1, hstack.2, ?_, ?_, ?_, fun r hr => register_frame hd he r hr, ?_, ?_, ?_, ?_, ?_, pc_next hd he⟩
  · intro a ha
    rcases effect_memory he a ha with ⟨x, rfl, hlo, hhi⟩ | ⟨x, rfl, hlo, hhi⟩
    · exact Or.inl ⟨decode_encodes hd, hlo, hhi⟩
    · obtain ⟨hop, rfl⟩ := decode_encodes hd
      exact Or.inr ⟨hop, hlo, hhi⟩
  · intro x y hxy
    rcases effect_display he (fun hdis => hxy (congrFun (congrFun hdis x) y)) with rfl | ⟨x, y, n, rfl⟩
    · exact Or.inl (decode_encodes hd)
    · exact Or.inr (decode_encodes hd).1
  · intro hi
    rcases effect_i he hi with ⟨nnn, rfl⟩ | ⟨x, rfl⟩ | ⟨x, rfl⟩
    · exact Or.inl (decode_encodes hd).1
    · exact Or.inr (Or.inl (decode_encodes hd))
    · exact Or.inr (Or.inr (decode_encodes hd))
  · intro ht
    obtain ⟨x, rfl⟩ := effect_delayTimer he ht
    exact decode_encodes hd
  · intro ht
    obtain ⟨x, rfl⟩ := effect_soundTimer he ht
    exact decode_encodes hd
  · intro hop
    obtain rfl := (decode_ret_iff hd).mp hop
    cases he with
    | ret hk => exact ⟨_, hk.symm, rfl⟩
  · rintro (hop | hop)
    · obtain ⟨nnn, rfl | rfl⟩ := (decode_call_iff hd).mp hop
      · cases he with
        | sys hk => exact (decode_encodes hd).2
      · cases he with
        | call hk => exact (decode_encodes hd).2
    · obtain rfl := Option.some.inj (hd.symm.trans (decode_jp hop))
      cases he
      rfl
  · intro hop
    obtain rfl := Option.some.inj (hd.symm.trans (decode_jpV0 hop))
    cases he
    rfl
  · intro hskip
    obtain ⟨c, rfl, hc⟩ := (skipTaken_iff hd).mp hskip
    rw [← holds_pcAdvance] at hc
    cases he with
    | skip _ => exact BitVec.add_assoc m.cpu.pc 2 2
    | stay hn => rw [hc] at hn; cases hn
  · intro hop hkey
    obtain rfl := Option.some.inj (hd.symm.trans (decode_waitKey hop))
    cases he with
    | key hk => rw [hkey] at hk; cases hk
    | noKey _ => exact BitVec.add_sub_cancel m.cpu.pc 2

/-- The frame law at the first step of the ROM `60 2A`, which loads V0. -/
theorem cpuStep_frame_load :
    ∃ m m', machineBoot [0x60, 0x2A] 0 0 = .ok m ∧ cpuStep idleInput m = .ok m' ∧
      FrameLaw idleInput (opcodeAt m) m m' := by
  obtain ⟨m, hboot, m', hstep⟩ : ∃ m, machineBoot [0x60, 0x2A] 0 0 = .ok m ∧ ∃ m', cpuStep idleInput m = .ok m' :=
    ⟨_, rfl, _, rfl⟩
  exact ⟨m, m', hboot, hstep, cpuStep_frame idleInput m m' hstep⟩

end CLangExamples.Emulator
