import CLangExamples.Emulator.Run
import CLangExamples.Lemmas.Step

/-!
# The keyboard

Ex9E and ExA1 ask for one key, Fx0A waits for any. The wait is made of steps that go back to the same instruction, so it
lasts as long as no key is down and ends with the least key that is. The register of Ex9E and ExA1 is used as an index of
`keymap` as it is: a value from 16 on reads past the table.
-/

namespace CLangExamples.Emulator

/-- The scan code that the key `k` is mapped to is down. -/
def KeyDown (inp : Input) (k : Fin 16) : Prop := inp.keyboardState keymap[k.val] = 1

/-- The value is one of the sixteen keys and its scan code is down. -/
def NamesKeyDown (inp : Input) (value : Byte) : Prop := ∃ k : Fin 16, value.toNat = k.val ∧ KeyDown inp k

/-- The instruction skips the next one: all it does is to advance `pc` once more. -/
def Skips (inp : Input) (m : Machine) (opcode : Word) : Prop := cpuDecodeAndExecOpcode inp m opcode = .ok (cpuPcAdvance m)

/-- The instruction looks up `keymap` only below its end: what lies past the table makes no difference. -/
def LooksUpInKeymap (inp : Input) (m : Machine) (opcode : Word) : Prop :=
  ∀ past, cpuDecodeAndExecOpcode { inp with pastKeymap := past } m opcode = cpuDecodeAndExecOpcode inp m opcode

/-- What is asked of an Ex9E (`e`) and an ExA1 (`a`) of the same register: both stay in the table, the first skips exactly
when the register names a key that is down, and the second exactly when the first does not. -/
structure KeySkipsAgree (inp : Input) (m : Machine) (e a : Word) : Prop where
  eq_in_keymap : LooksUpInKeymap inp m e
  ne_in_keymap : LooksUpInKeymap inp m a
  eq_skips : Skips inp m e ↔ NamesKeyDown inp (m.register (opcodeDecodeRegisterX e))
  ne_skips : Skips inp m a ↔ ¬Skips inp m e

/-- `key` is the least key that is down. -/
def LeastKeyDown (inp : Input) (key : Byte) : Prop :=
  NamesKeyDown inp key ∧ ∀ k : Fin 16, KeyDown inp k → key.toNat ≤ k.val

/-- Fx0A stands at `pc`, with both its bytes in the memory. -/
def WaitsForKey (m : Machine) : Prop := Fetchable m ∧ opcodeAt m &&& 0xF0FF#16 = 0xF00A#16

namespace KeyboardAux

/-! ## Asking for one key -/

/-- Ex9E decodes to its instruction. -/
theorem decode_key {opcode : Word} (h : opcode &&& 0xF0FF#16 = 0xE09E#16) :
    decode opcode = some (.skip (.key (opcodeDecodeRegisterX opcode))) :=
  decode_of_high_row ⟨0xF0FF#16, 0xE09E#16, fun op => .skip (.key (opcodeDecodeRegisterX op))⟩ (by simp [rows])
    (by decide) h

/-- ExA1 decodes to its instruction. -/
theorem decode_noKey {opcode : Word} (h : opcode &&& 0xF0FF#16 = 0xE0A1#16) :
    decode opcode = some (.skip (.noKey (opcodeDecodeRegisterX opcode))) :=
  decode_of_high_row ⟨0xF0FF#16, 0xE0A1#16, fun op => .skip (.noKey (opcodeDecodeRegisterX op))⟩ (by simp [rows])
    (by decide) h

/-- A skip is seen at `pc`. -/
theorem skipIf_eq_advance (m : Machine) (condition : Bool) : skipIf m condition = cpuPcAdvance m ↔ condition = true := by
  cases condition with
  | true => exact iff_of_true rfl rfl
  | false =>
    refine iff_of_false ?_ Bool.false_ne_true
    intro h
    have hpc : m.cpu.pc = m.cpu.pc + 2 := congrArg (fun m => m.cpu.pc) h
    bv_omega

theorem exec_skip (inp : Input) (m : Machine) {opcode : Word} {c : Skip} (hd : decode opcode = some (.skip c)) :
    cpuDecodeAndExecOpcode inp m opcode = .ok (skipIf m (c.holds inp m)) := by
  rw [cpuDecodeAndExecOpcode_eq, hd]
  rfl

theorem skips_iff (inp : Input) (m : Machine) {opcode : Word} {c : Skip} (hd : decode opcode = some (.skip c)) :
    Skips inp m opcode ↔ c.holds inp m = true := by
  unfold Skips
  rw [exec_skip inp m hd, Except.ok.injEq, skipIf_eq_advance]

/-- Below 16 the key asked for is the one of the table. -/
theorem keyState_of_lt (inp : Input) {value : Byte} (h : value.toNat < 16) :
    keyState inp value = inp.keyboardState keymap[value.toNat] := by
  unfold keyState
  rw [dif_pos h]

theorem keyboardIsKeyPressed_iff (inp : Input) {value : Byte} (h : value.toNat < 16) :
    keyboardIsKeyPressed inp value = true ↔ NamesKeyDown inp value := by
  unfold keyboardIsKeyPressed
  rw [keyState_of_lt inp h, beq_iff_eq]
  constructor
  · intro hdown
    exact ⟨⟨value.toNat, h⟩, rfl, hdown⟩
  · rintro ⟨k, hk, hdown⟩
    unfold KeyDown at hdown
    simp only [← hk] at hdown
    exact hdown

/-- From 16 on the answer is what lies past the table. -/
theorem keyboardIsKeyPressed_of_ge (inp : Input) {value : Byte} (h : ¬value.toNat < 16) :
    keyboardIsKeyPressed inp value = (inp.pastKeymap value == 1) := by
  unfold keyboardIsKeyPressed keyState
  rw [dif_neg h]

/-! ## Waiting for a key -/

theorem keyboardGetPressedKey_eq (inp : Input) : keyboardGetPressedKey inp =
    ((List.range 16).find? (fun k => keyState inp (BitVec.ofNat 8 k) == 1)).map (BitVec.ofNat 8) := by
  unfold keyboardGetPressedKey
  rw [List.find?_map]
  rfl

theorem toNat_key {k : Nat} (h : k < 16) : (BitVec.ofNat 8 k).toNat = k := by
  rw [BitVec.toNat_ofNat]
  omega

theorem keyState_key (inp : Input) (k : Fin 16) :
    (keyState inp (BitVec.ofNat 8 k.val) == 1) = true ↔ KeyDown inp k := by
  have hk := toNat_key k.isLt
  rw [beq_iff_eq, keyState_of_lt inp (by omega)]
  simp only [hk]
  rfl

/-- Without a key down there is no key to return. -/
theorem keyboardGetPressedKey_none (inp : Input) (h : ∀ k, ¬KeyDown inp k) : keyboardGetPressedKey inp = none := by
  rw [keyboardGetPressedKey_eq, Option.map_eq_none_iff, List.find?_eq_none]
  intro k hk
  exact fun hdown => h ⟨k, List.mem_range.1 hk⟩ ((keyState_key inp ⟨k, List.mem_range.1 hk⟩).1 hdown)

/-- With a key down the least one is returned. -/
theorem keyboardGetPressedKey_some (inp : Input) (h : ∃ k, KeyDown inp k) :
    ∃ key, keyboardGetPressedKey inp = some key ∧ LeastKeyDown inp key := by
  rw [keyboardGetPressedKey_eq]
  cases hfind : (List.range 16).find? (fun k => keyState inp (BitVec.ofNat 8 k) == 1) with
  | none =>
    obtain ⟨k, hk⟩ := h
    exact absurd ((keyState_key inp k).2 hk) (List.find?_eq_none.1 hfind k (List.mem_range.2 k.isLt))
  | some key =>
    obtain ⟨hdown, hmem, hleast⟩ := List.find?_range_eq_some.1 hfind
    have hlt := List.mem_range.1 hmem
    refine ⟨BitVec.ofNat 8 key, rfl, ⟨⟨key, hlt⟩, toNat_key hlt, (keyState_key inp ⟨key, hlt⟩).1 hdown⟩, ?_⟩
    intro k hk
    rw [toNat_key hlt]
    by_contra hgt
    have hnot := hleast k.val (by omega)
    rw [(keyState_key inp k).2 hk] at hnot
    cases hnot

/-- A wait goes back to its own instruction. -/
theorem advance_back (m : Machine) : cpuPcAdvanceBack (cpuPcAdvance m) = m := by
  have hpc : m.cpu.pc + 2 - 2 = m.cpu.pc := by bv_omega
  unfold cpuPcAdvanceBack cpuPcAdvance cpuGotoAddress
  simp only [hpc]

theorem cpuStep_wait {m : Machine} (hw : WaitsForKey m) (inp : Input) :
    cpuStep inp m = Instr.exec inp (cpuPcAdvance m) (.waitKey (opcodeDecodeRegisterX (opcodeAt m))) := by
  obtain ⟨hf, hop⟩ := hw
  have hne : opcodeAt m ≠ 0 := by
    intro h
    rw [h] at hop
    cases hop
  exact cpuStep_eq_exec inp hf hne (decode_waitKey hop)

/-- One step without a key down changes nothing. -/
theorem cpuStep_no_key {m : Machine} (hw : WaitsForKey m) (inp : Input) (h : ∀ k, ¬KeyDown inp k) :
    cpuStep inp m = .ok m := by
  rw [cpuStep_wait hw, Instr.exec, keyboardGetPressedKey_none inp h]
  exact congrArg Except.ok (advance_back m)

/-- One step with a key down stores the least one. -/
theorem cpuStep_key {m : Machine} (hw : WaitsForKey m) (inp : Input) (h : ∃ k, KeyDown inp k) :
    ∃ key, LeastKeyDown inp key ∧
      cpuStep inp m = .ok ((cpuPcAdvance m).setRegister (opcodeDecodeRegisterX (opcodeAt m)) key) := by
  obtain ⟨key, hkey, hleast⟩ := keyboardGetPressedKey_some inp h
  refine ⟨key, hleast, ?_⟩
  rw [cpuStep_wait hw, Instr.exec, hkey]

theorem waitsForKey_congr {m m' : Machine} (hcpu : m'.cpu = m.cpu) (hmem : m'.memory = m.memory) (hw : WaitsForKey m) :
    WaitsForKey m' := by
  obtain ⟨memory, cpu, display, delayTimer, soundTimer⟩ := m
  obtain ⟨memory', cpu', display', delayTimer', soundTimer'⟩ := m'
  subst hcpu hmem
  exact hw

/-- Any number of iterations without a key down leave all but the timers. -/
theorem wait_run {m : Machine} (hw : WaitsForKey m) (waits : List Input) (h : ∀ w ∈ waits, ∀ k, ¬KeyDown w k) :
    ∃ m₁, waits.foldlM (fun m inp => machineIteration inp m) m = .ok m₁ ∧ m₁.cpu = m.cpu ∧ m₁.memory = m.memory ∧
      m₁.display = m.display := by
  induction waits generalizing m with
  | nil => exact ⟨m, rfl, rfl, rfl, rfl⟩
  | cons w waits ih =>
    have hw' : WaitsForKey (machineUpdateTimers m w) := waitsForKey_congr rfl rfl hw
    have hstep : machineIteration w m = .ok (machineUpdateTimers m w) :=
      cpuStep_no_key hw' w (h w List.mem_cons_self)
    obtain ⟨m₁, hrun, hcpu, hmem, hdisplay⟩ := ih hw' (fun w hmem => h w (List.mem_cons_of_mem _ hmem))
    refine ⟨m₁, ?_, hcpu, hmem, hdisplay⟩
    rw [List.foldlM_cons, hstep]
    exact hrun

/-- The key that is down is the key that Ex9E finds down. -/
theorem skips_of_names {inp inp' : Input} {m : Machine} {e : Word} (hk : inp'.keyboardState = inp.keyboardState)
    (he : e &&& 0xF0FF#16 = 0xE09E#16) (hdown : NamesKeyDown inp (m.register (opcodeDecodeRegisterX e))) :
    Skips inp' m e := by
  obtain ⟨k, hval, hstate⟩ := hdown
  have hstate' : KeyDown inp' k := by
    unfold KeyDown
    rw [hk]
    exact hstate
  rw [skips_iff inp' m (decode_key he)]
  exact (keyboardIsKeyPressed_iff inp' (by omega)).2 ⟨k, hval, hstate'⟩

/-- The skips agree with the keyboard exactly when the register holds one of the sixteen key values. -/
theorem keySkipsAgree_iff (inp : Input) (m : Machine) {e a : Word} (he : e &&& 0xF0FF#16 = 0xE09E#16)
    (ha : a &&& 0xF0FF#16 = 0xE0A1#16) (hx : opcodeDecodeRegisterX a = opcodeDecodeRegisterX e) :
    KeySkipsAgree inp m e a ↔ (m.register (opcodeDecodeRegisterX e)).toNat < 16 := by
  have hde := decode_key he
  have hda := decode_noKey ha
  rw [hx] at hda
  constructor
  · intro hagree
    by_contra hge
    -- one step with a 1 past the table, one with a 0: the first skips, the second does not
    have h1 := hagree.eq_in_keymap (fun _ => 1)
    have h0 := hagree.eq_in_keymap (fun _ => 0)
    have heq := h1.trans h0.symm
    rw [exec_skip _ m hde, exec_skip _ m hde, Skip.holds, Skip.holds, keyboardIsKeyPressed_of_ge _ hge,
      keyboardIsKeyPressed_of_ge _ hge, Except.ok.injEq] at heq
    exact absurd ((skipIf_eq_advance m _).1 heq.symm) (show ¬((0 : Byte) == 1) = true by decide)
  · intro hlt
    have hpast : ∀ past, keyboardIsKeyPressed { inp with pastKeymap := past } (m.register (opcodeDecodeRegisterX e)) =
        keyboardIsKeyPressed inp (m.register (opcodeDecodeRegisterX e)) := by
      intro past
      unfold keyboardIsKeyPressed
      rw [keyState_of_lt _ hlt, keyState_of_lt _ hlt]
    refine ⟨?_, ?_, ?_, ?_⟩
    · intro past
      rw [exec_skip _ m hde, exec_skip _ m hde, Skip.holds, Skip.holds, hpast]
    · intro past
      rw [exec_skip _ m hda, exec_skip _ m hda, Skip.holds, Skip.holds, hpast]
    · rw [skips_iff inp m hde, Skip.holds, keyboardIsKeyPressed_iff inp hlt]
    · rw [skips_iff inp m hde, skips_iff inp m hda, Skip.holds, Skip.holds, Bool.not_eq_true', Bool.not_eq_true]

/-- The first iteration with a key down after a wait. -/
theorem wait_ends {m m₁ : Machine} (hw : WaitsForKey m) (hcpu : m₁.cpu = m.cpu) (hmem : m₁.memory = m.memory)
    (inp : Input) (hdown : ∃ k, KeyDown inp k) :
    ∃ key m₂, machineIteration inp m₁ = .ok m₂ ∧ LeastKeyDown inp key ∧
      m₂.cpu = { m.cpu with
        registers := Function.update m.cpu.registers (opcodeDecodeRegisterX (opcodeAt m)) key
        pc := m.cpu.pc + 2 } ∧
      ∀ inp' e, inp'.keyboardState = inp.keyboardState → e &&& 0xF0FF#16 = 0xE09E#16 →
        opcodeDecodeRegisterX e = opcodeDecodeRegisterX (opcodeAt m) → Skips inp' m₂ e := by
  have hw' : WaitsForKey (machineUpdateTimers m₁ inp) := waitsForKey_congr hcpu hmem hw
  obtain ⟨key, hleast, hstep⟩ := cpuStep_key hw' inp hdown
  have hop : opcodeAt (machineUpdateTimers m₁ inp) = opcodeAt m := by
    rw [opcodeAt_updateTimers]
    unfold opcodeAt Machine.cell
    rw [hcpu, hmem]
  refine ⟨key, _, hstep, hleast, ?_, ?_⟩
  · rw [hop, ← hcpu]
    rfl
  · intro inp' e hk he hx
    apply skips_of_names hk he
    rw [hx, hop, setRegister_register_self]
    exact hleast.1

end KeyboardAux

open KeyboardAux

/-- The skips on a key agree with the keyboard exactly when the register holds one of the sixteen key values. A wait for a
key agrees with it always: it changes nothing as long as no key is down, the first key down ends it with the least key
value in the register and `pc` past the instruction, and Ex9E finds that key down. -/
theorem keyboard_instructions_agree_iff (m : Machine) :
    (∀ (inp : Input) (e a : Word), e &&& 0xF0FF#16 = 0xE09E#16 → a &&& 0xF0FF#16 = 0xE0A1#16 →
      opcodeDecodeRegisterX a = opcodeDecodeRegisterX e →
      (KeySkipsAgree inp m e a ↔ (m.register (opcodeDecodeRegisterX e)).toNat < 16)) ∧
    ∀ waits : List Input, WaitsForKey m → (∀ w ∈ waits, ∀ k, ¬KeyDown w k) →
      ∃ m₁, waits.foldlM (fun m inp => machineIteration inp m) m = .ok m₁ ∧ m₁.cpu = m.cpu ∧ m₁.memory = m.memory ∧
        m₁.display = m.display ∧
        ∀ inp, (∃ k, KeyDown inp k) → ∃ key m₂, machineIteration inp m₁ = .ok m₂ ∧ LeastKeyDown inp key ∧
          m₂.cpu = { m.cpu with
            registers := Function.update m.cpu.registers (opcodeDecodeRegisterX (opcodeAt m)) key
            pc := m.cpu.pc + 2 } ∧
          ∀ inp' e, inp'.keyboardState = inp.keyboardState → e &&& 0xF0FF#16 = 0xE09E#16 →
            opcodeDecodeRegisterX e = opcodeDecodeRegisterX (opcodeAt m) → Skips inp' m₂ e := by
  constructor
  · intro inp e a he ha hx
    exact keySkipsAgree_iff inp m he ha hx
  · intro waits hw hwaits
    obtain ⟨m₁, hrun, hcpu, hmem, hdisplay⟩ := wait_run hw waits hwaits
    exact ⟨m₁, hrun, hcpu, hmem, hdisplay, wait_ends hw hcpu hmem⟩

/-- With 16 in V0, what E09E does depends on what lies past the table. -/
theorem key_skip_reads_past_keymap :
    ¬∀ (inp : Input) (m : Machine) (e a : Word), e &&& 0xF0FF#16 = 0xE09E#16 → a &&& 0xF0FF#16 = 0xE0A1#16 →
      opcodeDecodeRegisterX a = opcodeDecodeRegisterX e → KeySkipsAgree inp m e a := by
  intro h
  have hagree := h idleInput (machineInit.setRegister 0 16) 0xE09E#16 0xE0A1#16 (by decide) (by decide) rfl
  -- with a 1 there it skips, with the 0 of the idle input it does not
  have hskips : Skips idleInput (machineInit.setRegister 0 16) 0xE09E#16 := (hagree.eq_in_keymap (fun _ => 1)).symm.trans rfl
  obtain ⟨k, hk, -⟩ := hagree.eq_skips.1 hskips
  have hval : (16 : Nat) = k.val := hk
  omega

end CLangExamples.Emulator
