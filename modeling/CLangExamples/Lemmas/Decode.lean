import CLangExamples.Emulator.Instr

/-!
# The dispatch chains and the instruction set

An opcode matches at most one row of the dispatch, so `decode` can be read in both directions: an opcode of a row decodes
to the instruction of that row (`decode_of_row`), and an instruction comes only from an opcode of its own class
(`decode_encodes`). A chain of comparisons in the order of the source is `decode` with a continuation
(`decode_eq`, `row_eq`); the chain of the CPU is the first of the two.
-/

namespace CLangExamples.Emulator

/-! ## Rows -/

/-- Two rows that differ on a bit both of them read. -/
def Row.Incompatible (r s : Row) : Prop := r.pattern &&& s.mask ≠ s.pattern &&& r.mask

instance (r s : Row) : Decidable (r.Incompatible s) := inferInstanceAs (Decidable (_ ≠ _))

/-- Any two rows of the dispatch are incompatible. -/
theorem rows_pairwise : rows.Pairwise Row.Incompatible := by decide

/-- What the rows decode comes from one of them. -/
theorem decodeRows_mem {opcode : Word} {i : Instr} {rs : List Row} (h : decodeRows opcode rs = some i) :
    ∃ r ∈ rs, opcode &&& r.mask = r.pattern ∧ r.build opcode = i := by
  induction rs with
  | nil => simp [decodeRows] at h
  | cons r rest ih =>
    rw [decodeRows] at h
    split at h
    · rename_i hm
      exact ⟨r, by simp, hm, Option.some.inj h⟩
    · obtain ⟨s, hs, hm, hb⟩ := ih h
      exact ⟨s, by simp [hs], hm, hb⟩

/-- Where no two rows are compatible, an opcode that matches a row decodes by it, whatever stands before. -/
theorem decodeRows_of_mem {opcode : Word} {r : Row} {rs : List Row} (hp : rs.Pairwise Row.Incompatible) (hr : r ∈ rs)
    (hm : opcode &&& r.mask = r.pattern) : decodeRows opcode rs = some (r.build opcode) := by
  induction rs with
  | nil => simp at hr
  | cons s rest ih =>
    rw [List.pairwise_cons] at hp
    rw [decodeRows]
    rcases List.mem_cons.mp hr with rfl | hr
    · rw [if_pos hm]
    · rw [if_neg (fun hs => hp.1 r hr (mask_compat hs hm))]
      exact ih hp.2 hr

/-- An opcode of a row decodes to the instruction of that row, unless it is one of the two opcodes tested first. -/
theorem decode_of_row {opcode : Word} (r : Row) (hr : r ∈ rows) (hm : opcode &&& r.mask = r.pattern)
    (h0 : opcode ≠ 0x00E0#16) (hE : opcode ≠ 0x00EE#16) : decode opcode = some (r.build opcode) := by
  rw [decode, if_neg h0, if_neg hE]
  exact decodeRows_of_mem rows_pairwise hr hm

/-- An opcode whose top four bits are not zero is neither 00E0 nor 00EE. -/
theorem ne_of_mask {opcode mask pattern : Word} (hm : opcode &&& mask = pattern) (hp : pattern &&& 0xF000#16 ≠ 0#16) :
    opcode ≠ 0x00E0#16 ∧ opcode ≠ 0x00EE#16 := by
  have h : ∀ {c : Word}, c &&& 0xF000#16 = 0#16 → opcode ≠ c := by
    intro c hc he
    subst he
    apply hp
    rw [← hm, BitVec.and_assoc, BitVec.and_comm mask, ← BitVec.and_assoc, hc, BitVec.zero_and]
  exact ⟨h (by decide), h (by decide)⟩

/-- `decode_of_row` for a row whose pattern has a nonzero top nibble. -/
theorem decode_of_high_row {opcode : Word} (r : Row) (hr : r ∈ rows) (hp : r.pattern &&& 0xF000#16 ≠ 0#16)
    (hm : opcode &&& r.mask = r.pattern) : decode opcode = some (r.build opcode) := by
  obtain ⟨h0, hE⟩ := ne_of_mask hm hp
  exact decode_of_row r hr hm h0 hE

/-! ## The class of an opcode -/

/-- The opcodes that push a return address: 2nnn, and 0nnn other than 00E0 and 00EE. -/
def IsCall (opcode : Word) : Prop :=
  opcode &&& 0xF000#16 = 0x2000#16 ∨
    opcode &&& 0xF000#16 = 0x0000#16 ∧ opcode ≠ 0x00E0#16 ∧ opcode ≠ 0x00EE#16

instance (opcode : Word) : Decidable (IsCall opcode) := inferInstanceAs (Decidable (_ ∨ _))

/-- The opcodes of a skip condition, with its operands. -/
def Skip.Encodes (opcode : Word) : Skip → Prop
  | .eqByte x kk =>
    opcode &&& 0xF000#16 = 0x3000#16 ∧ x = opcodeDecodeRegisterX opcode ∧ kk = opcodeDecodeConst8bit opcode
  | .neByte x kk =>
    opcode &&& 0xF000#16 = 0x4000#16 ∧ x = opcodeDecodeRegisterX opcode ∧ kk = opcodeDecodeConst8bit opcode
  | .eqReg x y =>
    opcode &&& 0xF00F#16 = 0x5000#16 ∧ x = opcodeDecodeRegisterX opcode ∧ y = opcodeDecodeRegisterY opcode
  | .neReg x y =>
    opcode &&& 0xF00F#16 = 0x9000#16 ∧ x = opcodeDecodeRegisterX opcode ∧ y = opcodeDecodeRegisterY opcode
  | .key x => opcode &&& 0xF0FF#16 = 0xE09E#16 ∧ x = opcodeDecodeRegisterX opcode
  | .noKey x => opcode &&& 0xF0FF#16 = 0xE0A1#16 ∧ x = opcodeDecodeRegisterX opcode

/-- The opcodes that load Vx and nothing else: 6xkk, 7xkk, 8xy0 to 8xy3, Cxkk, Fx07. -/
def IsLoad (opcode : Word) : Prop :=
  opcode &&& 0xF000#16 = 0x6000#16 ∨ opcode &&& 0xF000#16 = 0x7000#16 ∨ opcode &&& 0xF00F#16 = 0x8000#16 ∨
    opcode &&& 0xF00F#16 = 0x8001#16 ∨ opcode &&& 0xF00F#16 = 0x8002#16 ∨ opcode &&& 0xF00F#16 = 0x8003#16 ∨
    opcode &&& 0xF000#16 = 0xC000#16 ∨ opcode &&& 0xF0FF#16 = 0xF007#16

/-- The opcodes that set VF besides Vx: 8xy4, 8xy5, 8xy6, 8xy7, 8xyE. -/
def IsArith (opcode : Word) : Prop :=
  opcode &&& 0xF00F#16 = 0x8004#16 ∨ opcode &&& 0xF00F#16 = 0x8005#16 ∨ opcode &&& 0xF00F#16 = 0x8006#16 ∨
    opcode &&& 0xF00F#16 = 0x8007#16 ∨ opcode &&& 0xF00F#16 = 0x800E#16

/-- The class of opcodes that an instruction comes from, with the operands the later theorems read. -/
def Instr.Encodes (opcode : Word) : Instr → Prop
  | .cls => opcode = 0x00E0#16
  | .ret => opcode = 0x00EE#16
  | .sys nnn => IsCall opcode ∧ nnn = opcodeDecodeAddress opcode
  | .jp nnn => opcode &&& 0xF000#16 = 0x1000#16 ∧ nnn = opcodeDecodeAddress opcode
  | .call nnn => IsCall opcode ∧ nnn = opcodeDecodeAddress opcode
  | .skip c => c.Encodes opcode
  | .load x _ => IsLoad opcode ∧ x = opcodeDecodeRegisterX opcode
  | .arith x _ => IsArith opcode ∧ x = opcodeDecodeRegisterX opcode
  | .setI nnn => opcode &&& 0xF000#16 = 0xA000#16 ∧ nnn = opcodeDecodeAddress opcode
  | .jpV0 nnn => opcode &&& 0xF000#16 = 0xB000#16 ∧ nnn = opcodeDecodeAddress opcode
  | .draw _ _ n => opcode &&& 0xF000#16 = 0xD000#16 ∧ n = opcodeDecodeConst4bit opcode
  | .waitKey x => opcode &&& 0xF0FF#16 = 0xF00A#16 ∧ x = opcodeDecodeRegisterX opcode
  | .setDelay _ => opcode &&& 0xF0FF#16 = 0xF015#16
  | .setSound _ => opcode &&& 0xF0FF#16 = 0xF018#16
  | .addI _ => opcode &&& 0xF0FF#16 = 0xF01E#16
  | .sprite _ => opcode &&& 0xF0FF#16 = 0xF029#16
  | .bcd _ => opcode &&& 0xF0FF#16 = 0xF033#16
  | .dump x => opcode &&& 0xF0FF#16 = 0xF055#16 ∧ x = opcodeDecodeRegisterX opcode
  | .restore x => opcode &&& 0xF0FF#16 = 0xF065#16 ∧ x = opcodeDecodeRegisterX opcode

/-- Each row builds, from an opcode that matches it, an instruction of the opcode's class. -/
theorem rows_encodes {opcode : Word} (h0 : opcode ≠ 0x00E0#16) (hE : opcode ≠ 0x00EE#16) :
    ∀ r ∈ rows, opcode &&& r.mask = r.pattern → (r.build opcode).Encodes opcode := by
  simp only [rows, List.forall_mem_cons, Instr.Encodes, Skip.Encodes, IsCall, IsLoad, IsArith]
  simp +contextual [h0, hE]

/-- An instruction is decoded only from an opcode of its class. -/
theorem decode_encodes {opcode : Word} {i : Instr} (h : decode opcode = some i) : i.Encodes opcode := by
  rw [decode] at h
  split at h
  · rename_i h0
    rw [← Option.some.inj h]
    exact h0
  · split at h
    · rename_i _ hE
      rw [← Option.some.inj h]
      exact hE
    · rename_i h0 hE
      obtain ⟨r, hr, hm, rfl⟩ := decodeRows_mem h
      exact rows_encodes h0 hE r hr hm

/-! ## Reading a class back -/

/-- 1nnn decodes to its instruction. -/
theorem decode_jp {opcode : Word} (h : opcode &&& 0xF000#16 = 0x1000#16) :
    decode opcode = some (.jp (opcodeDecodeAddress opcode)) :=
  decode_of_high_row ⟨_, _, fun op => .jp (opcodeDecodeAddress op)⟩ (by simp [rows]) (by decide) h

/-- Bnnn decodes to its instruction. -/
theorem decode_jpV0 {opcode : Word} (h : opcode &&& 0xF000#16 = 0xB000#16) :
    decode opcode = some (.jpV0 (opcodeDecodeAddress opcode)) :=
  decode_of_high_row ⟨_, _, fun op => .jpV0 (opcodeDecodeAddress op)⟩ (by simp [rows]) (by decide) h

/-- Fx0A decodes to its instruction. -/
theorem decode_waitKey {opcode : Word} (h : opcode &&& 0xF0FF#16 = 0xF00A#16) :
    decode opcode = some (.waitKey (opcodeDecodeRegisterX opcode)) :=
  decode_of_high_row ⟨_, _, fun op => .waitKey (opcodeDecodeRegisterX op)⟩ (by simp [rows]) (by decide) h

/-- Fx33 decodes to its instruction. -/
theorem decode_bcd {opcode : Word} (h : opcode &&& 0xF0FF#16 = 0xF033#16) :
    decode opcode = some (.bcd (opcodeDecodeRegisterX opcode)) :=
  decode_of_high_row ⟨_, _, fun op => .bcd (opcodeDecodeRegisterX op)⟩ (by simp [rows]) (by decide) h

/-- Fx55 decodes to its instruction. -/
theorem decode_dump {opcode : Word} (h : opcode &&& 0xF0FF#16 = 0xF055#16) :
    decode opcode = some (.dump (opcodeDecodeRegisterX opcode)) :=
  decode_of_high_row ⟨_, _, fun op => .dump (opcodeDecodeRegisterX op)⟩ (by simp [rows]) (by decide) h

/-- Fx65 decodes to its instruction. -/
theorem decode_restore {opcode : Word} (h : opcode &&& 0xF0FF#16 = 0xF065#16) :
    decode opcode = some (.restore (opcodeDecodeRegisterX opcode)) :=
  decode_of_high_row ⟨_, _, fun op => .restore (opcodeDecodeRegisterX op)⟩ (by simp [rows]) (by decide) h

/-- Dxyn decodes to its instruction. -/
theorem decode_draw {opcode : Word} (h : opcode &&& 0xF000#16 = 0xD000#16) :
    decode opcode =
      some (.draw (opcodeDecodeRegisterX opcode) (opcodeDecodeRegisterY opcode) (opcodeDecodeConst4bit opcode)) :=
  decode_of_high_row
    ⟨_, _, fun op => .draw (opcodeDecodeRegisterX op) (opcodeDecodeRegisterY op) (opcodeDecodeConst4bit op)⟩
    (by simp [rows]) (by decide) h

/-- A call instruction. -/
def IsCallInstr (i : Instr) : Prop := ∃ nnn, i = .sys nnn ∨ i = .call nnn

/-- 00EE decodes to the return. -/
theorem decode_ret_iff {opcode : Word} {i : Instr} (hd : decode opcode = some i) : opcode = 0x00EE#16 ↔ i = .ret := by
  constructor
  · intro h
    rw [h] at hd
    exact (Option.some.inj (hd.symm.trans (rfl : decode 0x00EE#16 = some .ret)))
  · rintro rfl
    exact decode_encodes hd

/-- The calls decode to call instructions and nothing else does. -/
theorem decode_call_iff {opcode : Word} {i : Instr} (hd : decode opcode = some i) : IsCall opcode ↔ IsCallInstr i := by
  constructor
  · rintro (h | ⟨h, h0, hE⟩)
    · have hr := decode_of_high_row ⟨_, _, fun op => .call (opcodeDecodeAddress op)⟩ (by simp [rows]) (by decide) h
      rw [hd] at hr
      exact ⟨_, Or.inr (Option.some.inj hr)⟩
    · have hr := decode_of_row ⟨_, _, fun op => .sys (opcodeDecodeAddress op)⟩ (by simp [rows]) h h0 hE
      rw [hd] at hr
      exact ⟨_, Or.inl (Option.some.inj hr)⟩
  · rintro ⟨nnn, rfl | rfl⟩
    · exact (decode_encodes hd).1
    · exact (decode_encodes hd).1

/-- A call is decoded: no call is an unsupported opcode. -/
theorem decode_isSome_of_call {opcode : Word} (h : IsCall opcode) : ∃ i, decode opcode = some i := by
  rcases h with h | ⟨h, h0, hE⟩
  · exact ⟨_, decode_of_high_row ⟨_, _, fun op => .call (opcodeDecodeAddress op)⟩ (by simp [rows]) (by decide) h⟩
  · exact ⟨_, decode_of_row ⟨_, _, fun op => .sys (opcodeDecodeAddress op)⟩ (by simp [rows]) h h0 hE⟩

/-! ## A chain of comparisons is `decode` with a continuation -/

/-- One comparison of a chain, with the rest of the chain below it. -/
theorem row_eq {β : Type} {opcode mask pattern : Word} {build : Word → Instr} {rs : List Row} {f : Instr → β} {d a b : β}
    (ha : a = f (build opcode)) (hb : b = (decodeRows opcode rs).elim d f) :
    (if opcode &&& mask = pattern then a else b) = (decodeRows opcode (⟨mask, pattern, build⟩ :: rs)).elim d f := by
  rw [decodeRows]
  split
  · exact ha
  · exact hb

/-- The two exact comparisons at the head of a chain. -/
theorem decode_eq {β : Type} {opcode : Word} {f : Instr → β} {d a b c : β} (ha : a = f .cls) (hb : b = f .ret)
    (hc : c = (decodeRows opcode rows).elim d f) :
    (if opcode = 0x00E0#16 then a else if opcode = 0x00EE#16 then b else c) = (decode opcode).elim d f := by
  rw [decode]
  split
  · exact ha
  · split
    · exact hb
    · exact hc

/-! ## The chain of the CPU -/

/-- The register written. -/
theorem setRegister_register_self (m : Machine) (r : RegisterIndex) (value : Byte) :
    (m.setRegister r value).register r = value := by
  simp [Machine.setRegister, Machine.register]

/-- Writing a register leaves the other ones. -/
theorem setRegister_register_ne (m : Machine) {r x : RegisterIndex} (value : Byte) (h : r ≠ x) :
    (m.setRegister x value).register r = m.register r := by
  simp [Machine.setRegister, Machine.register, h]

/-- Writing VF leaves the other registers. -/
theorem setFlag_register_ne (m : Machine) (b : Bool) {r : RegisterIndex} (h : r ≠ vf) :
    (m.setFlag b).register r = m.register r :=
  setRegister_register_ne m _ h

/-- The flag written, as a number. -/
theorem setFlag_register_vf (m : Machine) (b : Bool) : (m.setFlag b).register vf = if b then 1 else 0 :=
  setRegister_register_self m vf _

/-- 8xy4 as an instruction. -/
theorem execVxPlusVy_eq (inp : Input) (m : Machine) (opcode : Word) :
    execVxPlusVy m opcode =
      Instr.exec inp m (.arith (opcodeDecodeRegisterX opcode) (.add (opcodeDecodeRegisterY opcode))) := by
  simp only [execVxPlusVy, Instr.exec, Arith.operand, Option.some.injEq]
  rfl

/-- 8xy5 as an instruction: the operands are not VF, so the flag written first does not change them. -/
theorem execVxMinusVy_eq (inp : Input) (m : Machine) (opcode : Word) :
    execVxMinusVy m opcode =
      Instr.exec inp m (.arith (opcodeDecodeRegisterX opcode) (.sub (opcodeDecodeRegisterY opcode))) := by
  simp only [execVxMinusVy, Instr.exec, Arith.operand, Option.some.injEq]
  split
  · rfl
  · rename_i h
    rw [not_or] at h
    rw [setFlag_register_ne _ _ h.1, setFlag_register_ne _ _ h.2]
    rfl

/-- 8xy7 as an instruction. -/
theorem execSetVxVyMinusVx_eq (inp : Input) (m : Machine) (opcode : Word) :
    execSetVxVyMinusVx m opcode =
      Instr.exec inp m (.arith (opcodeDecodeRegisterX opcode) (.subn (opcodeDecodeRegisterY opcode))) := by
  simp only [execSetVxVyMinusVx, Instr.exec, Arith.operand, Option.some.injEq]
  split
  · rfl
  · rename_i h
    rw [not_or] at h
    rw [setFlag_register_ne _ _ h.1, setFlag_register_ne _ _ h.2]
    rfl

/-- 8xy6 as an instruction. -/
theorem execSetVxRshiftOne_eq (inp : Input) (m : Machine) (opcode : Word) :
    execSetVxRshiftOne m opcode = Instr.exec inp m (.arith (opcodeDecodeRegisterX opcode) .shr) := by
  simp only [execSetVxRshiftOne, Instr.exec, Arith.operand, reduceCtorEq, or_false]
  split
  · rfl
  · rename_i h
    rw [setFlag_register_ne _ _ h]
    rfl

/-- 8xyE as an instruction. -/
theorem execSetVxLshiftOne_eq (inp : Input) (m : Machine) (opcode : Word) :
    execSetVxLshiftOne m opcode = Instr.exec inp m (.arith (opcodeDecodeRegisterX opcode) .shl) := by
  simp only [execSetVxLshiftOne, Instr.exec, Arith.operand, reduceCtorEq, or_false]
  split
  · rfl
  · rename_i h
    rw [setFlag_register_ne _ _ h]
    rfl

/-- The dispatch of the CPU decodes the opcode and executes the instruction; an opcode that decodes to none ends in the
`unsupported opcode` error. -/
theorem cpuDecodeAndExecOpcode_eq (inp : Input) (m : Machine) (opcode : Word) :
    cpuDecodeAndExecOpcode inp m opcode =
      (decode opcode).elim (.error (.unsupportedOpcode opcode)) (Instr.exec inp m) := by
  refine decode_eq rfl rfl ?_
  unfold rows
  -- 0nnn to 8xy3
  iterate 12 refine row_eq rfl ?_
  refine row_eq (execVxPlusVy_eq inp m opcode) ?_
  refine row_eq (execVxMinusVy_eq inp m opcode) ?_
  refine row_eq (execSetVxRshiftOne_eq inp m opcode) ?_
  refine row_eq (execSetVxVyMinusVx_eq inp m opcode) ?_
  refine row_eq (execSetVxLshiftOne_eq inp m opcode) ?_
  -- 9xy0 to Fx65
  iterate 16 refine row_eq rfl ?_
  rfl

end CLangExamples.Emulator
