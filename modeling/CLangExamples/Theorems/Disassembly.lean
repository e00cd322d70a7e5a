import CLangExamples.Emulator.Disassembler
import CLangExamples.Lemmas.Step

/-!
# The disassembler is faithful to the CPU

The two dispatch chains of the source are read together: `entries` gives for each row of the dispatch the line the
disassembler prints and the instruction the CPU executes, and `disassemble_cases` says that this table is what the chains
do. Two opcodes with the same line are opcodes of the same entry, since no two entries have the same text between their
numbers (`entries_skeletons`); and the line shows every operand that the instruction reads (`entries_shown`).
-/

namespace CLangExamples.Emulator

open Printf

namespace DisassemblyAux

/-- What a line of the disassembler stands for. -/
structure Entry where
  line : Line
  build : Word → Instr

/-- The lines of the disassembler, in the order of the source. -/
def entries : List Entry :=
  ⟨disassembleDisplayClear, fun _ => .cls⟩ ::
  ⟨disassembleReturn, fun _ => .ret⟩ ::
  ⟨disassembleCall, fun op => .sys (opcodeDecodeAddress op)⟩ ::
  ⟨disassembleGoto, fun op => .jp (opcodeDecodeAddress op)⟩ ::
  ⟨disassembleCallSubroutine, fun op => .call (opcodeDecodeAddress op)⟩ ::
  ⟨disassembleIfEquals, fun op => .skip (.eqByte (opcodeDecodeRegisterX op) (opcodeDecodeConst8bit op))⟩ ::
  ⟨disassembleIfNotEquals, fun op => .skip (.neByte (opcodeDecodeRegisterX op) (opcodeDecodeConst8bit op))⟩ ::
  ⟨disassembleSkipNextIfVxEqualsVy, fun op => .skip (.eqReg (opcodeDecodeRegisterX op) (opcodeDecodeRegisterY op))⟩ ::
  ⟨disassembleSetRegister, fun op => .load (opcodeDecodeRegisterX op) (.byte (opcodeDecodeConst8bit op))⟩ ::
  ⟨disassembleAddToVx, fun op => .load (opcodeDecodeRegisterX op) (.addByte (opcodeDecodeConst8bit op))⟩ ::
  ⟨disassembleSetVxFromVy, fun op => .load (opcodeDecodeRegisterX op) (.reg (opcodeDecodeRegisterY op))⟩ ::
  ⟨disassembleSetVxToVxOr, fun op => .load (opcodeDecodeRegisterX op) (.or (opcodeDecodeRegisterY op))⟩ ::
  ⟨disassembleSetVxToVxAnd, fun op => .load (opcodeDecodeRegisterX op) (.and (opcodeDecodeRegisterY op))⟩ ::
  ⟨disassembleSetVxToVxXor, fun op => .load (opcodeDecodeRegisterX op) (.xor (opcodeDecodeRegisterY op))⟩ ::
  ⟨disassembleVxPlusVy, fun op => .arith (opcodeDecodeRegisterX op) (.add (opcodeDecodeRegisterY op))⟩ ::
  ⟨disassembleVxMinusVy, fun op => .arith (opcodeDecodeRegisterX op) (.sub (opcodeDecodeRegisterY op))⟩ ::
  ⟨disassembleSetVxRshiftOne, fun op => .arith (opcodeDecodeRegisterX op) .shr⟩ ::
  ⟨disassembleSetVxVyMinusVx, fun op => .arith (opcodeDecodeRegisterX op) (.subn (opcodeDecodeRegisterY op))⟩ ::
  ⟨disassembleSetVxLshiftOne, fun op => .arith (opcodeDecodeRegisterX op) .shl⟩ ::
  ⟨disassembleIfVxNotEqualsToVy, fun op => .skip (.neReg (opcodeDecodeRegisterX op) (opcodeDecodeRegisterY op))⟩ ::
  ⟨disassembleSetIRegister, fun op => .setI (opcodeDecodeAddress op)⟩ ::
  ⟨disassembleJumpToAddrPlusV0, fun op => .jpV0 (opcodeDecodeAddress op)⟩ ::
  ⟨disassembleSetVxRandAnd, fun op => .load (opcodeDecodeRegisterX op) (.rand (opcodeDecodeConst8bit op))⟩ ::
  ⟨disassembleDisplayDrawSpriteAt,
    fun op => .draw (opcodeDecodeRegisterX op) (opcodeDecodeRegisterY op) (opcodeDecodeConst4bit op)⟩ ::
  ⟨disassembleIfKeyEqualsToVx, fun op => .skip (.key (opcodeDecodeRegisterX op))⟩ ::
  ⟨disassembleIfKeyNotEqualsToVx, fun op => .skip (.noKey (opcodeDecodeRegisterX op))⟩ ::
  ⟨disassembleSetVxFromDelayTimer, fun op => .load (opcodeDecodeRegisterX op) .delay⟩ ::
  ⟨disassembleSetVxFromKey, fun op => .waitKey (opcodeDecodeRegisterX op)⟩ ::
  ⟨disassembleSetDelayTimerFromVx, fun op => .setDelay (opcodeDecodeRegisterX op)⟩ ::
  ⟨disassembleSetSoundTimer, fun op => .setSound (opcodeDecodeRegisterX op)⟩ ::
  ⟨disassembleAddVxToI, fun op => .addI (opcodeDecodeRegisterX op)⟩ ::
  ⟨disassembleSetIToSpriteAddr, fun op => .sprite (opcodeDecodeRegisterX op)⟩ ::
  ⟨disassembleSetBcd, fun op => .bcd (opcodeDecodeRegisterX op)⟩ ::
  ⟨disassembleRegDump, fun op => .dump (opcodeDecodeRegisterX op)⟩ ::
  ⟨disassembleRegLoad, fun op => .restore (opcodeDecodeRegisterX op)⟩ ::
  []

/-- No two lines have the same text between their numbers. -/
theorem entries_skeletons : (entries.map fun e => formatSkeleton e.line).Nodup := by decide +kernel

/-- In every line a number is followed by text that does not start with a digit. -/
theorem entries_separated : ∀ e ∈ entries, separated e.line = true := by decide +kernel

/-- Literal text shows nothing. -/
@[simp]
theorem argsAgree_text (a b : Word) (s : String) : ArgsAgree a b (text s) := trivial

@[simp]
theorem argsAgree_registerX (a b : Word) :
    ArgsAgree a b registerX ↔ opcodeDecodeRegisterX a = opcodeDecodeRegisterX b := by
  simp [registerX, ArgsAgree, Fin.ext_iff]

@[simp]
theorem argsAgree_registerY (a b : Word) :
    ArgsAgree a b registerY ↔ opcodeDecodeRegisterY a = opcodeDecodeRegisterY b := by
  simp [registerY, ArgsAgree, Fin.ext_iff]

@[simp]
theorem argsAgree_const8bit (a b : Word) :
    ArgsAgree a b const8bit ↔ opcodeDecodeConst8bit a = opcodeDecodeConst8bit b := by
  simp [const8bit, ArgsAgree, BitVec.toNat_inj]

@[simp]
theorem argsAgree_const4bit (a b : Word) :
    ArgsAgree a b const4bit ↔ opcodeDecodeConst4bit a = opcodeDecodeConst4bit b := by
  simp [const4bit, ArgsAgree, BitVec.toNat_inj]

@[simp]
theorem argsAgree_address (a b : Word) : ArgsAgree a b address ↔ opcodeDecodeAddress a = opcodeDecodeAddress b := by
  simp [address, ArgsAgree, BitVec.toNat_inj]

/-- A line shows every operand that its instruction has. -/
theorem entries_shown (a b : Word) : ∀ e ∈ entries, ArgsAgree a b e.line → e.build a = e.build b := by
  simp only [entries, List.forall_mem_cons]
  simp +contextual [disassembleDisplayClear, disassembleReturn, disassembleCall, disassembleGoto, disassembleCallSubroutine,
    disassembleIfEquals, disassembleIfNotEquals, disassembleSkipNextIfVxEqualsVy, disassembleSetRegister,
    disassembleAddToVx, disassembleSetVxFromVy, disassembleSetVxToVxOr, disassembleSetVxToVxAnd,
    disassembleSetVxToVxXor, disassembleVxPlusVy, disassembleVxMinusVy, disassembleSetVxRshiftOne,
    disassembleSetVxVyMinusVx, disassembleSetVxLshiftOne, disassembleIfVxNotEqualsToVy, disassembleSetIRegister,
    disassembleJumpToAddrPlusV0, disassembleSetVxRandAnd, disassembleDisplayDrawSpriteAt,
    disassembleIfKeyEqualsToVx, disassembleIfKeyNotEqualsToVx, disassembleSetVxFromDelayTimer,
    disassembleSetVxFromKey, disassembleSetDelayTimerFromVx, disassembleSetSoundTimer, disassembleAddVxToI,
    disassembleSetIToSpriteAddr, disassembleSetBcd, disassembleRegDump, disassembleRegLoad, assignment]

/-- What the disassembler returns and prints against what an opcode decodes to, for the lines of a table. -/
def Tells (opcode : Word) (es : List Entry) (result : Bool × List Char) (decoded : Option Instr) : Prop :=
  (result.1 = false ∧ decoded = none) ∨
    ∃ e ∈ es, result = (true, render opcode e.line) ∧ decoded = some (e.build opcode)

/-- A comparison that an opcode passes or fails in both chains. -/
theorem tells_step {opcode : Word} {c : Prop} [Decidable c] {line : Line} {build : Word → Instr} {es : List Entry}
    {rest : Bool × List Char} {d : Option Instr} (hrest : Tells opcode es rest d) :
    Tells opcode (⟨line, build⟩ :: es) (if c then printed opcode line else rest)
      (if c then some (build opcode) else d) := by
  split
  · exact Or.inr ⟨⟨line, build⟩, by simp, rfl, rfl⟩
  · rcases hrest with h | ⟨e, he, hr, hd⟩
    · exact Or.inl h
    · exact Or.inr ⟨e, by simp [he], hr, hd⟩

/-- The two chains of the source are the table. -/
theorem disassemble_cases (opcode : Word) : Tells opcode entries (disassemblerDisassemble opcode) (decode opcode) := by
  unfold entries
  iterate 35 refine tells_step ?_
  exact Or.inl ⟨rfl, rfl⟩

/-- An instruction never ends in the `unsupported opcode` error. -/
theorem exec_ne_unsupported (inp : Input) (m : Machine) (i : Instr) (opcode : Word) :
    i.exec inp m ≠ .error (.unsupportedOpcode opcode) := by
  intro h
  cases exec_failure h

/-- Two supported opcodes with the same line decode to the same instruction. -/
theorem decode_eq_of_line_eq {a b : Word} (ha : (disassemblerDisassemble a).1 = true)
    (hb : (disassemblerDisassemble b).1 = true) (h : (disassemblerDisassemble a).2 = (disassemblerDisassemble b).2) :
    decode a = decode b := by
  rcases disassemble_cases a with ⟨hf, -⟩ | ⟨e, he, hra, hda⟩
  · simp [hf] at ha
  rcases disassemble_cases b with ⟨hf, -⟩ | ⟨e', he', hrb, hdb⟩
  · simp [hf] at hb
  have hline : render a e.line = render b e'.line := by
    rw [hra, hrb] at h
    exact h
  have hskel : formatSkeleton e.line = formatSkeleton e'.line := by
    rw [← skeleton_render a, hline, skeleton_render]
  have hee : e = e' := List.inj_on_of_nodup_map entries_skeletons he he' hskel
  subst hee
  have hargs : ArgsAgree a b e.line := render_injective (entries_separated e he) hline
  rw [hda, hdb, entries_shown a b e he hargs]

end DisassemblyAux

/-- The disassembler refuses exactly the opcodes that the CPU does not support, and two opcodes that it prints as the same
line do the same to every machine under every input. -/
theorem disassembler_faithful :
    (∀ (opcode : Word) (inp : Input) (m : Machine), (disassemblerDisassemble opcode).1 = false ↔
      cpuDecodeAndExecOpcode inp m opcode = .error (.unsupportedOpcode opcode)) ∧
    ∀ opcode opcode' : Word, (disassemblerDisassemble opcode).1 = true → (disassemblerDisassemble opcode').1 = true →
      (disassemblerDisassemble opcode).2 = (disassemblerDisassemble opcode').2 →
      ∀ (inp : Input) (m : Machine), cpuDecodeAndExecOpcode inp m opcode = cpuDecodeAndExecOpcode inp m opcode' := by
  constructor
  · intro opcode inp m
    rw [cpuDecodeAndExecOpcode_eq]
    rcases DisassemblyAux.disassemble_cases opcode with ⟨hf, hd⟩ | ⟨e, -, hr, hd⟩
    · simp [hf, hd]
    · simp [hr, hd, DisassemblyAux.exec_ne_unsupported]
  · intro opcode opcode' ha hb h inp m
    have hd := DisassemblyAux.decode_eq_of_line_eq ha hb h
    -- The error of an unsupported opcode names the opcode, so the equality needs both to be supported.
    rw [cpuDecodeAndExecOpcode_eq, cpuDecodeAndExecOpcode_eq, hd]
    rcases DisassemblyAux.disassemble_cases opcode' with ⟨hf, -⟩ | ⟨e, -, -, hd'⟩
    · simp [hf] at hb
    · rw [hd']
      rfl

/-- 8126 and 8136 print as the same line and do the same to the initial machine. -/
theorem disassembler_faithful_shift :
    (disassemblerDisassemble 0x8126#16).2 = "V1 >>= 1\n".toList ∧
      cpuDecodeAndExecOpcode idleInput machineInit 0x8126#16 = cpuDecodeAndExecOpcode idleInput machineInit 0x8136#16 :=
  ⟨by decide, disassembler_faithful.2 0x8126#16 0x8136#16 (by decide) (by decide) (by decide) idleInput machineInit⟩

end CLangExamples.Emulator
