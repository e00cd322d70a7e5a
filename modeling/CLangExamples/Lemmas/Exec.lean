import CLangExamples.Lemmas.Decode
import CLangExamples.Lib.Run

/-!
# What an instruction can do

`Effect` lists, for each instruction, every machine it can leave when it does not halt; `exec_effect` says that nothing
else happens. The loops over the memory (Dxyn, Fx55, Fx65) and the three stores of Fx33 are first brought to closed form:
they succeed exactly when their range lies in the memory, and halt on an index past it otherwise.
-/

namespace CLangExamples.Emulator

open Transition

/-- `x` ended on an index past the end of the memory. -/
def MemoryFault {α : Type} (x : Except Halt α) : Prop := ∃ index, x = .error (.memoryIndex index)

/-! ## Copies into the memory -/

/-- Outside its range a copy changes nothing. -/
theorem memcpy_of_not_mem (mem : Memory) (start : Nat) (bytes : List Byte) (a : Fin memorySize)
    (h : ¬(start ≤ a.val ∧ a.val < start + bytes.length)) : memcpy mem start bytes a = mem a := by
  unfold memcpy
  split
  · rename_i hs
    rw [List.getElem?_eq_none (by omega), Option.getD_none]
  · rfl

/-- Inside its range a copy leaves the byte copied. -/
theorem memcpy_of_mem (mem : Memory) (start : Nat) (bytes : List Byte) (a : Fin memorySize) (k : Nat)
    (hk : k < bytes.length) (ha : a.val = start + k) : memcpy mem start bytes a = bytes[k] := by
  unfold memcpy
  rw [if_pos (by omega), show a.val - start = k by omega, List.getElem?_eq_getElem hk, Option.getD_some]

/-- A copy of no bytes. -/
theorem memcpy_nil (mem : Memory) (start : Nat) : memcpy mem start [] = mem := by
  funext a
  exact memcpy_of_not_mem mem start [] a (by simp)

/-- Copying byte after byte is one store and the copy of the rest. -/
theorem memcpy_cons (mem : Memory) (start : Nat) (hs : start < memorySize) (b : Byte) (rest : List Byte) :
    memcpy (Function.update mem ⟨start, hs⟩ b) (start + 1) rest = memcpy mem start (b :: rest) := by
  funext a
  by_cases ha : a.val = start
  · have hself : a = ⟨start, hs⟩ := Fin.ext ha
    rw [memcpy_of_not_mem _ _ _ _ (by omega), memcpy_of_mem mem start (b :: rest) a 0 (by simp) (by omega), hself]
    simp
  · have hne : a ≠ ⟨start, hs⟩ := fun h => ha (congrArg Fin.val h)
    by_cases hr : start + 1 ≤ a.val ∧ a.val < start + 1 + rest.length
    · obtain ⟨k, hk⟩ : ∃ k, a.val = start + 1 + k := ⟨a.val - (start + 1), by omega⟩
      rw [memcpy_of_mem _ _ _ _ k (by omega) hk,
        memcpy_of_mem mem start (b :: rest) a (k + 1) (by simp; omega) (by omega), List.getElem_cons_succ]
    · rw [memcpy_of_not_mem _ _ _ _ hr, memcpy_of_not_mem mem start (b :: rest) a (by simp; omega),
        Function.update_of_ne hne]

/-! ## Single accesses -/

theorem readMemory_of_lt (m : Machine) {index : Nat} (h : index < memorySize) :
    m.readMemory index = .ok (m.memory ⟨index, h⟩) := by
  unfold Machine.readMemory
  rw [dif_pos h]

theorem readMemory_of_ge (m : Machine) {index : Nat} (h : ¬index < memorySize) :
    m.readMemory index = .error (.memoryIndex index) := by
  unfold Machine.readMemory
  rw [dif_neg h]

theorem writeMemory_of_lt (m : Machine) {index : Nat} (h : index < memorySize) (b : Byte) :
    m.writeMemory index b = .ok { m with memory := Function.update m.memory ⟨index, h⟩ b } := by
  unfold Machine.writeMemory
  rw [dif_pos h]

theorem writeMemory_of_ge (m : Machine) {index : Nat} (h : ¬index < memorySize) (b : Byte) :
    m.writeMemory index b = .error (.memoryIndex index) := by
  unfold Machine.writeMemory
  rw [dif_neg h]

/-! ## Loops over the memory -/

/-- Below the end of the memory the `Address` that a loop increments does not wrap. -/
theorem toNat_address_succ {addr : Address} (h : addr.toNat < memorySize) : (addr + 1).toNat = addr.toNat + 1 := by
  have hm : memorySize = 4096 := rfl
  have h1 : (1 : Address).toNat = 1 := rfl
  rw [BitVec.toNat_add, h1]
  omega

/-- The sprite of Dxyn is read without a fault when its range lies in the memory. -/
theorem readSprite_ok (m : Machine) (n index : Nat) (h : ∀ k < n, index + k < memorySize) :
    ∃ sprite, m.readSprite index n = .ok sprite := by
  induction n generalizing index with
  | zero => exact ⟨[], rfl⟩
  | succ n ih =>
    obtain ⟨rest, hrest⟩ := ih (index + 1) (fun k hk => by have := h (k + 1) (by omega); omega)
    have hi : index < memorySize := h 0 (by omega)
    refine ⟨m.memory ⟨index, hi⟩ :: rest, ?_⟩
    unfold Machine.readSprite
    rw [readMemory_of_lt m hi, hrest]
    rfl

/-- The sprite of Dxyn runs past the end of the memory otherwise. -/
theorem readSprite_fault (m : Machine) (n index : Nat) (h : ¬∀ k < n, index + k < memorySize) :
    MemoryFault (m.readSprite index n) := by
  induction n generalizing index with
  | zero => exact absurd (fun k hk => absurd hk (Nat.not_lt_zero k)) h
  | succ n ih =>
    unfold Machine.readSprite
    by_cases hi : index < memorySize
    · obtain ⟨j, hj⟩ := ih (index + 1) (by
        intro hall
        apply h
        intro k hk
        cases k with
        | zero => exact hi
        | succ k => have := hall k (by omega); omega)
      exact ⟨j, by rw [readMemory_of_lt m hi, hj]; rfl⟩
    · exact ⟨index, by rw [readMemory_of_ge m hi]; rfl⟩

/-- Fx55 copies the registers when its range lies in the memory. -/
theorem regDumpLoop_ok (rs : List RegisterIndex) (addr : Address) (m : Machine)
    (h : addr.toNat + rs.length ≤ memorySize) :
    regDumpLoop rs addr m = .ok { m with memory := memcpy m.memory addr.toNat (rs.map m.register) } := by
  induction rs generalizing addr m with
  | nil => rw [List.map_nil, memcpy_nil]; rfl
  | cons r rest ih =>
    simp only [List.length_cons] at h
    have hlt : addr.toNat < memorySize := by omega
    have hs := toNat_address_succ hlt
    have hstep : regDumpLoop (r :: rest) addr m = regDumpLoop rest (addr + 1)
        { m with memory := Function.update m.memory ⟨addr.toNat, hlt⟩ (m.register r) } := by
      rw [regDumpLoop, writeMemory_of_lt m hlt]
      rfl
    rw [hstep, ih (addr + 1) _ (by omega), hs, List.map_cons, ← memcpy_cons m.memory addr.toNat hlt]
    rfl

/-- Fx55 runs past the end of the memory otherwise. -/
theorem regDumpLoop_fault (rs : List RegisterIndex) (addr : Address) (m : Machine) (hne : rs ≠ [])
    (h : ¬addr.toNat + rs.length ≤ memorySize) : MemoryFault (regDumpLoop rs addr m) := by
  induction rs generalizing addr m with
  | nil => exact absurd rfl hne
  | cons r rest ih =>
    unfold regDumpLoop
    by_cases hlt : addr.toNat < memorySize
    · have hs := toNat_address_succ hlt
      simp only [List.length_cons] at h
      have hrest : rest ≠ [] := by rintro rfl; simp at h; omega
      rw [writeMemory_of_lt m hlt]
      exact ih (addr + 1) _ hrest (by omega)
    · exact ⟨addr.toNat, by rw [writeMemory_of_ge m hlt]; rfl⟩

/-- Fx65 loads the registers of its list, one byte each, and no other when its range lies in the memory. -/
theorem regLoadLoop_ok (rs : List RegisterIndex) (addr : Address) (m : Machine)
    (h : addr.toNat + rs.length ≤ memorySize) :
    ∃ regs : RegisterIndex → Byte, (∀ r, r ∉ rs → regs r = m.register r) ∧
      (rs.Nodup → ∀ k (hk : k < rs.length), regs rs[k] = m.memory ⟨addr.toNat + k, by omega⟩) ∧
      regLoadLoop rs addr m = .ok { m with cpu := { m.cpu with registers := regs } } := by
  induction rs generalizing addr m with
  | nil => exact ⟨m.cpu.registers, fun _ _ => rfl, fun _ k hk => absurd hk (Nat.not_lt_zero k), rfl⟩
  | cons r rest ih =>
    simp only [List.length_cons] at h
    have hlt : addr.toNat < memorySize := by omega
    have hs := toNat_address_succ hlt
    obtain ⟨regs, hregs, hloaded, heq⟩ := ih (addr + 1) (m.setRegister r (m.memory ⟨addr.toNat, hlt⟩)) (by omega)
    refine ⟨regs, ?_, ?_, ?_⟩
    · intro s hsr
      rw [List.mem_cons, not_or] at hsr
      rw [hregs s hsr.2, setRegister_register_ne _ _ hsr.1]
    · intro hn k hk
      rw [List.nodup_cons] at hn
      cases k with
      | zero =>
        rw [List.getElem_cons_zero, hregs r hn.1, setRegister_register_self]
        rfl
      | succ k =>
        rw [List.getElem_cons_succ, hloaded hn.2 k (Nat.lt_of_succ_lt_succ hk)]
        exact congrArg m.memory (Fin.ext (show (addr + 1).toNat + k = addr.toNat + (k + 1) by omega))
    · unfold regLoadLoop
      rw [readMemory_of_lt m hlt]
      exact heq

/-- Fx65 runs past the end of the memory otherwise. -/
theorem regLoadLoop_fault (rs : List RegisterIndex) (addr : Address) (m : Machine) (hne : rs ≠ [])
    (h : ¬addr.toNat + rs.length ≤ memorySize) : MemoryFault (regLoadLoop rs addr m) := by
  induction rs generalizing addr m with
  | nil => exact absurd rfl hne
  | cons r rest ih =>
    unfold regLoadLoop
    by_cases hlt : addr.toNat < memorySize
    · have hs := toNat_address_succ hlt
      simp only [List.length_cons] at h
      have hrest : rest ≠ [] := by rintro rfl; simp at h; omega
      rw [readMemory_of_lt m hlt]
      exact ih (addr + 1) _ hrest (by omega)
    · exact ⟨addr.toNat, by rw [readMemory_of_ge m hlt]; rfl⟩

/-- The loops `for (i = 0; i <= x; i++)` visit V0 to Vx. -/
theorem mem_registersUpTo (r x : RegisterIndex) : r ∈ registersUpTo x ↔ r ≤ x := by
  simp [registersUpTo]

/-- The loops `for (i = 0; i <= x; i++)` run `x + 1` times. -/
theorem length_registersUpTo : ∀ x : RegisterIndex, (registersUpTo x).length = x.val + 1 := by decide

theorem registersUpTo_ne_nil (x : RegisterIndex) : registersUpTo x ≠ [] := by
  intro h
  have hl := length_registersUpTo x
  rw [h] at hl
  simp at hl

/-- Fx33 stores three bytes when its range lies in the memory. -/
theorem storeBcd_ok (m : Machine) (vx : Byte) (h : m.cpu.i.toNat + 2 < memorySize) :
    ∃ digits : List Byte, digits.length = 3 ∧
      m.storeBcd vx = .ok { m with memory := memcpy m.memory m.cpu.i.toNat digits } := by
  refine ⟨[BitVec.ofNat 8 (vx.toNat % 1000 / 100), BitVec.ofNat 8 (vx.toNat % 100 / 10),
    BitVec.ofNat 8 (vx.toNat % 10 / 1)], rfl, ?_⟩
  have h0 : m.cpu.i.toNat < memorySize := by omega
  have h1 : m.cpu.i.toNat + 1 < memorySize := by omega
  rw [← memcpy_cons _ _ h0, ← memcpy_cons _ _ h1, ← memcpy_cons _ _ h, memcpy_nil]
  unfold Machine.storeBcd
  rw [writeMemory_of_lt m h0, ok_bind, writeMemory_of_lt _ h1, ok_bind, writeMemory_of_lt _ h]

/-- Fx33 runs past the end of the memory otherwise. -/
theorem storeBcd_fault (m : Machine) (vx : Byte) (h : ¬m.cpu.i.toNat + 2 < memorySize) :
    MemoryFault (m.storeBcd vx) := by
  unfold Machine.storeBcd
  by_cases h0 : m.cpu.i.toNat < memorySize
  · rw [writeMemory_of_lt m h0, ok_bind]
    by_cases h1 : m.cpu.i.toNat + 1 < memorySize
    · rw [writeMemory_of_lt _ h1, ok_bind, writeMemory_of_ge _ h]
      exact ⟨_, rfl⟩
    · rw [writeMemory_of_ge _ h1]
      exact ⟨_, rfl⟩
  · rw [writeMemory_of_ge m h0]
    exact ⟨_, rfl⟩

/-! ## The effect of an instruction -/

/-- The machine an instruction leaves when it does not halt, the `pc` of `m` pointing past it. -/
inductive Effect (inp : Input) (m : Machine) : Instr → Machine → Prop where
  | cls : Effect inp m .cls { m with display := displayClear }
  | ret {k : Fin stackCapacity} (h : m.cpu.stackCount = k.val + 1) :
      Effect inp m .ret { m with cpu := { m.cpu with pc := m.cpu.stack k, stackCount := k.val } }
  | sys {nnn : Address} {k : Fin stackCapacity} (h : m.cpu.stackCount = k.val) :
      Effect inp m (.sys nnn) { m with cpu := { m.cpu with
        pc := nnn, stack := Function.update m.cpu.stack k m.cpu.pc, stackCount := k.val + 1 } }
  | jp {nnn : Address} : Effect inp m (.jp nnn) (cpuGotoAddress m nnn)
  | call {nnn : Address} {k : Fin stackCapacity} (h : m.cpu.stackCount = k.val) :
      Effect inp m (.call nnn) { m with cpu := { m.cpu with
        pc := nnn, stack := Function.update m.cpu.stack k m.cpu.pc, stackCount := k.val + 1 } }
  | skip {c : Skip} (h : c.holds inp m = true) : Effect inp m (.skip c) (cpuPcAdvance m)
  | stay {c : Skip} (h : c.holds inp m = false) : Effect inp m (.skip c) m
  | load {x : RegisterIndex} {s : Source} : Effect inp m (.load x s) (m.setRegister x (s.value inp m x))
  | arith {x : RegisterIndex} {a : Arith} :
      Effect inp m (.arith x a) ((m.setFlag (a.flag m x)).setRegister x (a.value m x))
  | setI {nnn : Address} : Effect inp m (.setI nnn) (m.setI nnn)
  | jpV0 {nnn : Address} : Effect inp m (.jpV0 nnn) (cpuGotoAddress m (nnn + (m.register v0).setWidth 16))
  | draw {x y : RegisterIndex} {n : Byte} (sprite : List Byte) : Effect inp m (.draw x y n) (m.drawn x y sprite)
  | key {x : RegisterIndex} {key : Byte} (h : keyboardGetPressedKey inp = some key) :
      Effect inp m (.waitKey x) (m.setRegister x key)
  | noKey {x : RegisterIndex} (h : keyboardGetPressedKey inp = none) : Effect inp m (.waitKey x) (cpuPcAdvanceBack m)
  | setDelay {x : RegisterIndex} :
      Effect inp m (.setDelay x) { m with delayTimer := timerSetValue m.delayTimer (m.register x) }
  | setSound {x : RegisterIndex} :
      Effect inp m (.setSound x) { m with soundTimer := timerSetValue m.soundTimer (m.register x) }
  | addI {x : RegisterIndex} : Effect inp m (.addI x) (m.setI (m.cpu.i + (m.register x).setWidth 16))
  | sprite {x : RegisterIndex} : Effect inp m (.sprite x) (m.setI (memoryAddressFromSpriteValue (m.register x)))
  | bcd {x : RegisterIndex} {digits : List Byte} (h : digits.length = 3) :
      Effect inp m (.bcd x) { m with memory := memcpy m.memory m.cpu.i.toNat digits }
  | dump {x : RegisterIndex} :
      Effect inp m (.dump x) { m with memory := memcpy m.memory m.cpu.i.toNat ((registersUpTo x).map m.register) }
  | restore {x : RegisterIndex} {regs : RegisterIndex → Byte} (h : ∀ r, ¬r ≤ x → regs r = m.register r) :
      Effect inp m (.restore x) { m with cpu := { m.cpu with registers := regs } }

/-- A pop that succeeds. -/
theorem cpuStackPop_ok {m : Machine} {r : Address × Machine} (h : cpuStackPop m = .ok r) :
    ∃ k : Fin stackCapacity, m.cpu.stackCount = k.val + 1 ∧
      r = (m.cpu.stack k, { m with cpu := { m.cpu with stackCount := k.val } }) := by
  unfold cpuStackPop at h
  split at h
  · cases h
  · rename_i hne
    simp only at h
    split at h
    · rename_i hlt
      refine ⟨⟨m.cpu.stackCount - 1, hlt⟩, ?_, (Except.ok.inj h).symm⟩
      show m.cpu.stackCount = m.cpu.stackCount - 1 + 1
      omega
    · cases h

/-- A push that succeeds. -/
theorem cpuStackPush_ok {m m' : Machine} {address : Address} (h : cpuStackPush m address = .ok m') :
    ∃ k : Fin stackCapacity, m.cpu.stackCount = k.val ∧
      m' = { m with cpu := { m.cpu with stack := Function.update m.cpu.stack k address, stackCount := k.val + 1 } } := by
  unfold cpuStackPush at h
  split at h
  · cases h
  · rename_i hlt
    exact ⟨⟨m.cpu.stackCount, by omega⟩, rfl, (Except.ok.inj h).symm⟩

/-- A call that succeeds. -/
theorem callTo_ok {m m' : Machine} {nnn : Address} (h : m.callTo nnn = .ok m') :
    ∃ k : Fin stackCapacity, m.cpu.stackCount = k.val ∧
      m' = { m with cpu := { m.cpu with
        pc := nnn, stack := Function.update m.cpu.stack k m.cpu.pc, stackCount := k.val + 1 } } := by
  obtain ⟨m₁, hpush, hgoto⟩ := bind_eq_ok h
  obtain ⟨k, hk, rfl⟩ := cpuStackPush_ok hpush
  exact ⟨k, hk, (Except.ok.inj hgoto).symm⟩

/-- An instruction that does not halt has one of its effects. -/
theorem exec_effect {inp : Input} {m m' : Machine} {i : Instr} (h : i.exec inp m = .ok m') : Effect inp m i m' := by
  cases i with
  | cls => cases h; exact .cls
  | ret =>
    obtain ⟨r, hpop, hgoto⟩ := bind_eq_ok h
    obtain ⟨k, hk, rfl⟩ := cpuStackPop_ok hpop
    cases hgoto
    exact .ret hk
  | sys nnn =>
    obtain ⟨k, hk, rfl⟩ := callTo_ok h
    exact .sys hk
  | jp nnn => cases h; exact .jp
  | call nnn =>
    obtain ⟨k, hk, rfl⟩ := callTo_ok h
    exact .call hk
  | skip c =>
    cases hc : c.holds inp m with
    | true => simp only [Instr.exec, hc] at h; cases h; exact .skip hc
    | false => simp only [Instr.exec, hc] at h; cases h; exact .stay hc
  | load x s => cases h; exact .load
  | arith x a =>
    rw [Instr.exec] at h
    split at h
    · cases h
    · cases h; exact .arith
  | setI nnn => cases h; exact .setI
  | jpV0 nnn => cases h; exact .jpV0
  | draw x y n =>
    obtain ⟨sprite, -, hdrawn⟩ := bind_eq_ok h
    cases hdrawn
    exact .draw sprite
  | waitKey x =>
    cases hk : keyboardGetPressedKey inp with
    | some key => simp only [Instr.exec, hk] at h; cases h; exact .key hk
    | none => simp only [Instr.exec, hk] at h; cases h; exact .noKey hk
  | setDelay x => cases h; exact .setDelay
  | setSound x => cases h; exact .setSound
  | addI x => cases h; exact .addI
  | sprite x => cases h; exact .sprite
  | bcd x =>
    by_cases hr : m.cpu.i.toNat + 2 < memorySize
    · obtain ⟨digits, hlen, heq⟩ := storeBcd_ok m (m.register x) hr
      rw [Instr.exec, heq] at h
      cases h
      exact .bcd hlen
    · obtain ⟨index, hf⟩ := storeBcd_fault m (m.register x) hr
      rw [Instr.exec, hf] at h
      cases h
  | dump x =>
    by_cases hr : m.cpu.i.toNat + (registersUpTo x).length ≤ memorySize
    · rw [Instr.exec, regDumpLoop_ok _ _ _ hr] at h
      cases h
      exact .dump
    · obtain ⟨index, hf⟩ := regDumpLoop_fault _ _ m (registersUpTo_ne_nil x) hr
      rw [Instr.exec, hf] at h
      cases h
  | restore x =>
    by_cases hr : m.cpu.i.toNat + (registersUpTo x).length ≤ memorySize
    · obtain ⟨regs, hregs, -, heq⟩ := regLoadLoop_ok (registersUpTo x) m.cpu.i m hr
      rw [Instr.exec, heq] at h
      cases h
      exact .restore (fun r hrx => hregs r (fun hmem => hrx ((mem_registersUpTo r x).mp hmem)))
    · obtain ⟨index, hf⟩ := regLoadLoop_fault _ _ m (registersUpTo_ne_nil x) hr
      rw [Instr.exec, hf] at h
      cases h

/-! ## The stack -/

/-- What an instruction does to the stack: a return pops, a call pushes the `pc` past it, the others leave it. -/
theorem effect_stack {inp : Input} {m m' : Machine} {i : Instr} (h : Effect inp m i m') :
    (i = .ret ∧ ∃ k : Fin stackCapacity, m.cpu.stackCount = k.val + 1 ∧ m'.cpu.stack = m.cpu.stack ∧
      m'.cpu.stackCount = k.val ∧ m'.cpu.pc = m.cpu.stack k) ∨
    (IsCallInstr i ∧ ∃ k : Fin stackCapacity, m.cpu.stackCount = k.val ∧
      m'.cpu.stack = Function.update m.cpu.stack k m.cpu.pc ∧ m'.cpu.stackCount = k.val + 1) ∨
    (i ≠ .ret ∧ ¬IsCallInstr i ∧ m'.cpu.stack = m.cpu.stack ∧ m'.cpu.stackCount = m.cpu.stackCount) := by
  cases h with
  | ret hk => exact Or.inl ⟨rfl, _, hk, rfl, rfl, rfl⟩
  | sys hk => exact Or.inr (Or.inl ⟨⟨_, Or.inl rfl⟩, _, hk, rfl, rfl⟩)
  | call hk => exact Or.inr (Or.inl ⟨⟨_, Or.inr rfl⟩, _, hk, rfl, rfl⟩)
  | _ => exact Or.inr (Or.inr ⟨nofun, by simp [IsCallInstr], rfl, rfl⟩)

end CLangExamples.Emulator
