import CLangExamples.Emulator.Run
import CLangExamples.Lemmas.Decode
import CLangExamples.Lemmas.Display
import Mathlib.Algebra.GroupWithZero.Nat

/-!
# The arithmetic flags

The five operations 8xy4 to 8xyE leave in Vx and VF together the exact result of the operation on the numbers, with one
exception: the subtractions 8xy5 and 8xy7 report a borrow when both operands are equal, because the source compares with a
strict `>`.
-/

namespace CLangExamples.Emulator

/-- The number in a register. -/
def Machine.number (m : Machine) (r : RegisterIndex) : Int := (m.register r).toNat

/-- A subtraction: 8xy5 or 8xy7. -/
def IsSubtraction (opcode : Word) : Prop := opcode &&& 0xF00F#16 = 0x8005#16 ∨ opcode &&& 0xF00F#16 = 0x8007#16

/-- The operations with a second operand: 8xy4, 8xy5 and 8xy7. -/
def IsBinary (opcode : Word) : Prop := opcode &&& 0xF00F#16 = 0x8004#16 ∨ IsSubtraction opcode

/-- The operands of an operation that sets VF are not VF itself. -/
def NoVfOperand (opcode : Word) : Prop :=
  opcodeDecodeRegisterX opcode ≠ vf ∧ (IsBinary opcode → opcodeDecodeRegisterY opcode ≠ vf)

/-- Vx and VF after the operation hold its exact result, VF is a bit, and no other register changed. -/
@[mk_iff]
structure CarriesExactResult (opcode : Word) (m m' : Machine) (x y : RegisterIndex) : Prop where
  add : opcode &&& 0xF00F#16 = 0x8004#16 → m.number x + m.number y = 256 * m'.number vf + m'.number x
  sub : opcode &&& 0xF00F#16 = 0x8005#16 → m.number x - m.number y = m'.number x - 256 * (1 - m'.number vf)
  shr : opcode &&& 0xF00F#16 = 0x8006#16 → m.number x = 2 * m'.number x + m'.number vf
  subn : opcode &&& 0xF00F#16 = 0x8007#16 → m.number y - m.number x = m'.number x - 256 * (1 - m'.number vf)
  shl : opcode &&& 0xF00F#16 = 0x800E#16 → 2 * m.number x = 256 * m'.number vf + m'.number x
  bit : m'.number vf = 0 ∨ m'.number vf = 1
  others : ∀ r, r ≠ x → r ≠ vf → m'.register r = m.register r

namespace ArithmeticAux

/-! ## The numbers -/

/-- The bit that VF holds for a condition. -/
def bitOf (condition : Bool) : Int := if condition then 1 else 0

@[simp]
theorem bitOf_true : bitOf true = 1 := rfl

@[simp]
theorem bitOf_false : bitOf false = 0 := rfl

theorem number_le (a : Byte) : a.toNat ≤ 255 := Nat.le_of_lt_succ a.isLt

theorem add_exact (a b : Byte) : (a.toNat : Int) + b.toNat =
    256 * bitOf (decide (a.toNat + b.toNat > 255)) + (BitVec.ofNat 8 (a.toNat + b.toNat)).toNat := by
  have ha := number_le a
  have hb := number_le b
  rw [BitVec.toNat_ofNat]
  by_cases h : a.toNat + b.toNat > 255
  · rw [decide_eq_true h, bitOf_true]
    omega
  · rw [decide_eq_false h, bitOf_false]
    omega

/-- With the strict comparison of the source the flag is wrong exactly where the operands are equal. -/
theorem sub_exact_iff (a b : Byte) :
    (a.toNat : Int) - b.toNat = (a - b).toNat - 256 * (1 - bitOf (decide (a.toNat > b.toNat))) ↔ a ≠ b := by
  have ha := number_le a
  have hb := number_le b
  rw [BitVec.toNat_sub, Ne, ← BitVec.toNat_inj]
  by_cases h : a.toNat > b.toNat
  · rw [decide_eq_true h, bitOf_true]
    omega
  · rw [decide_eq_false h, bitOf_false]
    omega

theorem bitOf_bitIsSet (a : Byte) (k : Nat) : bitOf (bitIsSet a k) = (a.toNat / 2 ^ k % 2 : Nat) := by
  rw [bitIsSet_eq_getLsbD, BitVec.getLsbD, Nat.testBit_eq_decide_div_mod_eq]
  rcases Nat.mod_two_eq_zero_or_one (a.toNat / 2 ^ k) with h | h <;> simp [h]

theorem shr_exact (a : Byte) : (a.toNat : Int) = 2 * (a >>> 1).toNat + bitOf (bitIsSet a 0) := by
  rw [bitOf_bitIsSet, BitVec.toNat_ushiftRight, Nat.shiftRight_eq_div_pow]
  omega

theorem shl_exact (a : Byte) : 2 * (a.toNat : Int) = 256 * bitOf (bitIsSet a 7) + (a <<< 1).toNat := by
  have ha := number_le a
  rw [bitOf_bitIsSet, BitVec.toNat_shiftLeft, Nat.shiftLeft_eq]
  omega

/-! ## The machine after an operation -/

variable (m : Machine) (x : RegisterIndex) (a : Arith)

/-- The machine that an operation leaves. -/
def after : Machine := (m.setFlag (a.flag m x)).setRegister x (a.value m x)

theorem after_number_x : (after m x a).number x = (a.value m x).toNat := by
  unfold Machine.number after
  rw [setRegister_register_self]

variable {x} in
theorem after_number_vf (hx : x ≠ vf) : (after m x a).number vf = bitOf (a.flag m x) := by
  unfold Machine.number after bitOf
  rw [setRegister_register_ne _ _ hx.symm, setFlag_register_vf]
  cases a.flag m x <;> rfl

theorem after_register_ne {r : RegisterIndex} (hx : r ≠ x) (hv : r ≠ vf) : (after m x a).register r = m.register r := by
  unfold after
  rw [setRegister_register_ne _ _ hx, setFlag_register_ne _ _ hv]

theorem bitOf_cases (b : Bool) : bitOf b = 0 ∨ bitOf b = 1 := by
  cases b
  · exact Or.inl rfl
  · exact Or.inr rfl

/-- The rows 8xy4 to 8xyE decode to their operation. -/
theorem decode_arith {opcode pattern : Word} (op : RegisterIndex → Arith)
    (hr : (⟨0xF00F#16, pattern, fun o => .arith (opcodeDecodeRegisterX o) (op (opcodeDecodeRegisterY o))⟩ : Row) ∈ rows)
    (hp : pattern &&& 0xF000#16 ≠ 0#16) (h : opcode &&& 0xF00F#16 = pattern) :
    decode opcode = some (.arith (opcodeDecodeRegisterX opcode) (op (opcodeDecodeRegisterY opcode))) :=
  decode_of_high_row _ hr hp h

variable {x} {a} in
/-- An operation without VF among its operands leaves `after`. -/
theorem exec_arith (inp : Input) {opcode : Word} (hd : decode opcode = some (.arith x a)) (hx : x ≠ vf)
    (ha : a.operand ≠ some vf) : cpuDecodeAndExecOpcode inp m opcode = .ok (after m x a) := by
  rw [cpuDecodeAndExecOpcode_eq, hd, Option.elim_some, Instr.exec, if_neg (not_or.2 ⟨hx, ha⟩)]
  rfl

variable {x} in
/-- What is left to show of an operation is its equation. -/
theorem carries_iff (opcode : Word) (y : RegisterIndex) (hx : x ≠ vf) :
    CarriesExactResult opcode m (after m x a) x y ↔
      (opcode &&& 0xF00F#16 = 0x8004#16 →
        m.number x + m.number y = 256 * bitOf (a.flag m x) + (a.value m x).toNat) ∧
      (opcode &&& 0xF00F#16 = 0x8005#16 →
        m.number x - m.number y = (a.value m x).toNat - 256 * (1 - bitOf (a.flag m x))) ∧
      (opcode &&& 0xF00F#16 = 0x8006#16 → m.number x = 2 * (a.value m x).toNat + bitOf (a.flag m x)) ∧
      (opcode &&& 0xF00F#16 = 0x8007#16 →
        m.number y - m.number x = (a.value m x).toNat - 256 * (1 - bitOf (a.flag m x))) ∧
      (opcode &&& 0xF00F#16 = 0x800E#16 → 2 * m.number x = 256 * bitOf (a.flag m x) + (a.value m x).toNat) := by
  have hbit := bitOf_cases (a.flag m x)
  have hothers : ∀ r, r ≠ x → r ≠ vf → (after m x a).register r = m.register r :=
    fun r => after_register_ne m x a
  rw [carriesExactResult_iff, after_number_x, after_number_vf m a hx, and_iff_left hothers, and_iff_left hbit]

end ArithmeticAux

open ArithmeticAux

/-- The operations carry the exact result, except the subtractions of a value from itself. -/
theorem arithmetic_exact_iff (inp : Input) (m : Machine) {opcode : Word} (ha : IsArith opcode) (hv : NoVfOperand opcode) :
    ∃ m', cpuDecodeAndExecOpcode inp m opcode = .ok m' ∧
      (CarriesExactResult opcode m m' (opcodeDecodeRegisterX opcode) (opcodeDecodeRegisterY opcode) ↔
        (IsSubtraction opcode →
          m.register (opcodeDecodeRegisterX opcode) ≠ m.register (opcodeDecodeRegisterY opcode))) := by
  obtain ⟨hx, hy⟩ := hv
  have hop : IsBinary opcode → some (opcodeDecodeRegisterY opcode) ≠ some vf := by
    intro hb hsome
    exact hy hb (Option.some.inj hsome)
  unfold IsBinary IsSubtraction at hop
  unfold IsSubtraction
  rcases ha with h | h | h | h | h
  · refine ⟨_, exec_arith m inp (decode_arith Arith.add (by simp [rows]) (by decide) h) hx (hop (Or.inl h)), ?_⟩
    rw [carries_iff m _ opcode _ hx]
    simp only [h, BitVec.reduceEq, forall_const, false_imp_iff, and_true, or_self, iff_true]
    exact add_exact _ _
  · refine ⟨_, exec_arith m inp (decode_arith Arith.sub (by simp [rows]) (by decide) h) hx (hop (Or.inr (Or.inl h))), ?_⟩
    rw [carries_iff m _ opcode _ hx]
    simp only [h, BitVec.reduceEq, forall_const, false_imp_iff, and_true, true_and, or_false]
    exact sub_exact_iff _ _
  · refine ⟨_, exec_arith m inp (decode_arith (fun _ => .shr) (by simp [rows]) (by decide) h) hx (Option.some_ne_none vf).symm, ?_⟩
    rw [carries_iff m _ opcode _ hx]
    simp only [h, BitVec.reduceEq, forall_const, false_imp_iff, and_true, true_and, or_self, iff_true]
    exact shr_exact _
  · refine ⟨_, exec_arith m inp (decode_arith Arith.subn (by simp [rows]) (by decide) h) hx (hop (Or.inr (Or.inr h))), ?_⟩
    rw [carries_iff m _ opcode _ hx, ne_comm]
    simp only [h, BitVec.reduceEq, forall_const, false_imp_iff, and_true, true_and, false_or]
    exact sub_exact_iff _ _
  · refine ⟨_, exec_arith m inp (decode_arith (fun _ => .shl) (by simp [rows]) (by decide) h) hx (Option.some_ne_none vf).symm, ?_⟩
    rw [carries_iff m _ opcode _ hx]
    simp only [h, BitVec.reduceEq, forall_const, false_imp_iff, true_and, or_self, iff_true]
    exact shl_exact _

/-- 5 - 3 with 8125: the operands differ and no borrow is reported. -/
theorem arithmetic_exact_five_minus_three :
    ∃ m', cpuDecodeAndExecOpcode idleInput ((machineInit.setRegister 1 5).setRegister 2 3) 0x8125#16 = .ok m' ∧
      CarriesExactResult 0x8125#16 ((machineInit.setRegister 1 5).setRegister 2 3) m' 1 2 := by
  have hx : opcodeDecodeRegisterX 0x8125#16 = 1 := rfl
  have hy : opcodeDecodeRegisterY 0x8125#16 = 2 := rfl
  obtain ⟨m', hm', hiff⟩ := @arithmetic_exact_iff idleInput ((machineInit.setRegister 1 5).setRegister 2 3) 0x8125#16
    (Or.inr (Or.inl (by decide))) ⟨by decide, fun _ => by decide⟩
  rw [hx, hy] at hiff
  exact ⟨m', hm', hiff.2 (fun _ => by decide)⟩

/-- 0 - 0 with 8125 leaves 0 in V1 and 0 in VF, which stands for a borrow. -/
theorem arithmetic_reports_borrow_on_equal :
    ¬∀ (inp : Input) (m : Machine) (opcode : Word) (m' : Machine), IsArith opcode → NoVfOperand opcode →
      cpuDecodeAndExecOpcode inp m opcode = .ok m' →
      CarriesExactResult opcode m m' (opcodeDecodeRegisterX opcode) (opcodeDecodeRegisterY opcode) := by
  intro h
  have hcarries := h idleInput machineInit 0x8125#16 _ (Or.inr (Or.inl (by decide))) ⟨by decide, fun _ => by decide⟩ rfl
  exact absurd (hcarries.sub (by decide)) (by decide)

end CLangExamples.Emulator
