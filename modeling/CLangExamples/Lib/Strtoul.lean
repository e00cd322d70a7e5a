import Mathlib.Algebra.GroupWithZero.Nat
import Mathlib.Data.List.Induction
import Mathlib.Data.List.TakeWhile

/-!
# `strtoul` in base 10

The conversion of the front of a C string to an `unsigned long` (or, with the same range, an `unsigned long long`). The
argument is the list of the bytes before the NUL. Where there is no number to convert, the standard leaves it open whether
`errno` is set to `EINVAL`.
-/

namespace Strtoul

/-- `errno` -/
inductive Errno where
  | zero
  | einval
  | erange
  deriving DecidableEq

/-- What a conversion leaves: the value returned, the string from `*endptr` on, and `errno`, which was zero before. -/
structure Conversion where
  value : Nat
  endptr : List (BitVec 8)
  errno : Errno
  deriving DecidableEq

/-- `isspace` in the C locale. -/
def isspace (b : BitVec 8) : Bool := b == 0x20#8 || (decide (0x09 ≤ b.toNat) && decide (b.toNat ≤ 0x0D))

/-- `isdigit` -/
def isdigit (b : BitVec 8) : Bool := decide (0x30 ≤ b.toNat) && decide (b.toNat ≤ 0x39)

/-- The number that a row of digits stands for. -/
def digitsValue (digits : List (BitVec 8)) : Nat := digits.foldl (fun n b => 10 * n + (b.toNat - 0x30)) 0

/-- The optional sign: whether it is a minus, and the string behind it. -/
def readSign : List (BitVec 8) → Bool × List (BitVec 8)
  | [] => (false, [])
  | b :: s => if b = 0x2D#8 then (true, s) else if b = 0x2B#8 then (false, s) else (false, b :: s)

/-- `ULONG_MAX` -/
def ulongMax : Nat := 2 ^ 64 - 1

/-- `strtoul(s, &endptr, 10)`, where `setsEinval` says whether a string without a number sets `errno`. -/
def strtoul (setsEinval : Bool) (s : List (BitVec 8)) : Conversion :=
  let (negative, t) := readSign (s.dropWhile isspace)
  let digits := t.takeWhile isdigit
  if digits = [] then ⟨0, s, if setsEinval then .einval else .zero⟩
  else if digitsValue digits > ulongMax then ⟨ulongMax, t.dropWhile isdigit, .erange⟩
  else if negative then ⟨(2 ^ 64 - digitsValue digits) % 2 ^ 64, t.dropWhile isdigit, .zero⟩
  else ⟨digitsValue digits, t.dropWhile isdigit, .zero⟩

/-! ## Numbers in front of a string -/

/-- Whether a minus sign stands behind the spaces. -/
def leadingMinus (s : List (BitVec 8)) : Bool := (readSign (s.dropWhile isspace)).1

/-- The digits that are converted: those behind the spaces and the sign. -/
def leadingDigits (s : List (BitVec 8)) : List (BitVec 8) := (readSign (s.dropWhile isspace)).2.takeWhile isdigit

/-- A string is converted to zero exactly when its digits stand for zero or it has none. -/
theorem strtoul_value_eq_zero_iff (setsEinval : Bool) (s : List (BitVec 8)) :
    (strtoul setsEinval s).value = 0 ↔ digitsValue (leadingDigits s) = 0 := by
  unfold strtoul leadingDigits
  generalize readSign (s.dropWhile isspace) = signed
  obtain ⟨negative, t⟩ := signed
  simp only
  generalize t.takeWhile isdigit = digits
  unfold ulongMax
  rcases eq_or_ne digits [] with rfl | hne
  · rw [if_pos rfl]
    exact iff_of_true rfl rfl
  · rw [if_neg hne]
    split
    · simp only
      omega
    · cases negative
      · rfl
      · simp only [if_true]
        omega

/-- What a caller refuses that takes neither an error nor `ULONG_MAX`: no number where that is an error, a number out of
range, and the two numbers that are converted to `ULONG_MAX`. -/
def Refused (setsEinval : Bool) (s : List (BitVec 8)) : Prop :=
  (leadingDigits s = [] ∧ setsEinval = true) ∨ ulongMax < digitsValue (leadingDigits s) ∨
    digitsValue (leadingDigits s) = if leadingMinus s then 1 else ulongMax

theorem strtoul_refused_iff (setsEinval : Bool) (s : List (BitVec 8)) :
    ((strtoul setsEinval s).errno ≠ .zero ∨ (strtoul setsEinval s).value = ulongMax) ↔ Refused setsEinval s := by
  unfold Refused strtoul leadingDigits leadingMinus
  generalize readSign (s.dropWhile isspace) = signed
  obtain ⟨negative, t⟩ := signed
  simp only
  generalize t.takeWhile isdigit = digits
  rcases eq_or_ne digits [] with rfl | hne
  · have hvalue : digitsValue [] = 0 := rfl
    rw [if_pos rfl, hvalue]
    unfold ulongMax
    cases setsEinval <;> cases negative <;> simp
  · rw [if_neg hne]
    unfold ulongMax
    split
    · simp only
      exact iff_of_true (Or.inl (by decide)) (Or.inr (Or.inl (by omega)))
    · cases negative
      · simp [hne]
        omega
      · simp [hne]
        omega

/-! ## Rows of digits -/

theorem digitsValue_append_one (digits : List (BitVec 8)) (b : BitVec 8) :
    digitsValue (digits ++ [b]) = 10 * digitsValue digits + (b.toNat - 0x30) := by
  unfold digitsValue
  rw [List.foldl_append, List.foldl_cons, List.foldl_nil]

/-- A row of digits stands for a number with that many digits. -/
theorem digitsValue_lt {digits : List (BitVec 8)} (h : ∀ b ∈ digits, isdigit b = true) :
    digitsValue digits < 10 ^ digits.length := by
  induction digits using List.reverseRecOn with
  | nil => decide
  | append_singleton digits b ih =>
    have hb := h b (by simp)
    have hlt := ih fun c hc => h c (by simp [hc])
    unfold isdigit at hb
    rw [Bool.and_eq_true, decide_eq_true_eq, decide_eq_true_eq] at hb
    rw [digitsValue_append_one, List.length_append, List.length_singleton, Nat.pow_succ]
    omega

/-- A digit is neither a space nor a sign. -/
theorem isdigit_first {b : BitVec 8} (h : isdigit b = true) : isspace b = false ∧ b ≠ 0x2D#8 ∧ b ≠ 0x2B#8 := by
  revert b
  decide

/-- A row of digits is converted to its number. -/
theorem strtoul_digits (setsEinval : Bool) {digits : List (BitVec 8)} (h : ∀ b ∈ digits, isdigit b = true)
    (hne : digits ≠ []) (hle : digitsValue digits ≤ ulongMax) :
    strtoul setsEinval digits = ⟨digitsValue digits, [], .zero⟩ := by
  obtain ⟨b, s, rfl⟩ := List.exists_cons_of_ne_nil hne
  obtain ⟨hspace, hminus, hplus⟩ := isdigit_first (h b List.mem_cons_self)
  have hsign : readSign ((b :: s).dropWhile isspace) = (false, b :: s) := by
    rw [List.dropWhile_cons_of_neg (by simp [hspace]), readSign, if_neg hminus, if_neg hplus]
  have htake : (b :: s).takeWhile isdigit = b :: s := List.takeWhile_eq_self_iff.mpr h
  have hdrop : (b :: s).dropWhile isdigit = [] := List.dropWhile_eq_nil_iff.mpr h
  unfold strtoul
  rw [hsign]
  simp only
  rw [htake, hdrop, if_neg hne, if_neg (by omega)]
  rfl

/-- An empty string has no number. -/
theorem strtoul_nil (setsEinval : Bool) : strtoul setsEinval [] = ⟨0, [], if setsEinval then .einval else .zero⟩ := rfl

end Strtoul
