import Mathlib.Algebra.GroupWithZero.Nat
import Mathlib.Data.List.Nodup

/-!
# Formatted lines

`fprintf` with the conversions `%hu` and `%0wX`: a line is made of literal text and numbers, whose arguments are read off
one value. Two facts make such a line readable. Its text without the digits depends on the format alone
(`skeleton_render`); and where every number is followed by literal text that does not start with a digit, the line
determines all of its arguments (`render_injective`).
-/

namespace Printf

/-! ## Numbers -/

/-- A digit as the conversions print it: `0` to `9`, `A` to `F`. -/
def isDigit (c : Char) : Bool := "0123456789ABCDEF".toList.contains c

/-- The digits of a number in a base, upper-case. -/
def digits (base n : Nat) : List Char := (Nat.toDigits base n).map Char.toUpper

/-- A number as it is printed, filled up with zeros to a width. -/
def number (base width n : Nat) : List Char := (digits base n).leftpad width '0'

/-- The value of a digit. -/
def digitValue (c : Char) : Nat := "0123456789ABCDEF".toList.idxOf c

/-- The value of a row of digits. -/
def readNumber (base : Nat) (cs : List Char) : Nat := cs.foldl (fun acc c => acc * base + digitValue c) 0

/-- The sixteen digits that are printed, each with its value. -/
theorem toUpper_digitChar :
    ∀ d < 16, isDigit (Nat.digitChar d).toUpper = true ∧ digitValue (Nat.digitChar d).toUpper = d := by
  decide

/-- A number below the base is one digit. -/
theorem digits_of_lt {base n : Nat} (h : n < base) : digits base n = [(Nat.digitChar n).toUpper] := by
  unfold digits
  rw [Nat.toDigits_of_lt_base h]
  rfl

/-- The digits of a number from the base on are those of its quotient and its last digit. -/
theorem digits_of_le {base n : Nat} (hb : 1 < base) (h : base ≤ n) :
    digits base n = digits base (n / base) ++ [(Nat.digitChar (n % base)).toUpper] := by
  unfold digits
  rw [Nat.toDigits_of_base_le hb h, List.map_append]
  rfl

/-- Every digit of a number is a digit. -/
theorem digits_isDigit {base : Nat} (hb : 1 < base) (hb' : base ≤ 16) (n : Nat) : ∀ c ∈ digits base n, isDigit c = true := by
  induction n using Nat.strongRecOn with
  | ind n ih =>
    intro c hc
    rcases Nat.lt_or_ge n base with h | h
    · rw [digits_of_lt h, List.mem_singleton] at hc
      rw [hc]
      exact (toUpper_digitChar n (by omega)).1
    · rw [digits_of_le hb h, List.mem_append, List.mem_singleton] at hc
      rcases hc with hc | rfl
      · exact ih (n / base) (Nat.div_lt_self (by omega) hb) c hc
      · exact (toUpper_digitChar _ (Nat.lt_of_lt_of_le (Nat.mod_lt n (by omega)) hb')).1

/-- The digits of a number read back as the number. -/
theorem readNumber_digits {base : Nat} (hb : 1 < base) (hb' : base ≤ 16) (n : Nat) :
    readNumber base (digits base n) = n := by
  induction n using Nat.strongRecOn with
  | ind n ih =>
    rcases Nat.lt_or_ge n base with h | h
    · rw [digits_of_lt h, readNumber, List.foldl_cons, List.foldl_nil, (toUpper_digitChar n (by omega)).2]
      omega
    · have hd : n % base < 16 := Nat.lt_of_lt_of_le (Nat.mod_lt n (by omega)) hb'
      have hq := ih (n / base) (Nat.div_lt_self (by omega) hb)
      unfold readNumber at hq
      rw [digits_of_le hb h, readNumber, List.foldl_append, hq, List.foldl_cons, List.foldl_nil,
        (toUpper_digitChar _ hd).2]
      exact Nat.div_add_mod' n base

/-- Zeros in front of a row of digits do not change its value. -/
theorem readNumber_zeros (base k : Nat) (cs : List Char) :
    readNumber base (List.replicate k '0' ++ cs) = readNumber base cs := by
  induction k with
  | zero => rfl
  | succ k ih =>
    rw [List.replicate_succ, List.cons_append, ← ih, readNumber, List.foldl_cons, Nat.zero_mul]
    rfl

/-- A printed number reads back, whatever the width. -/
theorem readNumber_number {base : Nat} (hb : 1 < base) (hb' : base ≤ 16) (width n : Nat) :
    readNumber base (number base width n) = n := by
  unfold number
  rw [List.leftpad, readNumber_zeros]
  exact readNumber_digits hb hb' n

/-- `0` to `9` have no upper-case form. -/
theorem toUpper_of_isDigit {c : Char} (h : c.isDigit = true) : c.toUpper = c := by
  rw [Char.isDigit_iff_toNat] at h
  unfold Char.toUpper
  refine dif_neg ?_
  rintro ⟨ha, -⟩
  have hle : 97 ≤ c.toNat := UInt32.le_iff_toNat_le.1 ha
  have hge : c.toNat ≤ 57 := h.2
  omega

/-- A printed number has only digits. -/
theorem number_isDigit {base : Nat} (hb : 1 < base) (hb' : base ≤ 16) (width n : Nat) :
    ∀ c ∈ number base width n, isDigit c = true := by
  intro c hc
  unfold number at hc
  rw [List.leftpad, List.mem_append] at hc
  rcases hc with hc | hc
  · rw [List.eq_of_mem_replicate hc]
    decide
  · exact digits_isDigit hb hb' n c hc

/-- A number that is printed in decimal without a width is no longer than `k` just when it is below `10 ^ k`. -/
theorem length_decimal_le_iff {n k : Nat} (hk : 0 < k) : (number 10 0 n).length ≤ k ↔ n < 10 ^ k := by
  have hlen : (number 10 0 n).length = (Nat.toDigits 10 n).length := by
    rw [number, List.length_leftpad, digits, List.length_map, Nat.zero_max]
  rw [hlen]
  exact Nat.length_toDigits_le_iff (by decide) hk

/-- A number that is printed in decimal has only the digits `0` to `9`. -/
theorem decimal_isDigit (n : Nat) : ∀ c ∈ number 10 0 n, c.isDigit = true := by
  intro c hc
  rw [number, List.leftpad, Nat.zero_sub, List.replicate_zero, List.nil_append, digits, List.mem_map] at hc
  obtain ⟨d, hd, rfl⟩ := hc
  have hdigit := Nat.isDigit_of_mem_toDigits (by decide) (by decide) hd
  rw [toUpper_of_isDigit hdigit]
  exact hdigit

/-! ## Formats -/

/-- A conversion: the base and the width of a number. -/
structure Conversion where
  base : Nat
  width : Nat
  one_lt_base : 1 < base
  base_le : base ≤ 16

/-- `%hu` -/
def Conversion.hu : Conversion := ⟨10, 0, by decide, by decide⟩

/-- `%02X` -/
def Conversion.x02 : Conversion := ⟨16, 2, by decide, by decide⟩

/-- `%04X` -/
def Conversion.x04 : Conversion := ⟨16, 4, by decide, by decide⟩

/-- A piece of a format: literal text, or a conversion with the argument it prints. -/
inductive Piece (α : Type) where
  | lit (text : List Char)
  | num (c : Conversion) (arg : α → Nat)

variable {α : Type}

/-- The text of a line. -/
def render (a : α) : List (Piece α) → List Char
  | [] => []
  | .lit text :: rest => text ++ render a rest
  | .num c arg :: rest => number c.base c.width (arg a) ++ render a rest

/-- A text without its digits. -/
def skeleton (cs : List Char) : List Char := cs.filter (fun c => !isDigit c)

/-- The literal text of a format without its digits. -/
def formatSkeleton : List (Piece α) → List Char
  | [] => []
  | .lit text :: rest => skeleton text ++ formatSkeleton rest
  | .num _ _ :: rest => formatSkeleton rest

/-- Without its digits, a line depends on the format alone. -/
theorem skeleton_render (a : α) (format : List (Piece α)) : skeleton (render a format) = formatSkeleton format := by
  induction format with
  | nil => rfl
  | cons p rest ih =>
    cases p with
    | lit text => rw [render, formatSkeleton, ← ih, skeleton, skeleton, skeleton, List.filter_append]
    | num c arg =>
      have hd : (number c.base c.width (arg a)).filter (fun c => !isDigit c) = [] := by
        rw [List.filter_eq_nil_iff]
        intro ch hch
        simp [number_isDigit c.one_lt_base c.base_le _ _ ch hch]
      unfold render
      rw [formatSkeleton, ← ih, skeleton, List.filter_append, hd]
      rfl

/-- The format goes on with literal text that does not start with a digit. -/
def startsApart : List (Piece α) → Bool
  | .lit (c :: _) :: _ => !isDigit c
  | _ => false

/-- Every number is followed by literal text that does not start with a digit. -/
def separated : List (Piece α) → Bool
  | [] => true
  | .lit _ :: rest => separated rest
  | .num _ _ :: rest => startsApart rest && separated rest

/-- The arguments that a format prints agree on two values. -/
def ArgsAgree (a b : α) : List (Piece α) → Prop
  | [] => True
  | .lit _ :: rest => ArgsAgree a b rest
  | .num _ arg :: rest => arg a = arg b ∧ ArgsAgree a b rest

@[simp]
theorem argsAgree_append (a b : α) (f g : List (Piece α)) :
    ArgsAgree a b (f ++ g) ↔ ArgsAgree a b f ∧ ArgsAgree a b g := by
  induction f with
  | nil => simp [ArgsAgree]
  | cons p rest ih =>
    cases p with
    | lit text => exact ih
    | num c arg => simp only [List.cons_append, ArgsAgree, ih, and_assoc]

/-- The leading digits of a line that starts with a number are that number. -/
theorem takeWhile_number {c : Conversion} {n : Nat} {a : α} {rest : List (Piece α)} {s : List Char}
    (h : startsApart rest = true) :
    (number c.base c.width n ++ (render a rest ++ s)).takeWhile isDigit = number c.base c.width n := by
  match rest, h with
  | .lit (ch :: text) :: rest, h =>
    have hch : isDigit ch = false := by simpa [startsApart] using h
    rw [List.takeWhile_append_of_pos (number_isDigit c.one_lt_base c.base_le _ _), render, List.cons_append, List.cons_append,
      List.takeWhile_cons_of_neg (by simp [hch]), List.append_nil]

/-- A line determines its arguments, and what follows it, when its numbers are separated. -/
theorem render_append_injective {a b : α} {format : List (Piece α)} {s t : List Char} (hs : separated format = true)
    (h : render a format ++ s = render b format ++ t) : ArgsAgree a b format ∧ s = t := by
  induction format with
  | nil => exact ⟨trivial, h⟩
  | cons p rest ih =>
    cases p with
    | lit text =>
      rw [render, render, List.append_assoc, List.append_assoc] at h
      exact ih hs (List.append_cancel_left h)
    | num c arg =>
      unfold separated at hs
      rw [Bool.and_eq_true] at hs
      have hn : number c.base c.width (arg a) = number c.base c.width (arg b) := by
        have ha := takeWhile_number (c := c) (n := arg a) (a := a) (s := s) hs.1
        have hb := takeWhile_number (c := c) (n := arg b) (a := b) (s := t) hs.1
        rw [← ha, ← hb, ← List.append_assoc, ← List.append_assoc]
        exact congrArg (List.takeWhile isDigit) h
      rw [render, render, hn, List.append_assoc, List.append_assoc] at h
      obtain ⟨hrest, heq⟩ := ih hs.2 (List.append_cancel_left h)
      refine ⟨⟨?_, hrest⟩, heq⟩
      rw [← readNumber_number c.one_lt_base c.base_le c.width (arg a), hn]
      exact readNumber_number c.one_lt_base c.base_le c.width (arg b)

/-- A line determines its arguments when its numbers are separated. -/
theorem render_injective {a b : α} {format : List (Piece α)} (hs : separated format = true)
    (h : render a format = render b format) : ArgsAgree a b format :=
  (render_append_injective (s := []) (t := []) hs (by rw [h])).1

/-! ## Lines of text -/

/-- One line: the only newline is the one at its end. -/
def IsLine (cs : List Char) : Prop := ∃ body, '\n' ∉ body ∧ cs = body ++ ['\n']

theorem IsLine.append {front cs : List Char} (hf : '\n' ∉ front) (h : IsLine cs) : IsLine (front ++ cs) := by
  obtain ⟨body, hb, rfl⟩ := h
  refine ⟨front ++ body, ?_, (List.append_assoc _ _ _).symm⟩
  rw [List.mem_append, not_or]
  exact ⟨hf, hb⟩

/-- A printed number has no newline. -/
theorem newline_not_mem_number (c : Conversion) (n : Nat) : '\n' ∉ number c.base c.width n := by
  intro h
  have hd := number_isDigit c.one_lt_base c.base_le _ _ _ h
  exact absurd hd (by decide)

/-- No literal text of the format has a newline. -/
def staysOnLine : List (Piece α) → Bool
  | [] => true
  | .lit text :: rest => !text.contains '\n' && staysOnLine rest
  | .num _ _ :: rest => staysOnLine rest

/-- The format ends with the only newline of its literal text. -/
def endsLine : List (Piece α) → Bool
  | [] => false
  | .lit text :: rest =>
    if rest.isEmpty then text.getLast? == some '\n' && !text.dropLast.contains '\n'
    else !text.contains '\n' && endsLine rest
  | .num _ _ :: rest => endsLine rest

theorem newline_not_mem_render (a : α) {format : List (Piece α)} (h : staysOnLine format = true) :
    '\n' ∉ render a format := by
  induction format with
  | nil => exact List.not_mem_nil
  | cons p rest ih =>
    cases p with
    | lit text =>
      unfold staysOnLine at h
      rw [Bool.and_eq_true] at h
      rw [render, List.mem_append, not_or]
      exact ⟨by simpa using h.1, ih h.2⟩
    | num c arg =>
      rw [render, List.mem_append, not_or]
      exact ⟨newline_not_mem_number c _, ih h⟩

theorem isLine_render (a : α) {format : List (Piece α)} (h : endsLine format = true) : IsLine (render a format) := by
  induction format with
  | nil => cases h
  | cons p rest ih =>
    cases p with
    | lit text =>
      unfold endsLine at h
      split at h
      · rename_i hrest
        rw [Bool.and_eq_true, beq_iff_eq] at h
        obtain ⟨hlast, hfront⟩ := h
        obtain ⟨front, rfl⟩ : ∃ front, text = front ++ ['\n'] := List.getLast?_eq_some_iff.1 hlast
        rw [List.isEmpty_iff.1 hrest]
        refine ⟨front, by simpa using hfront, ?_⟩
        simp [render]
      · rw [Bool.and_eq_true] at h
        exact (ih h.2).append (by simpa using h.1)
    | num c arg => exact (ih h).append (newline_not_mem_number c _)

end Printf
