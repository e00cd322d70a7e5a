import Mathlib.Data.List.TakeWhile

/-!
# POSIX extended regular expressions

`regcomp` and `regexec` for the expressions of the form `^` followed by single characters and bracket expressions, each
alone or under `*` or `+`. Such an expression matches at the start of a string only, and there `regexec` reports the
longest match (`regexec_eq_some_iff`). Inside a bracket expression a backslash stands for itself. Strings are rows of
bytes, and the locale is the POSIX one: a range is a range of codes.
-/

namespace Ere

/-! ## Expressions -/

/-- A set of characters: the ranges of a bracket expression, or what is in none of them. -/
structure CharSet where
  negated : Bool
  ranges : List (Nat × Nat)
  deriving DecidableEq

/-- How often a set is repeated. -/
inductive Quantifier where
  | one
  | star
  | plus
  deriving DecidableEq

/-- A set of characters and its repetition. -/
structure Item where
  set : CharSet
  quantifier : Quantifier
  deriving DecidableEq

/-- `regex_t`: the items after `^`, and whether `REG_ICASE` was given. -/
structure Regex where
  items : List Item
  icase : Bool
  deriving DecidableEq

/-! ## Compilation -/

/-- The ranges of a bracket expression up to the `]` that closes it, and what follows it. -/
def parseRanges : List Char → List (Nat × Nat) → Option (List (Nat × Nat) × List Char)
  | ']' :: rest, ranges => some (ranges.reverse, rest)
  | a :: '-' :: b :: rest, ranges =>
    if b = ']' then some (((45, 45) :: (a.toNat, a.toNat) :: ranges).reverse, rest)
    else parseRanges rest ((a.toNat, b.toNat) :: ranges)
  | a :: rest, ranges => parseRanges rest ((a.toNat, a.toNat) :: ranges)
  | [], _ => none

/-- A bracket expression or an ordinary character. -/
def parseSet : List Char → Option (CharSet × List Char)
  | '[' :: '^' :: rest => (parseRanges rest []).map fun p => (⟨true, p.1⟩, p.2)
  | '[' :: rest => (parseRanges rest []).map fun p => (⟨false, p.1⟩, p.2)
  | a :: rest => if "^$.*+?()|\x7b\x7d\\".toList.contains a then none else some (⟨false, [(a.toNat, a.toNat)]⟩, rest)
  | [] => none

/-- The repetition after a set. -/
def parseQuantifier : List Char → Quantifier × List Char
  | '*' :: rest => (.star, rest)
  | '+' :: rest => (.plus, rest)
  | rest => (.one, rest)

/-- The items of an expression; an item takes at least one character of it, which bounds their number. -/
def parseItems : Nat → List Char → Option (List Item)
  | _, [] => some []
  | 0, _ :: _ => none
  | bound + 1, pattern => do
    let (set, rest) ← parseSet pattern
    let (quantifier, rest) := parseQuantifier rest
    let items ← parseItems bound rest
    return ⟨set, quantifier⟩ :: items

/-- `regcomp` with `REG_EXTENDED`; `none` for an expression of another form. -/
def regcomp (pattern : String) (icase : Bool) : Option Regex :=
  match pattern.toList with
  | '^' :: rest => (parseItems rest.length rest).map fun items => ⟨items, icase⟩
  | _ => none

/-! ## Matching -/

/-- The other case of a letter. -/
def counterpart (code : Nat) : Nat :=
  if 65 ≤ code ∧ code ≤ 90 then code + 32 else if 97 ≤ code ∧ code ≤ 122 then code - 32 else code

/-- The set accepts the byte. -/
def CharSet.accepts (set : CharSet) (icase : Bool) (byte : BitVec 8) : Bool :=
  let mem := fun code : Nat => set.ranges.any fun r => decide (r.1 ≤ code ∧ code ≤ r.2)
  (mem byte.toNat || (icase && mem (counterpart byte.toNat))) != set.negated

/-- The lengths that an item can take at the start of a string. -/
def Item.lengths (item : Item) (icase : Bool) (s : List (BitVec 8)) : List Nat :=
  let run := (s.takeWhile fun b => item.set.accepts icase b).length
  match item.quantifier with
  | .one => if run = 0 then [] else [1]
  | .star => List.range (run + 1)
  | .plus => List.range' 1 run

/-- The lengths that a row of items can take at the start of a string. -/
def lengths (icase : Bool) : List Item → List (BitVec 8) → List Nat
  | [], _ => [0]
  | item :: items, s => (item.lengths icase s).flatMap fun n => (lengths icase items (s.drop n)).map (n + ·)

/-- `regmatch_t` -/
structure Regmatch where
  rmSo : Nat
  rmEo : Nat
  deriving DecidableEq

/-- `regexec` with one `regmatch_t`; `none` is `REG_NOMATCH`. -/
def regexec (regex : Regex) (s : List (BitVec 8)) : Option Regmatch :=
  (lengths regex.icase regex.items s).max?.map fun n => ⟨0, n⟩

/-! ## The strings of an expression -/

/-- The strings of an item. -/
def Item.Matches (item : Item) (icase : Bool) (w : List (BitVec 8)) : Prop :=
  (∀ b ∈ w, item.set.accepts icase b = true) ∧
    match item.quantifier with
    | .one => w.length = 1
    | .star => True
    | .plus => 0 < w.length

/-- The strings of a row of items. -/
def Matches (icase : Bool) : List Item → List (BitVec 8) → Prop
  | [], w => w = []
  | item :: items, w => ∃ n ≤ w.length, item.Matches icase (w.take n) ∧ Matches icase items (w.drop n)

/-- A prefix is accepted throughout exactly when it is no longer than the run of accepted bytes. -/
theorem take_all_iff (p : BitVec 8 → Bool) (s : List (BitVec 8)) (n : Nat) (hn : n ≤ s.length) :
    (∀ b ∈ s.take n, p b = true) ↔ n ≤ (s.takeWhile p).length := by
  induction s generalizing n with
  | nil => simpa using hn
  | cons a s ih =>
    cases n with
    | zero => simp
    | succ n =>
      rw [List.length_cons] at hn
      rw [List.take_succ_cons, List.forall_mem_cons, ih n (by omega), List.takeWhile_cons]
      cases p a with
      | true => simp
      | false => simp

theorem length_takeWhile_le (p : BitVec 8 → Bool) (s : List (BitVec 8)) : (s.takeWhile p).length ≤ s.length :=
  (List.takeWhile_prefix p).length_le

/-- The lengths of an item are those of its strings. -/
theorem Item.mem_lengths_iff (item : Item) (icase : Bool) (s : List (BitVec 8)) (n : Nat) :
    n ∈ item.lengths icase s ↔ n ≤ s.length ∧ item.Matches icase (s.take n) := by
  have hrun := length_takeWhile_le (fun b => item.set.accepts icase b) s
  by_cases hn : n ≤ s.length
  · have hall := take_all_iff (fun b => item.set.accepts icase b) s n hn
    have hlen : (s.take n).length = n := by simp [hn]
    unfold Item.lengths Item.Matches
    rw [hall, hlen]
    cases item.quantifier with
    | one =>
      simp only
      split
      · simp; omega
      · simp; omega
    | star => simp; omega
    | plus => simp; omega
  · constructor
    · intro h
      exfalso
      unfold Item.lengths at h
      cases hq : item.quantifier with
      | one =>
        simp only [hq] at h
        split at h
        · simp at h
        · simp at h; omega
      | star => simp [hq] at h; omega
      | plus => simp [hq] at h; omega
    · intro h
      exact absurd h.1 hn

/-- The lengths of a row of items are those of its strings. -/
theorem mem_lengths_iff (icase : Bool) (items : List Item) (s : List (BitVec 8)) (n : Nat) :
    n ∈ lengths icase items s ↔ n ≤ s.length ∧ Matches icase items (s.take n) := by
  induction items generalizing s n with
  | nil =>
    simp only [lengths, Matches, List.mem_singleton, List.take_eq_nil_iff]
    constructor
    · rintro rfl
      simp
    · rintro ⟨hn, rfl | rfl⟩
      · rfl
      · simpa using hn
  | cons item items ih =>
    simp only [lengths, List.mem_flatMap, List.mem_map, Item.mem_lengths_iff, ih]
    constructor
    · rintro ⟨k, ⟨hk, hitem⟩, m, ⟨hm, hrest⟩, rfl⟩
      rw [List.length_drop] at hm
      refine ⟨by omega, k, by simp; omega, ?_, ?_⟩
      · rwa [List.take_take, Nat.min_eq_left (by omega)]
      · rwa [List.drop_take, Nat.add_sub_cancel_left]
    · rintro ⟨hn, k, hk, hitem, hrest⟩
      rw [List.length_take] at hk
      rw [List.take_take, Nat.min_eq_left (by omega)] at hitem
      rw [List.drop_take] at hrest
      exact ⟨k, ⟨by omega, hitem⟩, n - k, ⟨by simp; omega, hrest⟩, by omega⟩

/-- `regexec` reports the longest match at the start of the string. -/
theorem regexec_eq_some_iff (regex : Regex) (s : List (BitVec 8)) (n : Nat) :
    regexec regex s = some ⟨0, n⟩ ↔
      (n ≤ s.length ∧ Matches regex.icase regex.items (s.take n)) ∧
        ∀ m ≤ s.length, Matches regex.icase regex.items (s.take m) → m ≤ n := by
  unfold regexec
  rw [Option.map_eq_some_iff]
  have hmax : ∀ k, (lengths regex.icase regex.items s).max? = some k ↔
      k ∈ lengths regex.icase regex.items s ∧ ∀ b ∈ lengths regex.icase regex.items s, b ≤ k := by
    intro k
    exact List.max?_eq_some_iff
  constructor
  · rintro ⟨k, hk, he⟩
    obtain rfl : k = n := congrArg Regmatch.rmEo he
    rw [hmax, mem_lengths_iff] at hk
    exact ⟨hk.1, fun m hm hmatch => hk.2 m ((mem_lengths_iff _ _ _ _).mpr ⟨hm, hmatch⟩)⟩
  · rintro ⟨hn, hlongest⟩
    refine ⟨n, ?_, rfl⟩
    rw [hmax, mem_lengths_iff]
    refine ⟨hn, ?_⟩
    intro m hm
    rw [mem_lengths_iff] at hm
    exact hlongest m hm.1 hm.2

/-- `regexec` reports `REG_NOMATCH` when no prefix is a string of the expression. -/
theorem regexec_eq_none_iff (regex : Regex) (s : List (BitVec 8)) :
    regexec regex s = none ↔ ∀ m ≤ s.length, ¬Matches regex.icase regex.items (s.take m) := by
  unfold regexec
  rw [Option.map_eq_none_iff, List.max?_eq_none_iff, List.eq_nil_iff_forall_not_mem]
  simp only [mem_lengths_iff, not_and]

/-! ## Rows of items -/

/-- A set that is not repeated takes one byte. -/
theorem matches_one_cons (icase : Bool) (set : CharSet) (items : List Item) (w : List (BitVec 8)) :
    Matches icase (⟨set, .one⟩ :: items) w ↔
      ∃ a t, w = a :: t ∧ set.accepts icase a = true ∧ Matches icase items t := by
  constructor
  · rintro ⟨n, hn, ⟨hall, hlen⟩, hrest⟩
    have hn1 : n = 1 := by
      simp only [List.length_take] at hlen
      omega
    subst hn1
    match w, hn with
    | a :: t, _ => exact ⟨a, t, rfl, hall a (by simp), hrest⟩
  · rintro ⟨a, t, rfl, ha, hrest⟩
    exact ⟨1, by simp, ⟨by simpa using ha, by simp⟩, hrest⟩

/-- An item alone. -/
theorem matches_single (icase : Bool) (item : Item) (w : List (BitVec 8)) :
    Matches icase [item] w ↔ item.Matches icase w := by
  constructor
  · rintro ⟨n, -, hitem, hrest⟩
    have hn : w.length ≤ n := List.drop_eq_nil_iff.mp hrest
    rwa [List.take_of_length_le hn] at hitem
  · intro h
    exact ⟨w.length, Nat.le_refl _, by rwa [List.take_length], List.drop_length⟩

/-- A repeated set with one byte after it. -/
theorem matches_star_one (icase : Bool) (set close : CharSet) (w : List (BitVec 8)) :
    Matches icase [⟨set, .star⟩, ⟨close, .one⟩] w ↔
      ∃ body q, w = body ++ [q] ∧ (∀ b ∈ body, set.accepts icase b = true) ∧ close.accepts icase q = true := by
  constructor
  · rintro ⟨n, hn, ⟨hall, -⟩, hrest⟩
    obtain ⟨q, t, hq, hclose, ht⟩ := (matches_one_cons icase close [] _).mp hrest
    obtain rfl : t = [] := ht
    exact ⟨w.take n, q, by rw [← hq, List.take_append_drop], hall, hclose⟩
  · rintro ⟨body, q, rfl, hall, hclose⟩
    refine ⟨body.length, by simp, ⟨by simpa using hall, trivial⟩, ?_⟩
    rw [List.drop_left]
    exact (matches_one_cons icase close [] _).mpr ⟨q, [], rfl, hclose, rfl⟩

end Ere
