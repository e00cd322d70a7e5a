import CLangExamples.Aqls.Location
import Mathlib.Data.List.Count

/-!
# Locations in an input

The line and the column of a position in closed form, the two loops of the source that compute them, and their order: a
later position has a later location.
-/

namespace CLangExamples.Aqls

/-- `'\n'` -/
abbrev lineFeed : Byte := 0x0A#8

/-- The line and the column of a position: one more than the line feeds before it, and one more than the bytes after the
last of them. -/
def location (input : List Byte) (pos : Nat) : Nat × Nat :=
  (1 + (input.take pos).count lineFeed, 1 + ((input.take pos).reverse.takeWhile (· != lineFeed)).length)

/-- The lexicographic order of locations. -/
def Before (a b : Nat × Nat) : Prop := a.1 < b.1 ∨ (a.1 = b.1 ∧ a.2 < b.2)

namespace LocationAux

theorem before_trans {a b c : Nat × Nat} (hab : Before a b) (hbc : Before b c) : Before a c := by
  unfold Before at *
  omega

theorem before_irrefl (a : Nat × Nat) : ¬Before a a := by
  unfold Before
  omega

theorem before_step (a : Nat × Nat) (b : Byte) : Before a (lineColumnStep a b) := by
  unfold lineColumnStep
  split
  · exact Or.inl (Nat.lt_succ_self _)
  · exact Or.inr ⟨rfl, Nat.lt_succ_self _⟩

variable {input : List Byte} {pos : Nat}

/-- One byte on, the location takes one step of the loops. -/
theorem location_succ {b : Byte} (h : input[pos]? = some b) :
    location input (pos + 1) = lineColumnStep (location input pos) b := by
  unfold location lineColumnStep
  rw [List.take_add_one, h, Option.toList_some, List.count_append, List.reverse_append, List.reverse_singleton,
    List.singleton_append]
  by_cases hb : b = lineFeed
  · rw [if_pos hb, hb, List.count_singleton_self, List.takeWhile_cons_of_neg (by decide)]
    rfl
  · rw [if_neg hb, List.count_singleton, if_neg (by simpa using hb), List.takeWhile_cons_of_pos (by simpa using hb),
      List.length_cons]
    rfl

theorem location_before {p q : Nat} (hpq : p < q) (hq : q ≤ input.length) :
    Before (location input p) (location input q) := by
  induction q with
  | zero => omega
  | succ q ih =>
    have hstep : Before (location input q) (location input (q + 1)) := by
      rw [location_succ (List.getElem?_eq_getElem hq)]
      exact before_step _ _
    rcases Nat.lt_succ_iff_lt_or_eq.1 hpq with hlt | rfl
    · exact before_trans (ih hlt (by omega)) hstep
    · exact hstep

/-- The pointer loop, started at the location of its pointer, ends at the location of the cursor. -/
theorem fromCursorLoop_eq {c : Nat} (hc : c ≤ pos) (hpos : pos ≤ input.length) :
    fromCursorLoop input pos c (location input c) = some (location input pos) := by
  induction hleft : pos - c generalizing c with
  | zero =>
    obtain rfl : c = pos := by omega
    rw [fromCursorLoop, if_neg (by omega)]
  | succ left ih =>
    have hlt : c < input.length := by omega
    rw [fromCursorLoop, if_pos (by omega), List.getElem?_eq_getElem hlt]
    simp only
    rw [← location_succ (List.getElem?_eq_getElem hlt)]
    exact ih (by omega) (by omega)

/-- Up to the end of the input, where its clamp has no effect, the index loop does what the pointer loop does. -/
theorem fromPosLoop_eq_fromCursorLoop (hpos : pos ≤ input.length) (i : Nat) (at_ : Nat × Nat) :
    fromPosLoop input input.length pos i at_ = fromCursorLoop input pos i at_ := by
  induction hleft : pos - i generalizing i at_ with
  | zero => rw [fromPosLoop, fromCursorLoop, if_neg (by omega), if_neg (by omega)]
  | succ left ih =>
    rw [fromPosLoop, fromCursorLoop, if_pos (by omega), if_pos (by omega), List.getElem?_eq_getElem (by omega)]
    exact ih (i + 1) _ (by omega)

end LocationAux

open LocationAux

/-- At every position of every input both loops give the location in closed form, and locations are ordered as the
positions are, so no two positions share one. -/
theorem line_column_agree_and_ordered (input : List Byte) :
    (∀ pos ≤ input.length, lineColumnFromPos input input.length pos = some (location input pos) ∧
      lineColumnFromCursor input pos = some (location input pos)) ∧
    (∀ p q, p < q → q ≤ input.length → Before (location input p) (location input q)) ∧
    ∀ p q, p ≤ input.length → q ≤ input.length → location input p = location input q → p = q := by
  refine ⟨?_, ?_, ?_⟩
  · intro pos hpos
    have hcursor : lineColumnFromCursor input pos = some (location input pos) := fromCursorLoop_eq (Nat.zero_le pos) hpos
    exact ⟨(fromPosLoop_eq_fromCursorLoop hpos 0 (1, 1)).trans hcursor, hcursor⟩
  · intro p q hpq hq
    exact location_before hpq hq
  · intro p q hp hq heq
    rcases Nat.lt_trichotomy p q with hlt | rfl | hgt
    · have hbefore := location_before hlt hq
      rw [heq] at hbefore
      exact absurd hbefore (before_irrefl _)
    · rfl
    · have hbefore := location_before hgt hp
      rw [heq] at hbefore
      exact absurd hbefore (before_irrefl _)

end CLangExamples.Aqls
