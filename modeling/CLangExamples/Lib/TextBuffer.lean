import CLangExamples.Lib.CString
import CLangExamples.Lib.Printf
import Mathlib.Data.List.TakeWhile

/-!
# Text buffers

A `char[]` into which a program formats one text behind another with `snprintf`, counting how far it has got. As long as the
texts fit, the buffer holds them one behind the other, followed by a NUL, so that they can be printed as one string.
-/

namespace TextBuffer

/-! ## Texts -/

/-- The bytes of an ASCII text. -/
def ascii (text : List Char) : List (BitVec 8) := text.map fun c => BitVec.ofNat 8 c.toNat

/-- The characters of a text are bytes other than NUL. -/
def IsText (s : List Char) : Prop := ∀ c ∈ s, c.toNat ≠ 0 ∧ c.toNat < 256

theorem ascii_append (s t : List Char) : ascii (s ++ t) = ascii s ++ ascii t := List.map_append

theorem length_ascii (s : List Char) : (ascii s).length = s.length := List.length_map _

theorem no_nul_ascii {s : List Char} (h : IsText s) : 0#8 ∉ ascii s := by
  intro hmem
  obtain ⟨c, hc, hzero⟩ := List.mem_map.mp hmem
  have hnat := congrArg BitVec.toNat hzero
  rw [BitVec.toNat_ofNat, Nat.mod_eq_of_lt (h c hc).2] at hnat
  exact (h c hc).1 hnat

theorem isText_number (k n : Nat) : IsText (Printf.number 10 k n) := by
  intro c hc
  rw [Printf.number, List.leftpad, List.mem_append] at hc
  rcases hc with hc | hc
  · rw [List.eq_of_mem_replicate hc]
    decide
  · have hdigit := Printf.decimal_isDigit n c (by rw [Printf.number, List.leftpad, Nat.zero_sub]; exact hc)
    have h0 : '0'.toNat = 48 := rfl
    have h9 : '9'.toNat = 57 := rfl
    rw [Char.isDigit_iff_toNat] at hdigit
    omega

/-- A number in decimal, as a string. -/
def decimal (n : Nat) : CString := ⟨ascii (Printf.number 10 0 n), no_nul_ascii (isText_number 0 n)⟩

/-! ## Buffers -/

/-- `INT_MAX` -/
def intMax : Nat := 0x7FFFFFFF

/-- `snprintf(buf + offset, sizeof(buf) - offset, ...)` of a text: the buffer after it, and what it returns, which is negative
for a text that is too long to be counted in an `int`. -/
def snprintf (buf : List (BitVec 8)) (offset : Nat) (text : List (BitVec 8)) : List (BitVec 8) × Int :=
  let room := buf.length - offset
  let written := if room = 0 then [] else text.take (room - 1) ++ [0#8]
  (buf.take offset ++ written ++ buf.drop (offset + written.length), if text.length ≤ intMax then text.length else -1)

/-- The string that begins a buffer. -/
def string (buf : List (BitVec 8)) : List (BitVec 8) := buf.takeWhile fun b => b ≠ 0#8

/-- The buffer begins with a text and a NUL. -/
structure Holds (buf text : List (BitVec 8)) : Prop where
  front : text ++ [0#8] <+: buf
  no_nul : 0#8 ∉ text

variable {buf text more : List (BitVec 8)}

theorem string_of_holds (h : Holds buf text) : string buf = text := by
  obtain ⟨rest, rfl⟩ := h.front
  have htext : ∀ b ∈ text, decide (b ≠ 0#8) = true := by
    intro b hb
    rw [decide_eq_true_eq]
    rintro rfl
    exact h.no_nul hb
  unfold string
  rw [List.append_assoc, List.takeWhile_append_of_pos htext, List.singleton_append,
    List.takeWhile_cons_of_neg (by decide), List.append_nil]

/-- A text that fits is written behind what the buffer holds. -/
theorem holds_snprintf (h : Holds buf text) (hmore : 0#8 ∉ more) (hfits : text.length + more.length < buf.length) :
    Holds (snprintf buf text.length more).1 (text ++ more) := by
  obtain ⟨rest, hrest⟩ := h.front
  have htake : buf.take text.length = text := by
    rw [← hrest, List.append_assoc, List.take_left]
  refine ⟨?_, ?_⟩
  · unfold snprintf
    simp only
    rw [if_neg (by omega), List.take_of_length_le (show more.length ≤ buf.length - text.length - 1 by omega), htake]
    exact ⟨buf.drop (text.length + (more ++ [0#8]).length), by simp⟩
  · rw [List.mem_append, not_or]
    exact ⟨h.no_nul, hmore⟩

/-- The buffer keeps its size. -/
theorem length_snprintf {offset : Nat} (h : offset ≤ buf.length) : (snprintf buf offset text).1.length = buf.length := by
  unfold snprintf
  simp only
  split
  · simp
  · simp
    omega

end TextBuffer
