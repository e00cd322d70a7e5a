import CLangExamples.Lib.ThreeWay
import Mathlib.Data.Int.Order.Basic

/-!
# C strings

A `char*` that ends with a NUL byte is the list of the bytes before it, with the proof that none of them is NUL.
-/

/-- The bytes of a C string, without the NUL that ends it. -/
structure CString where
  bytes : List (BitVec 8)
  no_nul : 0#8 ∉ bytes
  deriving DecidableEq

namespace CString

open ThreeWay

/-- `strlen` -/
def strlen (s : CString) : Nat := s.bytes.length

/-- The loop of `strcmp`: the difference of the first bytes that differ, as `unsigned char`; past its end a string reads
NUL. -/
def compareBytes : List (BitVec 8) → List (BitVec 8) → Int
  | [], [] => 0
  | [], b :: _ => 0 - b.toNat
  | a :: _, [] => a.toNat - 0
  | a :: as, b :: bs => if a = b then compareBytes as bs else a.toNat - b.toNat

/-- `strcmp` -/
def strcmp (s t : CString) : Int := compareBytes s.bytes t.bytes

theorem no_nul_append {s t : List (BitVec 8)} (hs : 0#8 ∉ s) (ht : 0#8 ∉ t) : 0#8 ∉ s ++ t := by
  rw [List.mem_append, not_or]
  exact ⟨hs, ht⟩

/-- One string behind another. -/
def append (s t : CString) : CString := ⟨s.bytes ++ t.bytes, no_nul_append s.no_nul t.no_nul⟩

/-- The environment of a process: what `getenv` returns for a name. -/
abbrev Environment : Type := String → Option CString

/-- `strncmp`: as `strcmp`, but at most `n` bytes are compared. -/
def strncmp (s t : CString) (n : Nat) : Int := compareBytes (s.bytes.take n) (t.bytes.take n)

/-- `memcmp` on the bytes that two pointers point to, of which there are at least `n` each: the difference of the first
two that differ, as `unsigned char`. -/
def memcmp : List (BitVec 8) → List (BitVec 8) → Nat → Int
  | a :: as, b :: bs, n + 1 => if a = b then memcmp as bs n else a.toNat - b.toNat
  | _, _, _ => 0

/-- A byte of a C string is positive as an `unsigned char`. -/
theorem byte_pos {b : BitVec 8} (h : b ≠ 0#8) : 0 < b.toNat := by bv_omega

/-- The difference of two bytes, as `unsigned char`, has the sign of their order. -/
theorem byte_hasSign (a b : BitVec 8) : HasSign (a.toNat - b.toNat : Int) a b where
  zero_iff := by
    rw [← BitVec.toNat_inj]
    omega
  neg_iff := by
    rw [BitVec.lt_def]
    omega
  pos_iff := by
    rw [BitVec.lt_def]
    omega

/-- The empty string is less than any other one, since the NUL at its end is less than any byte. -/
theorem nul_hasSign {a : BitVec 8} (h : a ≠ 0#8) (as : List (BitVec 8)) : HasSign (a.toNat - 0 : Int) (a :: as) [] where
  zero_iff := iff_of_false (by have := byte_pos h; omega) (List.cons_ne_nil a as)
  neg_iff := iff_of_false (by omega) (List.not_lt_nil _)
  pos_iff := iff_of_true (by have := byte_pos h; omega) (List.nil_lt_cons a as)

/-- On rows of bytes without NUL the loop of `strcmp` tells the lexicographic order. -/
theorem compareBytes_hasSign {as bs : List (BitVec 8)} (ha : 0#8 ∉ as) (hb : 0#8 ∉ bs) :
    HasSign (compareBytes as bs) as bs := by
  induction as generalizing bs with
  | nil =>
    cases bs with
    | nil => exact HasSign.nil
    | cons b bs =>
      rw [compareBytes, ← Int.neg_sub]
      exact (nul_hasSign (fun h => hb (by simp [h])) bs).neg
  | cons a as ih =>
    cases bs with
    | nil => exact nul_hasSign (fun h => ha (by simp [h])) as
    | cons b bs =>
      rw [List.mem_cons, not_or] at ha hb
      rw [compareBytes]
      split
      · rename_i hab
        rw [hab]
        exact (ih ha.2 hb.2).cons b
      · rename_i hab
        exact (byte_hasSign a b).head hab as bs

/-- `strcmp` tells the lexicographic order of two strings. -/
theorem strcmp_hasSign (s t : CString) : HasSign (strcmp s t) s.bytes t.bytes := compareBytes_hasSign s.no_nul t.no_nul

/-- `strcmp` returns zero on equal strings and on no others. -/
@[simp]
theorem strcmp_eq_zero_iff (s t : CString) : strcmp s t = 0 ↔ s = t := by
  cases s
  cases t
  rw [(strcmp_hasSign _ _).zero_iff, CString.mk.injEq]

/-- `memcmp` tells the lexicographic order of the first `n` bytes. -/
theorem memcmp_hasSign {as bs : List (BitVec 8)} {n : Nat} (ha : n ≤ as.length) (hb : n ≤ bs.length) :
    HasSign (memcmp as bs n) (as.take n) (bs.take n) := by
  induction n generalizing as bs with
  | zero =>
    rw [memcmp]
    · exact HasSign.nil
    · simp
  | succ n ih =>
    match as, bs, ha, hb with
    | a :: as, b :: bs, ha, hb =>
      rw [List.length_cons] at ha hb
      rw [memcmp, List.take_succ_cons, List.take_succ_cons]
      split
      · rename_i hab
        rw [hab]
        exact (ih (by omega) (by omega)).cons b
      · rename_i hab
        exact (byte_hasSign a b).head hab _ _

end CString
