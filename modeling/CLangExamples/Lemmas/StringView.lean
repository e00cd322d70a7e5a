import CLangExamples.Aqls.Token
import CLangExamples.Lib.ThreeWay

/-!
# What `string_view_cmp` compares

The fronts of two byte strings: the length it gives to `memcmp` is that of the shorter one.
-/

namespace CLangExamples.Aqls

open ThreeWay

/-- A view that holds a byte string: it is not `NULL` and ends no later than what it points into. -/
structure HeldView (input : List Byte) where
  view : StrView
  not_null : view.str ≠ .null
  in_bounds : view.len ≤ (view.str.bytes input).length

variable {input : List Byte}

/-- The byte string that a view holds. -/
def HeldView.bytes (a : HeldView input) : List Byte := a.view.bytes input

/-- The view that `string_view_from_sized_cstr` makes of the bytes in front of others. -/
def heldCstr (input b rest : List Byte) : HeldView input where
  view := stringViewFromSizedCstr (b ++ rest) b.length
  not_null := Pointer.noConfusion
  in_bounds := by
    show b.length ≤ (b ++ rest).length
    rw [List.length_append]
    omega

@[simp]
theorem bytes_heldCstr (b rest : List Byte) : (heldCstr input b rest).bytes = b := List.take_left

@[simp]
theorem HeldView.length_bytes (a : HeldView input) : a.bytes.length = a.view.len := by
  unfold HeldView.bytes StrView.bytes
  rw [List.length_take, Nat.min_eq_left a.in_bounds]

/-- As many bytes as `memcmp` looks at are the front of the byte string that a view holds. -/
theorem HeldView.take_min (a b : HeldView input) :
    (a.view.str.bytes input).take (min a.view.len b.view.len) = a.bytes.take b.bytes.length := by
  rw [b.length_bytes, HeldView.bytes, StrView.bytes, List.take_take, Nat.min_comm]

/-- `string_view_cmp` tells the lexicographic order of the fronts. -/
theorem stringViewCmp_hasSign (a b : HeldView input) :
    HasSign (stringViewCmp input a.view b.view) (a.bytes.take b.bytes.length) (b.bytes.take a.bytes.length) := by
  have hmin : (if a.view.len < b.view.len then a.view.len else b.view.len) = min a.view.len b.view.len := by
    split
    · omega
    · omega
  have ha := a.in_bounds
  have hb := b.in_bounds
  rw [stringViewCmp, hmin, ← a.take_min, ← b.take_min, Nat.min_comm b.view.len]
  exact CString.memcmp_hasSign (by omega) (by omega)

/-- The same comparison with a row of bytes in front of others. -/
theorem stringViewCmpSizedCstr_hasSign (a : HeldView input) (b rest : List Byte) :
    HasSign (stringViewCmpSizedCstr input a.view (b ++ rest) b.length) (a.bytes.take b.length)
      (b.take a.bytes.length) := by
  have h := stringViewCmp_hasSign a (heldCstr input b rest)
  rw [bytes_heldCstr] at h
  exact h

/-- The same comparison with a C string. -/
theorem stringViewCmpCstr_hasSign (a : HeldView input) (b : CString) :
    HasSign (stringViewCmpCstr input a.view b) (a.bytes.take b.bytes.length) (b.bytes.take a.bytes.length) := by
  have h := stringViewCmpSizedCstr_hasSign a b.bytes []
  rw [List.append_nil] at h
  exact h

end CLangExamples.Aqls
