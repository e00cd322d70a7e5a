import CLangExamples.Lemmas.StringView

/-!
# The order of string views

`string_view_cmp` and its variants for C strings stop at the end of the shorter string, and the lengths are not compared
after that. They tell byte strings apart and order them lexicographically exactly as long as none of the strings is a
proper prefix of another.
-/

namespace CLangExamples.Aqls

open ThreeWay

/-- `string_view_cmp` on views that hold a byte string. -/
def cmpHeld {input : List Byte} (a b : HeldView input) : Int := stringViewCmp input a.view b.view

/-- On two byte strings `string_view_cmp` and its variants return zero when these are equal and else the sign of their
lexicographic order exactly when none of the two is a proper prefix of the other; on the views of a set they are an
equality test and an order exactly when none of their strings is a proper prefix of another. -/
theorem string_view_cmp_orders_iff (input : List Byte) :
    (∀ a b : HeldView input,
      HasSign (stringViewCmp input a.view b.view) a.bytes b.bytes ↔ NoProperPrefix a.bytes b.bytes) ∧
    (∀ (a : HeldView input) (b rest : List Byte),
      HasSign (stringViewCmpSizedCstr input a.view (b ++ rest) b.length) a.bytes b ↔ NoProperPrefix a.bytes b) ∧
    (∀ (a : HeldView input) (b : CString),
      HasSign (stringViewCmpCstr input a.view b) a.bytes b.bytes ↔ NoProperPrefix a.bytes b.bytes) ∧
    ∀ views : Set (HeldView input), OrdersOn cmpHeld HeldView.bytes views ↔ PrefixFree HeldView.bytes views := by
  refine ⟨?_, ?_, ?_, ?_⟩
  · intro a b
    exact hasSign_iff_noProperPrefix (stringViewCmp_hasSign a b)
  · intro a b rest
    exact hasSign_iff_noProperPrefix (stringViewCmpSizedCstr_hasSign a b rest)
  · intro a b
    exact hasSign_iff_noProperPrefix (stringViewCmpCstr_hasSign a b)
  · exact ordersOn_iff_prefixFree stringViewCmp_hasSign

/-- `EN` compares as equal to `END`; and `ED` compares as no greater than `E`, and `E` as no greater than `EC`, but `ED` as
greater than `EC`. -/
theorem string_view_cmp_takes_front :
    (∃ en : HeldView [], en.bytes = [0x45#8, 0x4E#8] ∧
      stringViewCmpCstr [] en.view ⟨[0x45#8, 0x4E#8, 0x44#8], by decide⟩ = 0 ∧
      ¬HasSign (stringViewCmpCstr [] en.view ⟨[0x45#8, 0x4E#8, 0x44#8], by decide⟩) en.bytes
        [0x45#8, 0x4E#8, 0x44#8]) ∧
    ∃ ed e ec : HeldView [], ed.bytes = [0x45#8, 0x44#8] ∧ e.bytes = [0x45#8] ∧ ec.bytes = [0x45#8, 0x43#8] ∧
      cmpHeld ed e ≤ 0 ∧ cmpHeld e ec ≤ 0 ∧ ¬cmpHeld ed ec ≤ 0 := by
  constructor
  · refine ⟨heldCstr [] [0x45#8, 0x4E#8] [], rfl, rfl, ?_⟩
    intro h
    exact absurd (h.zero_iff.1 rfl) (by decide)
  · exact ⟨heldCstr [] [0x45#8, 0x44#8] [], heldCstr [] [0x45#8] [], heldCstr [] [0x45#8, 0x43#8] [], rfl, rfl, rfl,
      by decide, by decide, by decide⟩

end CLangExamples.Aqls
