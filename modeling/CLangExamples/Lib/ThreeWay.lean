import Mathlib.Data.Set.Defs

/-!
# Three-way comparisons

A three-way comparison returns an integer: zero on equal keys, and else a number whose sign is that of their order. One
that stops at the end of the shorter of two lists returns this for their *fronts*, the elements that have a counterpart in
the other list. It does so for the lists themselves on those sets where none is a proper prefix of another, and on no
others.
-/

namespace ThreeWay

/-- A result that is zero on equal keys, and else has the sign of their order. -/
structure HasSign {β : Type} [LT β] (result : Int) (a b : β) : Prop where
  zero_iff : result = 0 ↔ a = b
  neg_iff : result < 0 ↔ a < b
  pos_iff : 0 < result ↔ b < a

/-- The result for two keys with its sign turned around is one for the keys the other way around. -/
theorem HasSign.neg {β : Type} [LT β] {result : Int} {a b : β} (h : HasSign result a b) : HasSign (-result) b a where
  zero_iff := Int.neg_eq_zero.trans (h.zero_iff.trans eq_comm)
  neg_iff := Int.neg_neg_iff_pos.trans h.pos_iff
  pos_iff := Int.neg_pos.trans h.neg_iff

/-! ## Orders -/

section Order

variable {α β : Type} [LT β]

/-- A comparison that is an equality test and an order of the keys of a set. -/
structure OrdersOn (cmp : α → α → Int) (key : α → β) (s : Set α) : Prop where
  sign : ∀ a ∈ s, ∀ b ∈ s, HasSign (cmp a b) (key a) (key b)
  swap : ∀ a ∈ s, ∀ b ∈ s, 0 < cmp a b ↔ cmp b a < 0
  antisymm : ∀ a ∈ s, ∀ b ∈ s, cmp a b ≤ 0 → cmp b a ≤ 0 → key a = key b
  trans : ∀ a ∈ s, ∀ b ∈ s, ∀ c ∈ s, cmp a b ≤ 0 → cmp b c ≤ 0 → cmp a c ≤ 0

variable [LE β] [Std.LawfulOrderLT β] [Std.IsLinearOrder β]

theorem HasSign.nonpos_iff {result : Int} {a b : β} (h : HasSign result a b) : result ≤ 0 ↔ a ≤ b := by
  rw [← Int.not_lt, h.pos_iff, Std.not_lt]

/-- A comparison with the signs of a linear order is an order. -/
theorem ordersOn_of_sign {cmp : α → α → Int} {key : α → β} {s : Set α}
    (h : ∀ a ∈ s, ∀ b ∈ s, HasSign (cmp a b) (key a) (key b)) : OrdersOn cmp key s where
  sign := h
  swap a ha b hb := (h a ha b hb).pos_iff.trans (h b hb a ha).neg_iff.symm
  antisymm a ha b hb hab hba := Std.le_antisymm ((h a ha b hb).nonpos_iff.1 hab) ((h b hb a ha).nonpos_iff.1 hba)
  trans a ha b hb c hc hab hbc := by
    have hle : key a ≤ key b := (h a ha b hb).nonpos_iff.1 hab
    have hle' : key b ≤ key c := (h b hb c hc).nonpos_iff.1 hbc
    exact (h a ha c hc).nonpos_iff.2 (Std.le_trans hle hle')

end Order

/-! ## Lists -/

section Lists

variable {β : Type} [LT β] {result : Int}

theorem HasSign.nil : HasSign 0 ([] : List β) [] where
  zero_iff := iff_of_true rfl rfl
  neg_iff := iff_of_false (Int.lt_irrefl 0) (List.not_lt_nil [])
  pos_iff := iff_of_false (Int.lt_irrefl 0) (List.not_lt_nil [])

/-- Lists that start with different elements are ordered as these are. -/
theorem HasSign.head {a b : β} (h : HasSign result a b) (hne : a ≠ b) (as bs : List β) :
    HasSign result (a :: as) (b :: bs) where
  zero_iff := h.zero_iff.trans (by simp [hne])
  neg_iff := h.neg_iff.trans (by simp [List.cons_lt_cons_iff, hne])
  pos_iff := h.pos_iff.trans (by simp [List.cons_lt_cons_iff, hne.symm])

variable [Std.Irrefl (· < · : β → β → Prop)]

/-- An element that both lists start with does not matter. -/
theorem HasSign.cons {as bs : List β} (h : HasSign result as bs) (a : β) : HasSign result (a :: as) (a :: bs) where
  zero_iff := h.zero_iff.trans (by simp)
  neg_iff := h.neg_iff.trans List.cons_lt_cons_self.symm
  pos_iff := h.pos_iff.trans List.cons_lt_cons_self.symm

end Lists

/-! ## Fronts -/

section Fronts

variable {α β : Type}

/-- The fronts of two lists are equal when one list is a prefix of the other. -/
theorem front_eq_iff (as bs : List β) : as.take bs.length = bs.take as.length ↔ as <+: bs ∨ bs <+: as := by
  rcases Nat.le_total as.length bs.length with hle | hle
  · rw [List.take_of_length_le hle, ← List.prefix_iff_eq_take, iff_self_or]
    intro h
    exact (h.eq_of_length_le hle) ▸ List.prefix_rfl
  · rw [List.take_of_length_le hle, eq_comm, ← List.prefix_iff_eq_take, iff_or_self]
    intro h
    exact (h.eq_of_length_le hle) ▸ List.prefix_rfl

/-- The fronts of two lists are ordered as the lists are, unless the lesser list is a prefix. -/
theorem front_lt_iff [LT β] [Std.Irrefl (· < · : β → β → Prop)] (as bs : List β) :
    as.take bs.length < bs.take as.length ↔ as < bs ∧ ¬as <+: bs := by
  induction as generalizing bs with
  | nil => simp
  | cons a as ih =>
    cases bs with
    | nil => simp
    | cons b bs =>
      rw [List.length_cons, List.length_cons, List.take_succ_cons, List.take_succ_cons, List.cons_lt_cons_iff,
        List.cons_lt_cons_iff, List.cons_prefix_cons, ih]
      constructor
      · rintro (hlt | ⟨rfl, hlt, hno⟩)
        · refine ⟨Or.inl hlt, ?_⟩
          rintro ⟨rfl, -⟩
          exact Std.Irrefl.irrefl a hlt
        · exact ⟨Or.inr ⟨rfl, hlt⟩, fun h => hno h.2⟩
      · rintro ⟨hlt | ⟨rfl, hlt⟩, hno⟩
        · exact Or.inl hlt
        · exact Or.inr ⟨rfl, hlt, fun h => hno ⟨rfl, h⟩⟩

/-- None of two lists is a proper prefix of the other. -/
def NoProperPrefix (as bs : List β) : Prop := as <+: bs ∨ bs <+: as → as = bs

theorem NoProperPrefix.symm {as bs : List β} (h : NoProperPrefix as bs) : NoProperPrefix bs as :=
  fun hpre => (h hpre.symm).symm

/-- Where none of two lists is a proper prefix, their fronts are ordered as they are. -/
theorem NoProperPrefix.front_lt_iff [LT β] [Std.Irrefl (· < · : β → β → Prop)] {as bs : List β}
    (h : NoProperPrefix as bs) : as.take bs.length < bs.take as.length ↔ as < bs := by
  rw [ThreeWay.front_lt_iff, and_iff_left_iff_imp]
  intro hlt hpre
  rw [h (Or.inl hpre)] at hlt
  exact List.lt_irrefl bs hlt

/-- A result for the fronts of two lists is one for the lists exactly when none is a proper prefix of the other. -/
theorem hasSign_iff_noProperPrefix [LT β] [Std.Irrefl (· < · : β → β → Prop)] {result : Int} {as bs : List β}
    (h : HasSign result (as.take bs.length) (bs.take as.length)) : HasSign result as bs ↔ NoProperPrefix as bs := by
  constructor
  · intro hsign hpre
    exact hsign.zero_iff.1 (h.zero_iff.2 ((front_eq_iff as bs).2 hpre))
  · intro hno
    refine ⟨?_, h.neg_iff.trans hno.front_lt_iff, h.pos_iff.trans hno.symm.front_lt_iff⟩
    rw [h.zero_iff, front_eq_iff]
    refine ⟨hno, ?_⟩
    rintro rfl
    exact Or.inl List.prefix_rfl

/-- None of the lists of a set is a proper prefix of another one. -/
def PrefixFree (key : α → List β) (s : Set α) : Prop := ∀ a ∈ s, ∀ b ∈ s, key a <+: key b → key a = key b

theorem prefixFree_iff {key : α → List β} {s : Set α} :
    PrefixFree key s ↔ ∀ a ∈ s, ∀ b ∈ s, NoProperPrefix (key a) (key b) := by
  constructor
  · rintro h a ha b hb (hpre | hpre)
    · exact h a ha b hb hpre
    · exact (h b hb a ha hpre).symm
  · intro h a ha b hb hpre
    exact h a ha b hb (Or.inl hpre)

/-- A comparison of fronts is an order on exactly the sets of which no list is a proper prefix of another. -/
theorem ordersOn_iff_prefixFree [LT β] [LE β] [Std.LawfulOrderLT β] [Std.IsLinearOrder β] {cmp : α → α → Int}
    {key : α → List β}
    (h : ∀ a b, HasSign (cmp a b) ((key a).take (key b).length) ((key b).take (key a).length)) (s : Set α) :
    OrdersOn cmp key s ↔ PrefixFree key s := by
  rw [prefixFree_iff]
  constructor
  · intro horders a ha b hb
    exact (hasSign_iff_noProperPrefix (h a b)).1 (horders.sign a ha b hb)
  · intro hno
    apply ordersOn_of_sign
    intro a ha b hb
    exact (hasSign_iff_noProperPrefix (h a b)).2 (hno a ha b hb)

end Fronts

end ThreeWay
