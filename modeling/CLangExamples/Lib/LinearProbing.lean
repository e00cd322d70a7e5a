import CLangExamples.Lib.Ring
import Mathlib.Data.Fintype.Card

/-!
# Linear probing

A table of `c` slots, each empty or with a key and a value. A key is looked for from its home slot on, one slot after the
other around the table, past the slots that other keys hold. The representation invariant: every key is in one slot only,
and there is no empty slot between its home and the slot it is in. Storing a key where its search stops keeps the
invariant and updates the map that the table stands for.
-/

namespace LinearProbing

open Ring

variable {K V : Type} {c : Nat}

/-! ## Tables -/

/-- The slots of a table. -/
abbrev Slots (K V : Type) (c : Nat) : Type := Fin c → Option (K × V)

/-- The slot holds a key other than `k`: the search for `k` goes on past it. -/
def Other (t : Slots K V c) (k : K) (j : Fin c) : Prop := ∃ k' v, t j = some (k', v) ∧ k' ≠ k

section Slots

variable {t : Slots K V c}

theorem other_ne_none {k : K} {j : Fin c} (h : Other t k j) : t j ≠ none := by
  obtain ⟨k', v, hj, -⟩ := h
  simp [hj]

/-- Where the search stops, the slot is empty or holds the key. -/
theorem stopped_cases {k : K} {j : Fin c} (h : ¬Other t k j) : t j = none ∨ ∃ v, t j = some (k, v) := by
  cases hj : t j with
  | none => exact Or.inl rfl
  | some p =>
    obtain ⟨k', v⟩ := p
    by_cases hk : k' = k
    · subst hk
      exact Or.inr ⟨v, rfl⟩
    · exact absurd ⟨k', v, hj, hk⟩ h

/-- The slots that are not empty. -/
def occupied (t : Slots K V c) : Finset (Fin c) := Finset.univ.filter fun j => (t j).isSome

@[simp]
theorem mem_occupied (j : Fin c) : j ∈ occupied t ↔ t j ≠ none := by
  simp [occupied, Option.isSome_iff_ne_none]

end Slots

/-! ## The invariant -/

variable [NeZero c]

/-- The search for `k` from its home stops at distance `d`. -/
structure StopsAt (home : K → Fin c) (t : Slots K V c) (k : K) (d : Nat) : Prop where
  passed : ∀ e < d, Other t k (walk (home k) e)
  stopped : ¬Other t k (walk (home k) d)

/-- The representation invariant. -/
structure Inv (home : K → Fin c) (t : Slots K V c) : Prop where
  /-- a key is in one slot only -/
  distinct : ∀ {i j : Fin c} {k : K} {v w : V}, t i = some (k, v) → t j = some (k, w) → i = j
  /-- no slot is empty between the home of a key and the slot it is in -/
  chain : ∀ {j : Fin c} {k : K} {v : V}, t j = some (k, v) →
    ∃ d < c, walk (home k) d = j ∧ ∀ e ≤ d, t (walk (home k) e) ≠ none

variable {home : K → Fin c} {t : Slots K V c}

/-- A key whose search stops at an empty slot is in no slot. -/
theorem absent_of_stop {k : K} {d : Nat} (hi : Inv home t) (hs : StopsAt home t k d) (hd : t (walk (home k) d) = none)
    (j : Fin c) (v : V) : t j ≠ some (k, v) := by
  intro hj
  obtain ⟨d', -, hw, hocc⟩ := hi.chain hj
  rcases Nat.lt_or_ge d' d with h | h
  · obtain ⟨k', v', hj', hne⟩ := hs.passed d' h
    rw [hw, hj] at hj'
    simp only [Option.some.injEq, Prod.mk.injEq] at hj'
    exact hne hj'.1.symm
  · exact hocc d h hd

/-- A key that is in a slot is in the slot where its search stops. -/
theorem stop_of_present {k : K} {d : Nat} (hi : Inv home t) (hs : StopsAt home t k d) {j : Fin c} {v : V}
    (hj : t j = some (k, v)) : walk (home k) d = j := by
  rcases stopped_cases hs.stopped with h | ⟨w, h⟩
  · exact absurd hj (absent_of_stop hi hs h j v)
  · exact hi.distinct h hj

/-- A search that passes all slots finds the table full and the key nowhere, and only then. -/
theorem passes_all_iff (k : K) (i : Fin c) :
    (∀ e < c, Other t k (walk i e)) ↔ (∀ j, t j ≠ none) ∧ ∀ j v, t j ≠ some (k, v) := by
  constructor
  · intro h
    have hall : ∀ j, Other t k j := by
      intro j
      obtain ⟨d, hd, rfl⟩ := walk_surjective i j
      exact h d hd
    refine ⟨fun j => other_ne_none (hall j), ?_⟩
    intro j v hj
    obtain ⟨k', v', hj', hne⟩ := hall j
    rw [hj] at hj'
    simp only [Option.some.injEq, Prod.mk.injEq] at hj'
    exact hne hj'.1.symm
  · rintro ⟨hfull, habsent⟩ e -
    by_contra hno
    rcases stopped_cases hno with h | ⟨v, h⟩
    · exact hfull _ h
    · exact habsent _ v h

/-! ## Storing a key -/

section Store

variable {k : K} {d : Nat} (v : V)

/-- The table with a key stored where its search stops. -/
def store (home : K → Fin c) (t : Slots K V c) (k : K) (v : V) (d : Nat) : Slots K V c :=
  Function.update t (walk (home k) d) (some (k, v))

theorem store_self : store home t k v d (walk (home k) d) = some (k, v) := by simp [store]

theorem store_of_ne {j : Fin c} (h : j ≠ walk (home k) d) : store home t k v d j = t j := by simp [store, h]

/-- Storing empties no slot. -/
theorem store_ne_none {j : Fin c} (h : t j ≠ none) : store home t k v d j ≠ none := by
  by_cases hj : j = walk (home k) d
  · simp [hj, store_self]
  · rwa [store_of_ne v hj]

/-- What a slot holds after a key is stored. -/
theorem store_eq_some {j : Fin c} {k' : K} {v' : V} (h : store home t k v d j = some (k', v')) :
    (j = walk (home k) d ∧ k' = k ∧ v' = v) ∨ (j ≠ walk (home k) d ∧ t j = some (k', v')) := by
  by_cases hj : j = walk (home k) d
  · subst hj
    rw [store_self, Option.some.injEq, Prod.mk.injEq] at h
    exact Or.inl ⟨rfl, h.1.symm, h.2.symm⟩
  · rw [store_of_ne v hj] at h
    exact Or.inr ⟨hj, h⟩

/-- Storing a key where its search stops keeps the invariant. -/
theorem store_inv (hi : Inv home t) (hs : StopsAt home t k d) (hd : d < c) : Inv home (store home t k v d) where
  distinct := by
    intro i j k' v₁ v₂ h₁ h₂
    rcases store_eq_some v h₁ with ⟨rfl, rfl, -⟩ | ⟨hi₁, ht₁⟩
    · rcases store_eq_some v h₂ with ⟨rfl, -, -⟩ | ⟨-, ht₂⟩
      · rfl
      · exact stop_of_present hi hs ht₂
    · rcases store_eq_some v h₂ with ⟨rfl, rfl, -⟩ | ⟨-, ht₂⟩
      · exact (stop_of_present hi hs ht₁).symm
      · exact hi.distinct ht₁ ht₂
  chain := by
    intro j k' v' h
    rcases store_eq_some v h with ⟨rfl, rfl, -⟩ | ⟨-, ht⟩
    · refine ⟨d, hd, rfl, ?_⟩
      intro e he
      rcases Nat.lt_or_eq_of_le he with he | rfl
      · exact store_ne_none v (other_ne_none (hs.passed e he))
      · simp [store_self]
    · obtain ⟨d', hd', hw, hocc⟩ := hi.chain ht
      exact ⟨d', hd', hw, fun e he => store_ne_none v (hocc e he)⟩

/-- After a key is stored, the table has the pairs it had, but for the key stored. -/
theorem store_pairs [DecidableEq K] (hi : Inv home t) (hs : StopsAt home t k d) (k' : K) (v' : V) :
    (∃ j, store home t k v d j = some (k', v')) ↔ if k' = k then v' = v else ∃ j, t j = some (k', v') := by
  split
  · rename_i hk
    subst hk
    constructor
    · rintro ⟨j, hj⟩
      rcases store_eq_some v hj with ⟨-, -, hv⟩ | ⟨hne, ht⟩
      · exact hv
      · exact absurd (stop_of_present hi hs ht).symm hne
    · rintro rfl
      exact ⟨_, store_self v'⟩
  · rename_i hk
    constructor
    · rintro ⟨j, hj⟩
      rcases store_eq_some v hj with ⟨-, hk', -⟩ | ⟨-, ht⟩
      · exact absurd hk' hk
      · exact ⟨j, ht⟩
    · rintro ⟨j, hj⟩
      -- The slot of another key is not where the search for `k` stopped.
      have hne : j ≠ walk (home k) d := by
        rintro rfl
        exact hs.stopped ⟨k', v', hj, hk⟩
      exact ⟨j, by rw [store_of_ne v hne]; exact hj⟩

theorem occupied_store : occupied (store home t k v d) = insert (walk (home k) d) (occupied t) := by
  ext j
  rw [Finset.mem_insert, mem_occupied, mem_occupied]
  by_cases hj : j = walk (home k) d
  · simp [hj, store_self]
  · simp [hj, store_of_ne v hj]

/-- One slot more is occupied when the slot was empty. -/
theorem card_occupied_store (h : t (walk (home k) d) = none) :
    (occupied (store home t k v d)).card = (occupied t).card + 1 := by
  rw [occupied_store, Finset.card_insert_of_notMem (by simp [h])]

/-- As many slots are occupied as before when the slot was not empty. -/
theorem card_occupied_store_of_ne (h : t (walk (home k) d) ≠ none) :
    (occupied (store home t k v d)).card = (occupied t).card := by
  rw [occupied_store, Finset.insert_eq_of_mem (by simp [h])]

end Store

/-! ## The map of a sequence of puts -/

variable [DecidableEq K]

/-- The value of the last put of a key. -/
def lastWrite (puts : List (K × V)) (k : K) : Option V := (puts.reverse.find? fun p => p.1 = k).map Prod.snd

@[simp]
theorem lastWrite_nil (k : K) : lastWrite ([] : List (K × V)) k = none := rfl

/-- The last put decides for its own key. -/
theorem lastWrite_append (puts : List (K × V)) (k : K) (v : V) (k' : K) :
    lastWrite (puts ++ [(k, v)]) k' = if k' = k then some v else lastWrite puts k' := by
  unfold lastWrite
  rw [List.reverse_append, List.reverse_cons, List.reverse_nil, List.nil_append, List.singleton_append, List.find?_cons]
  by_cases hk : k' = k
  · simp [hk]
  · simp [hk, Ne.symm hk]

/-- A key has a last value when it was put, and only then. -/
theorem lastWrite_isSome_iff (puts : List (K × V)) (k : K) : (∃ v, lastWrite puts k = some v) ↔ ∃ p ∈ puts, p.1 = k := by
  rw [← Option.isSome_iff_exists, lastWrite, Option.isSome_map, List.find?_isSome]
  simp

end LinearProbing
