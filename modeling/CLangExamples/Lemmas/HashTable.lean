import CLangExamples.HashTable.Table
import CLangExamples.Lib.LinearProbing
import CLangExamples.Lib.Run

/-!
# The hash table as linear probing

The slots of a table of the source are a table of `LinearProbing`; `hash_table_put` stores a key where its search stops
(`hashTablePut_cases`), so a sequence of puts keeps the representation invariant (`putAll_represents`).
-/

namespace CLangExamples.HashTable

open LinearProbing Ring Transition

variable {capacity : Nat}

/-! ## The slots of a table -/

/-- What the entries hold: the pair of an occupied entry; the value of an empty entry is not looked at. -/
def Table.slots (ht : Table capacity) : Slots Key Value capacity :=
  fun j => (ht.entries j).key.map fun key => (key, (ht.entries j).value)

@[simp]
theorem slots_eq_none (ht : Table capacity) (j : Fin capacity) : ht.slots j = none ↔ (ht.entries j).key = none := by
  simp [Table.slots]

@[simp]
theorem slots_eq_some (ht : Table capacity) (j : Fin capacity) (key : Key) (value : Value) :
    ht.slots j = some (key, value) ↔ (ht.entries j).key = some key ∧ (ht.entries j).value = value := by
  simp [Table.slots, Option.map_eq_some_iff]

/-- The search for a key goes on past an entry exactly when the entry has a key that `strcmp` tells apart. -/
theorem other_iff (ht : Table capacity) (key : Key) (j : Fin capacity) :
    Other ht.slots key j ↔ ∃ k, (ht.entries j).key = some k ∧ k.strcmp key ≠ 0 := by
  simp [Other]

theorem slots_store [NeZero capacity] (ht : Table capacity) (i : Fin capacity) (key : Key) (value : Value) :
    (ht.store i key value).slots = Function.update ht.slots i (some (key, value)) := by
  funext j
  by_cases hj : j = i
  · simp [hj, Table.slots, Table.store]
  · simp [hj, Table.slots, Table.store]

variable [NeZero capacity]

/-- One step around the table, as the source writes it. -/
theorem next_walk (i : Fin capacity) (d : Nat) : next (walk i d) = walk i (d + 1) := walk_walk i d 1

/-! ## One put -/

/-- The loop stops at a slot that no other key holds. -/
theorem putLoop_stop (ht : Table capacity) (key : Key) {i : Fin capacity} (left : Nat) (h : ¬Other ht.slots key i) :
    putLoop ht key i left = .ok i := by
  rw [other_iff] at h
  unfold putLoop
  split
  · rfl
  · rename_i k hk
    rw [if_neg (fun hne => h ⟨k, hk, hne⟩)]

/-- The loop fails its assertion at a slot that another key holds, with no slot left. -/
theorem putLoop_abort (ht : Table capacity) (key : Key) {i : Fin capacity} (h : Other ht.slots key i) :
    putLoop ht key i 0 = .error .assertion := by
  obtain ⟨k, hk, hne⟩ := (other_iff ht key i).mp h
  unfold putLoop
  simp only [hk, if_pos hne]

/-- The loop goes on from a slot that another key holds. -/
theorem putLoop_next (ht : Table capacity) (key : Key) {i : Fin capacity} (left : Nat) (h : Other ht.slots key i) :
    putLoop ht key i (left + 1) = putLoop ht key (next i) left := by
  obtain ⟨k, hk, hne⟩ := (other_iff ht key i).mp h
  rw [putLoop]
  simp only [hk, if_pos hne]

/-- The loop stops where the search for the key stops, or has passed every slot and fails its assertion. -/
theorem putLoop_cases (ht : Table capacity) (key : Key) (left d : Nat) (hleft : d + 1 + left = capacity)
    (hpassed : ∀ e < d, Other ht.slots key (walk (home key) e)) :
    (∃ d' < capacity, StopsAt home ht.slots key d' ∧
      putLoop ht key (walk (home key) d) left = .ok (walk (home key) d')) ∨
    ((∀ e < capacity, Other ht.slots key (walk (home key) e)) ∧
      putLoop ht key (walk (home key) d) left = .error .assertion) := by
  induction left generalizing d with
  | zero =>
    by_cases ho : Other ht.slots key (walk (home key) d)
    · have hpassed' := Nat.forall_lt_succ_right.mpr ⟨hpassed, ho⟩
      exact Or.inr ⟨fun e he => hpassed' e (by omega), putLoop_abort ht key ho⟩
    · exact Or.inl ⟨d, by omega, ⟨hpassed, ho⟩, putLoop_stop ht key 0 ho⟩
  | succ left ih =>
    by_cases ho : Other ht.slots key (walk (home key) d)
    · rw [putLoop_next ht key left ho, next_walk]
      exact ih (d + 1) (by omega) (Nat.forall_lt_succ_right.mpr ⟨hpassed, ho⟩)
    · exact Or.inl ⟨d, by omega, ⟨hpassed, ho⟩, putLoop_stop ht key (left + 1) ho⟩

/-- What a put that does not abort leaves: the key is stored at distance `d` from its home, and the counter has counted
the slot if it was empty. -/
structure Stored (ht : Table capacity) (key : Key) (value : Value) (d : Nat) (ht' : Table capacity) : Prop where
  slots : ht'.slots = store home ht.slots key value d
  count : ht'.count = ht.count + if ht.slots (walk (home key) d) = none then 1 else 0

/-- A put stores its key where the search for it stops, or finds every slot held by another key and aborts. -/
theorem hashTablePut_cases (ht : Table capacity) (key : Key) (value : Value) :
    (∃ d < capacity, StopsAt home ht.slots key d ∧
      ∃ ht', hashTablePut ht key value = .ok ht' ∧ Stored ht key value d ht') ∨
    ((∀ e < capacity, Other ht.slots key (walk (home key) e)) ∧ hashTablePut ht key value = .error .assertion) := by
  have hpos : 0 < capacity := Nat.pos_of_neZero capacity
  by_cases hhome : (ht.entries (home key)).key = none
  · have hempty : ht.slots (home key) = none := by simpa using hhome
    refine Or.inl ⟨0, hpos, ⟨by simp, ?_⟩, _, by rw [hashTablePut, if_pos hhome], ?_, ?_⟩
    · intro ho
      exact other_ne_none ho (by simpa using hhome)
    · unfold store
      rw [walk_zero]
      exact slots_store ht (home key) key value
    · rw [walk_zero, if_pos hempty]
  · have hput : hashTablePut ht key value = (putLoop ht key (home key) (capacity - 1) >>= fun i =>
        if (ht.entries i).key = none then .ok { ht.store i key value with count := ht.count + 1 }
        else .ok (ht.store i key value)) := by
      unfold hashTablePut
      rw [if_neg hhome]
      rfl
    have hloop := putLoop_cases ht key (capacity - 1) 0 (by omega) (by simp)
    rw [walk_zero] at hloop
    rcases hloop with ⟨d, hd, hs, hl⟩ | ⟨hall, hl⟩
    · refine Or.inl ⟨d, hd, hs, ?_⟩
      rw [hput, hl, ok_bind]
      by_cases hn : (ht.entries (walk (home key) d)).key = none
      · rw [if_pos hn]
        exact ⟨_, rfl, slots_store ht _ key value, by rw [if_pos ((slots_eq_none ht _).mpr hn)]⟩
      · rw [if_neg hn]
        exact ⟨_, rfl, slots_store ht _ key value, by rw [if_neg (mt (slots_eq_none ht _).mp hn)]; rfl⟩
    · refine Or.inr ⟨hall, ?_⟩
      rw [hput, hl]
      rfl

/-! ## Sequences of puts -/

/-- The table stands for the map of the puts. -/
structure Represents (puts : List (Key × Value)) (ht : Table capacity) : Prop where
  inv : Inv home ht.slots
  pairs : ∀ key value, (∃ j, ht.slots j = some (key, value)) ↔ lastWrite puts key = some value
  count : ht.count = (occupied ht.slots).card

theorem represents_init : Represents [] (hashTableInit : Table capacity) where
  inv := ⟨by simp [hashTableInit], by simp [hashTableInit]⟩
  pairs := by simp [hashTableInit]
  count := by simp [hashTableInit, occupied, Table.slots]

/-- A put that does not abort keeps the representation. -/
theorem represents_put {puts : List (Key × Value)} {ht ht' : Table capacity} {key : Key} {value : Value}
    (hr : Represents puts ht) (h : hashTablePut ht key value = .ok ht') : Represents (puts ++ [(key, value)]) ht' := by
  rcases hashTablePut_cases ht key value with ⟨d, hd, hs, ht'', hput, hstored⟩ | ⟨-, habort⟩
  · rw [h] at hput
    obtain rfl := Except.ok.inj hput
    refine ⟨?_, ?_, ?_⟩
    · rw [hstored.slots]
      exact store_inv value hr.inv hs hd
    · intro key' value'
      rw [hstored.slots, store_pairs value hr.inv hs, lastWrite_append, hr.pairs]
      split
      · rw [Option.some.injEq, eq_comm]
      · rfl
    · rw [hstored.slots, hstored.count, hr.count]
      split
      · rename_i hn
        rw [card_occupied_store value hn]
      · rename_i hn
        rw [card_occupied_store_of_ne value hn]
        rfl
  · rw [h] at habort
    cases habort

/-- A sequence of puts that does not abort leaves a table that stands for its map. -/
theorem putAll_represents {puts : List (Key × Value)} {ht : Table capacity} (h : putAll puts = .ok ht) :
    Represents puts ht := by
  have hrun : Run (fun (p : Key × Value) (ht : Table capacity) => hashTablePut ht p.1 p.2) (fun p _ => p) hashTableInit
      puts puts ht := run_of_foldlM h
  refine Run.invariant (P := Represents) represents_init ?_ hrun
  intro history p s s' hr hstep
  exact represents_put hr hstep

end CLangExamples.HashTable
