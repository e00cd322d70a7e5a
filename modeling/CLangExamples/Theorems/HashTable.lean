import CLangExamples.Lemmas.HashTable

/-!
# What the hash table keeps and what it returns

`hash_table_put` is right: after any sequence of puts the table stands for the last value of each key
(`putAll_last_write_wins`). `hash_table_get` is not. Its loop was meant to give up after as many slots as there are
entries, but the test is the wrong way round, `if (++count < ht->count) return NULL`: with two entries or more the first
slot of another key ends the search. So a key is found exactly when it sits in its home slot (`get_put_key_iff`). With one
entry the search goes on to the next slot, which is empty, and its key is given to `strcmp` before it is compared with
`NULL` (`get_absent_key_iff`).
-/

namespace CLangExamples.HashTable

open LinearProbing Ring

variable {capacity : Nat}

/-- An entry is its pair. -/
theorem entry_eq_iff (ht : Table capacity) (j : Fin capacity) (key : Key) (value : Value) :
    ht.entries j = ⟨some key, value⟩ ↔ ht.slots j = some (key, value) := by
  rw [slots_eq_some]
  cases ht.entries j
  simp

variable [NeZero capacity]

/-! ## The table after a sequence of puts -/

/-- The table represents the last-write-wins map of the puts. -/
structure LastWriteWins (puts : List (Key × Value)) (ht : Table capacity) : Prop where
  /-- occupied entries have distinct keys -/
  distinct : ∀ i j key, (ht.entries i).key = some key → (ht.entries j).key = some key → i = j
  /-- the pairs in the entries are the keys that were put, each with its last value -/
  pairs : ∀ key value, (∃ j, ht.entries j = ⟨some key, value⟩) ↔ lastWrite puts key = some value
  /-- `count` is the number of occupied entries -/
  count : ht.count = (Finset.univ.filter fun j => (ht.entries j).key.isSome).card
  /-- from the home of a key, around the table, to the entry that has it, every entry is occupied -/
  noGap : ∀ j key, (ht.entries j).key = some key →
    ∃ d < capacity, walk (home key) d = j ∧ ∀ e ≤ d, (ht.entries (walk (home key) e)).key ≠ none

theorem lastWriteWins_of_represents {puts : List (Key × Value)} {ht : Table capacity} (h : Represents puts ht) :
    LastWriteWins puts ht where
  distinct := by
    intro i j key hi hj
    exact h.inv.distinct ((slots_eq_some ht i key _).mpr ⟨hi, rfl⟩) ((slots_eq_some ht j key _).mpr ⟨hj, rfl⟩)
  pairs := by
    intro key value
    simp only [entry_eq_iff]
    exact h.pairs key value
  count := by
    rw [h.count, occupied]
    simp [Table.slots]
  noGap := by
    intro j key hj
    obtain ⟨d, hd, hw, hocc⟩ := h.inv.chain ((slots_eq_some ht j key _).mpr ⟨hj, rfl⟩)
    exact ⟨d, hd, hw, fun e he => mt (slots_eq_none ht _).mpr (hocc e he)⟩

/-- After any sequence of puts that does not abort, the table represents the last value of each key put; and one more put
aborts exactly when all entries are occupied and none of them has its key. -/
theorem putAll_last_write_wins (puts : List (Key × Value)) (ht : Table capacity) (h : putAll puts = .ok ht) :
    LastWriteWins puts ht ∧
      ∀ key value, hashTablePut ht key value = .error .assertion ↔
        (∀ j, (ht.entries j).key ≠ none) ∧ ∀ j, (ht.entries j).key ≠ some key := by
  refine ⟨lastWriteWins_of_represents (putAll_represents h), ?_⟩
  intro key value
  have hall : (∀ e < capacity, Other ht.slots key (walk (home key) e)) ↔
      (∀ j, (ht.entries j).key ≠ none) ∧ ∀ j, (ht.entries j).key ≠ some key := by
    rw [passes_all_iff]
    simp
  rw [← hall]
  rcases hashTablePut_cases ht key value with ⟨d, hd, hs, ht', hput, -⟩ | ⟨hpassed, habort⟩
  · constructor
    · intro habort
      rw [hput] at habort
      cases habort
    · intro hpassed
      exact absurd (hpassed d hd) hs.stopped
  · exact ⟨fun _ => hpassed, fun _ => habort⟩

/-- The key `a`, as its bytes. -/
def keyA : Key := ⟨[0x61#8], by decide⟩

/-- The key `c`, whose hash has the parity of that of `a`. -/
def keyC : Key := ⟨[0x63#8], by decide⟩

/-- A table of one entry after one put: a put of another key aborts. -/
theorem putAll_last_write_wins_full :
    ∃ ht : Table 1, putAll [(keyA, 1)] = .ok ht ∧ LastWriteWins [(keyA, 1)] ht ∧
      hashTablePut ht keyC 2 = .error .assertion := by
  obtain ⟨ht, h, hput⟩ : ∃ ht : Table 1, putAll [(keyA, 1)] = .ok ht ∧ hashTablePut ht keyC 2 = .error .assertion :=
    ⟨_, rfl, rfl⟩
  exact ⟨ht, h, (putAll_last_write_wins [(keyA, 1)] ht h).1, hput⟩

/-! ## Looking a key up -/

/-- The search of `hash_table_get` ends at once in a home slot that is empty. -/
theorem get_of_home_empty {ht : Table capacity} {key : Key} (h : (ht.entries (home key)).key = none) (fuel : Nat) :
    hashTableGet fuel ht key = some (.ok none) := by
  unfold hashTableGet
  rw [if_pos h]

/-- The search ends at once in a home slot that holds the key. -/
theorem get_of_home_key {ht : Table capacity} {key : Key} (h : (ht.entries (home key)).key = some key) (fuel : Nat) :
    hashTableGet (fuel + 1) ht key = some (.ok (some (home key))) := by
  have hne : (ht.entries (home key)).key ≠ none := by simp [h]
  unfold hashTableGet
  rw [if_neg hne, getLoop]
  simp [h]

/-- At a slot of another key the loop gives up when the next value of the counter is below `count`, and else goes on. -/
theorem getLoop_other {ht : Table capacity} {key k : Key} {index : Fin capacity} (count : BitVec 64) (fuel : Nat)
    (h : (ht.entries index).key = some k) (hne : k ≠ key) :
    getLoop ht key (fuel + 1) index count =
      if (count + 1).toNat < ht.count then some (.ok none) else getLoop ht key fuel (next index) (count + 1) := by
  rw [getLoop]
  simp [h, hne]

/-- In a home slot of another key the search gives up when there are two entries or more. -/
theorem get_of_home_other {ht : Table capacity} {key k : Key} (h : (ht.entries (home key)).key = some k) (hne : k ≠ key)
    (hcount : 2 ≤ ht.count) (fuel : Nat) : hashTableGet (fuel + 1) ht key = some (.ok none) := by
  have hocc : (ht.entries (home key)).key ≠ none := by simp [h]
  have hlt : ((0 : BitVec 64) + 1).toNat < ht.count := hcount
  unfold hashTableGet
  rw [if_neg hocc, getLoop_other 0 fuel h hne, if_pos hlt]

/-- Two occupied slots make a count of two. -/
theorem two_le_count {puts : List (Key × Value)} {ht : Table capacity} (hr : Represents puts ht) {i j : Fin capacity}
    (hij : i ≠ j) (hi : ht.slots i ≠ none) (hj : ht.slots j ≠ none) : 2 ≤ ht.count := by
  rw [hr.count]
  exact Finset.one_lt_card.mpr ⟨i, (mem_occupied i).mpr hi, j, (mem_occupied j).mpr hj, hij⟩

/-- For a key that was put, `hash_table_get` returns a pointer to its last value exactly when the key sits in its home
slot. -/
theorem get_put_key_iff (puts : List (Key × Value)) (ht : Table capacity) (h : putAll puts = .ok ht) (key : Key)
    (value : Value) (hput : lastWrite puts key = some value) :
    (∃ fuel i, hashTableGet fuel ht key = some (.ok (some i)) ∧ ht.entries i = ⟨some key, value⟩) ↔
      (ht.entries (home key)).key = some key := by
  have hr := putAll_represents h
  obtain ⟨j, hj⟩ := (hr.pairs key value).mpr hput
  constructor
  · rintro ⟨fuel, i, hget, -⟩
    by_contra hhome
    -- The key is displaced, so its home is held by another key and there are two entries.
    obtain ⟨d, -, hw, hocc⟩ := hr.inv.chain hj
    have hne : home key ≠ j := by
      intro heq
      rw [← heq, slots_eq_some] at hj
      exact hhome hj.1
    have hocc0 : ht.slots (home key) ≠ none := by simpa using hocc 0 (Nat.zero_le d)
    have hcount := two_le_count hr hne hocc0 (by simp [hj])
    obtain ⟨k, hk⟩ := Option.ne_none_iff_exists'.mp (mt (slots_eq_none ht _).mpr hocc0)
    have hkne : k ≠ key := fun heq => hhome (heq ▸ hk)
    cases fuel with
    | zero =>
      unfold hashTableGet at hget
      rw [if_neg (by simp [hk])] at hget
      cases hget
    | succ fuel =>
      rw [get_of_home_other hk hkne hcount fuel] at hget
      cases hget
  · intro hhome
    refine ⟨1, home key, get_of_home_key hhome 0, ?_⟩
    have hslot : ht.slots (home key) = some (key, (ht.entries (home key)).value) := by simp [hhome]
    rw [entry_eq_iff, hr.inv.distinct hslot hj]
    exact hj

/-- A key alone in its table is found. -/
theorem get_put_key_iff_alone :
    ∃ ht : Table 1, putAll [(keyA, 1)] = .ok ht ∧
      ∃ fuel i, hashTableGet fuel ht keyA = some (.ok (some i)) ∧ ht.entries i = ⟨some keyA, 1⟩ := by
  obtain ⟨ht, h, hhome⟩ : ∃ ht : Table 1, putAll [(keyA, 1)] = .ok ht ∧ (ht.entries (home keyA)).key = some keyA :=
    ⟨_, rfl, rfl⟩
  exact ⟨ht, h, (get_put_key_iff [(keyA, 1)] ht h keyA 1 rfl).mpr hhome⟩

/-- The keys that `main` puts: `hugo`, `benicio`, `miranda`, `de`, `oliveira`. -/
def demoPuts : List (Key × Value) :=
  [(⟨[0x68#8, 0x75#8, 0x67#8, 0x6F#8], by decide⟩, 2),
   (⟨[0x62#8, 0x65#8, 0x6E#8, 0x69#8, 0x63#8, 0x69#8, 0x6F#8], by decide⟩, 4),
   (⟨[0x6D#8, 0x69#8, 0x72#8, 0x61#8, 0x6E#8, 0x64#8, 0x61#8], by decide⟩, 8),
   (⟨[0x64#8, 0x65#8], by decide⟩, 16),
   (⟨[0x6F#8, 0x6C#8, 0x69#8, 0x76#8, 0x65#8, 0x69#8, 0x72#8, 0x61#8], by decide⟩, 24)]

/-- The key `oliveira`, which hashes to the slot of `de`. -/
def keyOliveira : Key := ⟨[0x6F#8, 0x6C#8, 0x69#8, 0x76#8, 0x65#8, 0x69#8, 0x72#8, 0x61#8], by decide⟩

/-- In the table that `main` fills, `oliveira` is put with 24 and looked up as `NULL`. -/
theorem get_loses_displaced_key :
    ∃ ht : Table 8, putAll demoPuts = .ok ht ∧ lastWrite demoPuts keyOliveira = some 24 ∧
      ¬∃ fuel i, hashTableGet fuel ht keyOliveira = some (.ok (some i)) ∧ ht.entries i = ⟨some keyOliveira, 24⟩ := by
  obtain ⟨ht, h, hzero, hget⟩ : ∃ ht : Table 8, putAll demoPuts = .ok ht ∧ hashTableGet 0 ht keyOliveira = none ∧
      ∀ fuel, hashTableGet (fuel + 1) ht keyOliveira = some (.ok none) := ⟨_, rfl, rfl, fun _ => rfl⟩
  refine ⟨ht, h, rfl, ?_⟩
  rintro ⟨fuel, i, hfound, -⟩
  cases fuel with
  | zero => rw [hzero] at hfound; cases hfound
  | succ fuel => rw [hget fuel] at hfound; cases hfound

/-! ## Looking up a key that was never put -/

/-- `hash_table_get` ends in `NULL`: so it does with every fuel from some fuel on. -/
def GetsNull (ht : Table capacity) (key : Key) : Prop := ∃ fuel, ∀ more, hashTableGet (fuel + more) ht key = some (.ok none)

/-- In a table of one slot the loop stays at the slot until its counter wraps to zero, which is below `count`. -/
theorem getLoop_wraps {ht : Table capacity} {key k : Key} {index : Fin capacity} (h : (ht.entries index).key = some k)
    (hne : k ≠ key) (hstay : next index = index) (hcount : ht.count = 1) (left : Nat) (count : BitVec 64)
    (hleft : count.toNat + left + 1 = 2 ^ 64) (more : Nat) :
    getLoop ht key (left + 1 + more) index count = some (.ok none) := by
  induction left generalizing count with
  | zero =>
    have hwrap : (count + 1).toNat = 0 := by
      rw [BitVec.toNat_add, show count.toNat = 2 ^ 64 - 1 by omega]
      rfl
    rw [Nat.add_right_comm, getLoop_other count _ h hne, if_pos (by omega)]
  | succ left ih =>
    have hnext : (count + 1).toNat = count.toNat + 1 := by
      rw [BitVec.toNat_add]
      exact Nat.mod_eq_of_lt (by simp; omega)
    rw [Nat.add_right_comm, getLoop_other count _ h hne, if_neg (by omega), hstay]
    exact ih (count + 1) (by omega)

/-- In a table of one slot the search for another key ends in `NULL`, after `2 ^ 64` iterations. -/
theorem getsNull_one {ht : Table capacity} {key k : Key} (h : (ht.entries (home key)).key = some k) (hne : k ≠ key)
    (hcount : ht.count = 1) (hone : capacity = 1) : GetsNull ht key := by
  refine ⟨2 ^ 64 - 1 + 1, ?_⟩
  intro more
  have hocc : (ht.entries (home key)).key ≠ none := by simp [h]
  subst hone
  unfold hashTableGet
  rw [if_neg hocc]
  exact getLoop_wraps h hne (Subsingleton.elim _ _) hcount (2 ^ 64 - 1) 0 (by simp) more

/-- With one entry, and a slot after it, the search for another key of that slot gives `NULL` to `strcmp`. -/
theorem get_strcmp_null {ht : Table capacity} {key k : Key} (h : (ht.entries (home key)).key = some k) (hne : k ≠ key)
    (hcount : ht.count = 1) (hnext : (ht.entries (next (home key))).key = none) (fuel : Nat) :
    hashTableGet (fuel + 2) ht key = some (.error .strcmpNull) := by
  have hocc : (ht.entries (home key)).key ≠ none := by simp [h]
  have hlt : ¬((0 : BitVec 64) + 1).toNat < ht.count := by
    rw [hcount]
    decide
  unfold hashTableGet
  rw [if_neg hocc, getLoop_other 0 (fuel + 1) h hne, if_neg hlt, getLoop]
  simp [hnext]

/-- The next slot is another one when there are two slots or more. -/
theorem next_ne (i : Fin capacity) (h : 2 ≤ capacity) : next i ≠ i := by
  intro heq
  have hval : (i.val + 1) % capacity = i.val := congrArg Fin.val heq
  have hi := i.isLt
  rcases Nat.lt_or_eq_of_le (show i.val + 1 ≤ capacity by omega) with hlt | hlast
  · rw [Nat.mod_eq_of_lt hlt] at hval
    omega
  · rw [hlast, Nat.mod_self] at hval
    omega

/-- All puts are of one key, and the other key hashes to the slot of that key. -/
def SharesHomeOfOnlyKey (capacity : Nat) [NeZero capacity] (puts : List (Key × Value)) (key : Key) : Prop :=
  puts ≠ [] ∧ ∃ k, (∀ p ∈ puts, p.1 = k) ∧ (home k : Fin capacity) = home key

/-- A key is in some slot when it was put, and only then. -/
theorem present_iff {puts : List (Key × Value)} {ht : Table capacity} (hr : Represents puts ht) (key : Key) :
    (∃ j, (ht.entries j).key = some key) ↔ ∃ p ∈ puts, p.1 = key := by
  rw [← lastWrite_isSome_iff]
  constructor
  · rintro ⟨j, hj⟩
    exact ⟨_, (hr.pairs key _).mp ⟨j, (slots_eq_some ht j key _).mpr ⟨hj, rfl⟩⟩⟩
  · rintro ⟨value, hv⟩
    obtain ⟨j, hj⟩ := (hr.pairs key value).mpr hv
    exact ⟨j, ((slots_eq_some ht j key value).mp hj).1⟩

/-- The home of a key that was put is occupied. -/
theorem home_occupied {puts : List (Key × Value)} {ht : Table capacity} (hr : Represents puts ht) {key : Key}
    (h : ∃ p ∈ puts, p.1 = key) : ht.slots (home key) ≠ none := by
  obtain ⟨j, hj⟩ := (present_iff hr key).mpr h
  obtain ⟨d, -, -, hocc⟩ := hr.inv.chain ((slots_eq_some ht j key _).mpr ⟨hj, rfl⟩)
  simpa using hocc 0 (Nat.zero_le d)

/-- An occupied slot has a key, and that key was put. -/
theorem put_of_occupied {puts : List (Key × Value)} {ht : Table capacity} (hr : Represents puts ht) {j : Fin capacity}
    (h : ht.slots j ≠ none) : ∃ k, (ht.entries j).key = some k ∧ ∃ p ∈ puts, p.1 = k := by
  obtain ⟨k, hk⟩ := Option.ne_none_iff_exists'.mp (mt (slots_eq_none ht j).mpr h)
  exact ⟨k, hk, (present_iff hr k).mp ⟨j, hk⟩⟩

/-- The table has one entry exactly when all puts are of one key. -/
theorem count_eq_one_iff {puts : List (Key × Value)} {ht : Table capacity} (hr : Represents puts ht) :
    ht.count = 1 ↔ puts ≠ [] ∧ ∃ k, ∀ p ∈ puts, p.1 = k := by
  rw [hr.count, Finset.card_eq_one]
  constructor
  · rintro ⟨i, hi⟩
    have hmem : ∀ j, ht.slots j ≠ none ↔ j = i := by
      intro j
      rw [← mem_occupied, hi, Finset.mem_singleton]
    obtain ⟨k, hk, p, hp, -⟩ := put_of_occupied hr ((hmem i).mpr rfl)
    refine ⟨List.ne_nil_of_mem hp, k, ?_⟩
    intro q hq
    obtain ⟨j, hj⟩ := (present_iff hr q.1).mpr ⟨q, hq, rfl⟩
    have hji : j = i := (hmem j).mp (by simp [hj])
    rw [hji, hk] at hj
    exact (Option.some.inj hj).symm
  · rintro ⟨hne, k, hall⟩
    obtain ⟨p, hp⟩ := List.exists_mem_of_ne_nil puts hne
    obtain ⟨i, hi⟩ := (present_iff hr k).mpr ⟨p, hp, hall p hp⟩
    refine ⟨i, ?_⟩
    ext j
    rw [mem_occupied, Finset.mem_singleton]
    constructor
    · intro hj
      obtain ⟨k', hk', q, hq, rfl⟩ := put_of_occupied hr hj
      rw [hall q hq] at hk'
      exact (lastWriteWins_of_represents hr).distinct j i k hk' hi
    · rintro rfl
      simp [hi]

/-- With two slots or more and one entry, in the home of a key, the slot after it is empty, and the entry was put from that
home. -/
theorem one_entry_at_home {puts : List (Key × Value)} {ht : Table capacity} (hr : Represents puts ht) {key k : Key}
    (hk : (ht.entries (home key)).key = some k) (hc : 2 ≤ capacity) (hone : ht.count = 1) :
    (ht.entries (next (home key))).key = none ∧ SharesHomeOfOnlyKey capacity puts key := by
  have honly : ∀ j, ht.slots j ≠ none → j = home key := by
    intro j hj
    by_contra hj'
    have := two_le_count hr hj' hj (by simp [hk])
    omega
  obtain ⟨hne, k', hall⟩ := (count_eq_one_iff hr).mp hone
  obtain ⟨p, hp⟩ := List.exists_mem_of_ne_nil puts hne
  refine ⟨?_, hne, k', hall, honly _ (home_occupied hr ⟨p, hp, hall p hp⟩)⟩
  by_contra hocc
  exact next_ne (home key) hc (honly _ (mt (slots_eq_none ht _).mp hocc))

/-- For a key that was never put, `hash_table_get` ends in `NULL`, and gives no `NULL` to `strcmp`, unless the table has
two slots or more and one entry, in the slot the key hashes to. -/
theorem get_absent_key_iff (puts : List (Key × Value)) (ht : Table capacity) (h : putAll puts = .ok ht) (key : Key)
    (habsent : ∀ p ∈ puts, p.1 ≠ key) :
    GetsNull ht key ↔ ¬(2 ≤ capacity ∧ SharesHomeOfOnlyKey capacity puts key) := by
  have hr := putAll_represents h
  have hnotin : ∀ j, (ht.entries j).key ≠ some key := by
    intro j hj
    obtain ⟨p, hp, hpk⟩ := (present_iff hr key).mp ⟨j, hj⟩
    exact habsent p hp hpk
  by_cases hhome : (ht.entries (home key)).key = none
  · -- the home slot is empty: the only key, put from the same home, would be in it
    refine iff_of_true ⟨0, fun more => get_of_home_empty hhome _⟩ ?_
    rintro ⟨-, hne, k, hall, hk⟩
    obtain ⟨p, hp⟩ := List.exists_mem_of_ne_nil puts hne
    have hocc := home_occupied hr ⟨p, hp, hall p hp⟩
    rw [hk, Ne, slots_eq_none] at hocc
    exact hocc hhome
  · obtain ⟨k, hk⟩ := Option.ne_none_iff_exists'.mp hhome
    have hkne : k ≠ key := fun heq => hnotin _ (heq ▸ hk)
    by_cases hone : ht.count = 1
    · rcases Nat.lt_or_ge capacity 2 with hc | hc
      · have hpos : 0 < capacity := Nat.pos_of_neZero capacity
        refine iff_of_true (getsNull_one hk hkne hone (by omega)) ?_
        rintro ⟨hc', -⟩
        omega
      · -- one entry, in the home of the key, and an empty slot after it
        obtain ⟨hnext, hshares⟩ := one_entry_at_home hr hk hc hone
        refine iff_of_false ?_ (fun hnot => hnot ⟨hc, hshares⟩)
        rintro ⟨fuel, hnull⟩
        have hbad := get_strcmp_null hk hkne hone hnext fuel
        rw [hnull 2] at hbad
        cases hbad
    · -- two entries or more: the search gives up at once
      have hcount : 2 ≤ ht.count := by
        have hcard : 0 < ht.count := by
          rw [hr.count]
          exact Finset.card_pos.mpr ⟨home key, by simp [hk]⟩
        omega
      refine iff_of_true ⟨1, fun more => ?_⟩ ?_
      · rw [Nat.add_comm]
        exact get_of_home_other hk hkne hcount more
      · rintro ⟨-, hne, k', hall, -⟩
        exact hone ((count_eq_one_iff hr).mpr ⟨hne, k', hall⟩)

/-- In an empty table every key is looked up as `NULL`. -/
theorem get_absent_key_iff_empty :
    ∃ ht : Table 2, putAll [] = .ok ht ∧ GetsNull ht keyA := by
  obtain ⟨ht, h⟩ : ∃ ht : Table 2, putAll [] = .ok ht := ⟨_, rfl⟩
  refine ⟨ht, h, (get_absent_key_iff [] ht h keyA (by simp)).mpr ?_⟩
  rintro ⟨-, hne, -⟩
  exact hne rfl

/-- With `a` alone in a table of two slots, the search for `c` gives `NULL` to `strcmp`. -/
theorem get_absent_key_strcmp_null :
    ∃ ht : Table 2, putAll [(keyA, 1)] = .ok ht ∧ (∀ p ∈ [(keyA, (1 : Value))], p.1 ≠ keyC) ∧
      hashTableGet 2 ht keyC = some (.error .strcmpNull) ∧ ¬GetsNull ht keyC := by
  obtain ⟨ht, h, hget⟩ : ∃ ht : Table 2, putAll [(keyA, 1)] = .ok ht ∧
      ∀ fuel, hashTableGet (fuel + 2) ht keyC = some (.error .strcmpNull) := ⟨_, rfl, fun _ => rfl⟩
  refine ⟨ht, h, by decide, hget 0, ?_⟩
  rintro ⟨fuel, hnull⟩
  have hbad := hget fuel
  rw [hnull 2] at hbad
  cases hbad

end CLangExamples.HashTable
