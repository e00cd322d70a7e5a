import CLangExamples.HashTable.Memory
import CLangExamples.Theorems.HashTable

/-!
# The hash table leaves memory as it found it

The model with pointers and the model of the table as slots are two levels of one design: `InMemory` says that a table in
memory stands for a table of slots, that every string it points to has the room that its key needs, and that besides its own
blocks the heap is as it was. Every operation keeps it or stops both models alike, so the results about slots are results
about memory (`hash_table_in_memory`).
-/

namespace CLangExamples.HashTable.Memory

open BlockHeap (Misuse addresses freeAll)
open Transition

variable {capacity : Nat}

/-! ## What a table has in memory -/

/-- From the heap `h₀` the program has come to the heap `h`, where the table in memory stands for the table of slots. -/
structure InMemory (h₀ h : Heap) (mt : Table capacity) (ht : HashTable.Table capacity) : Prop where
  count : mt.count = ht.count
  values : ∀ i, (mt.entries i).value = (ht.entries i).value
  null : ∀ i, (mt.entries i).key = none → (ht.entries i).key = none
  /-- a key in memory has a block of its own, of its own size -/
  own : ∀ i a, (mt.entries i).key = some a →
    ∃ key, (ht.entries i).key = some key ∧ h.live a = some (key.bytes ++ [0#8]) ∧ h₀.live a = none
  apart : ∀ i j a, (mt.entries i).key = some a → (mt.entries j).key = some a → i = j
  array : ∃ a, mt.array = some a ∧ h.live a ≠ none ∧ h₀.live a = none ∧ ∀ i, (mt.entries i).key ≠ some a
  /-- the other blocks are those that were there before -/
  rest : ∀ a, mt.array ≠ some a → (∀ i, (mt.entries i).key ≠ some a) → h.live a = h₀.live a
  started : h₀.next < h.next

/-- The entries of a table that are not empty, in the order of the array. -/
def listing (ht : HashTable.Table capacity) : List (Fin capacity × Key × Value) :=
  (List.finRange capacity).filterMap fun i => (ht.entries i).key.map fun key => (i, key, (ht.entries i).value)

/-- A line for each of them. -/
def dumpText (ht : HashTable.Table capacity) : List (BitVec 8) := (listing ht).flatMap fun e => dumpLine e.1.val e.2.1 e.2.2

namespace MemoryAux

variable {h₀ h : Heap} {mt : Table capacity} {ht : HashTable.Table capacity}

/-! ## Strings -/

/-- The bytes of a string stop at the NUL behind it. -/
theorem takeWhile_string (s : CString) (rest : List (BitVec 8)) :
    (s.bytes ++ 0#8 :: rest).takeWhile (fun b => b != 0#8) = s.bytes := by
  rw [List.takeWhile_append_of_pos]
  · simp
  · intro b hb
    have hne : b ≠ 0#8 := fun h => s.no_nul (h ▸ hb)
    simpa using hne

/-- The string in a block that was written for it. -/
theorem stringAt_live {a : Nat} {key : Key} (ha : h.live a = some (key.bytes ++ [0#8])) : stringAt h (some a) = .ok key := by
  unfold stringAt
  rw [BlockHeap.read_live ha]
  simp only [use, Except.mapError, ok_bind]
  rw [if_pos (by simp)]
  congr 1
  cases key with
  | mk bytes no_nul =>
    rw [CString.mk.injEq]
    exact takeWhile_string ⟨bytes, no_nul⟩ []

/-- A string is copied to a block of its size. -/
theorem strcpy_live {a : Nat} {block : List (BitVec 8)} (key : Key) (ha : h.live a = some block)
    (hsize : block.length = key.strlen + 1) :
    ∃ h', strcpy h (some a) key = .ok h' ∧ h'.live = Function.update h.live a (some (key.bytes ++ [0#8])) ∧
      h'.next = h.next := by
  have hne : h.live a ≠ none := by simp [ha]
  have hdrop : block.drop (key.strlen + 1) = [] := List.drop_eq_nil_of_le (by omega)
  refine ⟨h.put a (some (key.bytes ++ [0#8])) (BlockHeap.lt_next hne), ?_, rfl, rfl⟩
  unfold strcpy
  rw [BlockHeap.read_live ha]
  simp only [use, Except.mapError, ok_bind]
  rw [if_pos (by omega), hdrop]
  simp [BlockHeap.write, hne]

/-! ## Init -/

/-- `hash_table_init` exits when there is no memory, and else makes an empty table. -/
theorem init_cases (fails : Nat → Bool) (h₀ : Heap) :
    (fails h₀.next = true ∧ (hashTableInit fails h₀ : Except Stop (Heap × Table capacity)) = .error .exit) ∨
    ∃ h mt, hashTableInit fails h₀ = .ok (h, mt) ∧ InMemory h₀ h mt (HashTable.hashTableInit : HashTable.Table capacity) := by
  unfold hashTableInit calloc
  unfold BlockHeap.allocate
  cases hf : fails h₀.next with
  | true => exact Or.inl ⟨rfl, rfl⟩
  | false =>
    refine Or.inr ⟨_, _, rfl, ?_⟩
    exact {
      count := rfl
      values := fun i => rfl
      null := fun i _ => rfl
      own := fun i a hkey => by simp at hkey
      apart := fun i j a hkey => by simp at hkey
      array := ⟨h₀.next, rfl, by simp [BlockHeap.Heap.granted], h₀.fresh _ (Nat.le_refl _), by simp⟩
      rest := by
        intro a ha _
        have hne : a ≠ h₀.next := fun heq => ha (by simp [heq])
        exact Function.update_of_ne hne _ _
      started := Nat.lt_succ_self _ }

/-! ## Entries -/

/-- The key of an entry in memory, read as a string. -/
theorem stringAt_key (hm : InMemory h₀ h mt ht) {i : Fin capacity} {a : Nat} (ha : (mt.entries i).key = some a) :
    ∃ key, (ht.entries i).key = some key ∧ stringAt h (some a) = .ok key := by
  obtain ⟨key, hkey, hlive, -⟩ := hm.own i a ha
  exact ⟨key, hkey, stringAt_live hlive⟩

/-- An entry is empty in memory when it is empty, and only then. -/
theorem key_none_iff (hm : InMemory h₀ h mt ht) (i : Fin capacity) :
    (mt.entries i).key = none ↔ (ht.entries i).key = none := by
  refine ⟨hm.null i, ?_⟩
  intro hnone
  cases hp : (mt.entries i).key with
  | none => rfl
  | some a =>
    obtain ⟨key, hkey, -⟩ := hm.own i a hp
    rw [hnone] at hkey
    cases hkey

/-- The table in memory with an entry whose key is at the address `a`, and the table of slots that it stands for. -/
theorem inMemory_store (hm : InMemory h₀ h mt ht) {h' : Heap} {mt' : Table capacity} {ht' : HashTable.Table capacity}
    {i : Fin capacity} {a : Nat} {key : Key} {value : Value}
    (hmt : mt'.array = mt.array ∧ mt'.entries = Function.update mt.entries i ⟨some a, value⟩)
    (hht : ht'.entries = Function.update ht.entries i ⟨some key, value⟩) (hcount : mt'.count = ht'.count)
    (hlive : h'.live = Function.update h.live a (some (key.bytes ++ [0#8]))) (hnext : h₀.next < h'.next)
    (hnew : h₀.live a = none) (harray : mt.array ≠ some a)
    (hothers : ∀ j, j ≠ i → (mt.entries j).key ≠ some a) (hold : ∀ b, (mt.entries i).key = some b → b = a) :
    InMemory h₀ h' mt' ht' := by
  obtain ⟨harr, hentries⟩ := hmt
  have hself : mt'.entries i = ⟨some a, value⟩ := by rw [hentries, Function.update_self]
  have hother : ∀ j, j ≠ i → mt'.entries j = mt.entries j := fun j hj => by rw [hentries, Function.update_of_ne hj]
  have hself' : ht'.entries i = ⟨some key, value⟩ := by rw [hht, Function.update_self]
  have hother' : ∀ j, j ≠ i → ht'.entries j = ht.entries j := fun j hj => by rw [hht, Function.update_of_ne hj]
  refine ⟨hcount, ?_, ?_, ?_, ?_, ?_, ?_, hnext⟩
  · intro j
    by_cases hj : j = i
    · rw [hj, hself, hself']
    · rw [hother j hj, hother' j hj]
      exact hm.values j
  · intro j hnone
    by_cases hj : j = i
    · rw [hj, hself] at hnone
      cases hnone
    · rw [hother j hj] at hnone
      rw [hother' j hj]
      exact hm.null j hnone
  · intro j b hb
    by_cases hj : j = i
    · rw [hj, hself] at hb
      obtain rfl : a = b := Option.some.inj hb
      exact ⟨key, by rw [hj, hself'], by rw [hlive, Function.update_self], hnew⟩
    · rw [hother j hj] at hb
      have hba : b ≠ a := fun heq => hothers j hj (heq ▸ hb)
      rw [hother' j hj, hlive, Function.update_of_ne hba]
      exact hm.own j b hb
  · intro j k b hj hk
    by_cases hji : j = i
    · by_cases hki : k = i
      · rw [hji, hki]
      · rw [hji, hself] at hj
        rw [hother k hki] at hk
        exact absurd ((Option.some.inj hj) ▸ hk) (hothers k hki)
    · rw [hother j hji] at hj
      by_cases hki : k = i
      · rw [hki, hself] at hk
        exact absurd ((Option.some.inj hk) ▸ hj) (hothers j hji)
      · rw [hother k hki] at hk
        exact hm.apart j k b hj hk
  · obtain ⟨b, hb, hblive, hbnew, hbkeys⟩ := hm.array
    have hba : b ≠ a := fun heq => harray (heq ▸ hb)
    refine ⟨b, by rw [harr, hb], by rw [hlive, Function.update_of_ne hba]; exact hblive, hbnew, ?_⟩
    intro j
    by_cases hj : j = i
    · rw [hj, hself]
      exact fun heq => hba (Option.some.inj heq).symm
    · rw [hother j hj]
      exact hbkeys j
  · intro b hbarr hbkeys
    have hba : b ≠ a := by
      rintro rfl
      exact hbkeys i (by rw [hself])
    rw [hlive, Function.update_of_ne hba]
    refine hm.rest b (by rw [← harr]; exact hbarr) ?_
    intro j
    by_cases hj : j = i
    · intro heq
      rw [hj] at heq
      exact hba (hold b heq)
    · have hkey := hbkeys j
      rw [hother j hj] at hkey
      exact hkey

/-- An empty entry is filled, unless there is no memory for its key: then `strcpy` gets `NULL`. -/
theorem fillEntry_cases (fails : Nat → Bool) (hm : InMemory h₀ h mt ht) {i : Fin capacity} (hi : (mt.entries i).key = none)
    (key : Key) (value : Value) :
    ((∃ n, h₀.next < n ∧ fails n = true) ∧ fillEntry fails h mt i key value = .error (.misuse .nullPointer)) ∨
    ∃ h' mt', fillEntry fails h mt i key value = .ok (h', mt') ∧
      InMemory h₀ h' mt' { ht.store i key value with count := ht.count + 1 } := by
  cases hf : fails h.next with
  | true =>
    refine Or.inl ⟨⟨h.next, hm.started, hf⟩, ?_⟩
    simp [fillEntry, calloc, BlockHeap.allocate, hf, strcpy, BlockHeap.read, use, Except.mapError, Bind.bind, Except.bind]
  | false =>
    have halloc : calloc fails h (key.strlen + 1) = (some h.next, h.granted (List.replicate (key.strlen + 1) 0#8)) := by
      simp [calloc, BlockHeap.allocate, hf]
    have hblock : (h.granted (List.replicate (key.strlen + 1) 0#8)).live h.next =
        some (List.replicate (key.strlen + 1) 0#8) := Function.update_self _ _ _
    obtain ⟨h', hcpy, hlive, hnext⟩ := strcpy_live key hblock (by simp)
    refine Or.inr ⟨h', { mt with entries := Function.update mt.entries i ⟨some h.next, value⟩, count := mt.count + 1 },
      ?_, ?_⟩
    · unfold fillEntry
      rw [halloc]
      simp only [hcpy, ok_bind]
      rfl
    · have hfresh : h.live h.next = none := h.fresh _ (Nat.le_refl _)
      have hlive' : h'.live = Function.update h.live h.next (some (key.bytes ++ [0#8])) := by
        rw [hlive]
        exact Function.update_idem _ _ _
      have hstarted := hm.started
      have hnext' : h'.next = h.next + 1 := hnext
      refine inMemory_store hm ⟨rfl, rfl⟩ rfl ?_ hlive' (by omega) (h₀.fresh _ (by omega)) ?_ ?_ ?_
      · exact congrArg (· + 1) hm.count
      · intro heq
        obtain ⟨b, hb, hblive, -⟩ := hm.array
        rw [heq] at hb
        rw [← Option.some.inj hb] at hblive
        exact hblive hfresh
      · intro j _ heq
        obtain ⟨k, -, hk, -⟩ := hm.own j h.next heq
        rw [hfresh] at hk
        cases hk
      · intro b hb
        rw [hi] at hb
        cases hb

/-- An entry that has the key already is given the value; `strcpy` writes the key over itself. -/
theorem overwrite_cases (hm : InMemory h₀ h mt ht) {i : Fin capacity} {key : Key} (hi : (ht.entries i).key = some key)
    (value : Value) :
    ∃ h', strcpy h (mt.entries i).key key = .ok h' ∧
      InMemory h₀ h' { mt with entries := Function.update mt.entries i ⟨(mt.entries i).key, value⟩ }
        (ht.store i key value) := by
  cases hp : (mt.entries i).key with
  | none =>
    rw [hm.null i hp] at hi
    cases hi
  | some a =>
    obtain ⟨key', hkey', hlive, hnew⟩ := hm.own i a hp
    obtain rfl : key = key' := Option.some.inj (hi.symm.trans hkey')
    obtain ⟨h', hcpy, hlive', hnext⟩ := strcpy_live key hlive (by simp [CString.strlen])
    refine ⟨h', hcpy, inMemory_store hm ⟨rfl, rfl⟩ rfl hm.count hlive' (by rw [hnext]; exact hm.started) hnew ?_ ?_ ?_⟩
    · intro heq
      obtain ⟨b, hb, -, -, hkeys⟩ := hm.array
      rw [heq] at hb
      exact hkeys i (hp.trans hb)
    · intro j hj heq
      exact hj (hm.apart j i a heq hp)
    · intro b hb
      exact Option.some.inj (hb.symm.trans hp)

/-! ## Put -/

/-- How a put ends in both models: well, with the failed assertion, or for the lack of memory. -/
def PutAlike (fails : Nat → Bool) (h₀ : Heap) (inMemory : Except Stop (Heap × Table capacity))
    (inSlots : Except Abort (HashTable.Table capacity)) : Prop :=
  (∃ h mt ht, inMemory = .ok (h, mt) ∧ inSlots = .ok ht ∧ InMemory h₀ h mt ht) ∨
  (inMemory = .error .assertion ∧ inSlots = .error .assertion) ∨
  (inMemory = .error (.misuse .nullPointer) ∧ ∃ n, h₀.next < n ∧ fails n = true)

/-- An empty entry is filled alike. -/
theorem fill_alike (fails : Nat → Bool) (hm : InMemory h₀ h mt ht) {i : Fin capacity} (hi : (mt.entries i).key = none)
    (key : Key) (value : Value) :
    PutAlike fails h₀ (fillEntry fails h mt i key value) (.ok { ht.store i key value with count := ht.count + 1 }) := by
  rcases fillEntry_cases fails hm hi key value with ⟨hfails, hfill⟩ | ⟨h', mt', hfill, hm'⟩
  · exact Or.inr (Or.inr ⟨hfill, hfails⟩)
  · exact Or.inl ⟨h', mt', _, hfill, rfl, hm'⟩

section Slots

variable [NeZero capacity]

/-- The loop of `hash_table_put` takes the same way in both models. -/
theorem putLoop_eq (hm : InMemory h₀ h mt ht) (key : Key) (left : Nat) (i : Fin capacity) :
    putLoop h mt key i left = (HashTable.putLoop ht key i left).mapError fun _ => Stop.assertion := by
  induction left generalizing i with
  | zero =>
    rw [putLoop, HashTable.putLoop]
    cases hp : (mt.entries i).key with
    | none => simp [hm.null i hp, Except.mapError]
    | some a =>
      obtain ⟨k, hk, hs⟩ := stringAt_key hm hp
      simp only [hk, hs]
      split
      · rfl
      · rfl
  | succ left ih =>
    rw [putLoop, HashTable.putLoop]
    cases hp : (mt.entries i).key with
    | none => simp [hm.null i hp, Except.mapError]
    | some a =>
      obtain ⟨k, hk, hs⟩ := stringAt_key hm hp
      simp only [hk, hs]
      split
      · exact ih (next i)
      · rfl

/-- The loop stops at an empty entry or at the key. -/
theorem putLoop_stops {key : Key} {left : Nat} {i j : Fin capacity} (hloop : HashTable.putLoop ht key i left = .ok j) :
    (ht.entries j).key = none ∨ (ht.entries j).key = some key := by
  induction left generalizing i with
  | zero =>
    rw [HashTable.putLoop] at hloop
    split at hloop
    · rename_i hnone
      obtain rfl := Except.ok.inj hloop
      exact Or.inl hnone
    · rename_i k hk
      split at hloop
      · cases hloop
      · rename_i heq
        obtain rfl := Except.ok.inj hloop
        rw [not_not, CString.strcmp_eq_zero_iff] at heq
        exact Or.inr (heq ▸ hk)
  | succ left ih =>
    rw [HashTable.putLoop] at hloop
    split at hloop
    · rename_i hnone
      obtain rfl := Except.ok.inj hloop
      exact Or.inl hnone
    · rename_i k hk
      split at hloop
      · exact ih hloop
      · rename_i heq
        obtain rfl := Except.ok.inj hloop
        rw [not_not, CString.strcmp_eq_zero_iff] at heq
        exact Or.inr (heq ▸ hk)

/-- A put does the same in both models, or ends for the lack of memory. -/
theorem put_alike (fails : Nat → Bool) (hm : InMemory h₀ h mt ht) (key : Key) (value : Value) :
    PutAlike fails h₀ (hashTablePut fails h mt key value) (HashTable.hashTablePut ht key value) := by
  unfold hashTablePut HashTable.hashTablePut
  by_cases hhome : (mt.entries (home key)).key = none
  · simp only [if_pos hhome, if_pos (hm.null _ hhome)]
    exact fill_alike fails hm hhome key value
  · have hhome' : (ht.entries (home key)).key ≠ none := fun heq => hhome ((key_none_iff hm _).mpr heq)
    simp only [if_neg hhome, if_neg hhome', putLoop_eq hm]
    cases hloop : HashTable.putLoop ht key (home key) (capacity - 1) with
    | error abort =>
      cases abort
      exact Or.inr (Or.inl ⟨rfl, rfl⟩)
    | ok i =>
      simp only [Except.mapError, ok_bind]
      by_cases hi : (mt.entries i).key = none
      · rw [if_pos hi, if_pos (hm.null i hi)]
        exact fill_alike fails hm hi key value
      · have hi' : (ht.entries i).key ≠ none := fun heq => hi ((key_none_iff hm i).mpr heq)
        have hkey := (putLoop_stops hloop).resolve_left hi'
        obtain ⟨h', hcpy, hm'⟩ := overwrite_cases hm hkey value
        rw [if_neg hi, if_neg hi', hcpy, ok_bind]
        exact Or.inl ⟨h', _, _, rfl, rfl, hm'⟩

/-- A sequence of puts does the same in both models, or ends for the lack of memory. -/
theorem puts_alike (fails : Nat → Bool) (puts : List (Key × Value)) (hm : InMemory h₀ h mt ht) :
    PutAlike fails h₀ (puts.foldlM (fun s p => hashTablePut fails s.1 s.2 p.1 p.2) (h, mt))
      (puts.foldlM (fun ht p => HashTable.hashTablePut ht p.1 p.2) ht) := by
  induction puts generalizing h mt ht with
  | nil => exact Or.inl ⟨h, mt, ht, rfl, rfl, hm⟩
  | cons p puts ih =>
    rw [List.foldlM_cons, List.foldlM_cons]
    rcases put_alike fails hm p.1 p.2 with ⟨h', mt', ht', hput, hput', hm'⟩ | ⟨hput, hput'⟩ | ⟨hput, hfails⟩
    · rw [hput, hput', ok_bind, ok_bind]
      exact ih hm'
    · rw [hput, hput']
      exact Or.inr (Or.inl ⟨rfl, rfl⟩)
    · rw [hput]
      exact Or.inr (Or.inr ⟨rfl, hfails⟩)

/-! ## Get and dump -/

/-- The loop of `hash_table_get` takes the same way in both models. -/
theorem getLoop_eq (hm : InMemory h₀ h mt ht) (key : Key) (fuel : Nat) (index : Fin capacity) (count : BitVec 64) :
    getLoop h mt key fuel index count =
      (HashTable.getLoop ht key fuel index count).map (Except.mapError fun _ => Stop.misuse .nullPointer) := by
  induction fuel generalizing index count with
  | zero => rfl
  | succ fuel ih =>
    rw [getLoop, HashTable.getLoop]
    cases hp : (mt.entries index).key with
    | none => simp [hm.null index hp, stringAt, BlockHeap.read, use, Except.mapError, Bind.bind, Except.bind]
    | some a =>
      obtain ⟨k, hk, hs⟩ := stringAt_key hm hp
      simp only [hk, hs, hm.count]
      split
      · split
        · rfl
        · exact ih (next index) (count + 1)
      · rfl

/-- `hash_table_get` returns the same in both models. -/
theorem get_eq (hm : InMemory h₀ h mt ht) (fuel : Nat) (key : Key) :
    hashTableGet fuel h mt key =
      (HashTable.hashTableGet fuel ht key).map (Except.mapError fun _ => Stop.misuse .nullPointer) := by
  unfold hashTableGet HashTable.hashTableGet
  by_cases hhome : (mt.entries (home key)).key = none
  · simp only [if_pos hhome, if_pos (hm.null _ hhome)]
    rfl
  · have hhome' : (ht.entries (home key)).key ≠ none := fun heq => hhome ((key_none_iff hm _).mpr heq)
    simp only [if_neg hhome, if_neg hhome']
    exact getLoop_eq hm key fuel _ _

end Slots

/-- A loop whose body returns for every element returns the list of what it returned. -/
theorem mapM_ok {α β : Type} {f : α → Except Stop β} {g : α → β} (h : ∀ a, f a = .ok (g a)) (as : List α) :
    as.mapM f = .ok (as.map g) := by
  induction as with
  | nil => rfl
  | cons a as ih =>
    rw [List.mapM_cons, h a, ok_bind, ih]
    rfl

/-- The line of an entry. -/
theorem dumpEntry_eq (hm : InMemory h₀ h mt ht) (i : Fin capacity) :
    dumpEntry h mt i =
      .ok (((ht.entries i).key.map fun key => dumpLine i.val key (ht.entries i).value).getD []) := by
  unfold dumpEntry
  cases hp : (mt.entries i).key with
  | none => simp [hm.null i hp]
  | some a =>
    obtain ⟨key, hkey, hs⟩ := stringAt_key hm hp
    simp only [hs, ok_bind, hkey, hm.values i]
    rfl

/-- `hash_table_fdump` writes the line of each entry that is not empty. -/
theorem fdump_eq (hm : InMemory h₀ h mt ht) : hashTableFdump h mt = .ok (dumpText ht) := by
  unfold hashTableFdump
  rw [mapM_ok (dumpEntry_eq hm), ok_bind]
  refine congrArg Except.ok ?_
  unfold dumpText listing
  induction List.finRange capacity with
  | nil => rfl
  | cons i is ih =>
    rw [List.map_cons, List.flatten_cons, ih, List.filterMap_cons]
    cases (ht.entries i).key with
    | none => rfl
    | some key => rfl

/-- What is listed: an entry with its key and value. -/
theorem mem_listing (ht : HashTable.Table capacity) (i : Fin capacity) (key : Key) (value : Value) :
    (i, key, value) ∈ listing ht ↔ ht.slots i = some (key, value) := by
  unfold listing
  rw [List.mem_filterMap, slots_eq_some]
  constructor
  · rintro ⟨j, -, hj⟩
    obtain ⟨k, hk, heq⟩ := Option.map_eq_some_iff.mp hj
    obtain ⟨rfl, rfl, rfl⟩ := Prod.mk.inj heq |>.imp id Prod.mk.inj
    exact ⟨hk, rfl⟩
  · rintro ⟨hk, rfl⟩
    exact ⟨i, List.mem_finRange i, by rw [hk]; rfl⟩

/-- The entries are listed in the order of the array. -/
theorem listing_sorted (ht : HashTable.Table capacity) : (listing ht).Pairwise (fun e f => e.1 < f.1) := by
  unfold listing
  refine List.Pairwise.filterMap _ ?_ (List.pairwise_lt_finRange capacity)
  intro i j hij e he f hf
  obtain ⟨k, -, rfl⟩ := Option.map_eq_some_iff.mp he
  obtain ⟨k', -, rfl⟩ := Option.map_eq_some_iff.mp hf
  exact hij

/-! ## Free -/

/-- The loop of `hash_table_free` frees the key of each entry. -/
theorem freeLoop_eq {is : List (Fin capacity)} (hnodup : is.Nodup) {entries : Fin capacity → Entry} {h' : Heap}
    (hfree : freeAll h (is.map fun i => (entries i).key) = .ok h') :
    ∃ entries', is.foldlM freeEntry (h, entries) = .ok (h', entries') := by
  induction is generalizing h entries with
  | nil =>
    obtain rfl := Except.ok.inj hfree
    exact ⟨entries, rfl⟩
  | cons i is ih =>
    rw [List.nodup_cons] at hnodup
    rw [List.map_cons, BlockHeap.freeAll_cons] at hfree
    obtain ⟨h₁, hfirst, hrest⟩ := bind_eq_ok hfree
    -- the entries behind it are as they were
    have hkeys : ∀ entry : Entry, (is.map fun j => (Function.update entries i entry j).key) =
        is.map fun j => (entries j).key := by
      intro entry
      refine List.map_congr_left ?_
      intro j hj
      rw [Function.update_of_ne (fun heq : j = i => hnodup.1 (heq ▸ hj))]
    have hstep : ∃ entry : Entry, freeEntry (h, entries) i = .ok (h₁, Function.update entries i entry) := by
      unfold freeEntry hashTableEntryFree
      cases hp : (entries i).key with
      | none =>
        rw [hp] at hfirst
        obtain rfl := Except.ok.inj hfirst
        exact ⟨entries i, rfl⟩
      | some a =>
        rw [hp] at hfirst
        exact ⟨{ entries i with key := none }, by simp only [hfirst]; rfl⟩
    obtain ⟨entry, hstep⟩ := hstep
    rw [List.foldlM_cons, hstep, ok_bind]
    rw [← hkeys entry] at hrest
    exact ih hnodup.2 hrest

/-- The addresses of the keys. -/
theorem mem_keyAddresses (mt : Table capacity) (a : Nat) :
    a ∈ addresses ((List.finRange capacity).map fun i => (mt.entries i).key) ↔ ∃ i, (mt.entries i).key = some a := by
  simp [addresses]

/-- The keys have addresses of their own. -/
theorem nodup_keyAddresses (hm : InMemory h₀ h mt ht) :
    (addresses ((List.finRange capacity).map fun i => (mt.entries i).key)).Nodup := by
  unfold addresses
  rw [List.filterMap_map]
  refine List.Nodup.filterMap ?_ (List.nodup_finRange capacity)
  intro i j a hi hj
  exact hm.apart i j a hi hj

/-- `hash_table_free` leaves the heap as it was before the table. -/
theorem free_restores (hm : InMemory h₀ h mt ht) : ∃ h', hashTableFree h mt = .ok h' ∧ h'.live = h₀.live := by
  obtain ⟨array, harray, hlive, hnew, hkeys⟩ := hm.array
  have hkeysLive : ∀ a ∈ addresses ((List.finRange capacity).map fun i => (mt.entries i).key), h.live a ≠ none := by
    intro a ha
    obtain ⟨i, hi⟩ := (mem_keyAddresses mt a).mp ha
    obtain ⟨key, -, hlive, -⟩ := hm.own i a hi
    simp [hlive]
  obtain ⟨h₁, hall, hlive₁⟩ := BlockHeap.freeAll_live (nodup_keyAddresses hm) hkeysLive
  obtain ⟨entries', hloop⟩ := freeLoop_eq (List.nodup_finRange capacity) hall
  have harrayLive : h₁.live array ≠ none := by
    rw [hlive₁, if_neg (fun hmem => (mem_keyAddresses mt array).mp hmem |>.elim hkeys)]
    exact hlive
  obtain ⟨h', hlast, hlive'⟩ := BlockHeap.free_live harrayLive
  refine ⟨h', ?_, ?_⟩
  · unfold hashTableFree
    rw [hloop, ok_bind, harray]
    simp only [hlast]
    rfl
  · funext a
    rw [hlive']
    by_cases ha : a = array
    · rw [ha, Function.update_self, hnew]
    · rw [Function.update_of_ne ha, hlive₁]
      split
      · rename_i hmem
        obtain ⟨i, hi⟩ := (mem_keyAddresses mt a).mp hmem
        obtain ⟨key, -, -, hnew'⟩ := hm.own i a hi
        exact hnew'.symm
      · rename_i hmem
        refine hm.rest a ?_ ?_
        · rw [harray]
          exact fun heq => ha (Option.some.inj heq).symm
        · intro i hi
          exact hmem ((mem_keyAddresses mt a).mpr ⟨i, hi⟩)

end MemoryAux

open MemoryAux

variable [NeZero capacity]

/-- In memory, for every heap, every sequence of puts and every outcome of `calloc`. If the puts return, they have made the
table of slots that the puts make: `hash_table_get` and `hash_table_fdump` say of it what the slots say, and `hash_table_free`
frees every block that the table had, each once, so that the heap is as before. If they do not, `hash_table_init` had no
memory and exits, the table is full, or `hash_table_put` had no memory and gives `NULL` to `strcpy`. No string is read or
written outside of its block, and no block is used or freed that is not live. -/
theorem hash_table_in_memory (fails : Nat → Bool) (h₀ : Heap) (puts : List (Key × Value)) :
    match (putAll fails h₀ puts : Except Stop (Heap × Table capacity)) with
    | .ok (h, mt) => ∃ ht : HashTable.Table capacity, HashTable.putAll puts = .ok ht ∧
        (∀ fuel key, hashTableGet fuel h mt key =
          (HashTable.hashTableGet fuel ht key).map (Except.mapError fun _ => Stop.misuse .nullPointer)) ∧
        hashTableFdump h mt = .ok (dumpText ht) ∧
        ∃ h', hashTableFree h mt = .ok h' ∧ h'.live = h₀.live
    | .error stop =>
        (stop = .exit ∧ fails h₀.next = true) ∨
        (stop = .assertion ∧ (HashTable.putAll puts : Except Abort (HashTable.Table capacity)) = .error .assertion) ∨
        (stop = .misuse .nullPointer ∧ ∃ n, h₀.next < n ∧ fails n = true) := by
  unfold putAll HashTable.putAll
  rcases @init_cases capacity fails h₀ with ⟨hfails, hinit⟩ | ⟨h, mt, hinit, hm⟩
  · rw [hinit]
    exact Or.inl ⟨rfl, hfails⟩
  · rw [hinit, ok_bind]
    rcases puts_alike fails puts hm with ⟨h', mt', ht', hputs, hputs', hm'⟩ | ⟨hputs, hputs'⟩ | ⟨hputs, hfails⟩
    · rw [hputs]
      exact ⟨ht', hputs', fun fuel key => get_eq hm' fuel key, fdump_eq hm', free_restores hm'⟩
    · rw [hputs]
      exact Or.inr (Or.inl ⟨rfl, hputs'⟩)
    · rw [hputs]
      exact Or.inr (Or.inr ⟨rfl, hfails⟩)

/-- The heap of a program that has allocated nothing. -/
def noBlocks : Heap := ⟨fun _ => none, 0, fun _ _ => rfl⟩

/-- With two keys in a table of two slots, `calloc` is called three times, and all is freed. -/
theorem hash_table_in_memory_two :
    ∃ (h : Heap) (mt : Table 2) (h' : Heap), putAll (fun _ => false) noBlocks [(keyA, 1), (keyC, 2)] = .ok (h, mt) ∧
      h.next = 3 ∧ hashTableFree h mt = .ok h' ∧ h'.live = noBlocks.live := by
  obtain ⟨h, mt, hput, hnext⟩ : ∃ (h : Heap) (mt : Table 2),
      putAll (fun _ => false) noBlocks [(keyA, 1), (keyC, 2)] = .ok (h, mt) ∧ h.next = 3 := ⟨_, _, rfl, rfl⟩
  have hall := @hash_table_in_memory 2 _ (fun _ => false) noBlocks [(keyA, 1), (keyC, 2)]
  rw [hput] at hall
  obtain ⟨-, -, -, -, h', hfree, hlive⟩ := hall
  exact ⟨h, mt, h', hput, hnext, hfree, hlive⟩

/-! ## How much a table holds -/

namespace MemoryAux

variable {ht : HashTable.Table capacity} {puts : List (Key × Value)}

/-- There are as many entries as different keys were put. -/
theorem card_keys (hr : Represents puts ht) : (puts.map Prod.fst).toFinset.card = ht.count := by
  rw [hr.count]
  have hinj : Set.InjOn (fun i => (ht.entries i).key) (LinearProbing.occupied ht.slots) := by
    intro i hi j hj heq
    rw [Finset.mem_coe, LinearProbing.mem_occupied] at hi
    obtain ⟨k, hk⟩ := Option.ne_none_iff_exists'.mp (mt (slots_eq_none ht i).mpr hi)
    exact (lastWriteWins_of_represents hr).distinct i j k hk (heq.symm.trans hk)
  have himage : (LinearProbing.occupied ht.slots).image (fun i => (ht.entries i).key) =
      ((puts.map Prod.fst).toFinset).image some := by
    ext k
    simp only [Finset.mem_image, LinearProbing.mem_occupied, List.mem_toFinset, List.mem_map]
    constructor
    · rintro ⟨i, hi, rfl⟩
      obtain ⟨k, hk, p, hp, hpk⟩ := put_of_occupied hr hi
      exact ⟨k, ⟨p, hp, hpk⟩, hk.symm⟩
    · rintro ⟨k, ⟨p, hp, hpk⟩, rfl⟩
      obtain ⟨i, hi⟩ := (present_iff hr k).mpr ⟨p, hp, hpk⟩
      exact ⟨i, by simp [hi], hi⟩
  rw [← Finset.card_image_of_injOn hinj, himage, Finset.card_image_of_injective _ (Option.some_injective _)]

/-- With room for its keys a sequence of puts returns. -/
theorem putAll_of_card_le (hcard : (puts.map Prod.fst).toFinset.card ≤ capacity) :
    ∃ ht : HashTable.Table capacity, HashTable.putAll puts = .ok ht := by
  induction puts using List.reverseRecOn with
  | nil => exact ⟨_, rfl⟩
  | append_singleton before p ih =>
    have hkeys : ((before ++ [p]).map Prod.fst).toFinset = insert p.1 (before.map Prod.fst).toFinset := by
      ext k
      simp [eq_comm]
    rw [hkeys] at hcard
    obtain ⟨ht, hbefore⟩ := ih (Nat.le_trans (Finset.card_le_card (Finset.subset_insert _ _)) hcard)
    have hr := putAll_represents hbefore
    have hall : (HashTable.putAll (before ++ [p]) : Except Abort (HashTable.Table capacity)) =
        HashTable.hashTablePut ht p.1 p.2 := by
      unfold HashTable.putAll at hbefore ⊢
      rw [List.foldlM_append, hbefore, ok_bind]
      simp
    rw [hall]
    rcases hashTablePut_cases ht p.1 p.2 with ⟨d, -, -, ht', hput, -⟩ | ⟨hpassed, -⟩
    · exact ⟨ht', hput⟩
    · -- the table is full without the key, so there is one key too many
      obtain ⟨hfull, habsent⟩ := (LinearProbing.passes_all_iff _ _).mp hpassed
      have hnew : p.1 ∉ (before.map Prod.fst).toFinset := by
        intro hmem
        obtain ⟨q, hq, hqk⟩ := List.mem_map.mp (List.mem_toFinset.mp hmem)
        obtain ⟨j, hj⟩ := (present_iff hr p.1).mpr ⟨q, hq, hqk⟩
        exact habsent j _ ((slots_eq_some ht j p.1 _).mpr ⟨hj, rfl⟩)
      have hcount : (LinearProbing.occupied ht.slots).card = capacity := by
        rw [Finset.eq_univ_of_forall (fun j => (LinearProbing.mem_occupied j).mpr (hfull j))]
        simp
      rw [Finset.card_insert_of_notMem hnew, card_keys hr, hr.count, hcount] at hcard
      omega

end MemoryAux

/-- A table holds as many different keys as it has slots: a sequence of puts returns exactly when it has no more keys than
that, however often each is put. Then the dump has a line for every key that was put and no other line, each key once and
with the value that was put last, in the order of the slots. -/
theorem table_holds_its_capacity (puts : List (Key × Value)) :
    ((∃ ht : HashTable.Table capacity, HashTable.putAll puts = .ok ht) ↔
      (puts.map Prod.fst).toFinset.card ≤ capacity) ∧
    ∀ ht : HashTable.Table capacity, HashTable.putAll puts = .ok ht →
      (listing ht).Pairwise (fun e f => e.1 < f.1 ∧ e.2.1 ≠ f.2.1) ∧
      ∀ key value, (∃ i, (i, key, value) ∈ listing ht) ↔ LinearProbing.lastWrite puts key = some value := by
  refine ⟨⟨?_, putAll_of_card_le⟩, ?_⟩
  · rintro ⟨ht, h⟩
    have hr := putAll_represents h
    rw [card_keys hr, hr.count]
    exact (Finset.card_le_univ _).trans (by simp)
  · intro ht h
    have hr := putAll_represents h
    refine ⟨?_, ?_⟩
    · refine List.Pairwise.imp_of_mem ?_ (listing_sorted ht)
      rintro ⟨i, k, v⟩ ⟨j, k', v'⟩ he hf hlt
      refine ⟨hlt, ?_⟩
      rintro rfl
      exact absurd (hr.inv.distinct ((mem_listing ht i k v).mp he) ((mem_listing ht j k v').mp hf)) (ne_of_lt hlt)
    · intro key value
      simp only [mem_listing]
      exact hr.pairs key value

/-- A table of one slot holds a key that is put twice, with its second value, and no second key. -/
theorem table_holds_its_capacity_one :
    (∃ ht : HashTable.Table 1, HashTable.putAll [(keyA, 1), (keyA, 2)] = .ok ht ∧
      ∃ i, (i, keyA, 2) ∈ listing ht) ∧
    ¬∃ ht : HashTable.Table 1, HashTable.putAll [(keyA, 1), (keyC, 2)] = .ok ht := by
  obtain ⟨hiff, hlisting⟩ := @table_holds_its_capacity 1 _ [(keyA, 1), (keyA, 2)]
  obtain ⟨ht, h⟩ := hiff.mpr (by decide)
  refine ⟨⟨ht, h, ((hlisting ht h).2 keyA 2).mpr (by decide)⟩, ?_⟩
  rw [(@table_holds_its_capacity 1 _ [(keyA, 1), (keyC, 2)]).1]
  decide

end CLangExamples.HashTable.Memory
