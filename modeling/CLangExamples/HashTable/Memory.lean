import CLangExamples.HashTable.Table
import CLangExamples.Lib.Heap
import CLangExamples.Lib.Printf
import Mathlib.Data.List.TakeWhile

/-!
# The hash table in memory

`hash-table/main.c` with its pointers: an entry has the address of a block that `calloc` returned, and the table the address
of its array. The cells of the array are the field `entries`; the block in the heap stands for the time that the array lives.
`calloc` can fail. `hash_table_put` does not look at what `calloc` returns, so a failed one gives `NULL` to `strcpy`.
-/

namespace CLangExamples.HashTable.Memory

open BlockHeap (Misuse)

abbrev Heap : Type := BlockHeap.Heap (List (BitVec 8))

/-- How a call ends when it does not return. -/
inductive Stop where
  /-- `EXIT_IF` of `hash_table_init` -/
  | exit
  /-- `assert(++count < ht->capacity)` -/
  | assertion
  | misuse (misuse : Misuse)
  /-- a string is read to the end of its block and no NUL is found -/
  | readPastEnd
  /-- `strcpy` to a block that is too small -/
  | writePastEnd
  deriving DecidableEq

/-- `struct hash_table_entry`; a key of `none` is `NULL`. -/
structure Entry where
  key : Option Nat
  value : Value

/-- `struct hash_table`, with its `capacity` as a parameter, the address `array` of its entries, and the entries. -/
structure Table (capacity : Nat) where
  array : Option Nat
  entries : Fin capacity → Entry
  count : Nat

/-- Use the heap. -/
def use {α : Type} (x : Except Misuse α) : Except Stop α := x.mapError Stop.misuse

/-- There is no NUL in front of the first one. -/
theorem nul_not_mem_takeWhile (block : List (BitVec 8)) : 0#8 ∉ block.takeWhile (fun b => b != 0#8) := by
  intro hmem
  exact absurd (List.mem_takeWhile_imp hmem) (by decide)

/-- The string that a pointer points to. -/
def stringAt (h : Heap) (p : Option Nat) : Except Stop CString := do
  let block ← use (BlockHeap.read h p)
  if block.contains 0#8 then return ⟨block.takeWhile (fun b => b != 0#8), nul_not_mem_takeWhile block⟩
  else .error .readPastEnd

/-- `calloc(count, size)` of `n` bytes in all -/
def calloc (fails : Nat → Bool) (h : Heap) (n : Nat) : Option Nat × Heap :=
  BlockHeap.allocate fails h (List.replicate n 0#8)

/-- `strcpy(dest, src)` -/
def strcpy (h : Heap) (dest : Option Nat) (src : CString) : Except Stop Heap := do
  let block ← use (BlockHeap.read h dest)
  if src.strlen + 1 ≤ block.length then
    use (BlockHeap.write h dest (src.bytes ++ 0#8 :: block.drop (src.strlen + 1)))
  else .error .writePastEnd

/-- `sizeof(struct hash_table_entry)` -/
def entrySize : Nat := 16

variable {capacity : Nat} [NeZero capacity]

/-- `hash_table_init` -/
def hashTableInit (fails : Nat → Bool) (h : Heap) : Except Stop (Heap × Table capacity) :=
  match calloc fails h (capacity * entrySize) with
  | (none, _) => .error .exit
  | (some array, h) => .ok (h, ⟨some array, fun _ => ⟨none, 0⟩, 0⟩)

/-- The loop of `hash_table_put`, as in the model without memory. -/
def putLoop (h : Heap) (ht : Table capacity) (key : Key) (i : Fin capacity) (left : Nat) : Except Stop (Fin capacity) :=
  match (ht.entries i).key with
  | none => .ok i
  | some a =>
    match stringAt h (some a) with
    | .error stop => .error stop
    | .ok k =>
      if k.strcmp key ≠ 0 then
        match left with
        | 0 => .error .assertion
        | left + 1 => putLoop h ht key (next i) left
      else .ok i

/-- A new string for an empty entry: `calloc`, `strcpy` and the value. -/
def fillEntry (fails : Nat → Bool) (h : Heap) (ht : Table capacity) (i : Fin capacity) (key : Key) (value : Value) :
    Except Stop (Heap × Table capacity) := do
  let (p, h) := calloc fails h (key.strlen + 1)
  let h ← strcpy h p key
  return (h, { ht with entries := Function.update ht.entries i ⟨p, value⟩, count := ht.count + 1 })

/-- `hash_table_put` -/
def hashTablePut (fails : Nat → Bool) (h : Heap) (ht : Table capacity) (key : Key) (value : Value) :
    Except Stop (Heap × Table capacity) :=
  let index := home key
  if (ht.entries index).key = none then fillEntry fails h ht index key value
  else do
    let i ← putLoop h ht key index (capacity - 1)
    if (ht.entries i).key = none then fillEntry fails h ht i key value
    else
      let h ← strcpy h (ht.entries i).key key
      return (h, { ht with entries := Function.update ht.entries i ⟨(ht.entries i).key, value⟩ })

/-- The loop of `hash_table_get`, as in the model without memory. -/
def getLoop (h : Heap) (ht : Table capacity) (key : Key) :
    Nat → Fin capacity → BitVec 64 → Option (Except Stop (Option (Fin capacity)))
  | 0, _, _ => none
  | fuel + 1, index, count =>
    match stringAt h (ht.entries index).key with
    | .error stop => some (.error stop)
    | .ok k =>
      if k.strcmp key ≠ 0 then
        if (count + 1).toNat < ht.count then some (.ok none)
        else getLoop h ht key fuel (next index) (count + 1)
      else some (.ok (some index))

/-- `hash_table_get` with fuel for the iterations of its loop. -/
def hashTableGet (fuel : Nat) (h : Heap) (ht : Table capacity) (key : Key) :
    Option (Except Stop (Option (Fin capacity))) :=
  let index := home key
  if (ht.entries index).key = none then some (.ok none)
  else getLoop h ht key fuel index 0

/-- `%d` -/
def decimal (value : Value) : List Char :=
  if value.toInt < 0 then '-' :: Printf.number 10 0 value.toInt.natAbs else Printf.number 10 0 value.toInt.natAbs

/-- `fprintf(file, "[%zu]: %s => %d\n", i, entry->key, entry->value)` -/
def dumpLine (i : Nat) (key : Key) (value : Value) : List (BitVec 8) :=
  let ascii := List.map fun c : Char => BitVec.ofNat 8 c.toNat
  ascii ('[' :: Printf.number 10 0 i ++ "]: ".toList) ++ key.bytes ++ ascii (" => ".toList ++ decimal value ++ ['\n'])

/-- The body of the loop of `hash_table_fdump`: what it writes. -/
def dumpEntry (h : Heap) (ht : Table capacity) (i : Fin capacity) : Except Stop (List (BitVec 8)) :=
  match (ht.entries i).key with
  | none => .ok []
  | some a => do
    let key ← stringAt h (some a)
    return dumpLine i.val key (ht.entries i).value

/-- `hash_table_fdump`: the text that it writes. -/
def hashTableFdump (h : Heap) (ht : Table capacity) : Except Stop (List (BitVec 8)) := do
  let lines ← (List.finRange capacity).mapM (dumpEntry h ht)
  return lines.flatten

/-- `hash_table_entry_free` -/
def hashTableEntryFree (h : Heap) (entry : Entry) : Except Stop (Heap × Entry) :=
  match entry.key with
  | none => .ok (h, entry)
  | some a => do
    let h ← use (BlockHeap.free h (some a))
    return (h, { entry with key := none })

/-- The body of the loop of `hash_table_free`. -/
def freeEntry (s : Heap × (Fin capacity → Entry)) (i : Fin capacity) : Except Stop (Heap × (Fin capacity → Entry)) := do
  let (h, entry) ← hashTableEntryFree s.1 (s.2 i)
  return (h, Function.update s.2 i entry)

/-- `hash_table_free`: the heap that it leaves. The fields of the struct are cleared and not looked at again. -/
def hashTableFree (h : Heap) (ht : Table capacity) : Except Stop Heap := do
  let (h, _) ← (List.finRange capacity).foldlM freeEntry (h, ht.entries)
  use (BlockHeap.free h ht.array)

/-- A sequence of calls of `hash_table_put` on a table that `hash_table_init` made. -/
def putAll (fails : Nat → Bool) (h : Heap) (puts : List (Key × Value)) : Except Stop (Heap × Table capacity) := do
  let s ← hashTableInit fails h
  puts.foldlM (fun s p => hashTablePut fails s.1 s.2 p.1 p.2) s

end CLangExamples.HashTable.Memory
