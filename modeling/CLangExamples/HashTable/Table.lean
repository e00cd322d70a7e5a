import CLangExamples.Lib.CString
import Mathlib.Algebra.GroupWithZero.Nat
import Mathlib.Logic.Function.Basic

/-!
# The hash table

`hash-table/main.c`: a table with open addressing, of a capacity fixed by `hash_table_init`. The entries are an array of
`capacity` slots; the key of an empty slot is `NULL`. Memory is taken to be available: `calloc` does not return `NULL`.
-/

namespace CLangExamples.HashTable

/-- A key: a string the caller owns. Its type excludes `NULL`, which the first assertion of `hash_table_put` refuses. -/
abbrev Key : Type := CString

/-- `HASH_TABLE_VALUE_TYPE` -/
abbrev Value : Type := Int32

/-- `struct hash_table_entry`; a key of `none` is `NULL`. -/
structure Entry where
  key : Option Key
  value : Value

/-- `struct hash_table`, with its `capacity` as a parameter: no function changes it. -/
structure Table (capacity : Nat) where
  entries : Fin capacity → Entry
  count : Nat

/-- How a call of `hash_table_put` ends when it does not return: `assert(++count < ht->capacity)`. -/
inductive Abort where
  | assertion
  deriving DecidableEq

variable {capacity : Nat} [NeZero capacity]

/-- `hash_table_init`: `calloc` zeroes the entries. -/
def hashTableInit : Table capacity where
  entries := fun _ => ⟨none, 0⟩
  count := 0

/-- The body of the loop of `hash_fnv_1a_32`. -/
def fnvStep (hash : BitVec 32) (byte : BitVec 8) : BitVec 32 := (hash ^^^ byte.setWidth 32) * 16777619#32

/-- `hash_fnv_1a_32` on the bytes of a key. -/
def hashFnv1a32 (key : List (BitVec 8)) : BitVec 32 := key.foldl fnvStep 2166136261#32

/-- `hash_fnv_1a_32(key, key_len) % ht->capacity` -/
def home (key : Key) : Fin capacity := Fin.ofNat capacity (hashFnv1a32 key.bytes).toNat

/-- `(i + 1) % ht->capacity` -/
def next (i : Fin capacity) : Fin capacity := Fin.ofNat capacity (i.val + 1)

/-- Store a key and its value in a slot. -/
def Table.store (ht : Table capacity) (i : Fin capacity) (key : Key) (value : Value) : Table capacity :=
  { ht with entries := Function.update ht.entries i ⟨some key, value⟩ }

/-- The loop of `hash_table_put`: the slot it stops at. `left` is `capacity - 1 - count`, the number of times that
`assert(++count < ht->capacity)` still passes. -/
def putLoop (ht : Table capacity) (key : Key) (i : Fin capacity) (left : Nat) : Except Abort (Fin capacity) :=
  match (ht.entries i).key with
  | none => .ok i
  | some k =>
    if k.strcmp key ≠ 0 then
      match left with
      | 0 => .error .assertion
      | left + 1 => putLoop ht key (next i) left
    else .ok i

/-- `hash_table_put` -/
def hashTablePut (ht : Table capacity) (key : Key) (value : Value) : Except Abort (Table capacity) :=
  let index := home key
  if (ht.entries index).key = none then
    .ok { ht.store index key value with count := ht.count + 1 }
  else do
    let i ← putLoop ht key index (capacity - 1)
    if (ht.entries i).key = none then
      return { ht.store i key value with count := ht.count + 1 }
    else
      return ht.store i key value

/-- A sequence of calls of `hash_table_put` on a table that `hash_table_init` made. -/
def putAll (puts : List (Key × Value)) : Except Abort (Table capacity) :=
  puts.foldlM (fun ht p => hashTablePut ht p.1 p.2) hashTableInit

/-- A fault of `hash_table_get`: `strcmp(entry->key, key)` with `entry->key == NULL`. -/
inductive Fault where
  | strcmpNull
  deriving DecidableEq

/-- The loop of `hash_table_get`: the slot whose value it returns a pointer to, or `none` for `NULL`. The comparison comes
before the test for `NULL` in the condition of the loop. `count` is a `size_t` and wraps. Nothing bounds the number of
iterations: without the fuel for the next one there is no result. -/
def getLoop (ht : Table capacity) (key : Key) :
    Nat → Fin capacity → BitVec 64 → Option (Except Fault (Option (Fin capacity)))
  | 0, _, _ => none
  | fuel + 1, index, count =>
    match (ht.entries index).key with
    | none => some (.error .strcmpNull)
    | some k =>
      if k.strcmp key ≠ 0 then
        if (count + 1).toNat < ht.count then some (.ok none)
        else getLoop ht key fuel (next index) (count + 1)
      else some (.ok (some index))

/-- `hash_table_get` with fuel for the iterations of its loop. -/
def hashTableGet (fuel : Nat) (ht : Table capacity) (key : Key) : Option (Except Fault (Option (Fin capacity))) :=
  let index := home key
  if (ht.entries index).key = none then some (.ok none)
  else getLoop ht key fuel index 0

end CLangExamples.HashTable
