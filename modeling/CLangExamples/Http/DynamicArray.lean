import CLangExamples.Http.Headers

/-!
# The dynamic array of bytes

`dynamic-array.h`. A `size_t` is a `BitVec 64`. `items` is `NULL` or a block of the heap, the list of its bytes; a write past
its end or through `NULL` leaves C's defined behaviour and is a `Fault`. Whether an allocation succeeds, and what the new
bytes of a block hold, is an argument of each call.
-/

namespace CLangExamples.Http

/-- What ends a call other than by `return`. -/
inductive Fault where
  /-- a failed `assert` -/
  | assertion
  | nullPointer
  | writePastEnd (index : Nat)
  deriving DecidableEq

/-! ## The heap -/

/-- What `realloc` answers: `NULL`, or a block whose bytes past the old ones hold what was in memory. -/
abbrev Heap : Type := Option (Nat → Byte)

/-- A block of `size` bytes that begins with the old ones. -/
def resized (items : Option (List Byte)) (size : Nat) (memory : Nat → Byte) : List Byte :=
  List.ofFn fun i : Fin size => ((items.getD [])[i.val]?).getD (memory i)

/-- `realloc` -/
def realloc (heap : Heap) (items : Option (List Byte)) (size : Nat) : Option (List Byte) := heap.map (resized items size)

/-- `memcpy` to an index of a block, or the write of a single byte. -/
def memcpyTo (items : Option (List Byte)) (index : Nat) (bytes : List Byte) : Except Fault (List Byte) :=
  match items with
  | none => .error .nullPointer
  | some block =>
    if index + bytes.length ≤ block.length then .ok (block.take index ++ bytes ++ block.drop (index + bytes.length))
    else .error (.writePastEnd index)

/-! ## The array -/

/-- `DYNAMIC_ARRAY_INITIAL_CAPACITY` -/
def dynamicArrayInitialCapacity : BitVec 64 := 8#64

/-- `DYNAMIC_ARRAY_GROW_FACTOR` -/
def dynamicArrayGrowFactor : BitVec 64 := 2#64

/-- `MAX` of `commons.h` -/
def sizeMax (x y : BitVec 64) : BitVec 64 := if x > y then x else y

/-- `struct dynamic_array` -/
structure DynamicArray where
  items : Option (List Byte)
  length : BitVec 64
  capacity : BitVec 64

/-- `dynamic_array_init` -/
def dynamicArrayInit : DynamicArray := ⟨none, 0#64, 0#64⟩

/-- `dynamic_array_init_with_capacity`, where `callocFails` says whether `calloc` returns `NULL`: the array, or none when it
returns 1. -/
def dynamicArrayInitWithCapacity (initialCapacity : BitVec 64) (callocFails : Bool) : Except Fault (Option DynamicArray) :=
  if ¬initialCapacity > 0#64 then .error .assertion
  else if callocFails then .ok none
  else .ok (some ⟨some (List.replicate initialCapacity.toNat 0#8), 0#64, initialCapacity⟩)

/-- `dynamic_array_is_full` -/
def dynamicArrayIsFull (self : DynamicArray) : Bool := decide (self.length ≥ self.capacity)

/-- `dynamic_array_would_overflow` -/
def dynamicArrayWouldOverflow (self : DynamicArray) (byteCount : BitVec 64) : Bool :=
  if byteCount = 0#64 then dynamicArrayIsFull self else decide (self.length + byteCount > self.capacity)

/-- The `realloc` that both functions below grow by, and whether it succeeds; `items` is `NULL` when it does not. -/
def DynamicArray.grow (self : DynamicArray) (heap : Heap) (newCapacity : BitVec 64) : DynamicArray × Bool :=
  match realloc heap self.items newCapacity.toNat with
  | none => ({ self with items := none }, false)
  | some block => ({ self with items := some block, capacity := newCapacity }, true)

/-- The write that both functions below end with. -/
def DynamicArray.append (self : DynamicArray) (bytes : List Byte) : Except Fault DynamicArray := do
  let block ← memcpyTo self.items self.length.toNat bytes
  return { self with items := some block, length := self.length + BitVec.ofNat 64 bytes.length }

/-- `dynamic_array_push_back_byte`: what it returns, and the array. -/
def dynamicArrayPushBackByte (heap : Heap) (self : DynamicArray) (item : Byte) : Except Fault (Nat × DynamicArray) := do
  let (self, grown) :=
    if dynamicArrayIsFull self then
      let newCapacity :=
        if self.capacity = 0#64 then dynamicArrayInitialCapacity else dynamicArrayGrowFactor * self.capacity
      self.grow heap newCapacity
    else (self, true)
  if grown = false then return (1, self)
  else
    let self ← self.append [item]
    return (0, self)

/-- `dynamic_array_push_back` of the bytes that `buffer` points to, `buffer_len` of them. -/
def dynamicArrayPushBack (heap : Heap) (self : DynamicArray) (buffer : List Byte) : Except Fault (Nat × DynamicArray) := do
  let bufferLen := BitVec.ofNat 64 buffer.length
  if ¬bufferLen > 0#64 then .error .assertion
  else
    let (self, grown) :=
      if dynamicArrayWouldOverflow self bufferLen then
        let extraCount := (self.length + bufferLen) - self.capacity
        let newCapacity :=
          if self.capacity = 0#64 then sizeMax dynamicArrayInitialCapacity extraCount
          else dynamicArrayGrowFactor * (self.capacity + extraCount)
        self.grow heap newCapacity
      else (self, true)
    if grown = false then return (1, self)
    else
      let self ← self.append buffer
      return (0, self)

end CLangExamples.Http
