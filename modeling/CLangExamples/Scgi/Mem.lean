import CLangExamples.Scgi.Parser
import Mathlib.Algebra.GroupWithZero.Nat

/-!
# The fixed buffer allocator

`fixed_buffer_allocator_*` of `mem.c`. A `size_t` is a `BitVec 64`, and a pointer into the buffer is an offset. Writing past
the end of the buffer leaves C's defined behaviour and is a `Halt`.
-/

namespace CLangExamples.Scgi

/-- `struct slice`: the bytes it points to, which fit an address space of 64 bits. -/
structure Slice where
  bytes : List Byte
  length_lt : bytes.length < 2 ^ 64

/-- `slice.len` -/
def Slice.len (slice : Slice) : BitVec 64 := BitVec.ofNat 64 slice.bytes.length

/-- `struct fixed_buffer_allocator` -/
structure FixedBufferAllocator where
  buffer : Slice
  allocated : BitVec 64

/-- `fixed_buffer_allocator_from_slice` -/
def fixedBufferAllocatorFromSlice (slice : Slice) : FixedBufferAllocator := ⟨slice, 0#64⟩

/-- `fixed_buffer_allocator_from_buffer` -/
def fixedBufferAllocatorFromBuffer (buffer : Slice) : Except Halt FixedBufferAllocator :=
  if buffer.len > 0#64 then .ok (fixedBufferAllocatorFromSlice buffer) else .error .assertion

/-- `fixed_buffer_allocator_malloc`: the pointer, or none for `NULL`. -/
def fixedBufferAllocatorMalloc (allocator : FixedBufferAllocator) (size : BitVec 64) :
    Except Halt (Option Nat × FixedBufferAllocator) :=
  if ¬size > 0#64 then .error .assertion
  else if allocator.allocated + size > allocator.buffer.len then .ok (none, allocator)
  else
    let ptr := allocator.allocated.toNat
    let allocated := allocator.allocated + size
    if ¬allocated ≤ allocator.buffer.len then .error .assertion
    else .ok (some ptr, { allocator with allocated := allocated })

/-- The bytes of a buffer with `size` of them zeroed from `ptr` on. -/
def zeroed (bytes : List Byte) (ptr size : Nat) : List Byte :=
  bytes.take ptr ++ List.replicate size nul ++ bytes.drop (ptr + size)

theorem length_zeroed {bytes : List Byte} {ptr size : Nat} (h : ptr + size ≤ bytes.length) :
    (zeroed bytes ptr size).length = bytes.length := by
  unfold zeroed
  simp only [List.length_append, List.length_take, List.length_replicate, List.length_drop]
  omega

/-- `memset(ptr, 0, size)` inside a slice. -/
def memsetZero (slice : Slice) (ptr size : Nat) : Except Halt Slice :=
  if h : ptr + size ≤ slice.bytes.length then
    .ok ⟨zeroed slice.bytes ptr size, by rw [length_zeroed h]; exact slice.length_lt⟩
  else .error (.bufferOverflow size)

/-- `fixed_buffer_allocator_calloc` -/
def fixedBufferAllocatorCalloc (allocator : FixedBufferAllocator) (size : BitVec 64) :
    Except Halt (Option Nat × FixedBufferAllocator) := do
  match ← fixedBufferAllocatorMalloc allocator size with
  | (none, allocator) => return (none, allocator)
  | (some ptr, allocator) =>
    let buffer ← memsetZero allocator.buffer ptr size.toNat
    return (some ptr, { allocator with buffer := buffer })

end CLangExamples.Scgi
