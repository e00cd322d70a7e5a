import CLangExamples.Lib.Heap
import CLangExamples.Lib.Run
import Mathlib.Algebra.GroupWithZero.Nat

/-!
# Uncompressing a file

`buffer_alloc`, `buffer_free` and `hbmo_uncompress` of `zlib/zlib-uncompress.c`. The three things that `hbmo_uncompress`
acquires, a buffer of the heap, a `gzFile` and a `FILE`, are blocks of one heap: what is acquired and not released is live at
the end, and what is released twice, or used after that, is a misuse. `malloc`, `gzopen` and `fopen` can fail. What `gzread`,
`fwrite` and `ferror` return is part of the input. The messages on `stderr` are left out.
-/

namespace CLangExamples.Zlib

open BlockHeap (Misuse)

abbrev Byte : Type := BitVec 8

/-- What can be acquired. -/
inductive Resource where
  | buffer (bytes : List Byte)
  | gzFile
  | file
  deriving DecidableEq

abbrev Heap : Type := BlockHeap.Heap Resource

/-- What ends a call other than by `return`. -/
inductive Stop where
  /-- `exit(1)` of `buffer_alloc` -/
  | exit
  /-- an assertion of `buffer_free` -/
  | assertion
  | misuse (misuse : Misuse)
  /-- a handle of another kind is used -/
  | otherKind
  /-- `gzread` or `fwrite` with more bytes than the buffer has -/
  | pastEnd
  deriving DecidableEq

/-- `struct buffer` -/
structure Buffer where
  data : Option Nat
  size : BitVec 64

/-- Use the heap. -/
def use {α : Type} (x : Except Misuse α) : Except Stop α := x.mapError Stop.misuse

/-- `buffer_free` -/
def bufferFree (h : Heap) (buffer : Buffer) : Except Stop (Heap × Buffer) :=
  if buffer.data = none then .error .assertion
  else if ¬buffer.size > 0#64 then .error .assertion
  else do
    let h ← use (BlockHeap.free h buffer.data)
    return (h, ⟨none, 0#64⟩)

/-- What one round of the loop meets. -/
structure Round where
  /-- the bytes that `gzread` has uncompressed, or none when it returns -1 -/
  read : Option (List Byte)
  /-- what `fwrite` returns -/
  written : Nat
  /-- what `ferror` returns after it -/
  ferror : Bool

end CLangExamples.Zlib
