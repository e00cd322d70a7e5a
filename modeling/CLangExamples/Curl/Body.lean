import CLangExamples.Lib.Heap
import CLangExamples.Lib.Run
import Mathlib.Algebra.GroupWithZero.Nat

/-!
# The response body

`libcurl/hello-libcurl.c`: the buffer that `res_body_write_callback` fills, and what `main` does with it. A `size_t` is a
`BitVec 64`. The library is not part of the source: what `curl_easy_perform` does is its documented use of the callback, and
the chunks that it hands over are any.
-/

namespace CLangExamples.Curl

open BlockHeap (Misuse)

abbrev Byte : Type := BitVec 8

abbrev Heap : Type := BlockHeap.Heap (List Byte)

/-- What ends a call other than by `return`. -/
inductive Fault where
  | misuse (misuse : Misuse)
  /-- `memcpy` to an index with too few bytes behind it -/
  | writePastEnd (index : Nat)
  /-- `printf` finds no NUL and no end of its precision in the block -/
  | readPastEnd
  deriving DecidableEq

/-- `struct buffer` -/
structure Buffer where
  data : Option Nat
  size : BitVec 64
  capacity : BitVec 64
  deriving DecidableEq

/-- `struct buffer res_body = {0}` -/
def Buffer.zero : Buffer := ⟨none, 0#64, 0#64⟩

/-- Use the heap. -/
def use {α : Type} (x : Except Misuse α) : Except Fault α := x.mapError Fault.misuse

/-- `buffer_free` -/
def bufferFree (h : Heap) (buffer : Buffer) : Except Fault (Heap × Buffer) :=
  if buffer.data ≠ none then do
    let h ← use (BlockHeap.free h buffer.data)
    return (h, .zero)
  else .ok (h, .zero)

/-- What the library hands to the callback: `nmemb` items of `size` bytes. -/
structure Chunk where
  bytes : List Byte
  size : BitVec 64
  nmemb : BitVec 64
  exact : bytes.length = size.toNat * nmemb.toNat

/-- `grow_factor` -/
def growFactor : BitVec 64 := 8#64

/-- A block of `n` bytes that begins with the old ones; what the new ones hold is `memory`. -/
def resized (memory : Nat → Byte) (n : Nat) (old : Option (List Byte)) : List Byte :=
  (old.getD []).take n ++ (List.range (n - (old.getD []).length)).map memory

/-- `memcpy` to an index of a block. Of no bytes it writes nothing, also to `NULL`. -/
def memcpyTo (h : Heap) (data : Option Nat) (index : Nat) (bytes : List Byte) : Except Fault Heap :=
  if bytes = [] then .ok h
  else do
    let block ← use (BlockHeap.read h data)
    if index + bytes.length ≤ block.length then
      use (BlockHeap.write h data (block.take index ++ bytes ++ block.drop (index + bytes.length)))
    else .error (.writePastEnd index)

/-- The end of `res_body_write_callback`: the chunk is copied behind the bytes that are there. -/
def appendChunk (h : Heap) (buffer : Buffer) (chunk : Chunk) : Except Fault (BitVec 64 × Heap × Buffer) := do
  let chunkSize := chunk.size * chunk.nmemb
  let h ← memcpyTo h buffer.data buffer.size.toNat chunk.bytes
  return (chunkSize, h, { buffer with size := buffer.size + chunkSize })

/-- `res_body_write_callback`: what it returns, the heap and the buffer. -/
def resBodyWriteCallback (fails : Nat → Bool) (memory : Nat → Byte) (h : Heap) (buffer : Buffer) (chunk : Chunk) :
    Except Fault (BitVec 64 × Heap × Buffer) := do
  let chunkSize := chunk.size * chunk.nmemb
  if buffer.size + chunkSize > buffer.capacity then
    let newCapacity := (buffer.capacity + chunkSize) * growFactor
    let (data, h) ← use (BlockHeap.reallocate fails h buffer.data (resized memory newCapacity.toNat))
    if data = none then return (0#64, h, { buffer with data := data })
    else appendChunk h { buffer with data := data, capacity := newCapacity } chunk
  else appendChunk h buffer chunk

/-- `CURLcode`: `CURLE_OK`, `CURLE_WRITE_ERROR`, and the others by their number. -/
inductive Code where
  | ok
  | writeError
  | other (code : Nat)
  deriving DecidableEq

/-- `curl_easy_perform`, of which is known: it hands the chunks of the body to the callback in order; when the callback
returns another number than the size of its chunk, the transfer ends with `CURLE_WRITE_ERROR`; else it ends in its own way. -/
def curlEasyPerform (fails : Nat → Bool) (memory : Nat → Byte) (ending : Code) :
    List Chunk → Heap → Buffer → Except Fault (Code × Heap × Buffer)
  | [], h, buffer => .ok (ending, h, buffer)
  | chunk :: chunks, h, buffer => do
    let (n, h, buffer) ← resBodyWriteCallback fails memory h buffer chunk
    if n.toNat ≠ chunk.bytes.length then return (.writeError, h, buffer)
    else curlEasyPerform fails memory ending chunks h buffer

/-- `printf("%.*s", (int) res_body.size, res_body.data)`: at most as many bytes as the precision says, up to a NUL. A negative
precision is as if there was none; of `NULL` the empty text is printed. -/
def printBody (h : Heap) (buffer : Buffer) : Except Fault (List Byte) :=
  match buffer.data with
  | none => .ok []
  | some a => do
    let block ← use (BlockHeap.read h (some a))
    let precision := (buffer.size.setWidth 32).toInt
    if 0 ≤ precision then return (block.take precision.toNat).takeWhile fun b => b != 0#8
    else if 0#8 ∈ block then return block.takeWhile fun b => b != 0#8
    else .error .readPastEnd

/-- How `main` ends. -/
structure Exit where
  status : Nat
  /-- the body as it is printed -/
  printed : List Byte
  heap : Heap

/-- `main` from `curl_easy_perform` on. -/
def main (fails : Nat → Bool) (memory : Nat → Byte) (ending : Code) (chunks : List Chunk) (h : Heap) : Except Fault Exit := do
  let (rc, h, resBody) ← curlEasyPerform fails memory ending chunks h .zero
  if rc ≠ .ok then
    let (h, _) ← bufferFree h resBody
    return ⟨1, [], h⟩
  else
    let printed ← printBody h resBody
    let (h, _) ← bufferFree h resBody
    return ⟨0, printed, h⟩

end CLangExamples.Curl
