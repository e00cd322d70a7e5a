import CLangExamples.Scgi.Connection
import CLangExamples.Scgi.Mem

/-!
# The buffered reader

`buffered_reader_*` of `mem.c`. The stream behind `input_fd` is a field of the reader, and `cursor` is an offset into the
buffer.
-/

namespace CLangExamples.Scgi

open Strtoul

/-- `struct buffered_reader` -/
structure BufferedReader where
  input : Stream
  buffer : Slice
  cursor : Nat

/-- `buffered_reader_init` -/
def bufferedReaderInit (input : Stream) (buffer : Slice) : Except Halt BufferedReader :=
  if buffer.len > 0#64 then .ok ⟨input, buffer, 0⟩ else .error .assertion

/-- A byte written into a slice. -/
def Slice.write (slice : Slice) (offset : Nat) (c : Byte) : Slice where
  bytes := slice.bytes.set offset c
  length_lt := by rw [List.length_set]; exact slice.length_lt

/-- `*reader->cursor = c; reader->cursor++`, with `input` left in the stream. -/
def BufferedReader.store (reader : BufferedReader) (c : Byte) (input : Stream) : BufferedReader where
  input := input
  buffer := reader.buffer.write reader.cursor c
  cursor := reader.cursor + 1

@[simp] theorem store_input (reader : BufferedReader) (c : Byte) (input : Stream) :
    (reader.store c input).input = input := rfl

@[simp] theorem store_cursor (reader : BufferedReader) (c : Byte) (input : Stream) :
    (reader.store c input).cursor = reader.cursor + 1 := rfl

@[simp] theorem store_bytes (reader : BufferedReader) (c : Byte) (input : Stream) :
    (reader.store c input).buffer.bytes = reader.buffer.bytes.set reader.cursor c := rfl

/-- The loop of `buffered_reader_read_digits_until`: what it returns and the reader it leaves. No iteration changes
`digits_count`. -/
def readDigitsUntilLoop (delim : Byte) (maxDigits digitsCount : Nat) (reader : BufferedReader) : Nat × BufferedReader :=
  if reader.cursor ≥ reader.buffer.bytes.length then (1, reader)
  else
    match recvChar reader.input with
    | (_, none, input) => (1, { reader with input := input })
    | (_, some c, input) =>
      if c = delim then (0, { reader with input := input })
      else if isdigit c = false then (1, { reader with input := input })
      else if digitsCount ≥ maxDigits then (1, { reader with input := input })
      else readDigitsUntilLoop delim maxDigits digitsCount (reader.store c input)
termination_by reader.buffer.bytes.length - reader.cursor
decreasing_by
  rw [store_bytes, store_cursor, List.length_set]
  omega

/-- `buffered_reader_read_digits_until` -/
def bufferedReaderReadDigitsUntil (reader : BufferedReader) (delim : Byte) (maxDigits : Nat) :
    Except Halt (Nat × BufferedReader) :=
  if isdigit delim = true then .error .assertion
  else
    let digitsCount := 0
    .ok (readDigitsUntilLoop delim maxDigits digitsCount reader)

end CLangExamples.Scgi
