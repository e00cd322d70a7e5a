import Mathlib.Init

/-!
# The headers of a request

`http_headers_validate` of the HTTP server: a scan for the empty line that ends the headers, made by a state machine with
one state for each byte of `\r\n\r\n` already seen. A `uint8_t` is a `BitVec 8`.
-/

namespace CLangExamples.Http

/-- `uint8_t` -/
abbrev Byte : Type := BitVec 8

/-- `'\r'` -/
def cr : Byte := 0x0D#8

/-- `'\n'` -/
def lf : Byte := 0x0A#8

/-- `iscntrl` in the C locale. -/
def iscntrl (byte : Byte) : Bool := decide (byte.toNat < 32) || decide (byte.toNat = 127)

/-- `http_headers_is_valid_byte` -/
def httpHeadersIsValidByte (byte : Byte) : Bool :=
  if byte = 0#8 then false
  else if iscntrl byte ∧ byte ≠ cr ∧ byte ≠ lf then false
  else true

/-- Why the loop is left from inside its body. -/
inductive Stop where
  | badByte (byte : Byte)
  | endOfHeaders
  deriving DecidableEq

/-- The body of the loop on one byte: the state for the next one. -/
def validateStep (state : Nat) (byte : Byte) : Except Stop Nat :=
  if httpHeadersIsValidByte byte = false then .error (.badByte byte)
  else if state = 0 ∧ byte = cr then .ok 1
  else if state = 1 ∧ byte = cr then .ok state
  else if state = 1 ∧ byte = lf then .ok 2
  else if state = 2 ∧ byte = cr then .ok 3
  else if state = 3 ∧ byte = lf then .error .endOfHeaders
  else .ok 0

/-- What is logged before `RESULT_ERR` is returned. -/
inductive Warning where
  /-- `bad byte in request header` -/
  | badByte (byte : Byte)
  /-- `end of request headers was not found` -/
  | endNotFound
  deriving DecidableEq

/-- `enum result`, with `*out_end_of_headers_offset` where it is written. -/
inductive Result where
  | ok (endOfHeadersOffset : Nat)
  | err (warning : Warning)
  deriving DecidableEq

/-- The loop of `http_headers_validate` from the byte at index `i` on. The end is found at an index of at least 3, so the
subtraction does not wrap. -/
def validateLoop (state i : Nat) : List Byte → Result
  | [] => .err .endNotFound
  | byte :: rest =>
    match validateStep state byte with
    | .error (.badByte byte) => .err (.badByte byte)
    | .error .endOfHeaders => .ok (i - 2)
    | .ok state => validateLoop state (i + 1) rest

/-- `http_headers_validate`; `none` when `assert(unsafe_cstr_buffer_size > 1)` fails. -/
def httpHeadersValidate (buffer : List Byte) : Option Result :=
  if buffer.length > 1 then some (validateLoop 0 0 buffer) else none

end CLangExamples.Http
