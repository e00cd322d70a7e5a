import CLangExamples.Lib.Strtoul
import CLangExamples.Scgi.Parser

/-!
# Reading a request from a connection

`recv_char` of `net.c`, `cstr_parse_size_t` of `strutils.c` and `connection_handle` of `main.c`, up to the call of the
parser. The bytes that a client sends are a `Stream`. A local variable that was not written holds whatever was in memory: it
is an argument of the model.
-/

namespace CLangExamples.Scgi

open Strtoul

/-! ## The socket -/

/-- What `recv` meets behind the last byte that was sent. -/
inductive Ending where
  /-- the client has closed the connection: `recv` returns 0 -/
  | closed
  /-- the connection failed: `recv` returns -1 -/
  | failed
  deriving DecidableEq

/-- What a client sends and has not been received. -/
structure Stream where
  bytes : List Byte
  ending : Ending
  deriving DecidableEq

/-- `recv` of `size` bytes, with `MSG_WAITALL` or of a single byte: the bytes, what it returns, and what is left. -/
def recv (stream : Stream) (size : Nat) : List Byte × Int × Stream :=
  if size ≠ 0 ∧ stream.bytes = [] ∧ stream.ending = .failed then ([], -1, stream)
  else (stream.bytes.take size, (stream.bytes.take size).length, { stream with bytes := stream.bytes.drop size })

/-- `recv_char`: what it returns, `*out_value` when that is positive, and what is left. -/
def recvChar (stream : Stream) : Int × Option Byte × Stream :=
  let (bytes, bytesReceived, stream) := recv stream 1
  (bytesReceived, bytes.head?, stream)

theorem recvChar_nil (ending : Ending) :
    recvChar ⟨[], ending⟩ = (if ending = .failed then -1 else 0, none, ⟨[], ending⟩) := by
  cases ending <;> rfl

theorem recvChar_cons (c : Byte) (bytes : List Byte) (ending : Ending) :
    recvChar ⟨c :: bytes, ending⟩ = (1, some c, ⟨bytes, ending⟩) := by
  rw [recvChar, recv, if_neg (by simp)]
  rfl

/-! ## The headers -/

/-- `':'` -/
def colon : Byte := 0x3A#8

/-- Why a request is given up before it is parsed; each but the first is a line on `stderr`. -/
inductive Rejected where
  /-- `recv_char` returned 0 or less -/
  | noMoreBytes
  /-- `non digit received before ':'` -/
  | nonDigit (got : Byte)
  /-- `headers size digits overflow` -/
  | digitsOverflow
  /-- `bad headers size digits` -/
  | badDigits
  /-- `headers size is too big` -/
  | tooBig (headersSize : Nat)
  /-- `failed to read headers` -/
  | readFailed
  /-- `bad headers size` -/
  | badSize (expected : Nat) (read : Int)
  /-- `expected=','` -/
  | noComma (got : Byte)
  deriving DecidableEq

/-- `max_digits` -/
def maxDigits : Nat := 9

/-- The loop that reads the digits until `':'`, with room for `left` more. -/
def readDigits (digits : List Byte) (left : Nat) (stream : Stream) : Except Rejected (List Byte × Stream) :=
  match recvChar stream with
  | (_, none, _) => .error .noMoreBytes
  | (_, some c, stream) =>
    if c = colon then .ok (digits, stream)
    else if isdigit c = false then .error (.nonDigit c)
    else
      match left with
      | 0 => .error .digitsOverflow
      | left + 1 => readDigits (digits ++ [c]) left stream

/-- `cstr_parse_size_t`: the value, or none when it returns 1. -/
def cstrParseSizeT (setsEinval : Bool) (cstr : List Byte) : Option Nat :=
  let conversion := strtoul setsEinval cstr
  if conversion.errno ≠ .zero then none
  else if conversion.value ≥ ulongMax then none
  else some conversion.value

/-- `SCGI_INPUT_BUFFER_SIZE` -/
def scgiInputBufferSize : Nat := 4096

/-- `SCGI_HEADERS_MAX_SIZE` -/
def scgiHeadersMaxSize : Nat := 1024

/-- `connection_handle` up to the headers in the input buffer: their size, the buffer and what is left. The context is
zeroed when the connection is accepted. -/
def receiveHeaders (setsEinval : Bool) (stream : Stream) : Except Rejected (Nat × List Byte × Stream) := do
  let inputBuffer := List.replicate scgiInputBufferSize nul
  let (headersSizeDigits, stream) ← readDigits [] maxDigits stream
  match cstrParseSizeT setsEinval headersSizeDigits with
  | none => .error .badDigits
  | some headersSize =>
    if headersSize ≥ scgiHeadersMaxSize then .error (.tooBig headersSize)
    else
      let (bytes, bytesRead, stream) := recv stream headersSize
      if bytesRead < 0 then .error .readFailed
      else if bytesRead.toNat ≠ headersSize then .error (.badSize headersSize bytesRead)
      else return (headersSize, bytes ++ inputBuffer.drop bytes.length, stream)

/-- `connection_handle`: the buffer that `scgi_parser_init` is given and how the parser ends. `garbage` is what the
variable `dummy` holds before `recv` writes to it. -/
def connectionHandle (setsEinval : Bool) (garbage : Byte) (stream : Stream) :
    Except Rejected (List Byte × Except Halt Parsed) := do
  let (headersSize, inputBuffer, stream) ← receiveHeaders setsEinval stream
  let (bytes, bytesRead, _) := recv stream 1
  if bytesRead < 0 then .error .readFailed
  else
    let dummy := bytes.head?.getD garbage
    if dummy ≠ comma then .error (.noComma dummy)
    else
      let handed := (inputBuffer.set headersSize dummy).take (headersSize + 1)
      return (handed, scgiParserInit handed >>= scgiParserParse)

end CLangExamples.Scgi
