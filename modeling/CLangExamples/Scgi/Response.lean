import CLangExamples.Lib.CString
import CLangExamples.Lib.Printf
import CLangExamples.Scgi.Parser

/-!
# Sending a response

`scgi_send_text` of `scgi.c`, without its lines on `stderr`. The assertions are taken as enabled. What `send` returns is an
argument of the model; the bytes that it was given are part of the result.
-/

namespace CLangExamples.Scgi

/-- `SCGI_OUTPUT_BUFFER_SIZE` -/
abbrev scgiOutputBufferSize : Nat := 4096

/-! ## Formatting -/

/-- The bytes of a text of ASCII characters. -/
def ascii (text : List Char) : List Byte := text.map fun c => BitVec.ofNat 8 c.toNat

/-- `%d` -/
def formatInt (n : Int) : List Char := if n < 0 then '-' :: Printf.number 10 0 (-n).toNat else Printf.number 10 0 n.toNat

/-- `%zu` -/
def formatSize (n : BitVec 64) : List Char := Printf.number 10 0 n.toNat

/-- `snprintf` to a zeroed `char[size]`: the length of the whole output, and the buffer with as much of it as fits in
front of a NUL. -/
def snprintf (size : Nat) (output : List Byte) : Nat × List Byte :=
  let written := output.take (size - 1)
  (output.length, written ++ List.replicate (size - written.length) nul)

/-- What the format of `scgi_send_text` and its three arguments come to. -/
def responseText (statusCode : Int) (textLen : BitVec 64) (text : CString) : List Byte :=
  ascii "Status: ".toList ++ ascii (formatInt statusCode) ++ ascii " OK\r\n".toList ++
  ascii "Content-Length: ".toList ++ ascii (formatSize textLen) ++ ascii "\r\n".toList ++
  ascii "Content-Type: text/plain; charset=utf-8\r\n".toList ++
  ascii "\r\n".toList ++
  text.bytes

/-! ## Sending -/

/-- What `scgi_send_text` returns, and the bytes that it passed to `send` when it came to that. -/
structure SendText where
  rc : Int
  sent : Option (List Byte)
  deriving DecidableEq

/-- `scgi_send_text`, with what `send` returns. -/
def scgiSendText (bytesSent : Int) (statusCode : Int) (text : CString) (textLen : BitVec 64) : Except Halt SendText :=
  if ¬(statusCode ≥ 100 ∧ statusCode < 600) then .error .assertion
  else if ¬textLen > 0#64 then .error .assertion
  else if textLen.toNat > scgiOutputBufferSize then .ok ⟨1, none⟩
  else
    let (bytesFormatted, outputBuffer) := snprintf scgiOutputBufferSize (responseText statusCode textLen text)
    if ¬bytesFormatted > 0 then .error .assertion
    else if ¬bytesFormatted < scgiOutputBufferSize then .error .assertion
    else if bytesSent = -1 then .ok ⟨1, some (outputBuffer.take bytesFormatted)⟩
    else .ok ⟨0, some (outputBuffer.take bytesFormatted)⟩

end CLangExamples.Scgi
