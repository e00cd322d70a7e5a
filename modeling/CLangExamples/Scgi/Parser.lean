import Mathlib.Init

/-!
# The SCGI parser

`scgi_parser_*` of `scgi.c`. The buffer is the list of its bytes, and a cursor into it is an offset. The parser gives what
it finds to nobody but `stderr`, so what it writes there is part of the result: each entry of the log holds the local
buffer and the length that the call of `fprintf` is made with.
-/

namespace CLangExamples.Scgi

/-- A `char` of a request. -/
abbrev Byte : Type := BitVec 8

/-- `','` -/
def comma : Byte := 0x2C#8

/-- `'\0'` -/
def nul : Byte := 0x00#8

/-- What ends a call other than by `return`: a failed assertion, or what leaves C's defined behaviour. -/
inductive Halt where
  | assertion
  | readPastEnd (offset : Nat)
  | bufferOverflow (size : Nat)
  /-- not an end of the program: a loop was given no fuel for its next iteration -/
  | outOfFuel
  deriving DecidableEq

/-- `enum scgi_parser_state` -/
inductive ParserState where
  | parsingHeaderName
  | parsingHeaderValue
  | parsingBody
  | done
  deriving DecidableEq

/-- `struct scgi_parser`; the length of the buffer is `input_buffer_size`. -/
structure Parser where
  state : ParserState
  inputBuffer : List Byte
  cursorStart : Nat
  cursorEnd : Nat
  deriving DecidableEq

/-- The parts of a request that the parser copies to a buffer of its own. -/
inductive Field where
  | headerName
  | headerValue
  | body
  deriving DecidableEq

/-- What the parser writes to `stderr`. -/
inductive Log where
  /-- `info: scgi: parsing...` -/
  | parsing
  /-- `debug: scgi parsing: got header name`, `got header value` or `got body` -/
  | got (field : Field) (buffer : List Byte) (byteLen : Nat)
  /-- `error: scgi parsing failed: ... has too many bytes/chars` -/
  | tooManyBytes (field : Field)
  /-- `error: scgi parsing: unexpected parsing state` -/
  | unexpectedState
  /-- `error: scgi parsing: illegal state` -/
  | illegalState
  deriving DecidableEq

/-- `scgi_parser_init` -/
def scgiParserInit (inputBuffer : List Byte) : Except Halt Parser :=
  if inputBuffer.length > 0 then .ok ⟨.parsingHeaderName, inputBuffer, 0, 0⟩ else .error .assertion

/-- `scgi_parser_cursor_size` -/
def scgiParserCursorSize (parser : Parser) : Nat := parser.cursorEnd - parser.cursorStart

/-- `scgi_parser_eof` -/
def scgiParserEof (parser : Parser) : Bool := decide (parser.cursorEnd ≥ parser.inputBuffer.length)

/-- `*parser->cursor_end` -/
def Parser.read (parser : Parser) : Except Halt Byte :=
  match parser.inputBuffer[parser.cursorEnd]? with
  | some c => .ok c
  | none => .error (.readPastEnd parser.cursorEnd)

/-- The size of `header_name`, `header_value` and `body`. -/
abbrev bufferSize : Nat := 256

/-- `memcpy` from `cursor_start` to a zeroed `char[256]`. -/
def Parser.copy (parser : Parser) (byteLen : Nat) : Except Halt (List Byte) :=
  if parser.cursorStart + byteLen > parser.inputBuffer.length then .error (.readPastEnd parser.inputBuffer.length)
  else if byteLen > bufferSize then .error (.bufferOverflow byteLen)
  else .ok ((parser.inputBuffer.drop parser.cursorStart).take byteLen ++ List.replicate (bufferSize - byteLen) nul)

/-- How an iteration of the loop ends: with `continue` or `break`, or with a `return`. -/
inductive Flow where
  | goOn (parser : Parser) (log : List Log)
  | returned (rc : Int) (parser : Parser) (log : List Log)
  deriving DecidableEq

/-- `parser->cursor_end++` -/
def Parser.advance (parser : Parser) : Parser := { parser with cursorEnd := parser.cursorEnd + 1 }

/-- `parser->cursor_end++; parser->cursor_start = parser->cursor_end`, with the next state. -/
def Parser.skip (parser : Parser) (state : ParserState) : Parser :=
  { parser with state := state, cursorEnd := parser.cursorEnd + 1, cursorStart := parser.cursorEnd + 1 }

/-- What a header name and a header value do at the `'\0'` that ends them. -/
def finishHeaderField (parser : Parser) (log : List Log) (field : Field) (state : ParserState) : Except Halt Flow :=
  let byteLen := scgiParserCursorSize parser
  if byteLen ≥ bufferSize - 1 then .ok (.returned 1 parser (log ++ [.tooManyBytes field]))
  else do
    let buffer ← parser.copy byteLen
    return .goOn (parser.skip state) (log ++ [.got field buffer byteLen])

/-- The body of the loop of `scgi_parser_parse`. -/
def parseStep (parser : Parser) (log : List Log) : Except Halt Flow :=
  match parser.state with
  | .parsingHeaderName => do
    let c ← parser.read
    if c = comma then return .goOn (parser.skip .parsingBody) log
    else if c ≠ nul then return .goOn parser.advance log
    else finishHeaderField parser log .headerName .parsingHeaderValue
  | .parsingHeaderValue => do
    let c ← parser.read
    if c ≠ nul then return .goOn parser.advance log
    else finishHeaderField parser log .headerValue .parsingHeaderName
  | .parsingBody => .ok (.goOn parser.advance log)
  | .done => .ok (.returned (-1) parser (log ++ [.unexpectedState]))

/-- The loop of `scgi_parser_parse`, with fuel for its iterations. -/
def parseLoop : Nat → Parser → List Log → Except Halt Flow
  | fuel, parser, log =>
    if parser.state ≠ .done ∧ scgiParserEof parser = false then
      match fuel with
      | 0 => .error .outOfFuel
      | fuel + 1 => do
        match ← parseStep parser log with
        | .goOn parser log => parseLoop fuel parser log
        | .returned rc parser log => return .returned rc parser log
    else .ok (.goOn parser log)

/-- What `scgi_parser_parse` returns, with the parser it leaves and what it wrote. -/
structure Parsed where
  rc : Int
  parser : Parser
  log : List Log
  deriving DecidableEq

/-- `scgi_parser_parse` after its loop. -/
def parseEnd (parser : Parser) (log : List Log) : Except Halt Parsed :=
  if scgiParserEof parser = true ∧ parser.state = .parsingBody then
    let byteLen := scgiParserCursorSize parser
    if byteLen ≥ bufferSize - 1 then .ok ⟨1, parser, log ++ [.tooManyBytes .body]⟩
    else do
      let buffer ← parser.copy byteLen
      return ⟨0, { parser with state := .done, cursorStart := parser.cursorEnd }, log ++ [.got .body buffer byteLen]⟩
  else .ok ⟨1, parser, log ++ [.illegalState]⟩

/-- `scgi_parser_parse`; the loop takes a byte of the buffer in each iteration. -/
def scgiParserParse (parser : Parser) : Except Halt Parsed := do
  match ← parseLoop parser.inputBuffer.length parser [.parsing] with
  | .goOn parser log => parseEnd parser log
  | .returned rc parser log => return ⟨rc, parser, log⟩

end CLangExamples.Scgi
