import CLangExamples.Aqls.Token
import CLangExamples.Lib.Regex

/-!
# The lexer

`lexer.c` of the AQLS parser. The input is a C string; `cursor` is a pointer into it, here its offset, and `pos` counts
along with it. `regexec` is given the rest of the input from the cursor on. The match lengths are taken to fit an `int`,
the type of `regoff_t`.
-/

namespace CLangExamples.Aqls

open Ere

/-- `AQLS_LOOKAHEAD` -/
abbrev aqlsLookahead : Nat := 10

instance : NeZero aqlsLookahead := ⟨by decide⟩

/-- `struct aqls_lexer_pattern` -/
structure LexerPattern where
  tokenKind : TokenKind
  regex : Regex

/-- `struct aqls_lexer` -/
structure Lexer where
  input : CString
  inputLen : Nat
  cursor : Nat
  pos : Nat
  ignore : Regex
  patterns : List LexerPattern
  lookahead : TokenQueue aqlsLookahead

/-- `regex_compile_or_die` -/
def regexCompileOrDie (pattern : String) (icase : Bool) : Except Exit Regex :=
  match regcomp pattern icase with
  | some regex => .ok regex
  | none => .error (.regexCompilation pattern)

/-- `aqls_lexer_init` -/
def aqlsLexerInit (input : CString) (inputLen : Nat) : Except Exit Lexer := do
  let ignore ← regexCompileOrDie "^[ \t\r\n]+" false
  let stringLiteral ← regexCompileOrDie "^'[^']*'" false
  let id ← regexCompileOrDie "^[a-zA-Z#][a-zA-Z#\\.]*" true
  return {
    input := input
    inputLen := inputLen
    cursor := 0
    pos := 0
    ignore := ignore
    patterns := [⟨.stringLiteral, stringLiteral⟩, ⟨.id, id⟩]
    lookahead := aqlsTokenQueueInit }

/-- `aqls_lexer_has_more_tokens` -/
def aqlsLexerHasMoreTokens (lexer : Lexer) : Bool := decide (lexer.pos < lexer.inputLen)

/-! ## Scanning -/

/-- The string that `regexec` is given at a cursor. -/
def Lexer.rest (lexer : Lexer) (cursor : Nat) : List Byte := lexer.input.bytes.drop cursor

/-- The loop over the patterns: the token of the first one that matches at the cursor. -/
def firstMatch (lexer : Lexer) (cursor : Nat) : List LexerPattern → Except Exit (Option Token)
  | [] => .ok none
  | pattern :: patterns =>
    match regexec pattern.regex (lexer.rest cursor) with
    | none => firstMatch lexer cursor patterns
    | some m => do
      let matchLen := m.rmEo - m.rmSo
      assert (matchLen > 0)
      return some ⟨pattern.tokenKind, ⟨.input cursor, matchLen⟩⟩

/-- The error token at a cursor. -/
def errorToken (cursor : Nat) : Token := ⟨.error, ⟨.input cursor, 0⟩⟩

/-- Append a token to the lookahead and return it, as every branch of `aqls_lexer_peek_token` ends. -/
def Lexer.remember (lexer : Lexer) (token : Token) : Except Exit (Token × Lexer) := do
  let lookahead ← aqlsTokenQueueAppend lexer.lookahead token
  return (token, { lexer with lookahead := lookahead })

/-- The copies of `cursor` and `pos` in `aqls_lexer_peek_token`, moved past what is ignored. -/
def peekIgnored (lexer : Lexer) : Except Exit (Nat × Nat) :=
  match regexec lexer.ignore (lexer.rest lexer.cursor) with
  | none => .ok (lexer.cursor, lexer.pos)
  | some m => do
    let matchLen := m.rmEo - m.rmSo
    assert (matchLen > 0)
    assert (lexer.pos + matchLen ≤ lexer.inputLen)
    return (lexer.cursor + matchLen, lexer.pos + matchLen)

/-- `aqls_lexer_peek_token` -/
def aqlsLexerPeekToken (lexer : Lexer) : Except Exit (Token × Lexer) :=
  if aqlsTokenQueueIsEmpty lexer.lookahead = false then do
    let token ← aqlsTokenQueuePeek lexer.lookahead
    return (token, lexer)
  else if aqlsLexerHasMoreTokens lexer = false then lexer.remember aqlsTokenEof
  else do
    let (cursor, pos) ← peekIgnored lexer
    if pos ≥ lexer.inputLen then lexer.remember aqlsTokenEof
    else
      match ← firstMatch lexer cursor lexer.patterns with
      | some token => lexer.remember token
      | none => lexer.remember (errorToken cursor)

/-- `advance` -/
def advance (lexer : Lexer) (offset : Nat) : Except Exit Lexer := do
  assert (lexer.pos + offset ≤ lexer.inputLen)
  return { lexer with pos := lexer.pos + offset, cursor := lexer.cursor + offset }

/-- `advance_token` -/
def advanceToken (lexer : Lexer) (token : Token) : Except Exit Lexer := do
  assert (lexer.pos + token.lexeme.len ≤ lexer.inputLen)
  advance lexer token.lexeme.len

/-- `skip_ignored` -/
def skipIgnored (lexer : Lexer) : Except Exit Lexer :=
  match regexec lexer.ignore (lexer.rest lexer.cursor) with
  | none => .ok lexer
  | some m => do
    let matchLen := m.rmEo - m.rmSo
    assert (matchLen > 0)
    advance lexer matchLen

/-- The loop of `aqls_lexer_next_token` that counts from the cursor to the lexeme. A pointer may go `left` bytes on up to
the end of the input; past it the loop has no meaning. -/
def offsetLoop (str : Nat) : (left c offset : Nat) → Except Exit Nat
  | left, c, offset =>
    if c = str then .ok offset
    else
      match left with
      | 0 => .error .lexemeNotAhead
      | left + 1 => offsetLoop str left (c + 1) (offset + 1)

/-- `aqls_lexer_next_token` -/
def aqlsLexerNextToken (lexer : Lexer) : Except Exit (Token × Lexer) :=
  if aqlsTokenQueueIsEmpty lexer.lookahead = false then do
    let (token, lookahead) ← aqlsTokenQueuePop lexer.lookahead
    let lexer := { lexer with lookahead := lookahead }
    match token.lexeme.str with
    | .null => return (token, lexer)
    | .literal _ => .error .lexemeNotAhead
    | .input str =>
      let offset ← offsetLoop str (lexer.inputLen - lexer.cursor) lexer.cursor 0
      let lexer ← advance lexer offset
      let lexer ← advanceToken lexer token
      return (token, lexer)
  else if aqlsLexerHasMoreTokens lexer = false then .ok (aqlsTokenEof, lexer)
  else do
    let lexer ← skipIgnored lexer
    if aqlsLexerHasMoreTokens lexer = false then return (aqlsTokenEof, lexer)
    else
      match ← firstMatch lexer lexer.cursor lexer.patterns with
      | some token =>
        let lexer ← advanceToken lexer token
        return (token, lexer)
      | none => return (errorToken lexer.cursor, lexer)

/-! ## Lines and columns -/

/-- The body of the loop that counts lines and columns. -/
def lineColumnStep (at_ : Nat × Nat) (byte : Byte) : Nat × Nat :=
  if byte = 0x0A#8 then (at_.1 + 1, 1) else (at_.1, at_.2 + 1)

/-- `aqls_lexer_get_line_column_from_pos` -/
def aqlsLexerGetLineColumnFromPos (lexer : Lexer) (pos : Nat) : Nat × Nat :=
  (lexer.input.bytes.take (min pos lexer.inputLen)).foldl lineColumnStep (1, 1)

/-- `aqls_lexer_get_line_column` -/
def aqlsLexerGetLineColumn (lexer : Lexer) : Nat × Nat := aqlsLexerGetLineColumnFromPos lexer lexer.pos

end CLangExamples.Aqls
