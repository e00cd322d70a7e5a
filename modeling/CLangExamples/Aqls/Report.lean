import CLangExamples.Aqls.Parser
import CLangExamples.Lib.Printf

/-!
# What the parser prints

The text that `panic_unexpected_token` of `parser.c` prints, with `aqls_token_fprint` of `token/token.c` and
`string_view_fwrite` of `string-view.c`. A `char` that is printed is the character of its code.
-/

namespace CLangExamples.Aqls

open Printf

/-- `char` -/
def charOf (b : Byte) : Char := Char.ofNat b.toNat

/-- `aqls_token_str` -/
def aqlsTokenStr : TokenKind → List Char
  | .error => "ERROR".toList
  | .eof => "EOF".toList
  | .stringLiteral => "STRING_LITERAL".toList
  | .id => "ID".toList

/-- `string_view_fwrite`: what it writes. -/
def stringViewFwrite (input : List Byte) (sv : StrView) : List Char :=
  if sv.str ≠ .null ∧ sv.len > 0 then (sv.bytes input).map charOf else []

/-- `aqls_token_fprint` -/
def aqlsTokenFprint (input : List Byte) (token : Token) : List Char :=
  let lexeme :=
    match token.kind with
    | .stringLiteral | .id =>
      if token.lexeme.len > 0 then ['('] ++ stringViewFwrite input token.lexeme ++ [')'] else []
    | _ => []
  ['<'] ++ aqlsTokenStr token.kind ++ lexeme ++ "> ".toList

/-- The loop of `panic_unexpected_token` over the tokens that were expected. -/
def expectedText (input : List Byte) : List Token → List Char
  | [] => []
  | token :: tokens => aqlsTokenFprint input token ++ tokens.flatMap fun token => ", ".toList ++ aqlsTokenFprint input token

/-- The place that is printed. -/
def placeFormat : List (Piece (Nat × Nat)) :=
  [.lit "error: aqls: parser: unexpected token at line ".toList, .num .hu Prod.fst, .lit ", column ".toList,
    .num .hu Prod.snd, .lit ". expecting tokens [".toList]

/-- What `panic_unexpected_token` prints. -/
def unexpectedTokenText (input : List Byte) (line column : Nat) (expected : List Token) (found : Byte) : List Char :=
  render (line, column) placeFormat ++ (expectedText input expected ++ ("], but '".toList ++ ([charOf found] ++
    "' was found.\n".toList)))

end CLangExamples.Aqls
