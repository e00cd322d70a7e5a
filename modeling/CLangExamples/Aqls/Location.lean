import CLangExamples.Aqls.Lexer

/-!
# Lines and columns of an input

The loops of `aqls_lexer_get_line_column_from_pos` and `aqls_lexer_get_line_column_from_cursor`, each over the fields of the
lexer that it reads: `input`, which may hold any bytes here, and `input_len`. A pointer into the input is its offset. Both
give none when they read past the bytes of the input.
-/

namespace CLangExamples.Aqls

/-- The loop of `aqls_lexer_get_line_column_from_pos` from an index on. -/
def fromPosLoop (input : List Byte) (inputLen pos i : Nat) (at_ : Nat × Nat) : Option (Nat × Nat) :=
  if i < pos ∧ i < inputLen then
    match input[i]? with
    | none => none
    | some byte => fromPosLoop input inputLen pos (i + 1) (lineColumnStep at_ byte)
  else some at_
termination_by pos - i

/-- `aqls_lexer_get_line_column_from_pos` -/
def lineColumnFromPos (input : List Byte) (inputLen pos : Nat) : Option (Nat × Nat) :=
  fromPosLoop input inputLen pos 0 (1, 1)

/-- The loop of `aqls_lexer_get_line_column_from_cursor` from a pointer on. -/
def fromCursorLoop (input : List Byte) (cursor c : Nat) (at_ : Nat × Nat) : Option (Nat × Nat) :=
  if c < cursor then
    match input[c]? with
    | none => none
    | some byte => fromCursorLoop input cursor (c + 1) (lineColumnStep at_ byte)
  else some at_
termination_by cursor - c

/-- `aqls_lexer_get_line_column_from_cursor` -/
def lineColumnFromCursor (input : List Byte) (cursor : Nat) : Option (Nat × Nat) := fromCursorLoop input cursor 0 (1, 1)

end CLangExamples.Aqls
