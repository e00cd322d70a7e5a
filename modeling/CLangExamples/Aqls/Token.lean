import CLangExamples.Lib.CString
import Mathlib.Algebra.GroupWithZero.Nat
import Mathlib.Logic.Function.Basic

/-!
# Tokens, string views and the token queue

`string-view.c`, `token/token.c` and `token/queue.c` of the AQLS parser. A string view is a pointer and a length. The
pointers that occur are `NULL`, pointers into the input and pointers to string literals; a pointer into the input is its
offset, since the lexer compares such pointers with its cursor.
-/

namespace CLangExamples.Aqls

/-- A `char` of the input. -/
abbrev Byte : Type := BitVec 8

/-! ## String views -/

/-- A `const char*`. -/
inductive Pointer where
  | null
  | input (offset : Nat)
  | literal (text : List Byte)
  deriving DecidableEq

/-- `struct strview` -/
structure StrView where
  str : Pointer
  len : Nat
  deriving DecidableEq

/-- The bytes from a pointer on, with the input in memory. -/
def Pointer.bytes (input : List Byte) : Pointer → List Byte
  | .null => []
  | .input offset => input.drop offset
  | .literal text => text

/-- The bytes that a view shows. -/
def StrView.bytes (input : List Byte) (sv : StrView) : List Byte := (sv.str.bytes input).take sv.len

/-- `string_view_empty`, and the value of `{0}`. -/
def stringViewEmpty : StrView := ⟨.null, 0⟩

/-- `string_view_from_sized_cstr` on a literal. -/
def stringViewFromSizedCstr (text : List Byte) (len : Nat) : StrView := ⟨.literal text, len⟩

/-- `string_view_from_cstr` on a literal. -/
def stringViewFromCstr (text : List Byte) : StrView := stringViewFromSizedCstr text text.length

/-- `string_view_cmp` -/
def stringViewCmp (input : List Byte) (a b : StrView) : Int :=
  CString.memcmp (a.str.bytes input) (b.str.bytes input) (if a.len < b.len then a.len else b.len)

/-- `string_view_cmp_sized_cstr` -/
def stringViewCmpSizedCstr (input : List Byte) (a : StrView) (b : List Byte) (bLen : Nat) : Int :=
  stringViewCmp input a (stringViewFromSizedCstr b bLen)

/-- `string_view_cmp_cstr` -/
def stringViewCmpCstr (input : List Byte) (a : StrView) (b : CString) : Int :=
  stringViewCmpSizedCstr input a b.bytes b.strlen

/-! ## Tokens -/

/-- `enum aqls_token_kind` -/
inductive TokenKind where
  | error
  | eof
  | stringLiteral
  | id
  deriving DecidableEq

/-- `struct aqls_token` -/
structure Token where
  kind : TokenKind
  lexeme : StrView
  deriving DecidableEq

/-- `aqls_token_eof` -/
def aqlsTokenEof : Token := ⟨.eof, stringViewEmpty⟩

/-- `aqls_token_string_literal` -/
def aqlsTokenStringLiteral : Token := ⟨.stringLiteral, stringViewEmpty⟩

/-- `aqls_token_id` -/
def aqlsTokenId (lexeme : List Byte) : Token := ⟨.id, stringViewFromCstr lexeme⟩

/-! ## How a call ends -/

/-- How a call ends when it does not return. -/
inductive Exit where
  /-- a failed `assert` -/
  | assertion
  /-- `error: aqls: lexer: regex: compilation failed` -/
  | regexCompilation (pattern : String)
  /-- the loop of `aqls_lexer_next_token` that counts from the cursor to the lexeme runs past the end of the input -/
  | lexemeNotAhead
  /-- `panic_unexpected_token`: the line and the column, the tokens expected and the character it prints -/
  | unexpectedToken (line column : Nat) (expected : List Token) (found : Byte)
  /-- not an end of the program: a loop was given no fuel for its next iteration -/
  | outOfFuel
  deriving DecidableEq

/-- `assert` -/
def assert (c : Prop) [Decidable c] : Except Exit Unit := if c then .ok () else .error .assertion

/-! ## The queue -/

/-- `struct aqls_token_queue`; its indices stay below the capacity, since each is taken modulo it. -/
structure TokenQueue (capacity : Nat) where
  items : Fin capacity → Token
  start : Fin capacity
  end_ : Fin capacity
  len : Nat

variable {capacity : Nat} [NeZero capacity]

/-- `aqls_token_queue_init`: `calloc` zeroes the items, and zero is `AQLS_TOKEN_ERROR`. -/
def aqlsTokenQueueInit : TokenQueue capacity where
  items := fun _ => ⟨.error, stringViewEmpty⟩
  start := Fin.ofNat capacity 0
  end_ := Fin.ofNat capacity 0
  len := 0

/-- `aqls_token_queue_is_empty` -/
def aqlsTokenQueueIsEmpty (queue : TokenQueue capacity) : Bool := queue.len == 0

/-- `aqls_token_queue_is_full` -/
def aqlsTokenQueueIsFull (queue : TokenQueue capacity) : Bool := queue.len == capacity

/-- `aqls_token_queue_append` -/
def aqlsTokenQueueAppend (queue : TokenQueue capacity) (item : Token) : Except Exit (TokenQueue capacity) := do
  assert (aqlsTokenQueueIsFull queue = false)
  return { queue with
    items := Function.update queue.items queue.end_ item
    end_ := Fin.ofNat capacity (queue.end_.val + 1)
    len := queue.len + 1 }

/-- `aqls_token_queue_pop` -/
def aqlsTokenQueuePop (queue : TokenQueue capacity) : Except Exit (Token × TokenQueue capacity) := do
  assert (aqlsTokenQueueIsEmpty queue = false)
  return (queue.items queue.start,
    { queue with start := Fin.ofNat capacity (queue.start.val + 1), len := queue.len - 1 })

/-- `aqls_token_queue_peek` -/
def aqlsTokenQueuePeek (queue : TokenQueue capacity) : Except Exit Token := do
  assert (aqlsTokenQueueIsEmpty queue = false)
  return queue.items queue.start

end CLangExamples.Aqls
