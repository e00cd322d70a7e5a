import CLangExamples.Aqls.Lexer

/-!
# The parser

`parser.c` and `ast/ast.c`. The nodes of the statement list are linked by pointers and changed after they are made, so
they live in a memory of their own, where a pointer is an index; the other nodes of the tree are never changed and are
values. Memory is taken to be available.
-/

namespace CLangExamples.Aqls

/-! ## The tree -/

/-- `struct aqls_ast_stmt_write` -/
structure StmtWrite where
  writeToken : Token
  operand : Token
  deriving DecidableEq

/-- `struct aqls_ast_stmt`, the tagged union of the statements. -/
inductive Stmt where
  | write (stmt : StmtWrite)
  deriving DecidableEq

/-- `struct aqls_ast_stmt_list*`; `none` is `NULL`. -/
abbrev StmtListPointer : Type := Option Nat

/-- `struct aqls_ast_stmt_list` -/
structure StmtList where
  statement : Stmt
  next : StmtListPointer
  deriving DecidableEq

/-- `struct aqls_ast_end` -/
structure EndNode where
  endToken : Token
  deriving DecidableEq

/-- `struct aqls_ast_compilation_unit` -/
structure CompilationUnit where
  statements : StmtListPointer
  end_ : EndNode
  deriving DecidableEq

/-- `struct aqls_ast` -/
structure Ast where
  compilationUnit : CompilationUnit
  deriving DecidableEq

/-- `struct aqls_parser`, with the memory of the statement list. -/
structure Parser where
  lexer : Lexer
  nodes : List StmtList
  ast : Option Ast

/-- `aqls_ast_statements_new` -/
def aqlsAstStatementsNew (nodes : List StmtList) (statement : Stmt) : Nat × List StmtList :=
  (nodes.length, nodes ++ [⟨statement, none⟩])

/-- `aqls_ast_statements_append`: it returns the new node, not the list. -/
def aqlsAstStatementsAppend (nodes : List StmtList) (list : StmtListPointer) (statement : Stmt) : Nat × List StmtList :=
  let (newNode, nodes) := aqlsAstStatementsNew nodes statement
  match list with
  | some last => (newNode, nodes.modify last fun node => { node with next := some newNode })
  | none => (newNode, nodes)

/-- `aqls_ast_statement_write_new` -/
def aqlsAstStatementWriteNew (writeToken operand : Token) : Stmt := .write ⟨writeToken, operand⟩

/-! ## Parsing -/

/-- `"WRITE"` -/
def writeKeyword : List Byte := [0x57#8, 0x52#8, 0x49#8, 0x54#8, 0x45#8]

/-- `"END"` -/
def endKeyword : List Byte := [0x45#8, 0x4E#8, 0x44#8]

/-- `panic_unexpected_token`; at the end of the input the character it prints is the NUL. -/
def panicUnexpectedToken {α : Type} (parser : Parser) (expected : List Token) : Except Exit α :=
  let (line, column) := aqlsLexerGetLineColumn parser.lexer
  .error (.unexpectedToken line column expected (parser.lexer.input.bytes.getD parser.lexer.cursor 0))

/-- `parse_statement_write` -/
def parseStatementWrite (parser : Parser) : Except Exit (Stmt × Parser) := do
  let (writeToken, lexer) ← aqlsLexerNextToken parser.lexer
  let (operandToken, lexer) ← aqlsLexerNextToken lexer
  let parser := { parser with lexer := lexer }
  if operandToken.kind ≠ .stringLiteral then
    panicUnexpectedToken parser [aqlsTokenStringLiteral]
  else
    return (aqlsAstStatementWriteNew writeToken operandToken, parser)

/-- `parse_statement`; `none` is `NULL`. -/
def parseStatement (parser : Parser) : Except Exit (Option Stmt × Parser) := do
  let (lookahead, lexer) ← aqlsLexerPeekToken parser.lexer
  let parser := { parser with lexer := lexer }
  if lookahead.kind = .id ∧ stringViewCmpSizedCstr lexer.input.bytes lookahead.lexeme writeKeyword 5 = 0 then
    let (statement, parser) ← parseStatementWrite parser
    return (some statement, parser)
  else
    return (none, parser)

/-- The loop of `parse_statements`, with fuel for its iterations. -/
def statementsLoop : Nat → StmtListPointer → Parser → Except Exit Parser
  | 0, _, _ => .error .outOfFuel
  | fuel + 1, last, parser => do
    let (statement, parser) ← parseStatement parser
    match statement with
    | none => return parser
    | some statement =>
      let (last, nodes) := aqlsAstStatementsAppend parser.nodes last statement
      statementsLoop fuel (some last) { parser with nodes := nodes }

/-- `parse_statements`: the loop assigns `last` and never `statements`. -/
def parseStatements (fuel : Nat) (parser : Parser) : Except Exit (StmtListPointer × Parser) := do
  let statements : StmtListPointer := none
  let parser ← statementsLoop fuel none parser
  return (statements, parser)

/-- `parse_end` -/
def parseEnd (parser : Parser) : Except Exit (EndNode × Parser) := do
  let (endToken, lexer) ← aqlsLexerNextToken parser.lexer
  let parser := { parser with lexer := lexer }
  if endToken.kind ≠ .id ∨ stringViewCmpSizedCstr lexer.input.bytes endToken.lexeme endKeyword 3 ≠ 0 then
    panicUnexpectedToken parser [aqlsTokenId endKeyword]
  else
    return (⟨endToken⟩, parser)

/-- `parse_compilation_unit` -/
def parseCompilationUnit (fuel : Nat) (parser : Parser) : Except Exit (CompilationUnit × Parser) := do
  let (statements, parser) ← parseStatements fuel parser
  let (end_, parser) ← parseEnd parser
  return (⟨statements, end_⟩, parser)

/-- `aqls_parser_parse` on a parser that `aqls_parser_init` made: the value it returns and the parser it leaves. The
compilation unit is never `NULL`, so the value is never 1. -/
def aqlsParserParse (fuel : Nat) (input : CString) (inputLen : Nat) : Except Exit (Nat × Parser) := do
  let lexer ← aqlsLexerInit input inputLen
  let (compilationUnit, parser) ← parseCompilationUnit fuel { lexer := lexer, nodes := [], ast := none }
  return (0, { parser with ast := some ⟨compilationUnit⟩ })

end CLangExamples.Aqls
