import CLangExamples.Aqls.Grammar
import CLangExamples.Lemmas.AqlsLexer
import CLangExamples.Lemmas.StringView

/-!
# The parser takes the program of its tokens

One call of `parse_statement`, `parse_statement_write` and `parse_end` on the tokens that are still to come
(`Lexer.upcoming`), then the loop of `parse_statements` by induction on its fuel, and `aqls_parser_parse` from them
(`parse_spec`). A call that does not return ends in `panic_unexpected_token`, or the fuel was not enough.
-/

namespace CLangExamples.Aqls

open Transition

/-- A call that ends in `panic_unexpected_token`. -/
def Panics {α : Type} (result : Except Exit α) : Prop :=
  ∃ line column expected found, result = .error (.unexpectedToken line column expected found)

theorem panics_panicUnexpectedToken {α : Type} (parser : Parser) (expected : List Token) :
    Panics (panicUnexpectedToken parser expected : Except Exit α) := ⟨_, _, _, _, rfl⟩

theorem panics_bind {α β : Type} {result : Except Exit α} (h : Panics result) (f : α → Except Exit β) :
    Panics (result >>= f) := by
  obtain ⟨line, column, expected, found, rfl⟩ := h
  exact ⟨line, column, expected, found, rfl⟩

/-! ## Keywords -/

/-- The comparison of a lexeme of the input with a keyword goes as far as the shorter of the two. -/
theorem stringViewCmpSizedCstr_eq_zero_iff {input keyword : List Byte} {lexeme : StrView} {start : Nat}
    (hstr : lexeme.str = .input start) (hle : start + lexeme.len ≤ input.length) :
    stringViewCmpSizedCstr input lexeme keyword keyword.length = 0 ↔
      lexeme.bytes input <+: keyword ∨ keyword <+: lexeme.bytes input := by
  have hnull : lexeme.str ≠ .null := by
    rw [hstr]
    exact Pointer.noConfusion
  have hbounds : lexeme.len ≤ (lexeme.str.bytes input).length := by
    rw [hstr, Pointer.bytes, List.length_drop]
    omega
  have hsign := stringViewCmpSizedCstr_hasSign ⟨lexeme, hnull, hbounds⟩ keyword []
  rw [List.append_nil] at hsign
  exact hsign.zero_iff.trans (ThreeWay.front_eq_iff _ _)

/-- The test of the parser for a keyword, on the next token of a lexer. -/
theorem resemblesKeyword_iff {lexer : Lexer} (h : LexInv lexer) (keyword : List Byte) :
    ResemblesKeyword lexer.input.bytes keyword lexer.token ↔
      lexer.token.kind = .id ∧
        stringViewCmpSizedCstr lexer.input.bytes lexer.token.lexeme keyword keyword.length = 0 := by
  unfold ResemblesKeyword
  rcases token_cases h with ⟨-, htok⟩ | ⟨-, -, htok⟩ | ⟨-, -, -, hstr, hpos, hle⟩
  · simp [htok, aqlsTokenEof]
  · simp [htok, errorToken]
  · have hbytes : lexer.token.lexeme.bytes lexer.input.bytes ≠ [] := by
      rw [← List.length_pos_iff, StrView.bytes, hstr, Pointer.bytes, List.length_take, List.length_drop]
      omega
    rw [stringViewCmpSizedCstr_eq_zero_iff hstr hle]
    simp only [ne_eq, hbytes, not_false_eq_true, true_and]

/-! ## The tokens to come -/

/-- The tokens that a lexer has still to return. -/
abbrev Lexer.upcoming (lexer : Lexer) : List Token := tokensAt lexer.input.bytes lexer.pos

/-- A lexer further on in the same input, with these tokens still to come. -/
structure Reaches (lexer lexer' : Lexer) (upcoming : List Token) : Prop where
  inv : LexInv lexer'
  input : lexer'.input = lexer.input
  upcoming : lexer'.upcoming = upcoming

theorem reaches_trans {lexer lexer' lexer'' : Lexer} {ts ts' : List Token} (h : Reaches lexer lexer' ts)
    (h' : Reaches lexer' lexer'' ts') : Reaches lexer lexer'' ts' :=
  ⟨h'.inv, h'.input.trans h.input, h'.upcoming⟩

/-- The tokens to come start with the next token. -/
theorem upcoming_eq {lexer : Lexer} (h : LexInv lexer) : ∃ after, lexer.upcoming = lexer.token :: after :=
  ⟨_, tokensAt_eq (lexInv_pos_le h)⟩

/-- `aqls_lexer_peek_token` gives the next token and leaves the tokens to come. -/
theorem peek_upcoming {lexer : Lexer} (h : LexInv lexer) :
    ∃ lexer', aqlsLexerPeekToken lexer = .ok (lexer.token, lexer') ∧ Reaches lexer lexer' lexer.upcoming := by
  obtain ⟨lexer', hpeek, hmoved⟩ := peek_spec h
  refine ⟨lexer', hpeek, hmoved.inv, hmoved.input, ?_⟩
  unfold Lexer.upcoming
  rw [hmoved.input, hmoved.pos]

/-- `aqls_lexer_next_token` takes the next token off the tokens to come. -/
theorem next_upcoming {lexer : Lexer} (h : LexInv lexer) :
    ∃ lexer', aqlsLexerNextToken lexer = .ok (lexer.token, lexer') ∧ LexInv lexer' ∧ lexer'.input = lexer.input ∧
      (lexer.token.goesOn = true → lexer.upcoming = lexer.token :: lexer'.upcoming) := by
  obtain ⟨lexer', hnext, pos, hmoved, -, hpos, -⟩ := next_spec h
  refine ⟨lexer', hnext, hmoved.inv, hmoved.input, fun hgo => ?_⟩
  have heq := tokensAt_eq (lexInv_pos_le h)
  rw [if_pos hgo] at heq
  rw [Lexer.upcoming, Lexer.upcoming, hmoved.input, hmoved.pos, hpos (kind_of_goesOn hgo).1]
  exact heq

/-! ## One statement -/

/-- A call that takes a statement at an identifier: the token after the identifier decides. -/
def TakesStatement {α : Type} (parser : Parser) (value : Stmt → α) (result : Except Exit (α × Parser)) : Prop :=
  ∃ s rest, parser.lexer.upcoming = parser.lexer.token :: s :: rest ∧
    ((s.kind = .stringLiteral ∧ ∃ lexer', Reaches parser.lexer lexer' rest ∧
      result = .ok (value (aqlsAstStatementWriteNew parser.lexer.token s), { parser with lexer := lexer' })) ∨
    (s.kind ≠ .stringLiteral ∧ Panics result))

/-- `parse_statement_write` at an identifier. -/
theorem parseStatementWrite_spec (parser : Parser) (h : LexInv parser.lexer) (hid : parser.lexer.token.kind = .id) :
    TakesStatement parser id (parseStatementWrite parser) := by
  obtain ⟨lexer₁, hnext₁, hinv₁, hinput₁, hup₁⟩ := next_upcoming h
  obtain ⟨lexer₂, hnext₂, hinv₂, hinput₂, hup₂⟩ := next_upcoming hinv₁
  obtain ⟨rest, hrest⟩ := upcoming_eq hinv₁
  have hup := hup₁ (goesOn_of_kind (Or.inl hid))
  refine ⟨lexer₁.token, rest, by rw [hup, hrest], ?_⟩
  unfold parseStatementWrite
  rw [hnext₁, ok_bind]
  simp only
  rw [hnext₂, ok_bind]
  simp only
  by_cases hs : lexer₁.token.kind = .stringLiteral
  · refine Or.inl ⟨hs, lexer₂, ⟨hinv₂, hinput₂.trans hinput₁, ?_⟩, ?_⟩
    · have hcons := hup₂ (goesOn_of_kind (Or.inr hs))
      rw [hrest, List.cons.injEq] at hcons
      exact hcons.2.symm
    · rw [if_neg (not_not.mpr hs)]
      rfl
  · rw [if_pos hs]
    exact Or.inr ⟨hs, panics_panicUnexpectedToken _ _⟩

/-- `parse_statement` without a keyword in front returns `NULL` and leaves the tokens to come. -/
theorem parseStatement_none {parser : Parser} (h : LexInv parser.lexer)
    (hnot : ¬ResemblesKeyword parser.lexer.input.bytes writeKeyword parser.lexer.token) :
    ∃ lexer', Reaches parser.lexer lexer' parser.lexer.upcoming ∧
      parseStatement parser = .ok (none, { parser with lexer := lexer' }) := by
  obtain ⟨lexer', hpeek, hreaches⟩ := peek_upcoming h
  refine ⟨lexer', hreaches, ?_⟩
  rw [resemblesKeyword_iff h, ← hreaches.input] at hnot
  unfold parseStatement
  rw [hpeek, ok_bind]
  simp only
  rw [if_neg (by exact hnot)]
  rfl

/-- `parse_statement` at a keyword. -/
theorem parseStatement_write {parser : Parser} (h : LexInv parser.lexer)
    (hw : ResemblesKeyword parser.lexer.input.bytes writeKeyword parser.lexer.token) :
    TakesStatement parser some (parseStatement parser) := by
  obtain ⟨lexer₁, hpeek, hreaches⟩ := peek_upcoming h
  have hmatch := (resemblesKeyword_iff h writeKeyword).mp hw
  have htoken : lexer₁.token = parser.lexer.token := by
    obtain ⟨after, hafter⟩ := upcoming_eq h
    obtain ⟨after₁, hafter₁⟩ := upcoming_eq hreaches.inv
    have heq := hreaches.upcoming
    rw [hafter, hafter₁, List.cons.injEq] at heq
    exact heq.1
  have hid : lexer₁.token.kind = .id := by
    rw [htoken]
    exact hmatch.1
  obtain ⟨s, rest, hup, hcase⟩ := parseStatementWrite_spec { parser with lexer := lexer₁ } hreaches.inv hid
  rw [← hreaches.input] at hmatch
  unfold parseStatement
  rw [hpeek, ok_bind]
  simp only
  rw [if_pos (by exact hmatch)]
  simp only at hup hcase
  rw [hreaches.upcoming, htoken] at hup
  rw [htoken] at hcase
  refine ⟨s, rest, hup, ?_⟩
  rcases hcase with ⟨hs, lexer', hreaches', heq⟩ | ⟨hs, hpanics⟩
  · refine Or.inl ⟨hs, lexer', reaches_trans hreaches hreaches', ?_⟩
    rw [heq]
    rfl
  · exact Or.inr ⟨hs, panics_bind hpanics _⟩

/-! ## The statement list -/

/-- The nodes of a list of statements, each linked to the next one. -/
def linked (stmts : List Stmt) : List StmtList :=
  stmts.mapIdx fun i stmt => ⟨stmt, if i + 1 < stmts.length then some (i + 1) else none⟩

/-- The last node of a list of statements. -/
def lastNode (stmts : List Stmt) : StmtListPointer := if stmts = [] then none else some (stmts.length - 1)

theorem getElem?_linked (stmts : List Stmt) (i : Nat) :
    (linked stmts)[i]? = stmts[i]?.map fun stmt => ⟨stmt, if i + 1 < stmts.length then some (i + 1) else none⟩ :=
  List.getElem?_mapIdx

theorem lastNode_append (stmts : List Stmt) (stmt : Stmt) : lastNode (stmts ++ [stmt]) = some stmts.length := by
  simp [lastNode]

/-- `aqls_ast_statements_append` at the last node links one more statement. -/
theorem append_linked (stmts : List Stmt) (stmt : Stmt) :
    aqlsAstStatementsAppend (linked stmts) (lastNode stmts) stmt = (stmts.length, linked (stmts ++ [stmt])) := by
  have hlength : (linked stmts).length = stmts.length := List.length_mapIdx
  by_cases hnil : stmts = []
  · subst hnil
    rfl
  · have hpos : 0 < stmts.length := List.length_pos_iff.mpr hnil
    unfold lastNode
    rw [if_neg hnil, aqlsAstStatementsAppend, aqlsAstStatementsNew, hlength]
    simp only [Prod.mk.injEq, true_and]
    apply List.ext_getElem?
    intro i
    rw [List.getElem?_modify, getElem?_linked, List.length_append, List.length_singleton]
    rcases Nat.lt_trichotomy i stmts.length with hlt | rfl | hgt
    · have hnext : i + 1 < stmts.length + 1 := by omega
      rw [List.getElem?_append_left (by omega), List.getElem?_append_left hlt, getElem?_linked,
        List.getElem?_eq_getElem hlt]
      by_cases hlast : stmts.length - 1 = i
      · simp only [Option.map_some, Option.map_eq_map, if_pos hlast, if_pos hnext]
        rw [show i + 1 = stmts.length by omega]
      · simp only [Option.map_some, Option.map_eq_map, if_neg hlast, if_pos hnext]
        rw [if_pos (by omega)]
    · rw [List.getElem?_append_right (by omega), List.getElem?_append_right (by omega), hlength]
      simp only [Nat.sub_self, List.getElem?_cons_zero, Option.map_some, Option.map_eq_map]
      rw [if_neg (by omega), if_neg (by omega)]
    · rw [List.getElem?_eq_none (by simp [hlength]; omega), List.getElem?_eq_none (by simp; omega)]
      rfl

/-- The nodes from one of them on list the statements from there on. -/
theorem lists_linked (stmts : List Stmt) {k : Nat} (hk : k ≤ stmts.length) :
    Lists (linked stmts) (if k < stmts.length then some k else none) (stmts.drop k) := by
  induction hn : stmts.length - k generalizing k with
  | zero =>
    rw [if_neg (by omega), List.drop_of_length_le (by omega)]
    exact .nil
  | succ n ih =>
    have hlt : k < stmts.length := by omega
    have hnode : (linked stmts)[k]? = some ⟨stmts[k], if k + 1 < stmts.length then some (k + 1) else none⟩ := by
      rw [getElem?_linked, List.getElem?_eq_getElem hlt]
      rfl
    rw [if_pos hlt, List.drop_eq_getElem_cons hlt]
    exact .cons hnode (ih hlt (by omega))

/-! ## The whole input -/

/-- How the loop of `parse_statements` ends, with the statements `before` made already. -/
inductive LoopEnds (fuel : Nat) (before : List Stmt) (parser : Parser) : Except Exit Parser → Prop where
  | done {stmts : List Stmt} {rest : List Token} {lexer' : Lexer}
      (htake : takeStatements parser.lexer.input.bytes parser.lexer.upcoming = some (stmts, rest))
      (hreaches : Reaches parser.lexer lexer' rest) :
      LoopEnds fuel before parser (.ok { parser with lexer := lexer', nodes := linked (before ++ stmts) })
  | panics {result : Except Exit Parser}
      (htake : takeStatements parser.lexer.input.bytes parser.lexer.upcoming = none) (hpanics : Panics result) :
      LoopEnds fuel before parser result
  | outOfFuel (hfuel : fuel ≤ parser.lexer.upcoming.length) : LoopEnds fuel before parser (.error .outOfFuel)

/-- The loop from the next statement on, with that statement made. -/
theorem loopEnds_write {fuel : Nat} {before : List Stmt} {parser : Parser} {s : Token} {rest : List Token} {lexer' : Lexer}
    (hw : ResemblesKeyword parser.lexer.input.bytes writeKeyword parser.lexer.token)
    (hup : parser.lexer.upcoming = parser.lexer.token :: s :: rest) (hs : s.kind = .stringLiteral)
    (hreaches : Reaches parser.lexer lexer' rest) {nodes : List StmtList} {result : Except Exit Parser}
    (h : LoopEnds fuel (before ++ [aqlsAstStatementWriteNew parser.lexer.token s])
      { parser with lexer := lexer', nodes := nodes } result) :
    LoopEnds (fuel + 1) before parser result := by
  have htake : takeStatements parser.lexer.input.bytes parser.lexer.upcoming =
      (takeStatements lexer'.input.bytes lexer'.upcoming).map fun p =>
        (aqlsAstStatementWriteNew parser.lexer.token s :: p.1, p.2) := by
    rw [hup, takeStatements, if_pos hw, if_pos hs, hreaches.input, hreaches.upcoming]
  cases h with
  | @done stmts rest' lexer'' htake' hreaches' =>
    rw [List.append_assoc]
    refine .done ?_ (reaches_trans hreaches hreaches')
    rw [htake, htake']
    rfl
  | panics htake' hpanics =>
    refine .panics ?_ hpanics
    rw [htake, htake']
    rfl
  | outOfFuel hfuel =>
    simp only at hfuel
    rw [hreaches.upcoming] at hfuel
    refine .outOfFuel ?_
    rw [hup, List.length_cons, List.length_cons]
    omega

theorem statementsLoop_spec (fuel : Nat) (before : List Stmt) (parser : Parser) (h : LexInv parser.lexer)
    (hnodes : parser.nodes = linked before) :
    LoopEnds fuel before parser (statementsLoop fuel (lastNode before) parser) := by
  -- Each iteration takes the two tokens of a statement off the tokens to come.
  induction fuel generalizing before parser with
  | zero => exact .outOfFuel (Nat.zero_le _)
  | succ fuel ih =>
    unfold statementsLoop
    by_cases hw : ResemblesKeyword parser.lexer.input.bytes writeKeyword parser.lexer.token
    · obtain ⟨s, rest, hup, ⟨hs, lexer', hreaches, heq⟩ | ⟨hs, hpanics⟩⟩ := parseStatement_write h hw
      · rw [heq, ok_bind]
        simp only
        rw [hnodes, append_linked, ← lastNode_append before (aqlsAstStatementWriteNew parser.lexer.token s)]
        exact loopEnds_write hw hup hs hreaches (ih _ _ hreaches.inv rfl)
      · refine .panics ?_ (panics_bind hpanics _)
        rw [hup, takeStatements, if_pos hw, if_neg hs]
    · obtain ⟨lexer', hreaches, heq⟩ := parseStatement_none h hw
      obtain ⟨after, hafter⟩ := upcoming_eq h
      have hdone : LoopEnds (fuel + 1) before parser
          (.ok { parser with lexer := lexer', nodes := linked (before ++ []) }) := by
        refine .done ?_ hreaches
        rw [hafter, takeStatements_of_not hw]
      rw [List.append_nil, ← hnodes] at hdone
      rw [heq, ok_bind]
      exact hdone

/-- `parse_end`: the next token decides. -/
theorem parseEnd_spec (parser : Parser) (h : LexInv parser.lexer) :
    (ResemblesKeyword parser.lexer.input.bytes endKeyword parser.lexer.token ∧
      ∃ lexer', parseEnd parser = .ok (⟨parser.lexer.token⟩, { parser with lexer := lexer' })) ∨
    (¬ResemblesKeyword parser.lexer.input.bytes endKeyword parser.lexer.token ∧ Panics (parseEnd parser)) := by
  obtain ⟨lexer', hnext, -, hinput, -⟩ := next_upcoming h
  rw [resemblesKeyword_iff h, parseEnd, hnext, ok_bind, ← hinput]
  simp only
  by_cases he : parser.lexer.token.kind = .id ∧
      stringViewCmpSizedCstr lexer'.input.bytes parser.lexer.token.lexeme endKeyword endKeyword.length = 0
  · refine Or.inl ⟨he, lexer', ?_⟩
    rw [if_neg (by exact fun hor => hor.elim (fun hk => hk he.1) (fun hc => hc he.2))]
    rfl
  · refine Or.inr ⟨he, ?_⟩
    rw [if_pos (by exact not_and_or.mp he)]
    exact panics_panicUnexpectedToken _ _

/-- How `aqls_parser_parse` ends. -/
inductive ParseEnds (fuel : Nat) (input : CString) : Except Exit (Nat × Parser) → Prop where
  | returns {p : Program} {parser : Parser} (hp : Derives input.bytes (tokens input.bytes) p)
      (hast : parser.ast = some ⟨⟨none, ⟨p.endToken⟩⟩⟩) (hnodes : parser.nodes = linked p.statements) :
      ParseEnds fuel input (.ok (0, parser))
  | panics {result : Except Exit (Nat × Parser)} (hnone : ∀ p, ¬Derives input.bytes (tokens input.bytes) p)
      (hpanics : Panics result) : ParseEnds fuel input result
  | outOfFuel (hfuel : fuel ≤ (tokens input.bytes).length) : ParseEnds fuel input (.error .outOfFuel)

/-- `aqls_parser_parse` is the loop of the statements and then the end. -/
theorem aqlsParserParse_eq {fuel inputLen : Nat} {input : CString} {lexer : Lexer}
    (hinit : aqlsLexerInit input inputLen = .ok lexer) :
    aqlsParserParse fuel input inputLen =
      statementsLoop fuel none ⟨lexer, [], none⟩ >>= fun parser =>
        parseEnd parser >>= fun p => .ok (0, { p.2 with ast := some ⟨⟨none, p.1⟩⟩ }) := by
  unfold aqlsParserParse
  rw [hinit, ok_bind, parseCompilationUnit, parseStatements]
  simp only [bind_assoc, pure_bind]
  rfl

/-- A token sequence that `parseTokens` takes no program from is no program. -/
theorem not_derives_of_none {input : List Byte} {ts : List Token} (h : parseTokens input ts = none) (p : Program) :
    ¬Derives input ts p := by
  intro hp
  rw [← parseTokens_eq_some_iff, h] at hp
  cases hp

theorem parse_spec (fuel : Nat) (input : CString) :
    ParseEnds fuel input (aqlsParserParse fuel input input.strlen) := by
  obtain ⟨lexer, hinit, hinv, rfl, hpos⟩ := lexInv_init input
  have hup : lexer.upcoming = tokens lexer.input.bytes := by
    unfold Lexer.upcoming
    rw [hpos]
    rfl
  have hloop := statementsLoop_spec fuel [] ⟨lexer, [], none⟩ hinv rfl
  rw [aqlsParserParse_eq hinit]
  change LoopEnds fuel [] _ (statementsLoop fuel none ⟨lexer, [], none⟩) at hloop
  generalize statementsLoop fuel none ⟨lexer, [], none⟩ = result at hloop
  cases hloop with
  | @done stmts rest lexer' htake hreaches =>
    simp only at htake hreaches
    obtain ⟨after, hafter⟩ := upcoming_eq hreaches.inv
    rw [hup, ← hreaches.upcoming, hafter, ← hreaches.input] at htake
    rw [ok_bind]
    rcases parseEnd_spec ⟨lexer', linked ([] ++ stmts), none⟩ hreaches.inv with ⟨he, lexer'', hend⟩ | ⟨he, hpanics⟩
    · have hp : Derives lexer.input.bytes (tokens lexer.input.bytes) ⟨stmts, lexer'.token, after⟩ := by
        rw [← parseTokens_eq_some_iff, parseTokens, ← hreaches.input, htake]
        exact if_pos he
      rw [hend]
      exact .returns hp rfl rfl
    · refine .panics (not_derives_of_none ?_) (panics_bind hpanics _)
      unfold parseTokens
      rw [← hreaches.input, htake]
      exact if_neg he
  | panics htake hpanics =>
    refine .panics (not_derives_of_none ?_) (panics_bind hpanics _)
    unfold parseTokens
    rw [← hup, htake]
  | outOfFuel hfuel =>
    simp only at hfuel
    rw [hup] at hfuel
    exact .outOfFuel hfuel

end CLangExamples.Aqls
