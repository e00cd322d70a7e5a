import CLangExamples.Theorems.AqlsParser
import CLangExamples.Theorems.Location

/-!
# Where an error is reported

`panic_unexpected_token` prints the line, the column and the character at the cursor of the lexer, which has already moved
past the token that was not expected. An error token is empty, and so its place is right; the place of an identifier or of
a string literal is the one behind it.
-/

namespace CLangExamples.Aqls

open Transition

/-- The token at which a token sequence stops being a program: an operand that is no string literal, or a token where a
statement or the end should be. -/
inductive Rejects (input : List Byte) : List Token → Token → Prop where
  | operand {w s : Token} {rest : List Token} (hw : ResemblesKeyword input writeKeyword w) (hs : s.kind ≠ .stringLiteral) :
      Rejects input (w :: s :: rest) s
  | end_ {t : Token} {rest : List Token} (hw : ¬ResemblesKeyword input writeKeyword t)
      (he : ¬ResemblesKeyword input endKeyword t) : Rejects input (t :: rest) t
  | write {w s : Token} {rest : List Token} {token : Token} (hw : ResemblesKeyword input writeKeyword w)
      (hs : s.kind = .stringLiteral) (hrest : Rejects input rest token) : Rejects input (w :: s :: rest) token

/-- A line, a column and a character are those of the first byte of a token of the input. -/
def Locates (input : List Byte) (token : Token) (line column : Nat) (found : Byte) : Prop :=
  ∃ start, token.lexeme.str = .input start ∧ (line, column) = location input start ∧ input[start]? = some found

namespace ErrorLocationAux

/-! ## Rejected token sequences -/

/-- The tokens from a position on are a program or are rejected at one of them. -/
theorem derives_or_rejects {input : List Byte} {pos : Nat} (h : pos ≤ input.length) :
    (∃ p, Derives input (tokensAt input pos) p) ∨ ∃ token, Rejects input (tokensAt input pos) token := by
  -- Each statement moves the position on.
  induction hleft : input.length - pos using Nat.strong_induction_on generalizing pos with
  | h left ih =>
    rw [tokensAt_eq h]
    by_cases hw : ResemblesKeyword input writeKeyword (tokenAt input pos)
    · have hgo := goesOn_of_kind (Or.inl hw.1)
      obtain ⟨hlt, hle⟩ := stop_of_goesOn h hgo
      rw [if_pos hgo, tokensAt_eq hle]
      by_cases hs : (tokenAt input (tokenAt input pos).stop).kind = .stringLiteral
      · have hgo' := goesOn_of_kind (Or.inr hs)
        obtain ⟨hlt', hle'⟩ := stop_of_goesOn hle hgo'
        rw [if_pos hgo']
        rcases ih _ (by omega) hle' rfl with ⟨p, hp⟩ | ⟨token, hrejects⟩
        · exact Or.inl ⟨_, .write hw hs hp⟩
        · exact Or.inr ⟨token, .write hw hs hrejects⟩
      · exact Or.inr ⟨_, .operand hw hs⟩
    · by_cases he : ResemblesKeyword input endKeyword (tokenAt input pos)
      · exact Or.inl ⟨_, .end_ he⟩
      · exact Or.inr ⟨_, .end_ hw he⟩

/-! ## The place that is printed -/

/-- Counting over the bytes before a position gives its location. -/
theorem foldl_location {input : List Byte} {pos : Nat} (h : pos ≤ input.length) :
    (input.take pos).foldl lineColumnStep (1, 1) = location input pos := by
  induction pos with
  | zero => rfl
  | succ pos ih =>
    have hbyte := List.getElem?_eq_getElem h
    rw [List.take_add_one, hbyte, Option.toList_some, List.foldl_append, ih (Nat.le_of_succ_le h),
      LocationAux.location_succ hbyte]
    rfl

/-- The line and the column of a lexer are the location of its position. -/
theorem getLineColumn_eq {lexer : Lexer} (h : LexInv lexer) :
    aqlsLexerGetLineColumn lexer = location lexer.input.bytes lexer.pos := by
  rw [aqlsLexerGetLineColumn, aqlsLexerGetLineColumnFromPos, Nat.min_eq_left h.pos_le, foldl_location (lexInv_pos_le h)]

/-- The pair of a lexer is the one that the loop over the bytes of its input computes. -/
theorem getLineColumn_eq_loop {lexer : Lexer} (h : LexInv lexer) :
    lineColumnFromPos lexer.input.bytes lexer.inputLen lexer.pos = some (aqlsLexerGetLineColumn lexer) := by
  rw [getLineColumn_eq h, h.inputLen, lineColumnFromPos, LocationAux.fromPosLoop_eq_fromCursorLoop (lexInv_pos_le h)]
  exact LocationAux.fromCursorLoop_eq (Nat.zero_le _) (lexInv_pos_le h)

/-- A call that ends in `panic_unexpected_token` and prints the place where a token of the input ends. -/
def PanicsBehind {α : Type} (input : List Byte) (token : Token) (result : Except Exit α) : Prop :=
  ∃ line column expected found, result = .error (.unexpectedToken line column expected found) ∧
    (token.kind ≠ .eof → (line, column) = location input token.stop ∧ found = input.getD token.stop 0)

theorem panicsBehind_bind {α β : Type} {input : List Byte} {token : Token} {result : Except Exit α}
    (h : PanicsBehind input token result) (f : α → Except Exit β) : PanicsBehind input token (result >>= f) := by
  obtain ⟨line, column, expected, found, rfl, hplace⟩ := h
  exact ⟨line, column, expected, found, rfl, hplace⟩

/-- The lexer after a call of `aqls_lexer_next_token` is where the token ends. -/
theorem next_stop {lexer : Lexer} (h : LexInv lexer) :
    ∃ lexer', aqlsLexerNextToken lexer = .ok (lexer.token, lexer') ∧ LexInv lexer' ∧ lexer'.input = lexer.input ∧
      (lexer.token.kind ≠ .eof → lexer'.pos = lexer.token.stop) := by
  obtain ⟨lexer', hnext, pos, hmoved, -, hpos, -⟩ := next_spec h
  exact ⟨lexer', hnext, hmoved.inv, hmoved.input, fun hkind => hmoved.pos.trans (hpos hkind)⟩

/-- `panic_unexpected_token` on the lexer after a token. -/
theorem panicUnexpectedToken_behind {α : Type} {parser : Parser} {token : Token} (h : LexInv parser.lexer)
    (hpos : token.kind ≠ .eof → parser.lexer.pos = token.stop) (expected : List Token) :
    PanicsBehind parser.lexer.input.bytes token (panicUnexpectedToken parser expected : Except Exit α) := by
  refine ⟨_, _, _, _, rfl, fun hkind => ⟨?_, ?_⟩⟩
  · rw [← hpos hkind]
    exact getLineColumn_eq h
  · rw [h.cursor, hpos hkind]

/-- `parse_statement_write` with an operand that is no string literal. -/
theorem parseStatementWrite_rejects (parser : Parser) {w s : Token} {rest : List Token} (h : LexInv parser.lexer)
    (hup : parser.lexer.upcoming = w :: s :: rest) (hid : w.kind = .id) (hs : s.kind ≠ .stringLiteral) :
    PanicsBehind parser.lexer.input.bytes s (parseStatementWrite parser) := by
  obtain ⟨lexer₁, hnext₁, hinv₁, hinput₁, hup₁⟩ := next_upcoming h
  obtain ⟨lexer₂, hnext₂, hinv₂, hinput₂, hpos⟩ := next_stop hinv₁
  obtain ⟨after, hafter⟩ := upcoming_eq h
  obtain ⟨after₁, hafter₁⟩ := upcoming_eq hinv₁
  obtain ⟨hw, -⟩ := List.cons.inj (hafter.symm.trans hup)
  have hcons := hup₁ (goesOn_of_kind (Or.inl (by rw [hw]; exact hid)))
  rw [hup, hafter₁] at hcons
  obtain ⟨-, hrest⟩ := List.cons.inj hcons
  obtain ⟨rfl, -⟩ := List.cons.inj hrest
  unfold parseStatementWrite
  rw [hnext₁, ok_bind]
  simp only
  rw [hnext₂, ok_bind]
  simp only
  rw [if_pos hs, ← hinput₁, ← hinput₂]
  exact panicUnexpectedToken_behind hinv₂ hpos _

/-- `parse_statement` at a keyword with an operand that is no string literal. -/
theorem parseStatement_rejects (parser : Parser) {w s : Token} {rest : List Token} (h : LexInv parser.lexer)
    (hup : parser.lexer.upcoming = w :: s :: rest) (hw : ResemblesKeyword parser.lexer.input.bytes writeKeyword w)
    (hs : s.kind ≠ .stringLiteral) : PanicsBehind parser.lexer.input.bytes s (parseStatement parser) := by
  obtain ⟨lexer₁, hpeek, hreaches⟩ := peek_upcoming h
  obtain ⟨after, hafter⟩ := upcoming_eq h
  obtain ⟨rfl, -⟩ := List.cons.inj (hafter.symm.trans hup)
  have hmatch := (resemblesKeyword_iff h writeKeyword).1 hw
  have hpanics := parseStatementWrite_rejects { parser with lexer := lexer₁ } hreaches.inv
    (hreaches.upcoming.trans hup) hmatch.1 hs
  rw [← hreaches.input] at hmatch ⊢
  unfold parseStatement
  rw [hpeek, ok_bind]
  simp only
  rw [if_pos (by exact hmatch)]
  exact panicsBehind_bind hpanics _

/-- `parse_end` at a token that does not resemble the keyword. -/
theorem parseEnd_rejects (parser : Parser) {t : Token} {rest : List Token} (h : LexInv parser.lexer)
    (hup : parser.lexer.upcoming = t :: rest) (he : ¬ResemblesKeyword parser.lexer.input.bytes endKeyword t) :
    PanicsBehind parser.lexer.input.bytes t (parseEnd parser) := by
  obtain ⟨lexer', hnext, hinv, hinput, hpos⟩ := next_stop h
  obtain ⟨after, hafter⟩ := upcoming_eq h
  obtain ⟨rfl, -⟩ := List.cons.inj (hafter.symm.trans hup)
  rw [resemblesKeyword_iff h, ← hinput] at he
  rw [parseEnd, hnext, ok_bind, ← hinput]
  simp only
  rw [if_pos (by exact not_and_or.1 he)]
  exact panicUnexpectedToken_behind hinv hpos _

/-- The loop of `parse_statements` and then `parse_end` end at the token where the token sequence is rejected. -/
theorem loop_rejects {α : Type} {input : List Byte} {ts : List Token} {token : Token} (h : Rejects input ts token)
    {fuel : Nat} (last : StmtListPointer) (parser : Parser) (hinv : LexInv parser.lexer)
    (hinput : parser.lexer.input.bytes = input) (hup : parser.lexer.upcoming = ts) (hfuel : ts.length < fuel)
    (f : EndNode × Parser → Except Exit α) :
    PanicsBehind input token (statementsLoop fuel last parser >>= fun parser => parseEnd parser >>= f) := by
  -- Each statement of the rejected sequence is one iteration of the loop.
  induction h generalizing fuel last parser with
  | @operand w s rest hw hs =>
    obtain ⟨fuel, rfl⟩ : ∃ n, fuel = n + 1 := ⟨fuel - 1, by omega⟩
    rw [← hinput] at hw ⊢
    unfold statementsLoop
    exact panicsBehind_bind (panicsBehind_bind (parseStatement_rejects parser hinv hup hw hs) _) _
  | @end_ t rest hw he =>
    obtain ⟨fuel, rfl⟩ : ∃ n, fuel = n + 1 := ⟨fuel - 1, by omega⟩
    obtain ⟨after, hafter⟩ := upcoming_eq hinv
    obtain ⟨rfl, -⟩ := List.cons.inj (hafter.symm.trans hup)
    rw [← hinput] at hw he ⊢
    obtain ⟨lexer', hreaches, hnone⟩ := parseStatement_none hinv hw
    rw [← hreaches.input] at he ⊢
    unfold statementsLoop
    rw [hnone, ok_bind]
    exact panicsBehind_bind (parseEnd_rejects { parser with lexer := lexer' } hreaches.inv
      (hreaches.upcoming.trans hup) he) f
  | @write w s rest token hw hs _ ih =>
    obtain ⟨fuel, rfl⟩ : ∃ n, fuel = n + 1 := ⟨fuel - 1, by omega⟩
    obtain ⟨after, hafter⟩ := upcoming_eq hinv
    obtain ⟨rfl, -⟩ := List.cons.inj (hafter.symm.trans hup)
    rw [← hinput] at hw
    obtain ⟨s', rest', hup', hcase⟩ := parseStatement_write hinv hw
    obtain ⟨-, htail⟩ := List.cons.inj (hup'.symm.trans hup)
    obtain ⟨rfl, rfl⟩ := List.cons.inj htail
    rcases hcase with ⟨-, lexer', hreaches, hok⟩ | ⟨hs', -⟩
    · unfold statementsLoop
      rw [hok, ok_bind]
      simp only [List.length_cons] at hfuel
      exact ih _ _ hreaches.inv (by rw [← hinput]; exact congrArg CString.bytes hreaches.input) hreaches.upcoming (by omega)
    · exact absurd hs hs'

/-- `aqls_parser_parse` on an input that is rejected at a token. -/
theorem parse_rejects {input : CString} {token : Token} (h : Rejects input.bytes (tokens input.bytes) token) :
    Ends input (PanicsBehind input.bytes token) := by
  obtain ⟨lexer, hinit, hinv, rfl, hpos⟩ := lexInv_init input
  have hup : lexer.upcoming = tokens lexer.input.bytes := by
    unfold Lexer.upcoming
    rw [hpos]
    rfl
  refine ⟨(tokens lexer.input.bytes).length + 1, fun more => ?_⟩
  rw [aqlsParserParse_eq hinit]
  exact loop_rejects h none ⟨lexer, [], none⟩ hinv rfl hup (by omega) _

/-- An input ends in `panic_unexpected_token` exactly when its tokens are rejected at one of them. -/
theorem ends_panics_iff (input : CString) :
    Ends input Panics ↔ ∃ token, Rejects input.bytes (tokens input.bytes) token := by
  constructor
  · intro hpanics
    rcases derives_or_rejects (Nat.zero_le input.bytes.length) with ⟨p, hp⟩ | hrejects
    · exact (AqlsParserAux.not_returns_and_panics (AqlsParserAux.ends_returns hp) hpanics).elim
    · exact hrejects
  · rintro ⟨token, hrejects⟩
    obtain ⟨fuel, hends⟩ := parse_rejects hrejects
    refine ⟨fuel, fun more => ?_⟩
    obtain ⟨line, column, expected, found, heq, -⟩ := hends more
    exact ⟨line, column, expected, found, heq⟩

/-! ## The token that is rejected -/

/-- The first of the tokens from a position on, and the position of the others. -/
theorem tokensAt_cons {input : List Byte} {pos : Nat} {t : Token} {rest : List Token} (h : pos ≤ input.length)
    (hts : tokensAt input pos = t :: rest) :
    t = tokenAt input pos ∧ (rest ≠ [] → t.stop ≤ input.length ∧ tokensAt input t.stop = rest) := by
  rw [tokensAt_eq h] at hts
  obtain ⟨rfl, hrest⟩ := List.cons.inj hts
  refine ⟨rfl, fun hne => ?_⟩
  by_cases hgo : (tokenAt input pos).goesOn = true
  · rw [if_pos hgo] at hrest
    exact ⟨(stop_of_goesOn h hgo).2, hrest⟩
  · rw [if_neg hgo] at hrest
    exact absurd hrest.symm hne

/-- A token where the tokens of the input are rejected is one of them. -/
theorem rejects_tokenAt {input : List Byte} {ts : List Token} {token : Token} (h : Rejects input ts token) {pos : Nat}
    (hpos : pos ≤ input.length) (hts : tokensAt input pos = ts) : ∃ pos' ≤ input.length, token = tokenAt input pos' := by
  induction h generalizing pos with
  | operand hw hs =>
    obtain ⟨-, hrest⟩ := tokensAt_cons hpos hts
    obtain ⟨hle, hts'⟩ := hrest (List.cons_ne_nil _ _)
    exact ⟨_, hle, (tokensAt_cons hle hts').1⟩
  | end_ hw he => exact ⟨pos, hpos, (tokensAt_cons hpos hts).1⟩
  | @write w s rest token hw hs hrejects ih =>
    obtain ⟨-, hrest⟩ := tokensAt_cons hpos hts
    obtain ⟨hle, hts'⟩ := hrest (List.cons_ne_nil _ _)
    obtain ⟨-, hrest'⟩ := tokensAt_cons hle hts'
    have hne : rest ≠ [] := by
      rintro rfl
      cases hrejects
    obtain ⟨hle', hts''⟩ := hrest' hne
    exact ih hle' hts''

/-- The place behind a token is its own when it is an error, and no other token's. -/
theorem locates_stop_iff {input : List Byte} {pos : Nat} (h : pos ≤ input.length)
    (hkind : (tokenAt input pos).kind ≠ .eof) {line column : Nat}
    (hplace : (line, column) = location input (tokenAt input pos).stop) :
    Locates input (tokenAt input pos) line column (input.getD (tokenAt input pos).stop 0) ↔
      (tokenAt input pos).kind = .error := by
  unfold Locates
  rw [hplace]
  rcases tokenAt_cases h with ⟨-, htok⟩ | ⟨hlt, -, htok⟩ | ⟨hlt, -, hgo, hstr, hpos, hle⟩
  · rw [htok] at hkind
    exact absurd rfl hkind
  · rw [htok]
    refine iff_of_true ⟨tokenStart input pos, rfl, rfl, ?_⟩ rfl
    show _ = some (input.getD (tokenStart input pos) 0)
    rw [List.getD_eq_getElem?_getD, List.getElem?_eq_getElem hlt]
    rfl
  · have hstop : (tokenAt input pos).stop = tokenStart input pos + (tokenAt input pos).lexeme.len := by
      unfold Token.stop
      rw [hstr]
    refine iff_of_false ?_ (kind_of_goesOn hgo).2
    rintro ⟨start, hstart, hsame, -⟩
    rw [hstr] at hstart
    obtain rfl := Pointer.input.inj hstart
    have hbefore : Before (location input (tokenStart input pos)) (location input (tokenAt input pos).stop) :=
      LocationAux.location_before (by omega) (by omega)
    rw [hsame] at hbefore
    exact LocationAux.before_irrefl _ hbefore

end ErrorLocationAux

open ErrorLocationAux

/-- The parser ends in `panic_unexpected_token` exactly when the tokens of the input are rejected at one of them; when that
is not the end of the input, the line, the column and the character printed are those of its first byte exactly when it is
an error token. -/
theorem unexpected_token_located_iff (input : CString) :
    (Ends input Panics ↔ ∃ token, Rejects input.bytes (tokens input.bytes) token) ∧
    ∀ token, Rejects input.bytes (tokens input.bytes) token → token.kind ≠ .eof →
      Ends input fun result => ∃ line column expected found,
        result = .error (.unexpectedToken line column expected found) ∧
          (Locates input.bytes token line column found ↔ token.kind = .error) := by
  refine ⟨ends_panics_iff input, ?_⟩
  intro token hrejects hkind
  obtain ⟨pos, hpos, rfl⟩ := rejects_tokenAt hrejects (Nat.zero_le _) rfl
  obtain ⟨fuel, hends⟩ := parse_rejects hrejects
  refine ⟨fuel, fun more => ?_⟩
  obtain ⟨line, column, expected, found, heq, hplace⟩ := hends more
  obtain ⟨hlocation, rfl⟩ := hplace hkind
  exact ⟨line, column, expected, _, heq, locates_stop_iff hpos hkind hlocation⟩

/-- On the input `X` the identifier at line 1, column 1 is not expected, and line 1, column 2 and a NUL are printed. -/
theorem unexpected_identifier_misplaced :
    Rejects [0x58#8] (tokens [0x58#8]) ⟨.id, ⟨.input 0, 1⟩⟩ ∧
      aqlsParserParse 1 ⟨[0x58#8], by decide⟩ 1 = .error (.unexpectedToken 1 2 [aqlsTokenId endKeyword] 0x00#8) ∧
      ¬Locates [0x58#8] ⟨.id, ⟨.input 0, 1⟩⟩ 1 2 0x00#8 := by
  refine ⟨.end_ (by decide) (by decide), ?_, ?_⟩
  · rw [aqlsParserParse_eq (aqlsLexerInit_eq _ _)]
    rfl
  · rintro ⟨start, hstart, -, hbyte⟩
    obtain rfl := Pointer.input.inj hstart
    cases hbyte

end CLangExamples.Aqls
