import CLangExamples.Theorems.AqlsParser
import CLangExamples.Theorems.TokenGrammar

/-!
# Programs as they are written

The documented grammar is over tokens; here is what it means for the bytes of a source file. A program is written as `WRITE`
and a string literal any number of times and then `END`, with spaces anywhere between the tokens and none needed. These
texts are the inputs of the documented grammar and no others (`inGrammar_iff_written`), and a text that is parsed leaves
in memory the literals that were written (`written_parses_back`).
-/

namespace CLangExamples.Aqls

/-- A row of spaces. -/
def Blank (s : List Byte) : Prop := ∀ b ∈ s, isSpace b = true

/-- A statement as it is written. -/
structure WrittenStatement where
  before : List Byte
  between : List Byte
  body : List Byte
  before_blank : Blank before
  between_blank : Blank between
  body_quote : 0x27#8 ∉ body

/-- The string literal of a statement, with its quotes. -/
def WrittenStatement.literal (s : WrittenStatement) : List Byte := 0x27#8 :: (s.body ++ [0x27#8])

/-- The bytes of a statement. -/
def WrittenStatement.text (s : WrittenStatement) : List Byte := s.before ++ (writeKeyword ++ (s.between ++ s.literal))

/-- A program as it is written. -/
structure WrittenProgram where
  statements : List WrittenStatement
  before : List Byte
  after : List Byte
  before_blank : Blank before
  after_blank : Blank after

/-- The bytes of a program. -/
def WrittenProgram.text (p : WrittenProgram) : List Byte :=
  p.statements.flatMap WrittenStatement.text ++ (p.before ++ (endKeyword ++ p.after))

/-- The operand of a statement. -/
def Stmt.operand : Stmt → Token
  | .write stmt => stmt.operand

namespace SourceTextAux

variable {input : List Byte} {pos : Nat}

/-! ## The token behind spaces -/

/-- The spaces in front of a byte that is none. -/
theorem spaceLen_blank {ws rest : List Byte} (hws : Blank ws) (hrest : ∀ b, rest.head? = some b → isSpace b = false) :
    spaceLen (ws ++ rest) = ws.length := by
  unfold spaceLen
  rw [List.takeWhile_append_of_pos hws, List.length_append]
  cases rest with
  | nil => rfl
  | cons b rest =>
    rw [List.takeWhile_cons_of_neg (by simp [hrest b rfl])]
    rfl

/-- The position of a token behind spaces, and the input from there on. -/
theorem tokenStart_blank {ws rest : List Byte} (hdrop : input.drop pos = ws ++ rest) (hws : Blank ws)
    (hrest : ∀ b, rest.head? = some b → isSpace b = false) :
    tokenStart input pos = pos + ws.length ∧ input.drop (tokenStart input pos) = rest := by
  have hstart : tokenStart input pos = pos + ws.length := by
    unfold tokenStart
    rw [hdrop, spaceLen_blank hws hrest]
  refine ⟨hstart, ?_⟩
  rw [hstart, ← List.drop_drop, hdrop, List.drop_left]

/-- Behind spaces, a lexeme is the token. -/
theorem tokenAt_lexeme {ws rest : List Byte} {token : Token} (hdrop : input.drop pos = ws ++ rest) (hws : Blank ws)
    (hrest : ∀ b, rest.head? = some b → isSpace b = false) (hlexeme : lexemeAt rest (pos + ws.length) = some token) :
    tokenAt input pos = token := by
  obtain ⟨hstart, hdrop'⟩ := tokenStart_blank hdrop hws hrest
  have hne : rest ≠ [] := by
    rintro rfl
    cases hlexeme
  have hlt : ¬input.length ≤ tokenStart input pos := by
    intro hle
    rw [List.drop_eq_nil_of_le hle] at hdrop'
    exact hne hdrop'.symm
  unfold tokenAt
  rw [if_neg hlt, hdrop', hstart, hlexeme, Option.getD_some]

/-- A keyword: letters only. -/
def Letters (keyword : List Byte) : Prop := keyword ≠ [] ∧ ∀ b ∈ keyword, isIdStart b = true

theorem isSpace_of_isIdStart {b : Byte} (h : isIdStart b = true) : isSpace b = false := by
  revert b
  decide

/-- A byte that ends a keyword: the next byte, if there is one, is no part of an identifier. -/
def EndsId (rest : List Byte) : Prop := ∀ b, rest.head? = some b → isIdPart b = false

/-- A keyword that ends is the token. -/
theorem lexemeAt_keyword {keyword rest : List Byte} (hletters : Letters keyword) (hend : EndsId rest) (start : Nat) :
    lexemeAt (keyword ++ rest) start = some ⟨.id, ⟨.input start, keyword.length⟩⟩ := by
  obtain ⟨hne, hall⟩ := hletters
  obtain ⟨a, t, rfl⟩ := List.exists_cons_of_ne_nil hne
  have ha := hall a List.mem_cons_self
  have ht : ∀ b ∈ t, isIdPart b = true := by
    intro b hb
    unfold isIdPart
    rw [hall b (List.mem_cons_of_mem _ hb)]
    rfl
  have hrest : rest.takeWhile isIdPart = [] := by
    cases rest with
    | nil => rfl
    | cons b rest => exact List.takeWhile_cons_of_neg (by simp [hend b rfl])
  have hstring : stringLen (a :: t ++ rest) = none := by
    rw [List.cons_append, stringLen, if_neg (fun hq => by simp [TokenGrammarAux.isIdStart_not_quote ha] at hq)]
  have hid : idLen (a :: t ++ rest) = some (t.length + 1) := by
    rw [List.cons_append, idLen, if_pos ha, List.takeWhile_append_of_pos ht, hrest, List.append_nil]
  unfold lexemeAt
  rw [hstring, hid]
  rfl

/-- A string literal is the token. -/
theorem lexemeAt_literal {body : List Byte} (hbody : 0x27#8 ∉ body) (rest : List Byte) (start : Nat) :
    lexemeAt (0x27#8 :: (body ++ [0x27#8]) ++ rest) start =
      some ⟨.stringLiteral, ⟨.input start, (0x27#8 :: (body ++ [0x27#8])).length⟩⟩ := by
  unfold lexemeAt
  rw [TokenGrammarAux.stringLen_of_front (List.prefix_append _ _) ⟨body, rfl, hbody⟩]

/-- A lexeme in front of the tokens behind it. -/
theorem tokensAt_lexeme {ws lexeme rest : List Byte} {kind : TokenKind} (hle : pos ≤ input.length)
    (hdrop : input.drop pos = ws ++ (lexeme ++ rest)) (hkind : kind = .id ∨ kind = .stringLiteral)
    (htoken : tokenAt input pos = ⟨kind, ⟨.input (pos + ws.length), lexeme.length⟩⟩) :
    tokensAt input pos = tokenAt input pos :: tokensAt input (pos + ws.length + lexeme.length) ∧
      (tokenAt input pos).lexeme.bytes input = lexeme ∧ pos + ws.length + lexeme.length ≤ input.length ∧
      input.drop (pos + ws.length + lexeme.length) = rest := by
  have hstop : (tokenAt input pos).stop = pos + ws.length + lexeme.length := by rw [htoken]; rfl
  have hgo : (tokenAt input pos).goesOn = true := goesOn_of_kind (by rw [htoken]; exact hkind)
  have hat : input.drop (pos + ws.length) = lexeme ++ rest := by rw [← List.drop_drop, hdrop, List.drop_left]
  refine ⟨?_, ?_, ?_, ?_⟩
  · rw [tokensAt_eq hle, hgo, if_pos rfl, hstop]
  · rw [htoken]
    show (input.drop (pos + ws.length)).take lexeme.length = lexeme
    rw [hat, List.take_left]
  · have hlength := congrArg List.length hdrop
    simp only [List.length_drop, List.length_append] at hlength
    omega
  · rw [← List.drop_drop, hat, List.drop_left]

/-! ## What is written is in the grammar -/

theorem letters_write : Letters writeKeyword := ⟨by decide, by decide⟩

theorem letters_end : Letters endKeyword := ⟨by decide, by decide⟩

theorem head_blank {s rest : List Byte} (hs : Blank s) (hrest : EndsId rest) : EndsId (s ++ rest) := by
  have hspace : ∀ b, isSpace b = true → isIdPart b = false := by decide
  cases s with
  | nil => exact hrest
  | cons a s =>
    intro b hb
    obtain rfl : a = b := Option.some.inj hb
    exact hspace a (hs a List.mem_cons_self)

theorem head_keyword {keyword : List Byte} (h : Letters keyword) (rest : List Byte) (b : Byte)
    (hb : (keyword ++ rest).head? = some b) : isSpace b = false := by
  obtain ⟨a, t, rfl⟩ := List.exists_cons_of_ne_nil h.1
  obtain rfl : a = b := Option.some.inj hb
  exact isSpace_of_isIdStart (h.2 a List.mem_cons_self)

/-- The tokens of a keyword and of what is behind it. -/
theorem tokensAt_keyword {ws keyword rest : List Byte} (hle : pos ≤ input.length)
    (hdrop : input.drop pos = ws ++ (keyword ++ rest)) (hws : Blank ws) (hletters : Letters keyword) (hend : EndsId rest) :
    IsKeyword input keyword (tokenAt input pos) ∧
      tokensAt input pos = tokenAt input pos :: tokensAt input (pos + ws.length + keyword.length) ∧
      pos + ws.length + keyword.length ≤ input.length ∧ input.drop (pos + ws.length + keyword.length) = rest := by
  have htoken := tokenAt_lexeme hdrop hws (head_keyword hletters rest) (lexemeAt_keyword hletters hend _)
  obtain ⟨htokens, hbytes, hle', hdrop'⟩ := tokensAt_lexeme hle hdrop (Or.inl rfl) htoken
  exact ⟨⟨by rw [htoken], hbytes⟩, htokens, hle', hdrop'⟩

/-- The tokens of a string literal and of what is behind it. -/
theorem tokensAt_literal {ws body rest : List Byte} (hle : pos ≤ input.length)
    (hdrop : input.drop pos = ws ++ (0x27#8 :: (body ++ [0x27#8]) ++ rest)) (hws : Blank ws) (hbody : 0x27#8 ∉ body) :
    (tokenAt input pos).kind = .stringLiteral ∧
      (tokenAt input pos).lexeme.bytes input = 0x27#8 :: (body ++ [0x27#8]) ∧
      tokensAt input pos =
        tokenAt input pos :: tokensAt input (pos + ws.length + (0x27#8 :: (body ++ [0x27#8])).length) ∧
      pos + ws.length + (0x27#8 :: (body ++ [0x27#8])).length ≤ input.length ∧
      input.drop (pos + ws.length + (0x27#8 :: (body ++ [0x27#8])).length) = rest := by
  have hhead : ∀ b, (0x27#8 :: (body ++ [0x27#8]) ++ rest).head? = some b → isSpace b = false := by
    intro b hb
    obtain rfl : 0x27#8 = b := Option.some.inj hb
    rfl
  have htoken := tokenAt_lexeme hdrop hws hhead (lexemeAt_literal hbody rest _)
  obtain ⟨htokens, hbytes, hle', hdrop'⟩ := tokensAt_lexeme hle hdrop (Or.inr rfl) htoken
  exact ⟨by rw [htoken], hbytes, htokens, hle', hdrop'⟩

/-- At the spaces that end an input there is the end of it. -/
theorem tokensAt_blank (hle : pos ≤ input.length) (hblank : Blank (input.drop pos)) :
    tokensAt input pos = [aqlsTokenEof] := by
  have htoken := tokenAt_of_eof ((spaces_left_iff hle).1 hblank)
  rw [tokensAt_eq hle, htoken]
  rfl

/-- A written program from a position on is an exact program of the tokens there, with the literals that were written. The
induction is on the statements. -/
theorem written_derives (statements : List WrittenStatement) {before after : List Byte} (hbefore : Blank before)
    (hafter : Blank after) (hle : pos ≤ input.length)
    (hdrop : input.drop pos = statements.flatMap WrittenStatement.text ++ (before ++ (endKeyword ++ after))) :
    ∃ p, Derives input (tokensAt input pos) p ∧ p.Exact input ∧
      p.statements.map (fun stmt => stmt.operand.lexeme.bytes input) = statements.map WrittenStatement.literal := by
  induction statements generalizing pos with
  | nil =>
    have hend : EndsId after := by
      have hblank := head_blank hafter (show EndsId [] from by intro b hb; cases hb)
      rwa [List.append_nil] at hblank
    rw [List.flatMap_nil, List.nil_append] at hdrop
    obtain ⟨hkeyword, htokens, hle', hdrop'⟩ := tokensAt_keyword hle hdrop hbefore letters_end hend
    have heof := tokensAt_blank hle' (by rw [hdrop']; exact hafter)
    rw [htokens, heof]
    exact ⟨⟨[], tokenAt input pos, [aqlsTokenEof]⟩, .end_ (isKeyword_resembles (by decide) hkeyword),
      ⟨by simp, hkeyword, aqlsTokenEof, rfl, rfl⟩, rfl⟩
  | cons s statements ih =>
    generalize hmore : statements.flatMap WrittenStatement.text ++ (before ++ (endKeyword ++ after)) = more at ih
    have hsplit : input.drop pos = s.before ++ (writeKeyword ++ (s.between ++ (s.literal ++ more))) := by
      rw [hdrop, List.flatMap_cons, List.append_assoc, hmore, WrittenStatement.text]
      simp only [List.append_assoc]
    have hquote : EndsId (s.between ++ (s.literal ++ more)) := by
      refine head_blank s.between_blank ?_
      intro b hb
      obtain rfl : 0x27#8 = b := Option.some.inj hb
      rfl
    obtain ⟨hkeyword, htokens, hle₁, hdrop₁⟩ := tokensAt_keyword hle hsplit s.before_blank letters_write hquote
    obtain ⟨hkind, hbytes, htokens₁, hle₂, hdrop₂⟩ := tokensAt_literal hle₁ hdrop₁ s.between_blank s.body_quote
    obtain ⟨p, hderives, hexact, hliterals⟩ := ih hle₂ hdrop₂
    rw [htokens, htokens₁]
    refine ⟨p.write _ _, .write (isKeyword_resembles (by decide) hkeyword) hkind hderives,
      exact_write_iff.mpr ⟨hkeyword, hexact⟩, ?_⟩
    rw [Program.write, List.map_cons, List.map_cons, hliterals]
    exact congrArg (· :: _) hbytes

/-! ## What is in the grammar is written -/

/-- A lexeme of the tokens at a position, with the spaces in front of it and what is behind it. -/
theorem drop_lexeme (hle : pos ≤ input.length) {token : Token} {ts : List Token} (hgo : token.goesOn = true)
    (h : token :: ts = tokensAt input pos) :
    ∃ ws pos', token = tokenAt input pos ∧ Blank ws ∧ pos' ≤ input.length ∧ ts = tokensAt input pos' ∧
      input.drop pos = ws ++ (token.lexeme.bytes input ++ input.drop pos') := by
  rw [tokensAt_eq hle] at h
  obtain ⟨rfl, hts⟩ := List.cons.inj h
  rw [if_pos hgo] at hts
  obtain ⟨hstr, -, -⟩ := lexeme_of_goesOn hle hgo
  have hstop : (tokenAt input pos).stop = tokenStart input pos + (tokenAt input pos).lexeme.len := by
    unfold Token.stop
    rw [hstr]
  refine ⟨(input.drop pos).takeWhile isSpace, (tokenAt input pos).stop, rfl, fun b hb => List.mem_takeWhile_imp hb,
    (stop_of_goesOn hle hgo).2, hts, ?_⟩
  rw [hstop, ← List.append_assoc]
  exact drop_tokenAt hle

/-- The lexeme of a string literal is a quote, bytes that are no quotes and a quote. -/
theorem literal_body (hle : pos ≤ input.length) (hkind : (tokenAt input pos).kind = .stringLiteral) :
    IsStringLiteral ((tokenAt input pos).lexeme.bytes input) := by
  rcases tokenAt_cases hle with ⟨-, htok⟩ | ⟨-, -, htok⟩ | ⟨-, hlex, -⟩
  · rw [htok] at hkind
    cases hkind
  · rw [htok] at hkind
    cases hkind
  · generalize tokenAt input pos = token at hlex hkind ⊢
    unfold lexemeAt at hlex
    split at hlex
    · rename_i n hn
      obtain rfl := Option.some.inj hlex
      exact TokenGrammarAux.isStringLiteral_take hn
    · rw [Option.map_eq_some_iff] at hlex
      obtain ⟨n, -, rfl⟩ := hlex
      cases hkind

/-- Tokens of the documented grammar are those of a written program. -/
theorem written_of_inGrammar {ts : List Token} (h : InGrammar input ts) (hle : pos ≤ input.length)
    (hts : ts = tokensAt input pos) : ∃ p : WrittenProgram, input.drop pos = p.text := by
  induction h generalizing pos with
  | @endOfFile e t he ht =>
    obtain ⟨ws, pos', -, hws, hle', hrest, hdrop⟩ := drop_lexeme hle (goesOn_of_kind (Or.inl he.1)) hts
    rw [he.2] at hdrop
    have htoken : tokenAt input pos' = t := by
      rw [tokensAt_eq hle'] at hrest
      exact (List.cons.inj hrest).1.symm
    have hblank : Blank (input.drop pos') := by
      refine (spaces_left_iff hle').2 ((tokenAt_eof_iff hle').1 ?_)
      rw [htoken]
      exact ht
    exact ⟨⟨[], ws, input.drop pos', hws, hblank⟩, hdrop⟩
  | @write w s rest hw hs _ ih =>
    obtain ⟨ws, pos₁, -, hws, hle₁, hrest₁, hdrop₁⟩ := drop_lexeme hle (goesOn_of_kind (Or.inl hw.1)) hts
    obtain ⟨ws', pos₂, rfl, hws', hle₂, hrest₂, hdrop₂⟩ := drop_lexeme hle₁ (goesOn_of_kind (Or.inr hs)) hrest₁
    obtain ⟨body, hbody, hquote⟩ := literal_body hle₁ hs
    obtain ⟨p, hp⟩ := ih hle₂ hrest₂
    rw [hw.2] at hdrop₁
    rw [hbody, hp] at hdrop₂
    refine ⟨⟨⟨ws, ws', body, hws, hws', hquote⟩ :: p.statements, p.before, p.after, p.before_blank, p.after_blank⟩, ?_⟩
    rw [hdrop₁, hdrop₂, WrittenProgram.text, WrittenProgram.text, List.flatMap_cons, WrittenStatement.text]
    simp only [WrittenStatement.literal, List.append_assoc]

end SourceTextAux

open SourceTextAux

/-- The tokens of an input are in the documented grammar exactly when the input is a written program: `WRITE` and a string
literal any number of times, then `END`, with any spaces between them and around them. -/
theorem inGrammar_iff_written (input : List Byte) :
    InGrammar input (tokens input) ↔ ∃ p : WrittenProgram, input = p.text := by
  constructor
  · intro h
    exact written_of_inGrammar h (Nat.zero_le _) rfl
  · rintro ⟨p, rfl⟩
    obtain ⟨program, hderives, hexact, -⟩ := written_derives p.statements p.before_blank p.after_blank (Nat.zero_le _) rfl
    exact (inGrammar_iff _ _).mpr ⟨program, hderives, hexact⟩

/-- A written program is parsed back. On the text of any written program `aqls_parser_parse` returns 0, with enough fuel and
with any more, and then the statement list in memory, from its first node on, holds a statement for each one that was
written, in order: its keyword is the `WRITE` and its operand the string literal of that statement. -/
theorem written_parses_back (p : WrittenProgram) (input : CString) (h : input.bytes = p.text) :
    ∃ fuel, ∀ more, ∃ parser, aqlsParserParse (fuel + more) input input.strlen = .ok (0, parser) ∧
      ∃ stmts, Lists parser.nodes (if 0 < stmts.length then some 0 else none) stmts ∧
        (∀ stmt ∈ stmts, IsKeyword input.bytes writeKeyword stmt.writeToken) ∧
        stmts.map (fun stmt => stmt.operand.lexeme.bytes input.bytes) = p.statements.map WrittenStatement.literal := by
  obtain ⟨program, hderives, hexact, hliterals⟩ :=
    written_derives p.statements p.before_blank p.after_blank (Nat.zero_le _) h
  obtain ⟨fuel, hreturns⟩ := AqlsParserAux.ends_returns hderives
  refine ⟨fuel, fun more => ?_⟩
  obtain ⟨parser, hparse⟩ := hreturns more
  obtain ⟨q, hq, -, hnodes⟩ := AqlsParserAux.parse_ok hparse
  obtain rfl := AqlsParserAux.derives_unique hderives hq
  refine ⟨parser, hparse, program.statements, ?_, hexact.statements, hliterals⟩
  rw [hnodes]
  exact lists_linked program.statements (Nat.zero_le _)

/-- `WRITE'a'END`, without a space. -/
theorem written_parses_back_tight :
    ∃ fuel parser stmts, aqlsParserParse fuel ⟨[0x57#8, 0x52#8, 0x49#8, 0x54#8, 0x45#8, 0x27#8, 0x61#8, 0x27#8, 0x45#8,
        0x4E#8, 0x44#8], by decide⟩ 11 = .ok (0, parser) ∧ Lists parser.nodes (some 0) stmts ∧ stmts.length = 1 := by
  have hblank : Blank [] := by
    intro b hb
    cases hb
  obtain ⟨fuel, hparses⟩ := written_parses_back ⟨[⟨[], [], [0x61#8], hblank, hblank, by decide⟩], [], [], hblank, hblank⟩
    ⟨[0x57#8, 0x52#8, 0x49#8, 0x54#8, 0x45#8, 0x27#8, 0x61#8, 0x27#8, 0x45#8, 0x4E#8, 0x44#8], by decide⟩ rfl
  obtain ⟨parser, hparse, stmts, hlists, -, hliterals⟩ := hparses 0
  have hlength : stmts.length = 1 := by
    have hmap := congrArg List.length hliterals
    simpa using hmap
  rw [hlength, if_pos Nat.one_pos] at hlists
  exact ⟨fuel + 0, parser, stmts, hparse, hlists, hlength⟩

end CLangExamples.Aqls
