import CLangExamples.Aqls.Parser
import CLangExamples.Aqls.TokenSequence

/-!
# The grammar

The grammar that the comments of `parser.c` document, over token sequences, and the parser as it acts on them: the code
takes an identifier for a keyword when the two agree as far as the shorter one goes, and does not look behind the end
token.
-/

namespace CLangExamples.Aqls

/-! ## The documented grammar -/

/-- An identifier whose lexeme is the keyword. -/
def IsKeyword (input keyword : List Byte) (token : Token) : Prop := token.kind = .id ∧ token.lexeme.bytes input = keyword

instance (input keyword : List Byte) (token : Token) : Decidable (IsKeyword input keyword token) :=
  inferInstanceAs (Decidable (_ ∧ _))

/-- `<Ast> := <CompilationUnit> EOF`, `<CompilationUnit> := <StatementList> <End>`, `<StatementList> := <Statement>*`,
`<Statement> := <StatementWrite>`, `<StatementWrite> := WRITE STRING_LITERAL`, `<End> := END`. -/
inductive InGrammar (input : List Byte) : List Token → Prop where
  | endOfFile {e t : Token} (he : IsKeyword input endKeyword e) (ht : t.kind = .eof) : InGrammar input [e, t]
  | write {w s : Token} {rest : List Token} (hw : IsKeyword input writeKeyword w) (hs : s.kind = .stringLiteral)
      (hrest : InGrammar input rest) : InGrammar input (w :: s :: rest)

/-! ## The grammar that the code accepts -/

/-- An identifier that agrees with the keyword as far as the shorter of the two goes. -/
def ResemblesKeyword (input keyword : List Byte) (token : Token) : Prop :=
  token.kind = .id ∧ token.lexeme.bytes input ≠ [] ∧
    (token.lexeme.bytes input <+: keyword ∨ keyword <+: token.lexeme.bytes input)

instance (input keyword : List Byte) (token : Token) : Decidable (ResemblesKeyword input keyword token) :=
  inferInstanceAs (Decidable (_ ∧ _ ∧ _))

/-- A program: its statements, its end token and the tokens behind it. -/
structure Program where
  statements : List Stmt
  endToken : Token
  after : List Token
  deriving DecidableEq

/-- A program with one more statement in front. -/
def Program.write (w s : Token) (p : Program) : Program :=
  { p with statements := aqlsAstStatementWriteNew w s :: p.statements }

/-- The token sequence is the program, up to identifiers that resemble the keywords and with anything behind the end
token. -/
inductive Derives (input : List Byte) : List Token → Program → Prop where
  | end_ {e : Token} {after : List Token} (he : ResemblesKeyword input endKeyword e) :
      Derives input (e :: after) ⟨[], e, after⟩
  | write {w s : Token} {rest : List Token} {p : Program} (hw : ResemblesKeyword input writeKeyword w)
      (hs : s.kind = .stringLiteral) (hrest : Derives input rest p) : Derives input (w :: s :: rest) (p.write w s)

/-- The write token of a statement. -/
def Stmt.writeToken : Stmt → Token
  | .write stmt => stmt.writeToken

/-- The keywords of a program are the keywords, and the end of the input follows it. -/
structure Program.Exact (input : List Byte) (p : Program) : Prop where
  statements : ∀ stmt ∈ p.statements, IsKeyword input writeKeyword stmt.writeToken
  end_ : IsKeyword input endKeyword p.endToken
  after : ∃ t, p.after = [t] ∧ t.kind = .eof

theorem isKeyword_resembles {input keyword : List Byte} {token : Token} (hne : keyword ≠ [])
    (h : IsKeyword input keyword token) : ResemblesKeyword input keyword token := by
  unfold ResemblesKeyword
  rw [h.2]
  exact ⟨h.1, hne, Or.inl List.prefix_rfl⟩

/-- A statement keeps a program exact when its write token is the keyword. -/
theorem exact_write_iff {input : List Byte} {w s : Token} {p : Program} :
    (p.write w s).Exact input ↔ IsKeyword input writeKeyword w ∧ p.Exact input := by
  constructor
  · intro h
    refine ⟨h.statements _ (List.mem_cons_self ..), ⟨?_, h.end_, h.after⟩⟩
    exact fun stmt hstmt => h.statements stmt (List.mem_cons_of_mem _ hstmt)
  · intro h
    refine ⟨?_, h.2.end_, h.2.after⟩
    intro stmt hstmt
    rcases List.mem_cons.mp hstmt with rfl | hstmt
    · exact h.1
    · exact h.2.statements stmt hstmt

/-- A token sequence is in the documented grammar exactly when it is an exact program. -/
theorem inGrammar_iff (input : List Byte) (ts : List Token) :
    InGrammar input ts ↔ ∃ p, Derives input ts p ∧ p.Exact input := by
  constructor
  · intro h
    induction h with
    | @endOfFile e t he ht =>
      exact ⟨⟨[], e, [t]⟩, .end_ (isKeyword_resembles (by decide) he), ⟨by simp, he, t, rfl, ht⟩⟩
    | @write w s rest hw hs _ ih =>
      obtain ⟨p, hp, hexact⟩ := ih
      exact ⟨p.write w s, .write (isKeyword_resembles (by decide) hw) hs hp, exact_write_iff.mpr ⟨hw, hexact⟩⟩
  · intro h
    obtain ⟨p, hp, hexact⟩ := h
    induction hp with
    | @end_ e after he =>
      obtain ⟨t, rfl, hkind⟩ := hexact.after
      exact .endOfFile hexact.end_ hkind
    | @write w s rest p hw hs _ ih =>
      obtain ⟨hkeyword, hexact'⟩ := exact_write_iff.mp hexact
      exact .write hkeyword hs (ih hexact')

/-! ## The program of a token sequence -/

/-- The statements that a token sequence starts with, and what follows them; none when a keyword has no string literal
after it. -/
def takeStatements (input : List Byte) : List Token → Option (List Stmt × List Token)
  | w :: s :: rest =>
    if ResemblesKeyword input writeKeyword w then
      if s.kind = .stringLiteral then
        (takeStatements input rest).map fun p => (aqlsAstStatementWriteNew w s :: p.1, p.2)
      else none
    else some ([], w :: s :: rest)
  | ts => some ([], ts)

/-- The program that a token sequence starts with. -/
def parseTokens (input : List Byte) (ts : List Token) : Option Program :=
  match takeStatements input ts with
  | some (statements, e :: after) => if ResemblesKeyword input endKeyword e then some ⟨statements, e, after⟩ else none
  | _ => none

/-- An identifier that resembles a keyword starts as it does. -/
theorem head?_of_resembles {input : List Byte} {k : Byte} {keyword : List Byte} {token : Token}
    (h : ResemblesKeyword input (k :: keyword) token) : (token.lexeme.bytes input).head? = some k := by
  obtain ⟨-, hne, hprefix⟩ := h
  cases hbytes : token.lexeme.bytes input with
  | nil => exact absurd hbytes hne
  | cons b bytes =>
    rw [hbytes, List.cons_prefix_cons, List.cons_prefix_cons] at hprefix
    rcases hprefix with ⟨rfl, -⟩ | ⟨rfl, -⟩
    · rfl
    · rfl

/-- No identifier resembles both keywords. -/
theorem resembles_end_not_write {input : List Byte} {token : Token} (h : ResemblesKeyword input endKeyword token) :
    ¬ResemblesKeyword input writeKeyword token := by
  intro hw
  have heq := (head?_of_resembles h).symm.trans (head?_of_resembles hw)
  revert heq
  decide

/-- Without a keyword in front there are no statements to take. -/
theorem takeStatements_of_not {input : List Byte} {t : Token} {ts : List Token}
    (h : ¬ResemblesKeyword input writeKeyword t) : takeStatements input (t :: ts) = some ([], t :: ts) := by
  cases ts with
  | nil => rfl
  | cons s rest => rw [takeStatements, if_neg h]

/-- A token sequence without a keyword in front is a program when its first token resembles the end keyword. -/
theorem parseTokens_of_not {input : List Byte} {t : Token} {ts : List Token}
    (h : ¬ResemblesKeyword input writeKeyword t) :
    parseTokens input (t :: ts) = if ResemblesKeyword input endKeyword t then some ⟨[], t, ts⟩ else none := by
  unfold parseTokens
  rw [takeStatements_of_not h]

/-- A statement in front of a token sequence. -/
theorem parseTokens_write {input : List Byte} {w s : Token} {rest : List Token}
    (hw : ResemblesKeyword input writeKeyword w) (hs : s.kind = .stringLiteral) :
    parseTokens input (w :: s :: rest) = (parseTokens input rest).map (Program.write w s) := by
  rw [parseTokens, takeStatements, if_pos hw, if_pos hs, parseTokens]
  cases takeStatements input rest with
  | none => rfl
  | some p =>
    obtain ⟨stmts, after⟩ := p
    cases after with
    | nil => rfl
    | cons e after =>
      simp only [Option.map_some]
      split
      · rfl
      · rfl

/-- `parseTokens` finds the program that a token sequence is. -/
theorem parseTokens_eq_some_iff (input : List Byte) (ts : List Token) (p : Program) :
    parseTokens input ts = some p ↔ Derives input ts p := by
  constructor
  · intro hp
    induction ts using takeStatements.induct input generalizing p with
    | case1 w s rest hw hs ih =>
      rw [parseTokens_write hw hs, Option.map_eq_some_iff] at hp
      obtain ⟨p', hp', rfl⟩ := hp
      exact .write hw hs (ih p' hp')
    | case2 w s rest hw hs =>
      unfold parseTokens at hp
      rw [takeStatements, if_pos hw, if_neg hs] at hp
      cases hp
    | case3 w s rest hw =>
      rw [parseTokens_of_not hw] at hp
      split at hp
      · rename_i he
        obtain rfl := Option.some.inj hp
        exact .end_ he
      · cases hp
    | case4 ts hts =>
      match ts with
      | [] => cases hp
      | [t] =>
        unfold parseTokens at hp
        simp only [takeStatements] at hp
        split at hp
        · rename_i he
          obtain rfl := Option.some.inj hp
          exact .end_ he
        · cases hp
      | w :: s :: rest => exact absurd rfl (hts w s rest)
  · intro h
    induction h with
    | end_ he => rw [parseTokens_of_not (resembles_end_not_write he), if_pos he]
    | write hw hs _ ih =>
      rw [parseTokens_write hw hs, ih]
      rfl

/-! ## The statement list -/

/-- The statements that a list in memory holds, from a pointer on through `next`. -/
inductive Lists (nodes : List StmtList) : StmtListPointer → List Stmt → Prop where
  | nil : Lists nodes none []
  | cons {pointer : Nat} {node : StmtList} {stmts : List Stmt} (hnode : nodes[pointer]? = some node)
      (hnext : Lists nodes node.next stmts) : Lists nodes (some pointer) (node.statement :: stmts)

end CLangExamples.Aqls
