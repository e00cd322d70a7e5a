import CLangExamples.Lemmas.AqlsParser

/-!
# What the parser accepts and what it stores

`aqls_parser_parse` always ends. It recognises the documented grammar on the inputs whose programs are exact
(`parse_recognises_iff`): elsewhere it takes an identifier for a keyword that only agrees with it as far as the shorter one
goes, or does not see what follows the end token. The statement list is built in memory (`statements_in_memory`), but the
tree holds it only when it is empty (`ast_represents_iff`), since `parse_statements` returns a pointer that it never
assigned.
-/

namespace CLangExamples.Aqls

/-! ## Recognition -/

/-- The call ends, and its result has the property; more fuel than the loop needs changes nothing. -/
def Ends (input : CString) (P : Except Exit (Nat × Parser) → Prop) : Prop :=
  ∃ fuel, ∀ more, P (aqlsParserParse (fuel + more) input input.strlen)

/-- The call returns 0. -/
def Returns (result : Except Exit (Nat × Parser)) : Prop := ∃ parser, result = .ok (0, parser)

/-- The call returns 0 on an input of the documented grammar and ends in `panic_unexpected_token` on every other. -/
structure RecognisesGrammar (input : CString) : Prop where
  accepts : InGrammar input.bytes (tokens input.bytes) → Ends input Returns
  rejects : ¬InGrammar input.bytes (tokens input.bytes) → Ends input Panics

namespace AqlsParserAux

/-- With fuel for every token the call ends. -/
theorem parse_ends (input : CString) (more : Nat) :
    (∃ p, Derives input.bytes (tokens input.bytes) p ∧
      Returns (aqlsParserParse ((tokens input.bytes).length + 1 + more) input input.strlen)) ∨
    ((∀ p, ¬Derives input.bytes (tokens input.bytes) p) ∧
      Panics (aqlsParserParse ((tokens input.bytes).length + 1 + more) input input.strlen)) := by
  have hspec := parse_spec ((tokens input.bytes).length + 1 + more) input
  generalize aqlsParserParse ((tokens input.bytes).length + 1 + more) input input.strlen = result at hspec
  cases hspec with
  | returns hp _ _ => exact Or.inl ⟨_, hp, _, rfl⟩
  | panics hnone hpanics => exact Or.inr ⟨hnone, hpanics⟩
  | outOfFuel hfuel => omega

/-- A program is accepted, whether it is exact or not. -/
theorem ends_returns {input : CString} {p : Program} (hp : Derives input.bytes (tokens input.bytes) p) :
    Ends input Returns := by
  refine ⟨(tokens input.bytes).length + 1, fun more => ?_⟩
  rcases parse_ends input more with ⟨-, -, hreturns⟩ | ⟨hnone, -⟩
  · exact hreturns
  · exact absurd hp (hnone p)

/-- What is no program is rejected. -/
theorem ends_panics {input : CString} (hnone : ∀ p, ¬Derives input.bytes (tokens input.bytes) p) : Ends input Panics := by
  refine ⟨(tokens input.bytes).length + 1, fun more => ?_⟩
  rcases parse_ends input more with ⟨p, hp, -⟩ | ⟨-, hpanics⟩
  · exact absurd hp (hnone p)
  · exact hpanics

/-- A call does not both return and panic. -/
theorem not_returns_and_panics {input : CString} (hr : Ends input Returns) (hp : Ends input Panics) : False := by
  obtain ⟨fuel, hreturns⟩ := hr
  obtain ⟨fuel', hpanics⟩ := hp
  obtain ⟨parser, hok⟩ := hreturns fuel'
  obtain ⟨line, column, expected, found, herror⟩ := hpanics fuel
  rw [Nat.add_comm, herror] at hok
  cases hok

/-- A token sequence is at most one program. -/
theorem derives_unique {input : List Byte} {ts : List Token} {p q : Program} (hp : Derives input ts p)
    (hq : Derives input ts q) : p = q := by
  rw [← parseTokens_eq_some_iff] at hp hq
  rw [hp, Option.some.injEq] at hq
  exact hq

/-- A program that is not exact is accepted although it is not in the documented grammar. -/
theorem not_recognises {input : CString} {p : Program} (hp : Derives input.bytes (tokens input.bytes) p)
    (hnot : ¬p.Exact input.bytes) : ¬RecognisesGrammar input := by
  intro h
  have hgrammar : ¬InGrammar input.bytes (tokens input.bytes) := by
    rw [inGrammar_iff]
    intro hex
    obtain ⟨q, hq, hexact⟩ := hex
    rw [derives_unique hp hq] at hnot
    exact hnot hexact
  exact not_returns_and_panics (ends_returns hp) (h.rejects hgrammar)

end AqlsParserAux

open AqlsParserAux

/-- The parser recognises the documented grammar on an input exactly when its tokens are no program that is not exact. -/
theorem parse_recognises_iff (input : CString) :
    RecognisesGrammar input ↔ ∀ p, Derives input.bytes (tokens input.bytes) p → p.Exact input.bytes := by
  constructor
  · intro h p hp
    by_contra hnot
    exact not_recognises hp hnot h
  · intro h
    refine ⟨?_, ?_⟩
    · intro hgrammar
      obtain ⟨p, hp, -⟩ := (inGrammar_iff _ _).mp hgrammar
      exact ends_returns hp
    · intro hgrammar
      refine ends_panics fun p hp => ?_
      exact hgrammar ((inGrammar_iff _ _).mpr ⟨p, hp, h p hp⟩)

/-- `E` and `END X` are accepted. -/
theorem parse_accepts_outside_grammar :
    ¬RecognisesGrammar ⟨[0x45#8], by decide⟩ ∧
    ¬RecognisesGrammar ⟨[0x45#8, 0x4E#8, 0x44#8, 0x20#8, 0x58#8], by decide⟩ := by
  constructor
  · have hp : Derives [0x45#8] (tokens [0x45#8]) ⟨[], ⟨.id, ⟨.input 0, 1⟩⟩, [aqlsTokenEof]⟩ :=
      (parseTokens_eq_some_iff _ _ _).mp (by decide)
    refine not_recognises hp ?_
    intro hexact
    exact absurd hexact.end_ (by decide)
  · have hp : Derives [0x45#8, 0x4E#8, 0x44#8, 0x20#8, 0x58#8] (tokens [0x45#8, 0x4E#8, 0x44#8, 0x20#8, 0x58#8])
        ⟨[], ⟨.id, ⟨.input 0, 3⟩⟩, [⟨.id, ⟨.input 4, 1⟩⟩, aqlsTokenEof]⟩ :=
      (parseTokens_eq_some_iff _ _ _).mp (by decide)
    refine not_recognises hp ?_
    intro hexact
    obtain ⟨t, ht, -⟩ := hexact.after
    cases ht

/-! ## The tree -/

/-- The tree that a parser stored is the program of the input: its list holds the statements in order, each with its own
write token and operand, and its end is the end token. -/
def RepresentsProgram (input : CString) (parser : Parser) : Prop :=
  ∃ ast p, parser.ast = some ast ∧ Derives input.bytes (tokens input.bytes) p ∧
    Lists parser.nodes ast.compilationUnit.statements p.statements ∧ ast.compilationUnit.end_.endToken = p.endToken

namespace AqlsParserAux

/-- What an accepted input leaves: the nodes of the statements, and a tree without them. -/
theorem parse_ok {fuel : Nat} {input : CString} {parser : Parser}
    (h : aqlsParserParse fuel input input.strlen = .ok (0, parser)) :
    ∃ p, Derives input.bytes (tokens input.bytes) p ∧ parser.ast = some ⟨⟨none, ⟨p.endToken⟩⟩⟩ ∧
      parser.nodes = linked p.statements := by
  have hspec := parse_spec fuel input
  rw [h] at hspec
  cases hspec with
  | returns hp hast hnodes => exact ⟨_, hp, hast, hnodes⟩
  | panics _ hpanics =>
    obtain ⟨line, column, expected, found, herror⟩ := hpanics
    cases herror

/-- A program has no statements when its first token does not resemble the keyword. -/
theorem statements_eq_nil_iff {input : List Byte} {t : Token} {ts : List Token} {p : Program}
    (hp : Derives input (t :: ts) p) : p.statements = [] ↔ ¬ResemblesKeyword input writeKeyword t := by
  cases hp with
  | end_ he => exact ⟨fun _ => resembles_end_not_write he, fun _ => rfl⟩
  | write hw _ _ => exact ⟨fun hnil => absurd hnil (List.cons_ne_nil _ _), fun hnot => absurd hw hnot⟩

/-- `NULL` lists nothing. -/
theorem lists_none_iff {nodes : List StmtList} {stmts : List Stmt} : Lists nodes none stmts ↔ stmts = [] := by
  constructor
  · intro h
    cases h
    rfl
  · intro h
    rw [h]
    exact .nil

end AqlsParserAux

/-- In memory the nodes of an accepted input list its statements, from the first node on. -/
theorem statements_in_memory {fuel : Nat} {input : CString} {parser : Parser}
    (h : aqlsParserParse fuel input input.strlen = .ok (0, parser)) :
    ∃ p, Derives input.bytes (tokens input.bytes) p ∧
      Lists parser.nodes (if 0 < p.statements.length then some 0 else none) p.statements := by
  obtain ⟨p, hp, -, hnodes⟩ := parse_ok h
  refine ⟨p, hp, ?_⟩
  rw [hnodes]
  exact lists_linked p.statements (Nat.zero_le _)

/-- The tree of an accepted input is its program exactly when its first token does not resemble `WRITE`, so that there are
no statements. -/
theorem ast_represents_iff (fuel : Nat) (input : CString) (parser : Parser)
    (h : aqlsParserParse fuel input input.strlen = .ok (0, parser)) :
    RepresentsProgram input parser ↔ ¬ResemblesKeyword input.bytes writeKeyword (tokenAt input.bytes 0) := by
  obtain ⟨p, hp, hast, -⟩ := parse_ok h
  have hfirst : tokens input.bytes = tokenAt input.bytes 0 :: _ := tokensAt_eq (Nat.zero_le _)
  have hnil : p.statements = [] ↔ ¬ResemblesKeyword input.bytes writeKeyword (tokenAt input.bytes 0) := by
    rw [hfirst] at hp
    exact statements_eq_nil_iff hp
  rw [← hnil]
  constructor
  · intro hrep
    obtain ⟨ast, q, hast', hq, hlists, -⟩ := hrep
    rw [hast, Option.some.injEq] at hast'
    subst hast'
    rw [derives_unique hp hq]
    exact lists_none_iff.mp hlists
  · intro hstmts
    exact ⟨_, p, hast, hp, lists_none_iff.mpr hstmts, rfl⟩

/-- The tree of `END`, the program of `minimal.nsp`. -/
theorem ast_represents_minimal :
    ∃ fuel parser, aqlsParserParse fuel ⟨endKeyword, by decide⟩ endKeyword.length = .ok (0, parser) ∧
      RepresentsProgram ⟨endKeyword, by decide⟩ parser := by
  have hp : Derives endKeyword (tokens endKeyword) ⟨[], ⟨.id, ⟨.input 0, 3⟩⟩, [aqlsTokenEof]⟩ :=
    (parseTokens_eq_some_iff _ _ _).mp (by decide)
  obtain ⟨fuel, hreturns⟩ := ends_returns (show Derives (CString.mk endKeyword (by decide)).bytes _ _ from hp)
  obtain ⟨parser, hparse⟩ := hreturns 0
  exact ⟨fuel, parser, hparse, (ast_represents_iff fuel _ parser hparse).mpr (by decide)⟩

/-- The program of `hello-world.nsp`. -/
def helloWorld : CString where
  bytes := [0x57#8, 0x52#8, 0x49#8, 0x54#8, 0x45#8, 0x20#8, 0x27#8, 0x48#8, 0x45#8, 0x4C#8, 0x4C#8,
    0x4F#8, 0x2C#8, 0x20#8, 0x57#8, 0x4F#8, 0x52#8, 0x4C#8, 0x44#8, 0x21#8, 0x27#8, 0x0A#8,
    0x45#8, 0x4E#8, 0x44#8, 0x0A#8]
  no_nul := by decide

/-- `hello-world.nsp` is accepted, and its tree has lost the statement. -/
theorem ast_loses_statements :
    ∃ fuel parser, aqlsParserParse fuel helloWorld helloWorld.strlen = .ok (0, parser) ∧
      ¬RepresentsProgram helloWorld parser := by
  have hp : Derives helloWorld.bytes (tokens helloWorld.bytes)
      ⟨[.write ⟨⟨.id, ⟨.input 0, 5⟩⟩, ⟨.stringLiteral, ⟨.input 6, 15⟩⟩⟩], ⟨.id, ⟨.input 22, 3⟩⟩, [aqlsTokenEof]⟩ :=
    (parseTokens_eq_some_iff _ _ _).mp (by decide)
  obtain ⟨fuel, hreturns⟩ := ends_returns hp
  obtain ⟨parser, hparse⟩ := hreturns 0
  refine ⟨fuel, parser, hparse, ?_⟩
  intro hrep
  obtain ⟨ast, q, hast, hq, hlists, -⟩ := hrep
  obtain ⟨p, -, hstored, -⟩ := parse_ok hparse
  rw [hstored, Option.some.injEq] at hast
  subst hast
  have hnil := lists_none_iff.mp hlists
  rw [← derives_unique hp hq] at hnil
  cases hnil

end CLangExamples.Aqls
