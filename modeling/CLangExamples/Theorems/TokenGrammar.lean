import CLangExamples.Theorems.AqlsLexer

/-!
# The token language

String literals and identifiers as they are meant: an identifier is a letter or `#` and then letters, `#` and dots. The
bracket expression of the source has `\\.` in a C string, which is `\.`, and inside brackets the backslash stands for
itself. So the lexer keeps to the token language exactly where no backslash follows an identifier.
-/

namespace CLangExamples.Aqls

/-- A quote, bytes that are not quotes and a quote. -/
def IsStringLiteral (w : List Byte) : Prop := ∃ body, w = 0x27#8 :: (body ++ [0x27#8]) ∧ 0x27#8 ∉ body

/-- A letter or `#`, and then letters, `#` and dots. -/
def IsId (w : List Byte) : Prop := ∃ a t, w = a :: t ∧ isIdStart a = true ∧ ∀ b ∈ t, isIdStart b = true ∨ b = 0x2E#8

/-- What a token should be that is returned with the input at a position. -/
structure TokenLaw (input : List Byte) (pos : Nat) (token : Token) : Prop where
  stringLiteral : token.kind = .stringLiteral →
    token.lexeme.str = .input (tokenStart input pos) ∧ IsStringLiteral (token.lexeme.bytes input)
  id : token.kind = .id → token.lexeme.str = .input (tokenStart input pos) ∧ IsId (token.lexeme.bytes input)
  longest : token.kind = .stringLiteral ∨ token.kind = .id →
    ∀ w, w <+: input.drop (tokenStart input pos) → IsStringLiteral w ∨ IsId w → w.length ≤ (token.lexeme.bytes input).length
  eof_iff : token.kind = .eof ↔ ∀ b ∈ input.drop pos, isSpace b = true
  error_iff : token.kind = .error ↔ (∃ b ∈ input.drop pos, isSpace b = false) ∧
    ∀ w, w <+: input.drop (tokenStart input pos) → ¬(IsStringLiteral w ∨ IsId w)

/-- The next token starts with an identifier that a backslash follows. -/
def BackslashBehindId (input : List Byte) (pos : Nat) : Prop :=
  ∃ w rest, input.drop (tokenStart input pos) = w ++ 0x5C#8 :: rest ∧ IsId w

namespace TokenGrammarAux

/-! ## Lexemes at the start of a string -/

theorem isQuote_iff (b : Byte) : isQuote b = true ↔ b = 0x27#8 := beq_iff_eq

theorem isIdStart_not_quote {b : Byte} (h : isIdStart b = true) : isQuote b = false := by
  revert b
  decide

theorem isIdPart_iff (b : Byte) : isIdPart b = true ↔ (isIdStart b = true ∨ b = 0x2E#8) ∨ b = 0x5C#8 := by
  unfold isIdPart
  rw [Bool.or_eq_true, Bool.or_eq_true, beq_iff_eq, beq_iff_eq, or_right_comm]

theorem backslash_not_id : ¬(isIdStart 0x5C#8 = true ∨ (0x5C#8 : Byte) = 0x2E#8) := by decide

/-- A string literal in front is the one that `stringLen` measures. -/
theorem stringLen_of_front {w r : List Byte} (h : w <+: r) (hw : IsStringLiteral w) : stringLen r = some w.length := by
  obtain ⟨body, rfl, hbody⟩ := hw
  obtain ⟨rest, rfl⟩ := h
  have hall : ∀ b ∈ body, (!isQuote b) = true := by
    intro b hb
    rw [Bool.not_eq_true', ← Bool.not_eq_true, isQuote_iff]
    rintro rfl
    exact hbody hb
  have hrun : (body ++ [0x27#8] ++ rest).takeWhile (fun b => !isQuote b) = body :=
    run_before_quote (List.append_assoc body [0x27#8] rest) hall rfl
  rw [List.cons_append, stringLen, hrun, if_pos ⟨rfl, by simp⟩]
  simp

/-- What `stringLen` measures is a string literal. -/
theorem isStringLiteral_take {r : List Byte} {n : Nat} (h : stringLen r = some n) : IsStringLiteral (r.take n) := by
  match r with
  | q :: r =>
    rw [stringLen] at h
    split at h
    · rename_i hq
      obtain rfl := Option.some.inj h
      obtain ⟨q', rest, hr, hq'⟩ := run_split (fun b => !isQuote b) hq.2
      rw [Bool.not_eq_false'] at hq'
      refine ⟨r.takeWhile (fun b => !isQuote b), ?_, ?_⟩
      · rw [List.take_succ_cons, (isQuote_iff q).1 hq.1, ← (isQuote_iff q').1 hq']
        congr 1
        generalize hbody : r.takeWhile (fun b => !isQuote b) = body at hr
        rw [hr, List.take_length_add_append]
        rfl
      · intro hmem
        have hnot : (!isQuote 0x27#8) = true := List.mem_takeWhile_imp (p := fun b => !isQuote b) hmem
        exact absurd hnot (by decide)
    · cases h

/-- An identifier in front is part of the one that `idLen` measures, and no string literal is there. -/
theorem idLen_of_front {w r : List Byte} (h : w <+: r) (hw : IsId w) :
    stringLen r = none ∧ ∃ n, idLen r = some n ∧ w.length ≤ n := by
  obtain ⟨a, t, rfl, ha, ht⟩ := hw
  obtain ⟨rest, rfl⟩ := h
  have hall : ∀ b ∈ t, isIdPart b = true := fun b hb => (isIdPart_iff b).2 (Or.inl (ht b hb))
  constructor
  · rw [List.cons_append, stringLen, if_neg (fun hq => by simp [isIdStart_not_quote ha] at hq)]
  · rw [List.cons_append, idLen, if_pos ha]
    refine ⟨_, rfl, ?_⟩
    rw [List.takeWhile_append_of_pos hall, List.length_append, List.length_cons]
    omega

/-- What `idLen` measures is a letter or `#` and the run of letters, `#`, dots and backslashes behind it. -/
theorem idLen_take {r : List Byte} {n : Nat} (h : idLen r = some n) :
    ∃ a t, r = a :: t ∧ isIdStart a = true ∧ r.take n = a :: t.takeWhile isIdPart := by
  match r with
  | a :: r =>
    rw [idLen] at h
    split at h
    · rename_i ha
      obtain rfl := Option.some.inj h
      refine ⟨a, r, rfl, ha, ?_⟩
      rw [List.take_succ_cons, ← List.prefix_iff_eq_take.mp (List.takeWhile_prefix isIdPart)]
    · cases h

theorem backslash_not_mem_id {w : List Byte} (h : IsId w) : 0x5C#8 ∉ w := by
  obtain ⟨a, t, rfl, ha, ht⟩ := h
  intro hmem
  rcases List.mem_cons.1 hmem with rfl | hmem
  · exact backslash_not_id (Or.inl ha)
  · exact backslash_not_id (ht _ hmem)

/-- The identifier that the code measures is one of the language exactly when no backslash follows an identifier. -/
theorem isId_take_iff {r : List Byte} {n : Nat} (h : idLen r = some n) :
    IsId (r.take n) ↔ ¬∃ w rest, r = w ++ 0x5C#8 :: rest ∧ IsId w := by
  obtain ⟨a, t, rfl, ha, htake⟩ := idLen_take h
  rw [htake]
  constructor
  · rintro hid ⟨w, rest, heq, a', t', rfl, ha', ht'⟩
    rw [List.cons_append] at heq
    obtain ⟨rfl, rfl⟩ := List.cons.inj heq
    have hall : ∀ b ∈ t', isIdPart b = true := fun b hb => (isIdPart_iff b).2 (Or.inl (ht' b hb))
    refine backslash_not_mem_id hid (List.mem_cons_of_mem _ ?_)
    rw [List.takeWhile_append_of_pos hall, List.takeWhile_cons_of_pos (by decide)]
    exact List.mem_append_right _ List.mem_cons_self
  · intro hno
    refine ⟨a, _, rfl, ha, ?_⟩
    intro b hb
    rcases (isIdPart_iff b).1 (List.mem_takeWhile_imp hb) with hb' | rfl
    · exact hb'
    · -- the part before the first backslash is an identifier of the language
      exfalso
      obtain ⟨front, back, hrun, hfront⟩ := List.eq_append_cons_of_mem hb
      refine hno ⟨a :: front, back ++ t.dropWhile isIdPart, ?_, a, front, rfl, ha, ?_⟩
      · calc a :: t = a :: (t.takeWhile isIdPart ++ t.dropWhile isIdPart) := by rw [List.takeWhile_append_dropWhile]
          _ = a :: front ++ 0x5C#8 :: (back ++ t.dropWhile isIdPart) := by rw [hrun]; simp
      · intro c hc
        have hpart : isIdPart c = true := by
          apply List.mem_takeWhile_imp (l := t)
          rw [hrun]
          exact List.mem_append_left _ hc
        rcases (isIdPart_iff c).1 hpart with hc' | rfl
        · exact hc'
        · exact absurd hc hfront

/-! ## The token at a position -/

variable {input : List Byte} {pos : Nat}

/-- A byte that is no space is left before the end of the input. -/
theorem exists_not_space (h : pos ≤ input.length) (hlt : tokenStart input pos < input.length) :
    ∃ b ∈ input.drop pos, isSpace b = false := by
  by_contra hnone
  have hall : ∀ b ∈ input.drop pos, isSpace b = true := by
    intro b hb
    by_contra hb'
    exact hnone ⟨b, hb, Bool.not_eq_true _ ▸ hb'⟩
  have hend := (spaces_left_iff h).1 hall
  omega

/-- A token that is no lexeme keeps the law when its kind is the right one. -/
theorem tokenLaw_of_no_lexeme {token : Token} (hstring : token.kind ≠ .stringLiteral) (hid : token.kind ≠ .id)
    (heof : token.kind = .eof ↔ ∀ b ∈ input.drop pos, isSpace b = true)
    (herror : token.kind = .error ↔ (∃ b ∈ input.drop pos, isSpace b = false) ∧
      ∀ w, w <+: input.drop (tokenStart input pos) → ¬(IsStringLiteral w ∨ IsId w)) : TokenLaw input pos token where
  stringLiteral hk := absurd hk hstring
  id hk := absurd hk hid
  longest hk := (hk.elim hstring hid).elim
  eof_iff := heof
  error_iff := herror

/-- At the end of the input the law holds, and no identifier starts there. -/
theorem tokenLaw_eof (h : pos ≤ input.length) (hend : tokenStart input pos = input.length) :
    TokenLaw input pos aqlsTokenEof ∧ ¬BackslashBehindId input pos := by
  have hall := (spaces_left_iff h).2 hend
  constructor
  · refine tokenLaw_of_no_lexeme TokenKind.noConfusion TokenKind.noConfusion (iff_of_true rfl hall)
      (iff_of_false TokenKind.noConfusion ?_)
    rintro ⟨⟨b, hb, hspace⟩, -⟩
    rw [hall b hb] at hspace
    cases hspace
  · rintro ⟨w, rest, heq, -⟩
    rw [hend, List.drop_length] at heq
    simp at heq

/-- At a byte that starts no lexeme the law holds, and no identifier starts there. -/
theorem tokenLaw_error (h : pos ≤ input.length) (hlt : tokenStart input pos < input.length)
    (hlex : lexemeAt (input.drop (tokenStart input pos)) (tokenStart input pos) = none) :
    TokenLaw input pos (errorToken (tokenStart input pos)) ∧ ¬BackslashBehindId input pos := by
  have hnone : ∀ w, w <+: input.drop (tokenStart input pos) → ¬(IsStringLiteral w ∨ IsId w) := by
    rintro w hw (hstring | hid)
    · rw [lexemeAt, stringLen_of_front hw hstring] at hlex
      cases hlex
    · obtain ⟨hstring, n, hn, -⟩ := idLen_of_front hw hid
      rw [lexemeAt, hstring, hn] at hlex
      cases hlex
  constructor
  · refine tokenLaw_of_no_lexeme TokenKind.noConfusion TokenKind.noConfusion (iff_of_false TokenKind.noConfusion ?_)
      (iff_of_true rfl ⟨exists_not_space h hlt, hnone⟩)
    exact fun hall => absurd ((spaces_left_iff h).1 hall) (Nat.ne_of_lt hlt)
  · rintro ⟨w, rest, heq, hid⟩
    exact hnone w (heq ▸ List.prefix_append _ _) (Or.inr hid)

/-- A lexeme of the language that is the longest one keeps the law. -/
theorem tokenLaw_lexeme (h : pos ≤ input.length) (hlt : tokenStart input pos < input.length) {kind : TokenKind} {n : Nat}
    (hkind : kind = .stringLiteral ∧ IsStringLiteral ((input.drop (tokenStart input pos)).take n) ∨
      kind = .id ∧ IsId ((input.drop (tokenStart input pos)).take n))
    (hlongest : ∀ w, w <+: input.drop (tokenStart input pos) → IsStringLiteral w ∨ IsId w →
      w.length ≤ ((input.drop (tokenStart input pos)).take n).length) :
    TokenLaw input pos ⟨kind, ⟨.input (tokenStart input pos), n⟩⟩ := by
  have hsome : IsStringLiteral ((input.drop (tokenStart input pos)).take n) ∨
      IsId ((input.drop (tokenStart input pos)).take n) := hkind.imp And.right And.right
  have hgo : kind ≠ .eof ∧ kind ≠ .error := by
    rcases hkind with ⟨rfl, -⟩ | ⟨rfl, -⟩
    · exact ⟨TokenKind.noConfusion, TokenKind.noConfusion⟩
    · exact ⟨TokenKind.noConfusion, TokenKind.noConfusion⟩
  refine ⟨?_, ?_, fun _ => hlongest, iff_of_false hgo.1 ?_, iff_of_false hgo.2 ?_⟩
  · rintro rfl
    rcases hkind with ⟨-, hstring⟩ | ⟨hk, -⟩
    · exact ⟨rfl, hstring⟩
    · cases hk
  · rintro rfl
    rcases hkind with ⟨hk, -⟩ | ⟨-, hid⟩
    · cases hk
    · exact ⟨rfl, hid⟩
  · exact fun hall => absurd ((spaces_left_iff h).1 hall) (Nat.ne_of_lt hlt)
  · rintro ⟨-, hnone⟩
    exact hnone _ (List.take_prefix _ _) hsome

/-- The token at a position keeps the law exactly when no backslash follows an identifier there. -/
theorem tokenLaw_iff (h : pos ≤ input.length) :
    TokenLaw input pos (tokenAt input pos) ↔ ¬BackslashBehindId input pos := by
  rcases tokenAt_cases h with ⟨hend, htok⟩ | ⟨hlt, hlex, htok⟩ | ⟨hlt, hlex, -⟩
  · rw [htok]
    obtain ⟨hlaw, hno⟩ := tokenLaw_eof h hend
    exact iff_of_true hlaw hno
  · rw [htok]
    obtain ⟨hlaw, hno⟩ := tokenLaw_error h hlt hlex
    exact iff_of_true hlaw hno
  · generalize tokenAt input pos = token at hlex ⊢
    unfold lexemeAt at hlex
    split at hlex
    · rename_i n hn
      obtain rfl := Option.some.inj hlex
      have hle := (stringLen_bounds hn).2
      refine iff_of_true (tokenLaw_lexeme h hlt (Or.inl ⟨rfl, isStringLiteral_take hn⟩) ?_) ?_
      · rintro w hw (hstring | hid)
        · rw [stringLen_of_front hw hstring] at hn
          rw [Option.some.inj hn, List.length_take]
          omega
        · rw [(idLen_of_front hw hid).1] at hn
          cases hn
      · rintro ⟨w, rest, heq, hid⟩
        rw [(idLen_of_front (heq ▸ List.prefix_append _ _) hid).1] at hn
        cases hn
    · rename_i hstring
      rw [Option.map_eq_some_iff] at hlex
      obtain ⟨n, hn, rfl⟩ := hlex
      have hle := (idLen_bounds hn).2
      constructor
      · intro hlaw
        exact (isId_take_iff hn).1 (hlaw.id rfl).2
      · intro hno
        refine tokenLaw_lexeme h hlt (Or.inr ⟨rfl, (isId_take_iff hn).2 hno⟩) ?_
        rintro w hw (hstring' | hid)
        · rw [stringLen_of_front hw hstring'] at hstring
          cases hstring
        · obtain ⟨-, n', hn', hwn⟩ := idLen_of_front hw hid
          rw [hn] at hn'
          obtain rfl := Option.some.inj hn'
          rw [List.length_take]
          omega

/-! ## The lexer that calls lead to -/

/-- Any row of calls returns and leaves the state between calls. -/
theorem calls_reach (calls : List LexerCall) {lexer : Lexer} (h : LexInv lexer) :
    ∃ tokens lexer', lexerCalls calls lexer = .ok (tokens, lexer') ∧ LexInv lexer' ∧ lexer'.input = lexer.input := by
  induction calls generalizing lexer with
  | nil => exact ⟨[], lexer, rfl, h, rfl⟩
  | cons call calls ih =>
    obtain ⟨lexer₁, hcall, hinv, hinput, -⟩ := LexerAux.lexerCall_spec call h
    obtain ⟨tokens, lexer', hcalls, hinv', hinput'⟩ := ih hinv
    exact ⟨_, lexer', LexerAux.lexerCalls_cons hcall hcalls, hinv', hinput'.trans hinput⟩

end TokenGrammarAux

open TokenGrammarAux

/-- Whatever calls were made before, the token that `aqls_lexer_next_token` returns keeps to the token language exactly when
it does not start with an identifier that a backslash follows. -/
theorem next_token_in_language_iff (input : CString) (calls : List LexerCall) :
    ∃ lexer₀ tokens lexer token lexer', aqlsLexerInit input input.strlen = .ok lexer₀ ∧
      lexerCalls calls lexer₀ = .ok (tokens, lexer) ∧ aqlsLexerNextToken lexer = .ok (token, lexer') ∧
      (TokenLaw input.bytes lexer.pos token ↔ ¬BackslashBehindId input.bytes lexer.pos) := by
  obtain ⟨lexer₀, hinit, hinv₀, rfl, -⟩ := lexInv_init input
  obtain ⟨tokens, lexer, hcalls, hinv, hinput⟩ := calls_reach calls hinv₀
  obtain ⟨lexer', hnext, -⟩ := next_spec hinv
  refine ⟨lexer₀, tokens, lexer, lexer.token, lexer', hinit, hcalls, hnext, ?_⟩
  rw [← hinput]
  exact tokenLaw_iff (lexInv_pos_le hinv)

/-- The input of a letter and a backslash is returned as one identifier. -/
theorem next_token_takes_backslash :
    ∃ lexer lexer', aqlsLexerInit ⟨[0x61#8, 0x5C#8], by decide⟩ 2 = .ok lexer ∧
      aqlsLexerNextToken lexer = .ok (⟨.id, ⟨.input 0, 2⟩⟩, lexer') ∧
      ¬TokenLaw [0x61#8, 0x5C#8] 0 ⟨.id, ⟨.input 0, 2⟩⟩ := by
  obtain ⟨lexer, hinit, hinv, hinput, hpos⟩ := lexInv_init ⟨[0x61#8, 0x5C#8], by decide⟩
  obtain ⟨lexer', hnext, -⟩ := next_spec hinv
  have htoken : lexer.token = ⟨.id, ⟨.input 0, 2⟩⟩ := by
    unfold Lexer.token
    rw [hinput, hpos]
    decide
  rw [htoken] at hnext
  refine ⟨lexer, lexer', hinit, hnext, ?_⟩
  intro hlaw
  exact backslash_not_mem_id (hlaw.id rfl).2 (by decide)

end CLangExamples.Aqls
