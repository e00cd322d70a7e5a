import CLangExamples.Lemmas.AqlsLexer

/-!
# The lexer over a row of calls

A client calls `aqls_lexer_peek_token` and `aqls_lexer_next_token` in any order. Calls of `aqls_lexer_next_token` alone
cut the input into spaces and lexemes and come to its end or to an error (`lexing_lossless`); peeking in between changes
nothing of what they return (`peek_transparent`).
-/

namespace CLangExamples.Aqls

open Transition

/-! ## Rows of calls -/

/-- A call of a client. -/
inductive LexerCall where
  | peek
  | next
  deriving DecidableEq

/-- The token that a call returns, and the lexer after it. -/
def lexerCall : LexerCall → Lexer → Except Exit (Token × Lexer)
  | .peek, lexer => aqlsLexerPeekToken lexer
  | .next, lexer => aqlsLexerNextToken lexer

/-- The tokens that a row of calls returns, and the lexer after it. -/
def lexerCalls : List LexerCall → Lexer → Except Exit (List Token × Lexer)
  | [], lexer => .ok ([], lexer)
  | call :: calls, lexer => do
    let (token, lexer) ← lexerCall call lexer
    let (tokens, lexer) ← lexerCalls calls lexer
    return (token :: tokens, lexer)

/-- What a row of calls of `aqls_lexer_next_token` has done when it has returned `tokens` and left `lexer`. -/
structure Lexed (input : CString) (tokens : List Token) (lexer : Lexer) : Prop where
  /-- `cursor` is `input + pos` -/
  cursor : lexer.cursor = lexer.pos
  pos_le : lexer.pos ≤ input.strlen
  /-- the spaces before each token and its lexeme, one behind the other, and then the rest -/
  lossless : ∃ spaces : List (List Byte), spaces.length = tokens.length ∧
    (∀ space ∈ spaces, ∀ b ∈ space, isSpace b = true) ∧
    input.bytes = (List.zipWith (fun space token => space ++ token.lexeme.bytes input.bytes) spaces tokens).flatten ++
      input.bytes.drop lexer.pos
  /-- the end of the input leaves no rest -/
  consumed : ∀ token ∈ tokens, token.kind = .eof → lexer.pos = input.strlen
  /-- no byte behind an identifier extends it -/
  longest : ∀ token ∈ tokens, token.kind = .id → ∃ start, token.lexeme.str = .input start ∧
    ∀ b, input.bytes[start + token.lexeme.len]? = some b → isIdPart b = false
  /-- the end of the input and an error come again -/
  stays : tokens.Pairwise fun token later => token.kind = .eof ∨ token.kind = .error → later.kind = token.kind

/-- The tokens that the calls of `aqls_lexer_next_token` in a row returned. -/
def nextResults : List LexerCall → List Token → List Token
  | .next :: calls, token :: tokens => token :: nextResults calls tokens
  | .peek :: calls, _ :: tokens => nextResults calls tokens
  | _, _ => []

namespace LexerAux

/-! ## Reading tokens one behind the other -/

/-- The tokens of the input one behind the other, from one position to another. -/
inductive Reads (input : List Byte) : Nat → List Token → Nat → Prop where
  | nil {pos : Nat} (hle : pos ≤ input.length) : Reads input pos [] pos
  | cons {pos pos' : Nat} {tokens : List Token} (hle : pos ≤ input.length)
      (rest : Reads input (tokenStart input pos + (tokenAt input pos).lexeme.len) tokens pos') :
      Reads input pos (tokenAt input pos :: tokens) pos'

variable {input : List Byte} {pos pos' : Nat} {tokens : List Token}

theorem Reads.le (h : Reads input pos tokens pos') : pos ≤ pos' ∧ pos' ≤ input.length := by
  induction h with
  | nil hle => exact ⟨Nat.le_refl _, hle⟩
  | @cons pos _ _ _ _ ih =>
    have hstart : pos ≤ tokenStart input pos := Nat.le_add_right _ _
    omega

theorem Reads.lossless (h : Reads input pos tokens pos') :
    ∃ spaces : List (List Byte), spaces.length = tokens.length ∧ (∀ space ∈ spaces, ∀ b ∈ space, isSpace b = true) ∧
      input.drop pos = (List.zipWith (fun space token => space ++ token.lexeme.bytes input) spaces tokens).flatten ++
        input.drop pos' := by
  induction h with
  | nil hle => exact ⟨[], rfl, by simp, by simp⟩
  | @cons pos _ _ hle _ ih =>
    obtain ⟨spaces, hlength, hspaces, hdrop⟩ := ih
    refine ⟨(input.drop pos).takeWhile isSpace :: spaces, by simp [hlength], ?_, ?_⟩
    · intro space hspace b hb
      rcases List.mem_cons.mp hspace with rfl | hspace
      · exact List.mem_takeWhile_imp hb
      · exact hspaces space hspace b hb
    · rw [List.zipWith_cons_cons, List.flatten_cons, List.append_assoc, ← hdrop]
      exact drop_tokenAt hle

theorem Reads.consumed (h : Reads input pos tokens pos') : ∀ token ∈ tokens, token.kind = .eof → pos' = input.length := by
  induction h with
  | nil hle => simp
  | @cons pos _ _ hle rest ih =>
    intro token htoken hkind
    rcases List.mem_cons.mp htoken with rfl | htoken
    · have hstart := (tokenAt_eof_iff hle).1 hkind
      have := rest.le
      omega
    · exact ih token htoken hkind

theorem Reads.longest (h : Reads input pos tokens pos') :
    ∀ token ∈ tokens, token.kind = .id → ∃ start, token.lexeme.str = .input start ∧
      ∀ b, input[start + token.lexeme.len]? = some b → isIdPart b = false := by
  induction h with
  | nil hle => simp
  | @cons pos _ _ hle _ ih =>
    intro token htoken hkind
    rcases List.mem_cons.mp htoken with rfl | htoken
    · have hgo : (tokenAt input pos).goesOn = true := goesOn_of_kind (Or.inl hkind)
      exact ⟨tokenStart input pos, (lexeme_of_goesOn hle hgo).1, fun b hb => tokenAt_id_next hle hkind hb⟩
    · exact ih token htoken hkind

/-- The end of the input and an error stay the token at the position. -/
theorem Reads.stopped (h : Reads input pos tokens pos') (hstop : (tokenAt input pos).goesOn = false) :
    ∀ token ∈ tokens, token = tokenAt input pos := by
  induction h with
  | nil hle => simp
  | @cons pos _ _ hle _ ih =>
    intro token htoken
    have hsame := tokenAt_congr (tokenStart_after_stop hle hstop)
    rcases List.mem_cons.mp htoken with rfl | htoken
    · rfl
    · rw [hsame] at ih
      exact ih hstop token htoken

theorem Reads.stays (h : Reads input pos tokens pos') :
    tokens.Pairwise fun token later => token.kind = .eof ∨ token.kind = .error → later.kind = token.kind := by
  induction h with
  | nil hle => exact List.Pairwise.nil
  | @cons pos _ _ hle rest ih =>
    refine List.Pairwise.cons ?_ ih
    intro later hlater hkind
    have hstop := (goesOn_eq_false_iff _).mpr hkind
    have hsame := tokenAt_congr (tokenStart_after_stop hle hstop)
    rw [rest.stopped (by rw [hsame]; exact hstop) later hlater, hsame]

/-- Every token before the end of the input or an error takes at least one byte. -/
theorem Reads.length_le (h : Reads input pos tokens pos') (hgo : ∀ token ∈ tokens, token.goesOn = true) :
    pos + tokens.length ≤ pos' := by
  induction h with
  | nil hle => exact Nat.le_refl _
  | @cons pos _ _ hle _ ih =>
    have hfirst := hgo _ (List.mem_cons_self ..)
    have hrest := ih fun token htoken => hgo token (List.mem_cons_of_mem _ htoken)
    have hstart : pos ≤ tokenStart input pos := Nat.le_add_right _ _
    have hlen := (lexeme_of_goesOn hle hfirst).2.1
    rw [List.length_cons]
    omega

/-- More tokens than bytes: one of them is the end of the input or an error. -/
theorem Reads.reaches_stop (h : Reads input pos tokens pos') (hlong : input.length < tokens.length) :
    ∃ token ∈ tokens, token.kind = .eof ∨ token.kind = .error := by
  by_contra hnone
  have hgo : ∀ token ∈ tokens, token.goesOn = true := by
    intro token htoken
    by_contra hstop
    exact hnone ⟨token, htoken, (goesOn_eq_false_iff token).mp (Bool.not_eq_true _ ▸ hstop)⟩
  have hle := h.length_le hgo
  have := h.le
  omega

/-- A call that returns, and then the rest of the row. -/
theorem lexerCalls_cons {call : LexerCall} {calls : List LexerCall} {lexer lexer₁ lexer' : Lexer} {token : Token}
    {tokens : List Token} (hcall : lexerCall call lexer = .ok (token, lexer₁))
    (hcalls : lexerCalls calls lexer₁ = .ok (tokens, lexer')) :
    lexerCalls (call :: calls) lexer = .ok (token :: tokens, lexer') := by
  rw [lexerCalls, hcall, ok_bind]
  simp only
  rw [hcalls]
  rfl

/-- A row of calls of `aqls_lexer_next_token` reads the tokens one behind the other. -/
theorem nexts_read (k : Nat) {lexer : Lexer} (h : LexInv lexer) (hempty : lexer.lookahead.toList = []) :
    ∃ tokens lexer', lexerCalls (List.replicate k .next) lexer = .ok (tokens, lexer') ∧ tokens.length = k ∧
      LexInv lexer' ∧ lexer'.input = lexer.input ∧ Reads lexer.input.bytes lexer.pos tokens lexer'.pos := by
  induction k generalizing lexer with
  | zero => exact ⟨[], lexer, rfl, rfl, h, rfl, .nil (lexInv_pos_le h)⟩
  | succ k ih =>
    obtain ⟨lexer₁, hnext, hmoved, hempty₁⟩ := next_scans h hempty
    obtain ⟨tokens, lexer', hcalls, hlength, hinv, hinput, hreads⟩ := ih hmoved.inv hempty₁
    rw [hmoved.input, hmoved.pos] at hreads
    refine ⟨lexer.token :: tokens, lexer', ?_, by rw [List.length_cons, hlength], hinv, hinput.trans hmoved.input, ?_⟩
    · rw [List.replicate_succ]
      exact lexerCalls_cons hnext hcalls
    · exact .cons (lexInv_pos_le h) hreads

end LexerAux

open LexerAux

/-- Lexing loses nothing and comes to an end: any number of calls of `aqls_lexer_next_token` return, they cut the input as
`Lexed` says, and one call more than the input has bytes is enough for the end of the input or an error. -/
theorem lexing_lossless (input : CString) :
    ∃ lexer, aqlsLexerInit input input.strlen = .ok lexer ∧
      ∀ k, ∃ tokens lexer', lexerCalls (List.replicate k .next) lexer = .ok (tokens, lexer') ∧ tokens.length = k ∧
        Lexed input tokens lexer' ∧
        (input.strlen + 1 ≤ k → ∃ token ∈ tokens, token.kind = .eof ∨ token.kind = .error) := by
  obtain ⟨lexer, hinit, hinv, rfl, hpos⟩ := lexInv_init input
  have hempty : lexer.lookahead.toList = [] := by
    rw [aqlsLexerInit_eq] at hinit
    rw [← Except.ok.inj hinit]
    exact List.eq_nil_of_length_eq_zero (length_toList _)
  refine ⟨lexer, hinit, fun k => ?_⟩
  obtain ⟨tokens, lexer', hcalls, hlength, hinv', hinput, hreads⟩ := nexts_read k hinv hempty
  rw [hpos] at hreads
  refine ⟨tokens, lexer', hcalls, hlength, ?_, ?_⟩
  · refine ⟨hinv'.cursor, hreads.le.2, ?_, hreads.consumed, hreads.longest, hreads.stays⟩
    exact hreads.lossless
  · intro hk
    exact hreads.reaches_stop (by rw [hlength]; exact hk)

namespace LexerAux

/-! ## Peeking in between -/

/-- What a call returns, and where the token after it starts. -/
theorem lexerCall_spec (call : LexerCall) {lexer : Lexer} (h : LexInv lexer) :
    ∃ lexer', lexerCall call lexer = .ok (lexer.token, lexer') ∧ LexInv lexer' ∧ lexer'.input = lexer.input ∧
      lexer'.start =
        match call with
        | .peek => lexer.start
        | .next => tokenStart lexer.input.bytes (lexer.start + lexer.token.lexeme.len) := by
  cases call with
  | peek =>
    obtain ⟨lexer', hpeek, hmoved⟩ := peek_spec h
    refine ⟨lexer', hpeek, hmoved.inv, hmoved.input, ?_⟩
    rw [Lexer.start, hmoved.input, hmoved.pos]
  | next =>
    obtain ⟨lexer', hnext, hinv, hinput, -, hstart⟩ := next_start h
    exact ⟨lexer', hnext, hinv, hinput, hstart⟩

/-- Two lexers that are about to return the same tokens, whatever their queues hold. -/
structure SameTokens (a b : Lexer) : Prop where
  left : LexInv a
  right : LexInv b
  input : a.input = b.input
  start : a.start = b.start

theorem SameTokens.token {a b : Lexer} (h : SameTokens a b) : a.token = b.token := by
  have hstart := h.start
  unfold Lexer.start at hstart
  unfold Lexer.token
  rw [h.input] at hstart ⊢
  exact tokenAt_congr hstart

/-- A row of calls beside the same row without the peeks. -/
theorem calls_same (calls : List LexerCall) {a b : Lexer} (h : SameTokens a b) :
    ∃ tokens a' b', lexerCalls calls a = .ok (tokens, a') ∧ tokens.length = calls.length ∧ LexInv a' ∧
      lexerCalls (calls.filter (· = .next)) b = .ok (nextResults calls tokens, b') := by
  induction calls generalizing a b with
  | nil => exact ⟨[], a, b, rfl, rfl, h.left, rfl⟩
  | cons call calls ih =>
    obtain ⟨a₁, hcall, hinv, hinput, hstart⟩ := lexerCall_spec call h.left
    cases call with
    | peek =>
      obtain ⟨tokens, a', b', hcalls, hlength, hinv', hplain⟩ :=
        ih (a := a₁) (b := b) ⟨hinv, h.right, hinput.trans h.input, hstart.trans h.start⟩
      exact ⟨a.token :: tokens, a', b', lexerCalls_cons hcall hcalls, by simp [hlength], hinv',
        by simpa [nextResults] using hplain⟩
    | next =>
      obtain ⟨b₁, hcall', hinv₁, hinput₁, hstart₁⟩ := lexerCall_spec .next h.right
      have hsame : SameTokens a₁ b₁ := by
        refine ⟨hinv, hinv₁, by rw [hinput, hinput₁, h.input], ?_⟩
        rw [hstart, hstart₁, h.token, h.input, h.start]
      obtain ⟨tokens, a', b', hcalls, hlength, hinv', hplain⟩ := ih hsame
      refine ⟨a.token :: tokens, a', b', lexerCalls_cons hcall hcalls, by simp [hlength], hinv', ?_⟩
      rw [List.filter_cons_of_pos (by simp), nextResults, h.token]
      exact lexerCalls_cons hcall' hplain

/-- A row of calls that returned, taken apart at its first call. -/
theorem calls_cons {call : LexerCall} {calls : List LexerCall} {lexer lexer' : Lexer} {tokens : List Token}
    (h : LexInv lexer) (hcalls : lexerCalls (call :: calls) lexer = .ok (tokens, lexer')) :
    ∃ tokens₁ lexer₁, tokens = lexer.token :: tokens₁ ∧ lexerCalls calls lexer₁ = .ok (tokens₁, lexer') ∧
      LexInv lexer₁ ∧ (call = .peek → lexer₁.token = lexer.token) := by
  obtain ⟨lexer₁, hcall, hinv, hinput, hstart⟩ := lexerCall_spec call h
  rw [lexerCalls, hcall, ok_bind] at hcalls
  simp only at hcalls
  obtain ⟨⟨tokens₁, lexer₂⟩, hrest, hreturn⟩ := bind_eq_ok hcalls
  obtain ⟨rfl, rfl⟩ := Prod.mk.inj (Except.ok.inj hreturn)
  refine ⟨tokens₁, lexer₁, rfl, hrest, hinv, ?_⟩
  rintro rfl
  exact (SameTokens.mk hinv h hinput hstart).token

/-- After peeks alone, the next call returns the token at the position. -/
theorem calls_after_peeks {calls : List LexerCall} {lexer lexer' : Lexer} {tokens : List Token} (h : LexInv lexer)
    (hcalls : lexerCalls calls lexer = .ok (tokens, lexer')) (j : Nat) (hj : j < calls.length)
    (hpeeks : ∀ k < j, calls[k]? = some .peek) : tokens[j]? = some lexer.token := by
  induction j generalizing calls lexer tokens with
  | zero =>
    cases calls with
    | nil => simp at hj
    | cons call calls =>
      obtain ⟨tokens₁, -, rfl, -⟩ := calls_cons h hcalls
      rfl
  | succ j ih =>
    cases calls with
    | nil => simp at hj
    | cons call calls =>
      obtain ⟨tokens₁, lexer₁, rfl, hrest, hinv, hsame⟩ := calls_cons h hcalls
      have hpeek : call = .peek := Option.some.inj (hpeeks 0 (Nat.succ_pos j))
      rw [List.getElem?_cons_succ, ← hsame hpeek]
      exact ih hinv hrest (Nat.lt_of_succ_lt_succ hj) fun k hk => hpeeks (k + 1) (Nat.succ_lt_succ hk)

/-- A peek and the call after it and any further peeks return the same token. -/
theorem calls_peek_next {calls : List LexerCall} {lexer lexer' : Lexer} {tokens : List Token} (h : LexInv lexer)
    (hcalls : lexerCalls calls lexer = .ok (tokens, lexer')) (i j : Nat) (hij : i < j) (hj : j < calls.length)
    (hpeeks : ∀ k, i ≤ k → k < j → calls[k]? = some .peek) : tokens[i]? = tokens[j]? := by
  induction i generalizing calls lexer tokens j with
  | zero =>
    rw [calls_after_peeks h hcalls j hj fun k hk => hpeeks k (Nat.zero_le k) hk,
      calls_after_peeks h hcalls 0 (by omega) fun k hk => absurd hk (Nat.not_lt_zero k)]
  | succ i ih =>
    cases calls with
    | nil => simp at hj
    | cons call calls =>
      obtain ⟨tokens₁, lexer₁, rfl, hrest, hinv, -⟩ := calls_cons h hcalls
      obtain ⟨j, rfl⟩ : ∃ j', j = j' + 1 := ⟨j - 1, by omega⟩
      rw [List.getElem?_cons_succ, List.getElem?_cons_succ]
      refine ih hinv hrest j (Nat.lt_of_succ_lt_succ hij) (Nat.lt_of_succ_lt_succ hj) ?_
      intro k hik hkj
      exact hpeeks (k + 1) (Nat.succ_le_succ hik) (Nat.succ_lt_succ hkj)

end LexerAux

/-- Peeking is transparent: any row of calls returns, its calls of `aqls_lexer_next_token` return what they return without
the peeks, a peek returns what the following call of `aqls_lexer_next_token` returns, and the queue never holds more than
one token. -/
theorem peek_transparent (input : CString) (calls : List LexerCall) :
    ∃ lexer, aqlsLexerInit input input.strlen = .ok lexer ∧
      ∃ tokens lexer' plain, lexerCalls calls lexer = .ok (tokens, lexer') ∧ tokens.length = calls.length ∧
        lexer'.lookahead.len ≤ 1 ∧
        lexerCalls (calls.filter (· = .next)) lexer = .ok (nextResults calls tokens, plain) ∧
        ∀ i j : Nat, i < j → calls[i]? = some .peek → calls[j]? = some .next →
          (∀ k, i < k → k < j → calls[k]? = some .peek) → tokens[i]? = tokens[j]? := by
  obtain ⟨lexer, hinit, hinv, -⟩ := lexInv_init input
  obtain ⟨tokens, lexer', plain, hcalls, hlength, hinv', hplain⟩ := calls_same calls ⟨hinv, hinv, rfl, rfl⟩
  refine ⟨lexer, hinit, tokens, lexer', plain, hcalls, hlength, ?_, hplain, ?_⟩
  · rw [← length_toList]
    rcases hinv'.lookahead with hlist | hlist <;> simp [hlist]
  · intro i j hij hpeek hnext hpeeks
    have hj : j < calls.length := by
      by_contra hge
      rw [List.getElem?_eq_none (by omega)] at hnext
      cases hnext
    refine calls_peek_next hinv hcalls i j hij hj ?_
    intro k hik hkj
    rcases Nat.lt_or_eq_of_le hik with hlt | rfl
    · exact hpeeks k hlt hkj
    · exact hpeek

end CLangExamples.Aqls
