import CLangExamples.Theorems.AqlsLexer

/-!
# The end of the input

After `aqls_lexer_next_token` has returned the end of the input, `aqls_lexer_has_more_tokens` should be false. A call that
scans moves over the last spaces first. A call that takes the token from the lookahead queue moves to the lexeme of the
token, and the end of the input has none: the spaces that the peek looked past are then still ahead.
-/

namespace CLangExamples.Aqls

open Transition

/-- The lexer after a call. -/
def lexerStep (call : LexerCall) (lexer : Lexer) : Except Exit Lexer := (lexerCall call lexer).map Prod.snd

/-- A call and what it returns. -/
def lexerReturned (call : LexerCall) (lexer : Lexer) : LexerCall × Except Exit Token :=
  (call, (lexerCall call lexer).map Prod.fst)

/-- Some call of `aqls_lexer_next_token` in the history returned the end of the input. -/
def ReturnedEof (history : List (LexerCall × Except Exit Token)) : Prop :=
  ∃ token, (.next, .ok token) ∈ history ∧ token.kind = .eof

/-- From the first end of the input that `aqls_lexer_next_token` returned in a row of calls, there are no more tokens. -/
def EofEndsInput (lexer₀ : Lexer) (calls : List LexerCall) : Prop :=
  ∀ before after history lexer, calls = before ++ after → Run lexerStep lexerReturned lexer₀ before history lexer →
    ReturnedEof history → aqlsLexerHasMoreTokens lexer = false ∧ lexer.pos = lexer.inputLen

/-- Spaces are left, and nothing else. -/
def OnlySpacesLeft (lexer : Lexer) : Prop :=
  lexer.pos < lexer.inputLen ∧ ∀ b ∈ lexer.input.bytes.drop lexer.pos, isSpace b = true

/-- A call of `aqls_lexer_next_token` that takes a peeked token does not find only spaces left. -/
def NotPeekedOverSpaces (call : LexerCall) (lexer : Lexer) : Prop :=
  call = .next → aqlsTokenQueueIsEmpty lexer.lookahead = false → ¬OnlySpacesLeft lexer

namespace EndOfInputAux

variable {lexer lexer' : Lexer}

theorem hasMoreTokens_iff (lexer : Lexer) : aqlsLexerHasMoreTokens lexer = false ↔ lexer.inputLen ≤ lexer.pos := by
  unfold aqlsLexerHasMoreTokens
  rw [decide_eq_false_iff_not, Nat.not_lt]

/-- The next token is the end of the input exactly when only spaces are left. -/
theorem token_eof_iff (h : LexInv lexer) :
    lexer.token.kind = .eof ↔ ∀ b ∈ lexer.input.bytes.drop lexer.pos, isSpace b = true := by
  rw [spaces_left_iff (lexInv_pos_le h)]
  exact tokenAt_eof_iff (lexInv_pos_le h)

/-- A call returns the token at the position and moves no further back. -/
theorem lexerCall_moves (call : LexerCall) (h : LexInv lexer) :
    ∃ lexer', lexerCall call lexer = .ok (lexer.token, lexer') ∧ LexInv lexer' ∧ lexer'.input = lexer.input ∧
      lexer.pos ≤ lexer'.pos := by
  cases call with
  | peek =>
    obtain ⟨lexer', hpeek, hmoved⟩ := peek_spec h
    exact ⟨lexer', hpeek, hmoved.inv, hmoved.input, Nat.le_of_eq hmoved.pos.symm⟩
  | next =>
    obtain ⟨lexer', hnext, pos, hmoved, -, -, hle⟩ := next_spec h
    exact ⟨lexer', hnext, hmoved.inv, hmoved.input, hmoved.pos ▸ hle⟩

/-- What a step leaves, and what its call returned. -/
theorem lexerStep_ok (h : LexInv lexer) {call : LexerCall} (hstep : lexerStep call lexer = .ok lexer') :
    lexerCall call lexer = .ok (lexer.token, lexer') ∧ LexInv lexer' ∧ lexer'.inputLen = lexer.inputLen ∧
      lexer.pos ≤ lexer'.pos := by
  obtain ⟨lexer₁, hcall, hinv, hinput, hle⟩ := lexerCall_moves call h
  unfold lexerStep at hstep
  rw [hcall] at hstep
  obtain rfl : lexer₁ = lexer' := Except.ok.inj hstep
  exact ⟨hcall, hinv, by rw [hinv.inputLen, h.inputLen, hinput], hle⟩

/-- A call of `aqls_lexer_next_token` that returns the end of the input is at the end, unless it took a peeked token with
only spaces left. -/
theorem next_eof_at_end (h : LexInv lexer) (hnot : NotPeekedOverSpaces .next lexer)
    (hnext : aqlsLexerNextToken lexer = .ok (lexer.token, lexer')) (hle : lexer.pos ≤ lexer'.pos)
    (heof : lexer.token.kind = .eof) : lexer.inputLen ≤ lexer'.pos := by
  have hspaces := (token_eof_iff h).1 heof
  by_cases hqueue : aqlsTokenQueueIsEmpty lexer.lookahead = false
  · have hends : ¬lexer.pos < lexer.inputLen := fun hlt => hnot rfl hqueue ⟨hlt, hspaces⟩
    omega
  · rw [isEmpty_eq_false_iff, not_not] at hqueue
    obtain ⟨lexer₁, hnext₁, hmoved, -⟩ := next_scans h hqueue
    rw [hnext] at hnext₁
    obtain rfl : lexer' = lexer₁ := (Prod.mk.inj (Except.ok.inj hnext₁)).2
    rw [hmoved.pos, h.inputLen, ← (spaces_left_iff (lexInv_pos_le h)).1 hspaces]
    exact Nat.le_add_right _ _

/-- A peeked end of the input is returned without moving. -/
theorem next_peeked_eof (h : LexInv lexer) (hqueue : aqlsTokenQueueIsEmpty lexer.lookahead = false)
    (heof : lexer.token.kind = .eof) :
    ∃ lexer', aqlsLexerNextToken lexer = .ok (lexer.token, lexer') ∧ lexer'.pos = lexer.pos ∧
      lexer'.inputLen = lexer.inputLen := by
  have hlist := h.lookahead.resolve_left (isEmpty_eq_false_iff.1 hqueue)
  obtain ⟨-, queue, hpop, -⟩ := queuePop_spec h.queue hlist
  have htok : lexer.token = aqlsTokenEof := tokenAt_of_eof ((tokenAt_eof_iff (lexInv_pos_le h)).1 heof)
  unfold aqlsLexerNextToken
  rw [if_pos hqueue, hpop, ok_bind, htok]
  exact ⟨{ lexer with lookahead := queue }, rfl, rfl, rfl⟩

/-- A row of calls runs through. -/
theorem calls_run (calls : List LexerCall) (h : LexInv lexer) :
    ∃ history lexer', Run lexerStep lexerReturned lexer calls history lexer' := by
  induction calls generalizing lexer with
  | nil => exact ⟨[], lexer, .start⟩
  | cons call calls ih =>
    obtain ⟨lexer₁, hcall, hinv, -⟩ := lexerCall_moves call h
    obtain ⟨history, lexer', hrun⟩ := ih hinv
    exact ⟨_, lexer', hrun.cons (by rw [lexerStep, hcall]; rfl)⟩

/-- The state between calls, at the end of the input once that was returned. -/
def EofInv (history : List (LexerCall × Except Exit Token)) (lexer : Lexer) : Prop :=
  LexInv lexer ∧ (ReturnedEof history → lexer.inputLen ≤ lexer.pos)

theorem eofInv_step {history : List (LexerCall × Except Exit Token)} {call : LexerCall} (h : EofInv history lexer)
    (hnot : NotPeekedOverSpaces call lexer) (hstep : lexerStep call lexer = .ok lexer') :
    EofInv (history ++ [lexerReturned call lexer]) lexer' := by
  obtain ⟨hcall, hinv, hlen, hle⟩ := lexerStep_ok h.1 hstep
  refine ⟨hinv, ?_⟩
  rintro ⟨token, hmem, heof⟩
  rw [hlen]
  rw [List.mem_append, List.mem_singleton, lexerReturned, hcall] at hmem
  rcases hmem with hmem | hmem
  · exact Nat.le_trans (h.2 ⟨token, hmem, heof⟩) hle
  · obtain ⟨rfl, htoken⟩ := Prod.mk.inj hmem
    obtain rfl : token = lexer.token := Except.ok.inj htoken
    exact next_eof_at_end h.1 hnot hcall hle heof

end EndOfInputAux

open EndOfInputAux

/-- Any calls run through, and the end of the input that `aqls_lexer_next_token` returned leaves no more tokens exactly when
no call of it takes a peeked token while only spaces are left. -/
theorem eof_ends_input_iff (input : CString) (calls : List LexerCall) :
    ∃ lexer₀, aqlsLexerInit input input.strlen = .ok lexer₀ ∧
      (∃ history lexer, Run lexerStep lexerReturned lexer₀ calls history lexer) ∧
      (EofEndsInput lexer₀ calls ↔ Along lexerStep lexerReturned lexer₀ calls NotPeekedOverSpaces) := by
  obtain ⟨lexer₀, hinit, hinv₀, -⟩ := lexInv_init input
  have hreach : ∀ {before history lexer}, Run lexerStep lexerReturned lexer₀ before history lexer → LexInv lexer := by
    intro before history lexer hrun
    refine hrun.invariant (P := fun _ lexer => LexInv lexer) hinv₀ ?_
    intro history call lexer lexer' hinv hstep
    exact (lexerStep_ok hinv hstep).2.1
  refine ⟨lexer₀, hinit, calls_run calls hinv₀, ?_, ?_⟩
  · rintro heof before call after history lexer hcalls hrun rfl hqueue ⟨hlt, hspaces⟩
    have hinv := hreach hrun
    have hkind := (token_eof_iff hinv).2 hspaces
    obtain ⟨lexer', hnext, hpos, hlen⟩ := next_peeked_eof hinv hqueue hkind
    have hstep : lexerStep .next lexer = .ok lexer' := by
      rw [lexerStep, lexerCall, hnext]
      rfl
    have hreturned : ReturnedEof (history ++ [lexerReturned .next lexer]) := by
      refine ⟨lexer.token, List.mem_append_right _ ?_, hkind⟩
      rw [lexerReturned, lexerCall, hnext]
      exact List.mem_singleton.2 rfl
    have hcut : calls = (before ++ [.next]) ++ after := by
      rw [hcalls, List.append_assoc]
      rfl
    have hend := (heof _ after _ lexer' hcut (.next .next hrun hstep) hreturned).2
    omega
  · intro halong before after history lexer hcalls hrun hreturned
    obtain ⟨hinv, hend⟩ := halong.invariant_history (I := EofInv) ⟨hinv₀, fun h => by simp [ReturnedEof] at h⟩
      (fun _ _ _ _ h hnot hstep => eofInv_step h hnot hstep) hcalls hrun
    have hge := hend hreturned
    exact ⟨(hasMoreTokens_iff lexer).2 hge, Nat.le_antisymm hinv.pos_le hge⟩

/-- With one space as the input, a peek and then `aqls_lexer_next_token` returns the end of the input, and
`aqls_lexer_has_more_tokens` is still true. -/
theorem peeked_eof_leaves_space :
    ∃ lexer₀ history lexer, aqlsLexerInit ⟨[0x20#8], by decide⟩ 1 = .ok lexer₀ ∧
      Run lexerStep lexerReturned lexer₀ [.peek, .next] history lexer ∧ ReturnedEof history ∧
      aqlsLexerHasMoreTokens lexer = true ∧ lexer.pos < lexer.inputLen ∧ ¬EofEndsInput lexer₀ [.peek, .next] := by
  obtain ⟨lexer₀, hinit, lexer₁, hpeek, lexer₂, hnext, hpos, hlen⟩ :
      ∃ lexer₀, aqlsLexerInit ⟨[0x20#8], by decide⟩ 1 = .ok lexer₀ ∧
        ∃ lexer₁, aqlsLexerPeekToken lexer₀ = .ok (aqlsTokenEof, lexer₁) ∧
          ∃ lexer₂, aqlsLexerNextToken lexer₁ = .ok (aqlsTokenEof, lexer₂) ∧ lexer₂.pos = 0 ∧ lexer₂.inputLen = 1 :=
    ⟨_, aqlsLexerInit_eq _ _, _, rfl, _, rfl, rfl, rfl⟩
  have hrun : Run lexerStep lexerReturned lexer₀ ([] ++ [.peek] ++ [.next])
      ([] ++ [lexerReturned .peek lexer₀] ++ [lexerReturned .next lexer₁]) lexer₂ := by
    refine Run.next LexerCall.next (Run.next LexerCall.peek Run.start ?_) ?_
    · rw [lexerStep, lexerCall, hpeek]
      rfl
    · rw [lexerStep, lexerCall, hnext]
      rfl
  have hreturned : ReturnedEof ([] ++ [lexerReturned .peek lexer₀] ++ [lexerReturned .next lexer₁]) := by
    refine ⟨aqlsTokenEof, List.mem_append_right _ ?_, rfl⟩
    rw [lexerReturned, lexerCall, hnext]
    exact List.mem_singleton.2 rfl
  have hmore : aqlsLexerHasMoreTokens lexer₂ = true := by
    rw [aqlsLexerHasMoreTokens, hpos, hlen]
    rfl
  refine ⟨lexer₀, _, lexer₂, hinit, hrun, hreturned, hmore, by omega, ?_⟩
  intro hends
  have hfalse := (hends _ [] _ lexer₂ rfl hrun hreturned).1
  rw [hmore] at hfalse
  cases hfalse

end CLangExamples.Aqls
