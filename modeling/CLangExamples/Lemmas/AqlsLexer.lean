import CLangExamples.Aqls.TokenSequence
import CLangExamples.Lib.Ring
import CLangExamples.Lib.Run

/-!
# The lexer returns the tokens of its input

The queue holds at most the token at the position of the lexer (`LexInv`), so `aqls_lexer_peek_token` and
`aqls_lexer_next_token` both return that token, from a fresh scan or from the queue (`peek_spec`, `next_spec`), and none of
their assertions fails.
-/

namespace CLangExamples.Aqls

open Ere Ring Transition

/-! ## The queue as a list -/

section Queue

variable {capacity : Nat} [NeZero capacity]

/-- The tokens in the queue, oldest first. -/
def TokenQueue.toList (queue : TokenQueue capacity) : List Token := contents queue.items queue.start queue.len

/-- The indices and the length of a queue agree. -/
structure QueueInv (queue : TokenQueue capacity) : Prop where
  end_eq : queue.end_ = walk queue.start queue.len
  len_le : queue.len ≤ capacity

theorem length_toList (queue : TokenQueue capacity) : queue.toList.length = queue.len :=
  length_contents queue.items queue.start queue.len

theorem queueInv_init : QueueInv (aqlsTokenQueueInit : TokenQueue capacity) := by
  refine ⟨?_, Nat.zero_le _⟩
  rw [show (aqlsTokenQueueInit : TokenQueue capacity).len = 0 from rfl, walk_zero]
  rfl

/-- A queue is empty when its list is. -/
theorem isEmpty_iff (queue : TokenQueue capacity) : aqlsTokenQueueIsEmpty queue = true ↔ queue.toList = [] := by
  unfold aqlsTokenQueueIsEmpty
  rw [beq_iff_eq, ← length_toList, List.length_eq_zero_iff]

/-- Appending to a queue that is not full. -/
theorem queueAppend_spec {queue : TokenQueue capacity} (h : QueueInv queue) (hlt : queue.len < capacity) (item : Token) :
    ∃ queue', aqlsTokenQueueAppend queue item = .ok queue' ∧ QueueInv queue' ∧
      queue'.toList = queue.toList ++ [item] := by
  have hfull : aqlsTokenQueueIsFull queue = false := by
    unfold aqlsTokenQueueIsFull
    rw [beq_eq_false_iff_ne]
    omega
  refine ⟨_, by rw [aqlsTokenQueueAppend, assert, if_pos hfull]; rfl, ⟨?_, ?_⟩, ?_⟩
  · show Fin.ofNat capacity (queue.end_.val + 1) = walk queue.start (queue.len + 1)
    rw [h.end_eq]
    exact walk_walk queue.start queue.len 1
  · show queue.len + 1 ≤ capacity
    omega
  · show contents (Function.update queue.items queue.end_ item) queue.start (queue.len + 1) = _
    rw [h.end_eq]
    exact contents_append queue.items queue.start hlt item

/-- Peeking and popping give the oldest token; popping leaves the others. -/
theorem queuePop_spec {queue : TokenQueue capacity} (h : QueueInv queue) {item : Token} {rest : List Token}
    (hlist : queue.toList = item :: rest) :
    aqlsTokenQueuePeek queue = .ok item ∧
      ∃ queue', aqlsTokenQueuePop queue = .ok (item, queue') ∧ QueueInv queue' ∧ queue'.toList = rest := by
  have hlen : queue.len = rest.length + 1 := by
    rw [← length_toList, hlist, List.length_cons]
  have hempty : aqlsTokenQueueIsEmpty queue = false := by
    unfold aqlsTokenQueueIsEmpty
    rw [beq_eq_false_iff_ne]
    omega
  have hcons := hlist
  unfold TokenQueue.toList at hcons
  rw [hlen, contents_succ, List.cons.injEq] at hcons
  have hle := h.len_le
  refine ⟨?_, _, by rw [aqlsTokenQueuePop, assert, if_pos hempty, hcons.1]; rfl, ⟨?_, ?_⟩, ?_⟩
  · unfold aqlsTokenQueuePeek
    rw [assert, if_pos hempty, hcons.1]
    rfl
  · show queue.end_ = walk (walk queue.start 1) (queue.len - 1)
    rw [walk_walk, h.end_eq]
    congr 1
    omega
  · show queue.len - 1 ≤ capacity
    omega
  · show contents queue.items (walk queue.start 1) (queue.len - 1) = rest
    rw [← hcons.2]
    congr 1
    omega

end Queue

/-! ## The three expressions -/

/-- `"^[ \t\r\n]+"` -/
def ignoreRegex : Regex := ⟨[⟨⟨false, [(32, 32), (9, 9), (13, 13), (10, 10)]⟩, .plus⟩], false⟩

/-- `"^'[^']*'"` -/
def stringRegex : Regex :=
  ⟨[⟨⟨false, [(39, 39)]⟩, .one⟩, ⟨⟨true, [(39, 39)]⟩, .star⟩, ⟨⟨false, [(39, 39)]⟩, .one⟩], false⟩

/-- `"^[a-zA-Z#][a-zA-Z#\\.]*"` -/
def idRegex : Regex :=
  ⟨[⟨⟨false, [(97, 122), (65, 90), (35, 35)]⟩, .one⟩,
    ⟨⟨false, [(97, 122), (65, 90), (35, 35), (92, 92), (46, 46)]⟩, .star⟩], true⟩

/-- The three expressions compile. -/
theorem aqlsLexerInit_eq (input : CString) (inputLen : Nat) :
    aqlsLexerInit input inputLen =
      .ok ⟨input, inputLen, 0, 0, ignoreRegex, [⟨.stringLiteral, stringRegex⟩, ⟨.id, idRegex⟩], aqlsTokenQueueInit⟩ := by
  have h₁ : regcomp "^[ \t\r\n]+" false = some ignoreRegex := by decide
  have h₂ : regcomp "^'[^']*'" false = some stringRegex := by decide
  have h₃ : regcomp "^[a-zA-Z#][a-zA-Z#\\.]*" true = some idRegex := by decide
  simp only [aqlsLexerInit, regexCompileOrDie, h₁, h₂, h₃]
  rfl

theorem accepts_space (b : Byte) :
    CharSet.accepts ⟨false, [(32, 32), (9, 9), (13, 13), (10, 10)]⟩ false b = isSpace b := by
  revert b
  decide

theorem accepts_quote (b : Byte) : CharSet.accepts ⟨false, [(39, 39)]⟩ false b = isQuote b := by
  revert b
  decide

theorem accepts_not_quote (b : Byte) : CharSet.accepts ⟨true, [(39, 39)]⟩ false b = !isQuote b := by
  revert b
  decide

theorem accepts_idStart (b : Byte) :
    CharSet.accepts ⟨false, [(97, 122), (65, 90), (35, 35)]⟩ true b = isIdStart b := by
  revert b
  decide

theorem accepts_idPart (b : Byte) :
    CharSet.accepts ⟨false, [(97, 122), (65, 90), (35, 35), (92, 92), (46, 46)]⟩ true b = isIdPart b := by
  revert b
  decide

/-- The match of the ignored bytes. -/
theorem regexec_ignore (s : List Byte) :
    regexec ignoreRegex s = if spaceLen s = 0 then none else some ⟨0, spaceLen s⟩ := by
  have hmatch : ∀ w, Matches ignoreRegex.icase ignoreRegex.items w ↔ (∀ b ∈ w, isSpace b = true) ∧ 0 < w.length := by
    intro w
    simp only [ignoreRegex, matches_single, Item.Matches, accepts_space]
  have hle : spaceLen s ≤ s.length := length_takeWhile_le isSpace s
  split
  · rename_i h0
    rw [regexec_eq_none_iff]
    intro m hm hw
    rw [hmatch, take_all_iff isSpace s m hm, List.length_take] at hw
    unfold spaceLen at h0
    omega
  · rename_i h0
    rw [regexec_eq_some_iff, hmatch, take_all_iff isSpace s _ hle, List.length_take]
    refine ⟨⟨hle, Nat.le_refl _, by omega⟩, ?_⟩
    intro m hm hw
    rw [hmatch, take_all_iff isSpace s m hm] at hw
    exact hw.1

/-- The match of an identifier. -/
theorem regexec_id (s : List Byte) : regexec idRegex s = (idLen s).map fun n => ⟨0, n⟩ := by
  have hmatch : ∀ w, Matches idRegex.icase idRegex.items w ↔
      ∃ a t, w = a :: t ∧ isIdStart a = true ∧ ∀ b ∈ t, isIdPart b = true := by
    intro w
    simp only [idRegex, matches_one_cons, matches_single, Item.Matches, accepts_idStart, accepts_idPart, and_true]
  match s with
  | [] =>
    unfold idLen
    rw [Option.map_none, regexec_eq_none_iff]
    intro m hm hw
    rw [hmatch] at hw
    simp at hw
  | a :: r =>
    have hle : (r.takeWhile isIdPart).length ≤ r.length := length_takeWhile_le isIdPart r
    rw [idLen]
    split
    · rename_i ha
      rw [Option.map_some, regexec_eq_some_iff, hmatch]
      refine ⟨⟨by simp; omega, a, r.take (r.takeWhile isIdPart).length, rfl, ha, ?_⟩, ?_⟩
      · rw [take_all_iff isIdPart r _ hle]
      · intro m hm hw
        rw [hmatch] at hw
        obtain ⟨a', t, heq, -, hall⟩ := hw
        cases m with
        | zero => simp at heq
        | succ m =>
          rw [List.take_succ_cons, List.cons.injEq] at heq
          rw [List.length_cons] at hm
          rw [← heq.2, take_all_iff isIdPart r m (by omega)] at hall
          omega
    · rename_i ha
      rw [Option.map_none, regexec_eq_none_iff]
      intro m hm hw
      rw [hmatch] at hw
      obtain ⟨a', t, heq, hstart, -⟩ := hw
      cases m with
      | zero => simp at heq
      | succ m =>
        rw [List.take_succ_cons, List.cons.injEq] at heq
        rw [← heq.1] at hstart
        exact ha hstart

/-- A run of accepted bytes that does not take the whole string ends before a byte that is not accepted. -/
theorem run_split (p : Byte → Bool) {r : List Byte} (h : (r.takeWhile p).length < r.length) :
    ∃ q rest, r = r.takeWhile p ++ q :: rest ∧ p q = false := by
  induction r with
  | nil => simp at h
  | cons a r ih =>
    rw [List.takeWhile_cons] at h ⊢
    cases ha : p a with
    | true =>
      rw [ha] at h
      simp only [if_true, List.length_cons] at h
      obtain ⟨q, rest, hr, hq⟩ := ih (by omega)
      refine ⟨q, rest, ?_, hq⟩
      simp only [if_true, List.cons_append, ← hr]
    | false => exact ⟨a, r, rfl, ha⟩

/-- A string that starts with bytes that are not quotes and then a quote: they are its run of such bytes. -/
theorem run_before_quote {r body rest : List Byte} {q : Byte} (h : r = body ++ q :: rest)
    (hall : ∀ b ∈ body, (!isQuote b) = true) (hq : isQuote q = true) :
    r.takeWhile (fun b => !isQuote b) = body := by
  rw [h, List.takeWhile_append_of_pos hall, List.takeWhile_cons_of_neg (by simp [hq]), List.append_nil]

/-- The strings that the expression of a string literal matches. -/
theorem matches_string_iff (w : List Byte) :
    Matches stringRegex.icase stringRegex.items w ↔
      ∃ a t, w = a :: t ∧ isQuote a = true ∧
        ∃ body q, t = body ++ [q] ∧ (∀ b ∈ body, (!isQuote b) = true) ∧ isQuote q = true := by
  simp only [stringRegex, matches_one_cons, matches_star_one, accepts_quote, accepts_not_quote]

/-- A match of a string literal takes exactly the run of bytes up to the closing quote. -/
theorem string_match_length {q₀ : Byte} {r : List Byte} {m : Nat} (hm : m ≤ r.length + 1)
    (h : Matches stringRegex.icase stringRegex.items ((q₀ :: r).take m)) :
    isQuote q₀ = true ∧ (r.takeWhile fun b => !isQuote b).length < r.length ∧
      m = (r.takeWhile fun b => !isQuote b).length + 2 := by
  rw [matches_string_iff] at h
  obtain ⟨a, t, heq, ha, body, q, rfl, hall, hq⟩ := h
  cases m with
  | zero => simp at heq
  | succ m =>
    rw [List.take_succ_cons, List.cons.injEq] at heq
    have hr : r = body ++ q :: r.drop m := by
      calc r = r.take m ++ r.drop m := (List.take_append_drop m r).symm
        _ = body ++ q :: r.drop m := by rw [heq.2]; simp
    have hlength : m = body.length + 1 := by
      have := congrArg List.length heq.2
      rw [List.length_take, List.length_append, List.length_singleton] at this
      omega
    rw [run_before_quote hr hall hq]
    refine ⟨by rw [heq.1]; exact ha, ?_, ?_⟩
    · omega
    · omega

/-- The match of a string literal. -/
theorem regexec_string (s : List Byte) : regexec stringRegex s = (stringLen s).map fun n => ⟨0, n⟩ := by
  match s with
  | [] =>
    unfold stringLen
    rw [Option.map_none, regexec_eq_none_iff]
    intro m hm hw
    rw [matches_string_iff] at hw
    simp at hw
  | q₀ :: r =>
    rw [stringLen]
    split
    · rename_i h
      obtain ⟨q, rest, hr, hq⟩ := run_split (fun b => !isQuote b) h.2
      rw [Option.map_some, regexec_eq_some_iff, matches_string_iff]
      refine ⟨⟨by rw [List.length_cons]; omega, q₀, _, rfl, h.1, r.takeWhile (fun b => !isQuote b), q, ?_, ?_, ?_⟩, ?_⟩
      · generalize hbody : r.takeWhile (fun b => !isQuote b) = body at hr
        rw [hr, List.take_length_add_append]
        rfl
      · intro b hb
        exact List.mem_takeWhile_imp (p := fun b => !isQuote b) hb
      · simpa using hq
      · intro m hm hw
        exact Nat.le_of_eq (string_match_length hm hw).2.2
    · rename_i h
      rw [Option.map_none, regexec_eq_none_iff]
      intro m hm hw
      obtain ⟨h₁, h₂, -⟩ := string_match_length hm hw
      exact h ⟨h₁, h₂⟩

/-! ## One token -/

/-- Where the next token of a lexer starts. -/
abbrev Lexer.start (lexer : Lexer) : Nat := tokenStart lexer.input.bytes lexer.pos

/-- The next token of a lexer. -/
abbrev Lexer.token (lexer : Lexer) : Token := tokenAt lexer.input.bytes lexer.pos

/-- The state of a lexer between calls: the queue is empty or holds the token at the position. -/
structure LexInv (lexer : Lexer) : Prop where
  inputLen : lexer.inputLen = lexer.input.bytes.length
  cursor : lexer.cursor = lexer.pos
  pos_le : lexer.pos ≤ lexer.inputLen
  ignore : lexer.ignore = ignoreRegex
  patterns : lexer.patterns = [⟨.stringLiteral, stringRegex⟩, ⟨.id, idRegex⟩]
  queue : QueueInv lexer.lookahead
  lookahead : lexer.lookahead.toList = [] ∨ lexer.lookahead.toList = [lexer.token]

theorem lexInv_init (input : CString) :
    ∃ lexer, aqlsLexerInit input input.strlen = .ok lexer ∧ LexInv lexer ∧ lexer.input = input ∧ lexer.pos = 0 := by
  refine ⟨_, aqlsLexerInit_eq input input.strlen, ⟨rfl, rfl, Nat.zero_le _, rfl, rfl, queueInv_init, ?_⟩, rfl, rfl⟩
  exact Or.inl (List.eq_nil_of_length_eq_zero (length_toList _))

theorem assert_true {c : Prop} [Decidable c] (h : c) : assert c = .ok () := by
  unfold assert
  rw [if_pos h]

/-- The loop over the patterns finds the lexeme at the cursor. -/
theorem firstMatch_eq (lexer : Lexer) (cursor : Nat) :
    firstMatch lexer cursor [⟨.stringLiteral, stringRegex⟩, ⟨.id, idRegex⟩] =
      .ok (lexemeAt (lexer.rest cursor) cursor) := by
  unfold firstMatch
  rw [regexec_string, lexemeAt]
  cases hs : stringLen (lexer.rest cursor) with
  | some n =>
    simp only [Option.map_some, Nat.sub_zero, gt_iff_lt]
    rw [assert_true (stringLen_bounds hs).1]
    rfl
  | none =>
    simp only [Option.map_none]
    unfold firstMatch
    rw [regexec_id]
    cases hi : idLen (lexer.rest cursor) with
    | some n =>
      simp only [Option.map_some, Nat.sub_zero, gt_iff_lt]
      rw [assert_true (idLen_bounds hi).1]
      rfl
    | none => rfl

/-- What is ignored at the position of a lexer leads to the start of the token, inside the input. -/
theorem ignored_le {lexer : Lexer} (h : LexInv lexer) :
    lexer.pos + spaceLen (lexer.rest lexer.cursor) = lexer.start ∧
      lexer.start ≤ lexer.inputLen := by
  have hpos : lexer.pos ≤ lexer.input.bytes.length := by
    rw [← h.inputLen]
    exact h.pos_le
  rw [h.inputLen, Lexer.rest, h.cursor]
  exact ⟨rfl, tokenStart_le hpos⟩

/-- The match of what is ignored, at the cursor of a lexer. -/
theorem regexec_lexer_ignore {lexer : Lexer} (h : LexInv lexer) :
    regexec lexer.ignore (lexer.rest lexer.cursor) =
      if spaceLen (lexer.rest lexer.cursor) = 0 then none else some ⟨0, spaceLen (lexer.rest lexer.cursor)⟩ := by
  rw [h.ignore, regexec_ignore]

/-- The copies that peeking makes are moved to the start of the token. -/
theorem peekIgnored_eq {lexer : Lexer} (h : LexInv lexer) :
    peekIgnored lexer = .ok (lexer.start, lexer.start) := by
  obtain ⟨hstart, hle⟩ := ignored_le h
  unfold peekIgnored
  rw [regexec_lexer_ignore h, ← hstart]
  by_cases h0 : spaceLen (lexer.rest lexer.cursor) = 0
  · rw [if_pos h0, h0, h.cursor]
    rfl
  · rw [if_neg h0]
    simp only [Nat.sub_zero, gt_iff_lt]
    rw [assert_true (by omega), assert_true (by omega), h.cursor]
    rfl

/-- The lexer at another position. -/
def Lexer.atPos (lexer : Lexer) (pos : Nat) : Lexer := { lexer with pos := pos, cursor := pos }

theorem atPos_self {lexer : Lexer} (h : lexer.cursor = lexer.pos) : lexer.atPos lexer.pos = lexer := by
  cases lexer
  simp only at h
  subst h
  rfl

/-- Advancing inside the input. -/
theorem advance_eq {lexer : Lexer} {offset : Nat} (hcursor : lexer.cursor = lexer.pos)
    (h : lexer.pos + offset ≤ lexer.inputLen) : advance lexer offset = .ok (lexer.atPos (lexer.pos + offset)) := by
  unfold advance
  rw [assert_true h, hcursor]
  rfl

/-- Advancing over a token inside the input. -/
theorem advanceToken_eq {lexer : Lexer} {token : Token} (hcursor : lexer.cursor = lexer.pos)
    (h : lexer.pos + token.lexeme.len ≤ lexer.inputLen) :
    advanceToken lexer token = .ok (lexer.atPos (lexer.pos + token.lexeme.len)) := by
  unfold advanceToken
  rw [assert_true h, ok_bind, advance_eq hcursor h]

/-- Skipping moves the lexer to the start of the token. -/
theorem skipIgnored_eq {lexer : Lexer} (h : LexInv lexer) :
    skipIgnored lexer = .ok (lexer.atPos lexer.start) := by
  obtain ⟨hstart, hle⟩ := ignored_le h
  unfold skipIgnored
  rw [regexec_lexer_ignore h, ← hstart]
  by_cases h0 : spaceLen (lexer.rest lexer.cursor) = 0
  · rw [if_pos h0, h0, Nat.add_zero, atPos_self h.cursor]
  · rw [if_neg h0]
    simp only [Nat.sub_zero, gt_iff_lt]
    rw [assert_true (by omega), ok_bind, advance_eq h.cursor (by omega)]

/-- A lexer moved on: the same input, and the state between calls at another position. -/
structure MovedTo (lexer lexer' : Lexer) (pos : Nat) : Prop where
  inv : LexInv lexer'
  input : lexer'.input = lexer.input
  pos : lexer'.pos = pos

/-- Remembering the token at the position, with an empty queue. -/
theorem remember_spec {lexer : Lexer} (h : LexInv lexer) (hempty : lexer.lookahead.toList = []) {token : Token}
    (htoken : token = lexer.token) :
    ∃ lexer', lexer.remember token = .ok (token, lexer') ∧ MovedTo lexer lexer' lexer.pos := by
  have hlen : lexer.lookahead.len < aqlsLookahead := by
    rw [← length_toList, hempty]
    decide
  obtain ⟨queue, happend, hinv, hlist⟩ := queueAppend_spec h.queue hlen token
  unfold Lexer.remember
  rw [happend, ok_bind]
  refine ⟨_, rfl, ⟨h.inputLen, h.cursor, h.pos_le, h.ignore, h.patterns, hinv, ?_⟩, rfl, rfl⟩
  rw [hlist, hempty, htoken]
  exact Or.inr rfl

theorem lexInv_pos_le {lexer : Lexer} (h : LexInv lexer) : lexer.pos ≤ lexer.input.bytes.length := by
  rw [← h.inputLen]
  exact h.pos_le

/-- The next token of a lexer is the end of the input, an error or a lexeme. -/
theorem token_cases {lexer : Lexer} (h : LexInv lexer) :
    (lexer.start = lexer.input.bytes.length ∧ lexer.token = aqlsTokenEof) ∨
    (lexer.start < lexer.input.bytes.length ∧ lexemeAt (lexer.input.bytes.drop lexer.start) lexer.start = none ∧
      lexer.token = errorToken lexer.start) ∨
    (lexer.start < lexer.input.bytes.length ∧
      lexemeAt (lexer.input.bytes.drop lexer.start) lexer.start = some lexer.token ∧
      lexer.token.goesOn = true ∧ lexer.token.lexeme.str = .input lexer.start ∧ 0 < lexer.token.lexeme.len ∧
      lexer.start + lexer.token.lexeme.len ≤ lexer.input.bytes.length) :=
  tokenAt_cases (lexInv_pos_le h)

/-- The queue of a lexer as its first test sees it. -/
theorem isEmpty_eq_false_iff {lexer : Lexer} :
    aqlsTokenQueueIsEmpty lexer.lookahead = false ↔ lexer.lookahead.toList ≠ [] := by
  rw [← Bool.not_eq_true, isEmpty_iff]

/-- `aqls_lexer_has_more_tokens` on a lexer at the end of its input. -/
theorem token_of_no_more {lexer : Lexer} (h : LexInv lexer) (hmore : aqlsLexerHasMoreTokens lexer = false) :
    lexer.token = aqlsTokenEof := by
  unfold aqlsLexerHasMoreTokens at hmore
  rw [decide_eq_false_iff_not, h.inputLen] at hmore
  have hstart : lexer.pos ≤ lexer.start := Nat.le_add_right _ _
  unfold Lexer.token
  rw [tokenAt, if_pos (show lexer.input.bytes.length ≤ lexer.start by omega)]

/-- `aqls_lexer_peek_token` returns the token at the position and moves nothing. -/
theorem peek_spec {lexer : Lexer} (h : LexInv lexer) :
    ∃ lexer', aqlsLexerPeekToken lexer = .ok (lexer.token, lexer') ∧
      MovedTo lexer lexer' lexer.pos := by
  by_cases hempty : lexer.lookahead.toList = []
  · have hisEmpty : ¬aqlsTokenQueueIsEmpty lexer.lookahead = false := by
      rw [isEmpty_eq_false_iff]
      exact not_not.mpr hempty
    unfold aqlsLexerPeekToken
    rw [if_neg hisEmpty]
    by_cases hmore : aqlsLexerHasMoreTokens lexer = false
    · have htok := token_of_no_more h hmore
      rw [if_pos hmore, htok]
      exact remember_spec h hempty htok.symm
    · rw [if_neg hmore, peekIgnored_eq h, ok_bind]
      simp only
      rw [h.patterns, firstMatch_eq, h.inputLen]
      rcases token_cases h with ⟨hend, htok⟩ | ⟨hlt, hlex, htok⟩ | ⟨hlt, hlex, -⟩
      · rw [if_pos (by omega), htok]
        exact remember_spec h hempty htok.symm
      · rw [if_neg (by omega), ok_bind, Lexer.rest, hlex, htok]
        exact remember_spec h hempty htok.symm
      · rw [if_neg (by omega), ok_bind, Lexer.rest, hlex]
        exact remember_spec h hempty rfl
  · have hlist := h.lookahead.resolve_left hempty
    unfold aqlsLexerPeekToken
    rw [if_pos (isEmpty_eq_false_iff.mpr hempty), (queuePop_spec h.queue hlist).1]
    exact ⟨lexer, rfl, h, rfl, rfl⟩

/-- The count from the cursor to a lexeme ahead of it. -/
theorem offsetLoop_eq {str : Nat} (left c offset : Nat) (hle : c ≤ str) (hleft : str ≤ c + left) :
    offsetLoop str left c offset = .ok (offset + (str - c)) := by
  induction left generalizing c offset with
  | zero =>
    unfold offsetLoop
    rw [if_pos (by omega), show str - c = 0 by omega]
    rfl
  | succ left ih =>
    rw [offsetLoop]
    split
    · rename_i heq
      rw [heq, Nat.sub_self]
      rfl
    · rename_i hne
      rw [ih (c + 1) (offset + 1) (by omega) (by omega)]
      congr 1
      omega

/-- The end of the input, or a token that starts where the spaces end. -/
theorem token_input {lexer : Lexer} (h : LexInv lexer) :
    (lexer.start = lexer.inputLen ∧ lexer.token = aqlsTokenEof) ∨
    (lexer.start < lexer.inputLen ∧
      lexer.token.lexeme.str = .input lexer.start ∧
      lexer.start + lexer.token.lexeme.len ≤ lexer.inputLen ∧
      lexer.token.stop =
        lexer.start + lexer.token.lexeme.len) := by
  rw [h.inputLen]
  rcases token_cases h with heof | ⟨hlt, -, htok⟩ | ⟨hlt, -, -, hstr, -, hle⟩
  · exact Or.inl heof
  · rw [htok]
    exact Or.inr ⟨hlt, rfl, Nat.le_of_lt hlt, rfl⟩
  · exact Or.inr ⟨hlt, hstr, hle, by rw [Token.stop, hstr]⟩

/-- The state between calls at another position, with an empty queue. -/
theorem lexInv_atPos {lexer : Lexer} (h : LexInv lexer) {pos : Nat} (hpos : pos ≤ lexer.inputLen)
    {queue : TokenQueue aqlsLookahead} (hqueue : QueueInv queue) (hlist : queue.toList = []) :
    LexInv { lexer.atPos pos with lookahead := queue } :=
  ⟨h.inputLen, rfl, hpos, h.ignore, h.patterns, hqueue, Or.inl hlist⟩

/-- Moving to a lexeme ahead and then over it. -/
theorem advance_past (lexer : Lexer) (token : Token) {start offset : Nat} (hcursor : lexer.cursor = lexer.pos)
    (hoffset : lexer.pos + offset = start) (hle : start + token.lexeme.len ≤ lexer.inputLen) :
    (do
      let lexer ← advance lexer offset
      let lexer ← advanceToken lexer token
      return (token, lexer)) =
      (Except.ok (token, lexer.atPos (start + token.lexeme.len)) : Except Exit (Token × Lexer)) := by
  rw [advance_eq hcursor (by omega), ok_bind, hoffset, advanceToken_eq rfl hle]
  rfl

/-- What the next call of `aqls_lexer_next_token` does: it returns the token at the position, empties the queue, and moves
past the token; at the end of the input it may stay before the last spaces. -/
def NextReturns (lexer : Lexer) (result : Except Exit (Token × Lexer)) : Prop :=
  ∃ lexer', result = .ok (lexer.token, lexer') ∧
    ∃ pos, MovedTo lexer lexer' pos ∧ lexer'.lookahead.toList = [] ∧
      (lexer.token.kind ≠ .eof → pos = lexer.token.stop) ∧ lexer.pos ≤ pos

/-- The token popped from the queue. -/
theorem next_of_queue {lexer : Lexer} (h : LexInv lexer) (hne : lexer.lookahead.toList ≠ []) :
    NextReturns lexer (aqlsLexerNextToken lexer) := by
  obtain ⟨-, queue, hpop, hinv, hlist⟩ := queuePop_spec h.queue (h.lookahead.resolve_left hne)
  unfold aqlsLexerNextToken
  rw [if_pos (isEmpty_eq_false_iff.mpr hne), hpop, ok_bind]
  rcases token_input h with ⟨-, htok⟩ | ⟨hlt, hstr, hle, hstop⟩
  · unfold NextReturns
    rw [htok]
    refine ⟨{ lexer with lookahead := queue }, rfl, lexer.pos, ⟨?_, rfl, rfl⟩, hlist, fun hk => absurd rfl hk, Nat.le_refl _⟩
    exact ⟨h.inputLen, h.cursor, h.pos_le, h.ignore, h.patterns, hinv, Or.inl hlist⟩
  · have hstart : lexer.pos ≤ lexer.start := Nat.le_add_right _ _
    have hpos := h.pos_le
    have hcursor := h.cursor
    simp only [hstr]
    rw [offsetLoop_eq (lexer.inputLen - lexer.cursor) lexer.cursor 0 (by omega) (by omega), ok_bind]
    refine ⟨_, advance_past { lexer with lookahead := queue } _ hcursor (by simp only; omega) hle, _, ⟨?_, rfl, rfl⟩, hlist,
      fun _ => hstop.symm, Nat.le_trans hstart (Nat.le_add_right _ _)⟩
    exact lexInv_atPos h hle hinv hlist

/-- What a call of `aqls_lexer_next_token` does that scans: it returns the token at the position and moves to where its
lexeme ends. -/
def NextScans (lexer : Lexer) (result : Except Exit (Token × Lexer)) : Prop :=
  ∃ lexer', result = .ok (lexer.token, lexer') ∧ MovedTo lexer lexer' (lexer.start + lexer.token.lexeme.len) ∧
    lexer'.lookahead.toList = []

/-- Without more tokens the lexer is where its last token starts. -/
theorem next_at_end {lexer : Lexer} (h : LexInv lexer) (hempty : lexer.lookahead.toList = [])
    (hmore : aqlsLexerHasMoreTokens lexer = false) : NextScans lexer (.ok (aqlsTokenEof, lexer)) := by
  have hstart : lexer.pos ≤ lexer.start := Nat.le_add_right _ _
  have hle := (ignored_le h).2
  have hpos : lexer.pos = lexer.start := by
    rw [aqlsLexerHasMoreTokens, decide_eq_false_iff_not] at hmore
    omega
  unfold NextScans
  rw [token_of_no_more h hmore]
  exact ⟨lexer, rfl, ⟨h, rfl, hpos⟩, hempty⟩

/-- The token scanned afresh. -/
theorem next_scans {lexer : Lexer} (h : LexInv lexer) (hempty : lexer.lookahead.toList = []) :
    NextScans lexer (aqlsLexerNextToken lexer) := by
  have hisEmpty : ¬aqlsTokenQueueIsEmpty lexer.lookahead = false := by
    rw [isEmpty_eq_false_iff]
    exact not_not.mpr hempty
  have hle := (ignored_le h).2
  unfold aqlsLexerNextToken
  rw [if_neg hisEmpty]
  by_cases hmore : aqlsLexerHasMoreTokens lexer = false
  · rw [if_pos hmore]
    exact next_at_end h hempty hmore
  · rw [if_neg hmore, skipIgnored_eq h, ok_bind]
    have hinv : ∀ pos ≤ lexer.inputLen, LexInv (lexer.atPos pos) :=
      fun pos hpos => lexInv_atPos h hpos h.queue hempty
    have hpatterns : (lexer.atPos lexer.start).patterns =
        [⟨.stringLiteral, stringRegex⟩, ⟨.id, idRegex⟩] := h.patterns
    have hmore' : aqlsLexerHasMoreTokens (lexer.atPos lexer.start) =
        decide (lexer.start < lexer.input.bytes.length) := by
      rw [← h.inputLen]
      rfl
    have hrest : (lexer.atPos lexer.start).rest
        (lexer.atPos lexer.start).cursor =
          lexer.input.bytes.drop lexer.start := rfl
    rw [hmore', hpatterns, firstMatch_eq, ok_bind, hrest]
    unfold NextScans
    rcases token_cases h with ⟨hend, htok⟩ | ⟨hlt, hlex, htok⟩ | ⟨hlt, hlex, -, -, -, hle'⟩
    · rw [if_pos (by simp [hend]), htok]
      exact ⟨_, rfl, ⟨hinv _ hle, rfl, rfl⟩, hempty⟩
    · have hlex' : lexemeAt (lexer.input.bytes.drop lexer.start)
          (lexer.atPos lexer.start).cursor = none := hlex
      rw [if_neg (by simp [hlt]), hlex', htok]
      exact ⟨_, rfl, ⟨hinv _ hle, rfl, rfl⟩, hempty⟩
    · have hlex' : lexemeAt (lexer.input.bytes.drop lexer.start)
          (lexer.atPos lexer.start).cursor = some lexer.token := hlex
      rw [← h.inputLen] at hle'
      rw [if_neg (by simp [hlt]), hlex']
      simp only
      rw [advanceToken_eq rfl hle', ok_bind]
      exact ⟨_, rfl, ⟨hinv _ hle', rfl, rfl⟩, hempty⟩

theorem next_spec {lexer : Lexer} (h : LexInv lexer) : NextReturns lexer (aqlsLexerNextToken lexer) := by
  by_cases hempty : lexer.lookahead.toList = []
  · obtain ⟨lexer', hnext, hmoved, hlist⟩ := next_scans h hempty
    have hle : lexer.pos ≤ lexer.start + lexer.token.lexeme.len :=
      Nat.le_trans (Nat.le_add_right _ _) (Nat.le_add_right _ _)
    refine ⟨lexer', hnext, _, hmoved, hlist, ?_, hle⟩
    intro hkind
    rcases token_input h with ⟨-, htok⟩ | ⟨-, -, -, hstop⟩
    · rw [htok] at hkind
      exact absurd rfl hkind
    · exact hstop.symm
  · exact next_of_queue h hempty

/-- Where the token after the next one starts. -/
theorem next_start {lexer : Lexer} (h : LexInv lexer) :
    ∃ lexer', aqlsLexerNextToken lexer = .ok (lexer.token, lexer') ∧ LexInv lexer' ∧ lexer'.input = lexer.input ∧
      lexer'.lookahead.toList = [] ∧
      lexer'.start = tokenStart lexer.input.bytes (lexer.start + lexer.token.lexeme.len) := by
  obtain ⟨lexer', hnext, pos, hmoved, hlist, hpos, hle⟩ := next_spec h
  refine ⟨lexer', hnext, hmoved.inv, hmoved.input, hlist, ?_⟩
  have hpos' : pos ≤ lexer.input.bytes.length := by
    rw [← hmoved.pos, ← hmoved.input]
    exact lexInv_pos_le hmoved.inv
  rw [Lexer.start, hmoved.input, hmoved.pos]
  rcases token_input h with ⟨hend, htok⟩ | ⟨hlt, hstr, -, hstop⟩
  · rw [h.inputLen] at hend
    have hgo : lexer.token.goesOn = false := by
      rw [htok]
      rfl
    rw [tokenStart_after_stop (lexInv_pos_le h) hgo, tokenStart_end hend hle hpos']
    exact hend.symm
  · have hkind : lexer.token.kind ≠ .eof := by
      rw [ne_eq, tokenAt_eof_iff (lexInv_pos_le h), ← h.inputLen]
      exact Nat.ne_of_lt hlt
    rw [hpos hkind, hstop]

end CLangExamples.Aqls
