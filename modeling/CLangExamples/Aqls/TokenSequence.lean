import CLangExamples.Aqls.Lexer

/-!
# The token sequence of an input

What the lexer is for, apart from how it works. `tokenAt` is the token at a position, read off the bytes of the input: past
the spaces, the string literal or the identifier that the rest begins with. `tokens` is the sequence of them, up to the
end of the input or the first byte that starts no token.
-/

namespace CLangExamples.Aqls

open Ere

/-! ## Lexemes -/

/-- Space, tab, carriage return and line feed. -/
def isSpace (b : Byte) : Bool := b == 0x20#8 || b == 0x09#8 || b == 0x0D#8 || b == 0x0A#8

/-- The quote. -/
def isQuote (b : Byte) : Bool := b == 0x27#8

/-- A letter or `#`. -/
def isIdStart (b : Byte) : Bool :=
  (decide (0x61 ≤ b.toNat) && decide (b.toNat ≤ 0x7A)) || (decide (0x41 ≤ b.toNat) && decide (b.toNat ≤ 0x5A)) || b == 0x23#8

/-- A letter, `#`, the backslash or the dot: in the bracket expression of the source the backslash is one of the
characters. -/
def isIdPart (b : Byte) : Bool := isIdStart b || b == 0x5C#8 || b == 0x2E#8

/-- The number of spaces that a string starts with. -/
def spaceLen (s : List Byte) : Nat := (s.takeWhile isSpace).length

/-- The length of the string literal that a string starts with: up to the next quote. -/
def stringLen : List Byte → Option Nat
  | [] => none
  | q :: r =>
    let body := (r.takeWhile fun b => !isQuote b).length
    if isQuote q = true ∧ body < r.length then some (body + 2) else none

/-- The length of the identifier that a string starts with. -/
def idLen : List Byte → Option Nat
  | [] => none
  | a :: r => if isIdStart a = true then some ((r.takeWhile isIdPart).length + 1) else none

theorem stringLen_bounds {s : List Byte} {n : Nat} (h : stringLen s = some n) : 0 < n ∧ n ≤ s.length := by
  match s with
  | q :: r =>
    rw [stringLen] at h
    split at h
    · rename_i hq
      rw [Option.some.injEq] at h
      rw [List.length_cons]
      omega
    · cases h

theorem idLen_bounds {s : List Byte} {n : Nat} (h : idLen s = some n) : 0 < n ∧ n ≤ s.length := by
  match s with
  | a :: r =>
    have hle : (r.takeWhile isIdPart).length ≤ r.length := length_takeWhile_le isIdPart r
    rw [idLen] at h
    split at h
    · rw [Option.some.injEq] at h
      rw [List.length_cons]
      omega
    · cases h

/-! ## Tokens -/

/-- The string literal or the identifier that the rest of the input from `start` on begins with. -/
def lexemeAt (rest : List Byte) (start : Nat) : Option Token :=
  match stringLen rest with
  | some n => some ⟨.stringLiteral, ⟨.input start, n⟩⟩
  | none => (idLen rest).map fun n => ⟨.id, ⟨.input start, n⟩⟩

/-- Where the token at a position starts: past the spaces. -/
def tokenStart (input : List Byte) (pos : Nat) : Nat := pos + spaceLen (input.drop pos)

/-- The token at a position of the input. -/
def tokenAt (input : List Byte) (pos : Nat) : Token :=
  let start := tokenStart input pos
  if input.length ≤ start then aqlsTokenEof else (lexemeAt (input.drop start) start).getD (errorToken start)

/-- A token that the sequence goes on after. -/
def Token.goesOn (token : Token) : Bool := token.kind == .stringLiteral || token.kind == .id

theorem goesOn_of_kind {token : Token} (h : token.kind = .id ∨ token.kind = .stringLiteral) : token.goesOn = true := by
  rcases h with h | h
  · simp [Token.goesOn, h]
  · simp [Token.goesOn, h]

theorem goesOn_eq_false_iff (token : Token) : token.goesOn = false ↔ token.kind = .eof ∨ token.kind = .error := by
  unfold Token.goesOn
  cases token.kind <;> simp

theorem kind_of_goesOn {token : Token} (h : token.goesOn = true) : token.kind ≠ .eof ∧ token.kind ≠ .error := by
  rw [← not_or, ← goesOn_eq_false_iff, h]
  exact Bool.noConfusion

/-- Where a token of the input ends. -/
def Token.stop (token : Token) : Nat :=
  match token.lexeme.str with
  | .input start => start + token.lexeme.len
  | _ => 0

/-- The tokens from a position on, up to the first that is an error or the end of the input. -/
def tokensFrom (input : List Byte) : Nat → Nat → List Token
  | 0, _ => []
  | bound + 1, pos =>
    let token := tokenAt input pos
    token :: if token.goesOn then tokensFrom input bound token.stop else []

/-- The tokens from a position on: each takes at least one byte, so there are at most as many as bytes, and one more. -/
def tokensAt (input : List Byte) (pos : Nat) : List Token := tokensFrom input (input.length + 1) pos

/-- The token sequence of an input. -/
def tokens (input : List Byte) : List Token := tokensAt input 0

theorem tokenStart_le {input : List Byte} {pos : Nat} (h : pos ≤ input.length) : tokenStart input pos ≤ input.length := by
  have hle : spaceLen (input.drop pos) ≤ (input.drop pos).length := length_takeWhile_le isSpace (input.drop pos)
  rw [List.length_drop] at hle
  unfold tokenStart
  omega

/-- What `lexemeAt` finds is a lexeme of at least one byte inside the input. -/
theorem lexemeAt_some {rest : List Byte} {start : Nat} {token : Token} (h : lexemeAt rest start = some token) :
    token.goesOn = true ∧ token.lexeme.str = .input start ∧ 0 < token.lexeme.len ∧ token.lexeme.len ≤ rest.length := by
  unfold lexemeAt at h
  split at h
  · rename_i n hn
    obtain rfl := Option.some.inj h
    exact ⟨rfl, rfl, stringLen_bounds hn⟩
  · rw [Option.map_eq_some_iff] at h
    obtain ⟨n, hn, rfl⟩ := h
    exact ⟨rfl, rfl, idLen_bounds hn⟩

/-- The token at a position is the end of the input, an error or a lexeme. -/
theorem tokenAt_cases {input : List Byte} {pos : Nat} (h : pos ≤ input.length) :
    (tokenStart input pos = input.length ∧ tokenAt input pos = aqlsTokenEof) ∨
    (tokenStart input pos < input.length ∧ lexemeAt (input.drop (tokenStart input pos)) (tokenStart input pos) = none ∧
      tokenAt input pos = errorToken (tokenStart input pos)) ∨
    (tokenStart input pos < input.length ∧
      lexemeAt (input.drop (tokenStart input pos)) (tokenStart input pos) = some (tokenAt input pos) ∧
      (tokenAt input pos).goesOn = true ∧ (tokenAt input pos).lexeme.str = .input (tokenStart input pos) ∧
      0 < (tokenAt input pos).lexeme.len ∧
      tokenStart input pos + (tokenAt input pos).lexeme.len ≤ input.length) := by
  have hle := tokenStart_le h
  rcases Nat.lt_or_eq_of_le hle with hlt | heq
  · have htok : tokenAt input pos =
        (lexemeAt (input.drop (tokenStart input pos)) (tokenStart input pos)).getD (errorToken (tokenStart input pos)) := by
      unfold tokenAt
      rw [if_neg (by omega)]
    cases hlex : lexemeAt (input.drop (tokenStart input pos)) (tokenStart input pos) with
    | none =>
      rw [hlex] at htok
      exact Or.inr (Or.inl ⟨hlt, rfl, htok⟩)
    | some token =>
      obtain ⟨hgo, hstr, hpos, hlen⟩ := lexemeAt_some hlex
      rw [List.length_drop] at hlen
      rw [hlex, Option.getD_some] at htok
      rw [htok]
      exact Or.inr (Or.inr ⟨hlt, rfl, hgo, hstr, hpos, by omega⟩)
  · refine Or.inl ⟨heq, ?_⟩
    unfold tokenAt
    rw [if_pos (by omega)]

/-- The end of the input is the token exactly where only the end is left. -/
theorem tokenAt_eof_iff {input : List Byte} {pos : Nat} (h : pos ≤ input.length) :
    (tokenAt input pos).kind = .eof ↔ tokenStart input pos = input.length := by
  rcases tokenAt_cases h with ⟨hend, htok⟩ | ⟨hlt, -, htok⟩ | ⟨hlt, -, hgo, -⟩
  · rw [htok]
    exact iff_of_true rfl hend
  · rw [htok]
    exact iff_of_false TokenKind.noConfusion (Nat.ne_of_lt hlt)
  · exact iff_of_false (kind_of_goesOn hgo).1 (Nat.ne_of_lt hlt)

theorem tokenAt_of_eof {input : List Byte} {pos : Nat} (h : tokenStart input pos = input.length) :
    tokenAt input pos = aqlsTokenEof := by
  unfold tokenAt
  rw [if_pos (Nat.le_of_eq h.symm)]

/-- A token that the sequence goes on after is a lexeme where the token starts. -/
theorem lexeme_of_goesOn {input : List Byte} {pos : Nat} (h : pos ≤ input.length)
    (hgo : (tokenAt input pos).goesOn = true) :
    (tokenAt input pos).lexeme.str = .input (tokenStart input pos) ∧ 0 < (tokenAt input pos).lexeme.len ∧
      tokenStart input pos + (tokenAt input pos).lexeme.len ≤ input.length := by
  rcases tokenAt_cases h with ⟨-, htok⟩ | ⟨-, -, htok⟩ | ⟨-, -, -, hlexeme⟩
  · rw [htok] at hgo
    cases hgo
  · rw [htok] at hgo
    cases hgo
  · exact hlexeme

/-- Where a lexeme ends, the position is further on and still inside the input. -/
theorem stop_of_goesOn {input : List Byte} {pos : Nat} (h : pos ≤ input.length) (hgo : (tokenAt input pos).goesOn = true) :
    pos < (tokenAt input pos).stop ∧ (tokenAt input pos).stop ≤ input.length := by
  have hstart : pos ≤ tokenStart input pos := Nat.le_add_right _ _
  obtain ⟨hstr, hpos, hle⟩ := lexeme_of_goesOn h hgo
  unfold Token.stop
  rw [hstr]
  simp only
  omega

/-- A greater bound on the number of tokens changes nothing. -/
theorem tokensFrom_bound {input : List Byte} (a b : Nat) {pos : Nat} (h : pos ≤ input.length) (ha : input.length - pos < a)
    (hb : input.length - pos < b) : tokensFrom input a pos = tokensFrom input b pos := by
  induction a generalizing b pos with
  | zero => omega
  | succ a ih =>
    cases b with
    | zero => omega
    | succ b =>
      rw [tokensFrom, tokensFrom]
      by_cases hgo : (tokenAt input pos).goesOn = true
      · obtain ⟨hlt, hle⟩ := stop_of_goesOn h hgo
        simp only [hgo, if_true, List.cons.injEq, true_and]
        exact ih b hle (by omega) (by omega)
      · simp only [hgo]
        rfl

/-- The tokens at a position are the token there and the tokens after it. -/
theorem tokensAt_eq {input : List Byte} {pos : Nat} (h : pos ≤ input.length) :
    tokensAt input pos =
      tokenAt input pos :: if (tokenAt input pos).goesOn then tokensAt input (tokenAt input pos).stop else [] := by
  unfold tokensAt
  rw [tokensFrom]
  by_cases hgo : (tokenAt input pos).goesOn = true
  · obtain ⟨hlt, hle⟩ := stop_of_goesOn h hgo
    simp only [hgo, if_true, List.cons.injEq, true_and]
    exact tokensFrom_bound _ _ hle (by omega) (by omega)
  · simp only [hgo]
    rfl

/-! ## What a token takes of the input -/

/-- The byte behind the longest run of accepted bytes is not accepted. -/
theorem takeWhile_next (p : Byte → Bool) {r : List Byte} {b : Byte} (h : r[(r.takeWhile p).length]? = some b) :
    p b = false := by
  induction r with
  | nil => simp at h
  | cons a r ih =>
    cases ha : p a with
    | true =>
      rw [List.takeWhile_cons_of_pos ha, List.length_cons, List.getElem?_cons_succ] at h
      exact ih h
    | false =>
      rw [List.takeWhile_cons_of_neg (by simp [ha])] at h
      obtain rfl : a = b := by simpa using h
      exact ha

/-- A position is followed by the spaces up to the start of its token. -/
theorem drop_tokenStart (input : List Byte) (pos : Nat) :
    input.drop pos = (input.drop pos).takeWhile isSpace ++ input.drop (tokenStart input pos) := by
  have hdrop : input.drop (tokenStart input pos) = (input.drop pos).drop (spaceLen (input.drop pos)) :=
    List.drop_drop.symm
  have htake : (input.drop pos).takeWhile isSpace = (input.drop pos).take (spaceLen (input.drop pos)) :=
    (List.prefix_iff_eq_take.mp (List.takeWhile_prefix isSpace))
  rw [hdrop, htake, List.take_append_drop]

/-- The token at a position stands where it starts: past the spaces, with nothing left over before what follows it. -/
theorem drop_tokenAt {input : List Byte} {pos : Nat} (h : pos ≤ input.length) :
    input.drop pos = (input.drop pos).takeWhile isSpace ++ (tokenAt input pos).lexeme.bytes input ++
      input.drop (tokenStart input pos + (tokenAt input pos).lexeme.len) := by
  have hlexeme : input.drop (tokenStart input pos) = (tokenAt input pos).lexeme.bytes input ++
      input.drop (tokenStart input pos + (tokenAt input pos).lexeme.len) := by
    rcases tokenAt_cases h with ⟨-, htok⟩ | ⟨-, -, htok⟩ | ⟨-, -, -, hstr, -, -⟩
    · rw [htok]
      rfl
    · rw [htok]
      rfl
    · rw [StrView.bytes, hstr, Pointer.bytes, ← List.drop_drop, List.take_append_drop]
  rw [List.append_assoc, ← hlexeme]
  exact drop_tokenStart input pos

/-- An identifier is as long as it can be. -/
theorem tokenAt_id_next {input : List Byte} {pos : Nat} {b : Byte} (h : pos ≤ input.length)
    (hkind : (tokenAt input pos).kind = .id)
    (hnext : input[tokenStart input pos + (tokenAt input pos).lexeme.len]? = some b) : isIdPart b = false := by
  rcases tokenAt_cases h with ⟨-, htok⟩ | ⟨-, -, htok⟩ | ⟨-, hlex, -⟩
  · rw [htok] at hkind
    cases hkind
  · rw [htok] at hkind
    cases hkind
  · generalize tokenAt input pos = token at hkind hnext hlex
    rw [← List.getElem?_drop] at hnext
    unfold lexemeAt at hlex
    split at hlex
    · obtain rfl := Option.some.inj hlex
      cases hkind
    · rw [Option.map_eq_some_iff] at hlex
      obtain ⟨n, hn, rfl⟩ := hlex
      match hrest : input.drop (tokenStart input pos) with
      | [] =>
        rw [hrest] at hn
        cases hn
      | a :: r =>
        rw [hrest, idLen] at hn
        split at hn
        · obtain rfl := Option.some.inj hn
          rw [hrest, List.getElem?_cons_succ] at hnext
          exact takeWhile_next isIdPart hnext
        · cases hn

/-- Only spaces are left exactly when the next token would start at the end of the input. -/
theorem spaces_left_iff {input : List Byte} {pos : Nat} (h : pos ≤ input.length) :
    (∀ b ∈ input.drop pos, isSpace b = true) ↔ tokenStart input pos = input.length := by
  constructor
  · intro hall
    unfold tokenStart spaceLen
    rw [List.takeWhile_eq_self_iff.mpr hall, List.length_drop]
    omega
  · intro hend b hb
    have hdrop := drop_tokenStart input pos
    rw [hend, List.drop_length, List.append_nil] at hdrop
    rw [hdrop] at hb
    exact List.mem_takeWhile_imp hb

/-- Past the last spaces there are no more. -/
theorem tokenStart_end {input : List Byte} {pos pos' : Nat} (h : tokenStart input pos = input.length) (hle : pos ≤ pos')
    (hle' : pos' ≤ input.length) : tokenStart input pos' = input.length := by
  rw [← spaces_left_iff hle']
  intro b hb
  have hsub : input.drop pos' = (input.drop pos).drop (pos' - pos) := by
    rw [List.drop_drop, Nat.add_sub_cancel' hle]
  rw [hsub] at hb
  exact (spaces_left_iff (Nat.le_trans hle hle')).2 h b (List.mem_of_mem_drop hb)

/-- A token starts at no space. -/
theorem tokenStart_start (input : List Byte) (pos : Nat) :
    tokenStart input (tokenStart input pos) = tokenStart input pos := by
  have hnil : (input.drop (tokenStart input pos)).takeWhile isSpace = [] := by
    have hdrop : input.drop (tokenStart input pos) = (input.drop pos).dropWhile isSpace :=
      List.append_cancel_left ((drop_tokenStart input pos).symm.trans List.takeWhile_append_dropWhile.symm)
    rw [hdrop, List.takeWhile_eq_nil_iff]
    intro hpos
    simpa using List.dropWhile_get_zero_not isSpace _ hpos
  rw [tokenStart, spaceLen, hnil]
  rfl

/-- The token at a position depends on where it starts. -/
theorem tokenAt_congr {input : List Byte} {pos pos' : Nat} (h : tokenStart input pos = tokenStart input pos') :
    tokenAt input pos = tokenAt input pos' := by
  unfold tokenAt
  rw [h]

/-- After a token that ends the sequence the position is where that token started. -/
theorem tokenStart_after_stop {input : List Byte} {pos : Nat} (h : pos ≤ input.length)
    (hstop : (tokenAt input pos).goesOn = false) :
    tokenStart input (tokenStart input pos + (tokenAt input pos).lexeme.len) = tokenStart input pos := by
  have hlen : (tokenAt input pos).lexeme.len = 0 := by
    rcases tokenAt_cases h with ⟨-, htok⟩ | ⟨-, -, htok⟩ | ⟨-, -, hgo, -⟩
    · rw [htok]
      rfl
    · rw [htok]
      rfl
    · rw [hgo] at hstop
      cases hstop
  rw [hlen, Nat.add_zero]
  exact tokenStart_start input pos

end CLangExamples.Aqls
