import CLangExamples.Scgi.Request

/-!
# The parser decodes

The two cursors of the parser cut the buffer into what is done, the bytes of the field begun and the bytes still to come
(`At`). One iteration moves a byte over as `decode` does, so from any such state the rest of `scgi_parser_parse` ends as
`decode` says (`parse_decodes`).
-/

namespace CLangExamples.Scgi

open Transition

/-- The cursors of a parser: the bytes of the field begun and those still to come. -/
structure At (parser : Parser) (pending rest : List Byte) : Prop where
  bytes : parser.inputBuffer.drop parser.cursorStart = pending ++ rest
  start_le : parser.cursorStart ≤ parser.inputBuffer.length
  cursorEnd : parser.cursorEnd = parser.cursorStart + pending.length

section At

variable {parser : Parser} {pending rest : List Byte} {c : Byte}

theorem at_length (h : At parser pending rest) : parser.cursorEnd + rest.length = parser.inputBuffer.length := by
  have hlength := congrArg List.length h.bytes
  have hle := h.start_le
  rw [List.length_drop, List.length_append] at hlength
  rw [h.cursorEnd]
  omega

/-- The parser is at the end of its buffer when nothing is to come. -/
theorem at_eof (h : At parser pending rest) : scgiParserEof parser = decide (rest = []) := by
  have hlength := at_length h
  rw [scgiParserEof, decide_eq_decide]
  cases rest with
  | nil =>
    simp only [List.length_nil] at hlength
    simp only [iff_true]
    omega
  | cons c rest =>
    simp only [List.length_cons] at hlength
    simp only [reduceCtorEq, iff_false]
    omega

theorem at_cursorSize (h : At parser pending rest) : scgiParserCursorSize parser = pending.length := by
  rw [scgiParserCursorSize, h.cursorEnd]
  omega

theorem at_drop (h : At parser pending rest) : parser.inputBuffer.drop parser.cursorEnd = rest := by
  rw [h.cursorEnd, ← List.drop_drop, h.bytes, List.drop_left]

theorem at_read (h : At parser pending (c :: rest)) : parser.read = .ok c := by
  have hget : parser.inputBuffer[parser.cursorEnd]? = some c := by
    rw [← List.head?_drop, at_drop h]
    rfl
  rw [Parser.read, hget]

/-- The copy of the field begun: its bytes, and zeros after them. -/
theorem at_copy (h : At parser pending rest) (hle : pending.length ≤ bufferSize) :
    parser.copy pending.length = .ok (pending ++ List.replicate (bufferSize - pending.length) nul) := by
  have hlength := at_length h
  have hcursor := h.cursorEnd
  rw [Parser.copy, if_neg (by omega), if_neg (by omega), h.bytes, List.take_left]

theorem at_advance (h : At parser pending (c :: rest)) : At parser.advance (pending ++ [c]) rest := by
  refine ⟨?_, h.start_le, ?_⟩
  · simp only [Parser.advance, List.append_assoc, List.singleton_append]
    exact h.bytes
  · simp only [Parser.advance, h.cursorEnd, List.length_append, List.length_singleton]
    omega

theorem at_skip (h : At parser pending (c :: rest)) (state : ParserState) : At (parser.skip state) [] rest := by
  have hlength := at_length h
  rw [List.length_cons] at hlength
  refine ⟨?_, ?_, rfl⟩
  · simp only [Parser.skip, List.nil_append]
    rw [← List.drop_drop, at_drop h, List.drop_one, List.tail_cons]
  · simp only [Parser.skip]
    omega

end At

/-- The state in which a field is parsed. -/
def Field.state : Field → ParserState
  | .headerName => .parsingHeaderName
  | .headerValue => .parsingHeaderValue
  | .body => .parsingBody

/-- The rest of `scgi_parser_parse` from a state of its loop on. -/
def parseFrom (fuel : Nat) (parser : Parser) (log : List Log) : Except Halt Parsed := do
  match ← parseLoop fuel parser log with
  | .goOn parser log => parseEnd parser log
  | .returned rc parser log => return ⟨rc, parser, log⟩

/-- How `scgi_parser_parse` ends, by what `decode` finds. -/
inductive Ends (parser : Parser) (log : List Log) : Except Log (List Report) → Except Halt Parsed → Prop where
  | done {found : List Report} {entries : List Log} {parser' : Parser} (hreports : reports entries = found)
      (hbuffer : parser'.inputBuffer = parser.inputBuffer) (hstate : parser'.state = .done)
      (hstart : parser'.cursorStart = parser.inputBuffer.length) (hend : parser'.cursorEnd = parser.inputBuffer.length) :
      Ends parser log (.ok found) (.ok ⟨0, parser', log ++ entries⟩)
  | failed {e : Log} {entries : List Log} {parser' : Parser} (hstate : parser'.state ≠ .done) :
      Ends parser log (.error e) (.ok ⟨1, parser', log ++ entries ++ [e]⟩)

/-- One more entry of the log in front. -/
theorem ends_cons {parser parser₁ : Parser} {log : List Log} {entry : Log} {report : Report}
    {found : Except Log (List Report)} {result : Except Halt Parsed} (hreport : entry.report = some report)
    (hbuffer : parser₁.inputBuffer = parser.inputBuffer) (h : Ends parser₁ (log ++ [entry]) found result) :
    Ends parser log (found.map fun reports => report :: reports) result := by
  cases h with
  | done hreports hbuffer' hstate hstart hend =>
    rw [List.append_assoc]
    refine .done ?_ (hbuffer'.trans hbuffer) hstate (by rw [hstart, hbuffer]) (by rw [hend, hbuffer])
    rw [← hreports]
    simp [reports, hreport]
  | failed hstate =>
    rw [List.append_assoc log]
    exact .failed hstate

/-- A parser with the same buffer ends in the same way. -/
theorem ends_congr {parser parser₁ : Parser} {log : List Log} {found : Except Log (List Report)}
    {result : Except Halt Parsed} (hbuffer : parser₁.inputBuffer = parser.inputBuffer) (h : Ends parser₁ log found result) :
    Ends parser log found result := by
  cases h with
  | done hreports hbuffer' hstate hstart hend =>
    exact .done hreports (hbuffer'.trans hbuffer) hstate (by rw [hstart, hbuffer]) (by rw [hend, hbuffer])
  | failed hstate => exact .failed hstate

/-- One iteration from a state with a byte to come. -/
theorem parseFrom_step {fuel : Nat} {parser : Parser} {log : List Log} (hstate : parser.state ≠ .done)
    (heof : scgiParserEof parser = false) :
    parseFrom (fuel + 1) parser log =
      parseStep parser log >>= fun flow =>
        match flow with
        | .goOn parser log => parseFrom fuel parser log
        | .returned rc parser log => .ok ⟨rc, parser, log⟩ := by
  unfold parseFrom
  rw [parseLoop, if_pos ⟨hstate, heof⟩]
  cases parseStep parser log with
  | error e => rfl
  | ok flow =>
    cases flow with
    | goOn parser' log' => rfl
    | returned rc parser' log' => rfl

/-- The loop is left at the end of the buffer. -/
theorem parseFrom_eof {fuel : Nat} {parser : Parser} {log : List Log} (heof : scgiParserEof parser = true) :
    parseFrom fuel parser log = parseEnd parser log := by
  have hnot : ¬(parser.state ≠ .done ∧ scgiParserEof parser = false) := by
    rw [heof]
    simp
  unfold parseFrom parseLoop
  rw [if_neg hnot]
  rfl

theorem report_got {field : Field} {pending : List Byte} :
    (Log.got field (pending ++ List.replicate (bufferSize - pending.length) nul) pending.length).report =
      some (field, pending) := by
  rw [Log.report, List.take_left]

/-- A header field that ends here, and the parsing of the next field after it. -/
theorem ends_finish {fuel : Nat} {parser : Parser} {log : List Log} {pending rest : List Byte} {field next : Field}
    (hat : At parser pending (nul :: rest)) (hstate : parser.state ≠ .done)
    (h : ∀ parser₁ log₁, At parser₁ [] rest → parser₁.state = next.state →
      Ends parser₁ log₁ (decode next [] rest) (parseFrom fuel parser₁ log₁)) :
    Ends parser log
      (do
        let report ← fits field pending
        let found ← decode next [] rest
        return report :: found)
      (finishHeaderField parser log field next.state >>= fun flow =>
        match flow with
        | .goOn parser log => parseFrom fuel parser log
        | .returned rc parser log => .ok ⟨rc, parser, log⟩) := by
  unfold finishHeaderField fits
  rw [at_cursorSize hat]
  by_cases hlong : pending.length ≥ bufferSize - 1
  · simp only [if_pos hlong]
    have hfailed : Ends parser log (.error (.tooManyBytes field)) (.ok ⟨1, parser, log ++ [] ++ [.tooManyBytes field]⟩) :=
      .failed hstate
    rwa [List.append_nil] at hfailed
  · simp only [if_neg hlong]
    rw [at_copy hat (by omega)]
    have hnext := h (parser.skip next.state)
      (log ++ [.got field (pending ++ List.replicate (bufferSize - pending.length) nul) pending.length])
      (at_skip hat next.state) rfl
    have hcons := ends_cons report_got (show (parser.skip next.state).inputBuffer = parser.inputBuffer from rfl) hnext
    cases hdecode : decode next [] rest with
    | error e =>
      rw [hdecode] at hcons
      exact hcons
    | ok found =>
      rw [hdecode] at hcons
      exact hcons

/-- The end of `scgi_parser_parse`, with nothing to come. -/
theorem ends_eof {field : Field} {parser : Parser} {log : List Log} {pending : List Byte} (hat : At parser pending [])
    (hstate : parser.state = field.state) (hnotDone : parser.state ≠ .done) :
    Ends parser log (decode field pending []) (parseEnd parser log) := by
  have heof : scgiParserEof parser = true := by simp [at_eof hat]
  have hlength := at_length hat
  rw [List.length_nil, Nat.add_zero] at hlength
  have hfailed : ∀ e, Ends parser log (.error e) (.ok ⟨1, parser, log ++ [e]⟩) := by
    intro e
    have h : Ends parser log (.error e) (.ok ⟨1, parser, log ++ [] ++ [e]⟩) := .failed hnotDone
    rwa [List.append_nil] at h
  have hillegal : parser.state ≠ .parsingBody →
      parseEnd parser log = .ok ⟨1, parser, log ++ [.illegalState]⟩ := by
    intro hne
    rw [parseEnd, if_neg (fun h => hne h.2)]
  cases field with
  | headerName =>
    rw [hillegal (by simp [hstate, Field.state])]
    exact hfailed .illegalState
  | headerValue =>
    rw [hillegal (by simp [hstate, Field.state])]
    exact hfailed .illegalState
  | body =>
    rw [parseEnd, if_pos ⟨heof, hstate⟩, at_cursorSize hat, decode_body, List.append_nil]
    unfold fits
    by_cases hlong : pending.length ≥ bufferSize - 1
    · simp only [if_pos hlong]
      exact hfailed (.tooManyBytes .body)
    · simp only [if_neg hlong]
      rw [at_copy hat (by omega)]
      refine .done ?_ rfl rfl hlength hlength
      rw [reports, List.filterMap_cons_some report_got]
      rfl

/-- From any state of its loop, `scgi_parser_parse` ends as `decode` says. -/
theorem parse_decodes {fuel : Nat} {field : Field} {parser : Parser} {log : List Log} {pending rest : List Byte}
    (hat : At parser pending rest) (hstate : parser.state = field.state) (hfuel : rest.length ≤ fuel) :
    Ends parser log (decode field pending rest) (parseFrom fuel parser log) := by
  have hnotDone : parser.state ≠ .done := by
    rw [hstate]
    cases field <;> simp [Field.state]
  -- Each iteration takes one byte off those to come.
  induction rest generalizing fuel field parser log pending with
  | nil =>
    rw [parseFrom_eof (by simp [at_eof hat])]
    exact ends_eof hat hstate hnotDone
  | cons c rest ih =>
    obtain ⟨fuel, rfl⟩ : ∃ n, fuel = n + 1 := ⟨fuel - 1, by simp at hfuel; omega⟩
    have hfuel' : rest.length ≤ fuel := by simpa using hfuel
    have hnext : ∀ (next : Field) (parser₁ : Parser) (log₁ : List Log), At parser₁ [] rest →
        parser₁.state = next.state → Ends parser₁ log₁ (decode next [] rest) (parseFrom fuel parser₁ log₁) := by
      intro next parser₁ log₁ hat₁ hstate₁
      refine ih hat₁ hstate₁ hfuel' ?_
      rw [hstate₁]
      cases next <;> simp [Field.state]
    have hadvance : Ends parser log (decode field (pending ++ [c]) rest) (parseFrom fuel parser.advance log) :=
      ends_congr (show parser.advance.inputBuffer = parser.inputBuffer from rfl)
        (ih (at_advance hat) hstate hfuel' hnotDone)
    rw [parseFrom_step hnotDone (by simp [at_eof hat]), parseStep, hstate]
    cases field with
    | headerName =>
      simp only [Field.state, at_read hat, ok_bind]
      rw [decode]
      split
      · exact ends_congr (show (parser.skip .parsingBody).inputBuffer = parser.inputBuffer from rfl)
          (hnext .body _ log (at_skip hat .parsingBody) rfl)
      · split
        · exact hadvance
        · rename_i hnul
          rw [not_not.mp hnul] at hat
          exact ends_finish hat hnotDone (hnext .headerValue)
    | headerValue =>
      simp only [Field.state, at_read hat, ok_bind]
      rw [decode]
      split
      · exact hadvance
      · rename_i hnul
        rw [not_not.mp hnul] at hat
        exact ends_finish hat hnotDone (hnext .headerName)
    | body =>
      rw [decode]
      exact hadvance

/-- `scgi_parser_parse` after `scgi_parser_init` ends as `decode` says. -/
theorem scgiParserParse_decodes {input : List Byte} {parser : Parser} (h : scgiParserInit input = .ok parser) :
    parser.inputBuffer = input ∧
      Ends parser [.parsing] (decode .headerName [] input) (scgiParserParse parser) := by
  unfold scgiParserInit at h
  split at h
  · cases h
    refine ⟨rfl, ?_⟩
    have hat : At ⟨.parsingHeaderName, input, 0, 0⟩ [] input := ⟨rfl, Nat.zero_le _, rfl⟩
    exact parse_decodes hat rfl (Nat.le_refl _)
  · cases h

end CLangExamples.Scgi
