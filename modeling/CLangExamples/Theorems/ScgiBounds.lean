import CLangExamples.Scgi.Parser
import CLangExamples.Lib.Run

/-!
# The SCGI parser stays in its buffers

Whatever the bytes of the input, the cursors stay in order and in the buffer from one iteration to the next, every
iteration but one that returns moves `cursor_end` on by a byte, and a field is copied only when it is short enough. So the
loop makes at most one iteration for each byte and `scgi_parser_parse` returns 0 or 1.
-/

namespace CLangExamples.Scgi

open Transition

/-- `input_buffer <= cursor_start <= cursor_end <= input_buffer + n`, in the buffer that the parser was given. -/
structure InBuffer (input : List Byte) (parser : Parser) : Prop where
  buffer : parser.inputBuffer = input
  start_le : parser.cursorStart ≤ parser.cursorEnd
  end_le : parser.cursorEnd ≤ input.length

/-- The loop of `scgi_parser_parse` on `parser₀` has made `k` iterations and is about to test its condition. -/
inductive Loops (parser₀ : Parser) : Nat → Parser → List Log → Prop where
  | start : Loops parser₀ 0 parser₀ [.parsing]
  | next {k : Nat} {parser parser' : Parser} {log log' : List Log} (h : Loops parser₀ k parser log)
      (hstate : parser.state ≠ .done) (heof : scgiParserEof parser = false)
      (hstep : parseStep parser log = .ok (.goOn parser' log')) : Loops parser₀ (k + 1) parser' log'

/-- Every field that was copied has at most 254 bytes, in a buffer of 256. -/
def CopiesFit (log : List Log) : Prop :=
  ∀ field buffer byteLen, .got field buffer byteLen ∈ log → byteLen ≤ 254 ∧ buffer.length = 256

namespace ScgiBoundsAux

variable {input : List Byte} {parser : Parser} {log : List Log}

theorem copiesFit_append {entry : Log} (h : CopiesFit log)
    (hentry : ∀ field buffer byteLen, entry = .got field buffer byteLen → byteLen ≤ 254 ∧ buffer.length = 256) :
    CopiesFit (log ++ [entry]) := by
  intro field buffer byteLen hmem
  rcases List.mem_append.1 hmem with hmem | hmem
  · exact h field buffer byteLen hmem
  · exact hentry field buffer byteLen (List.mem_singleton.1 hmem).symm

theorem copiesFit_start : CopiesFit [.parsing] := by
  intro field buffer byteLen hmem
  cases List.mem_singleton.1 hmem

/-- A log stays one whose copies fit when a field that fits is copied. -/
theorem copiesFit_got {buffer : List Byte} {byteLen : Nat} (h : CopiesFit log) (field : Field) (hle : byteLen ≤ 254)
    (hlen : buffer.length = 256) : CopiesFit (log ++ [.got field buffer byteLen]) := by
  refine copiesFit_append h ?_
  intro field' buffer' byteLen' heq
  cases heq
  exact ⟨hle, hlen⟩

theorem cursorEnd_lt (h : InBuffer input parser) (heof : scgiParserEof parser = false) :
    parser.cursorEnd < input.length := by
  unfold scgiParserEof at heof
  rw [decide_eq_false_iff_not, h.buffer] at heof
  omega

theorem inBuffer_read (h : InBuffer input parser) (heof : scgiParserEof parser = false) : ∃ c, parser.read = .ok c := by
  have hlt := cursorEnd_lt h heof
  unfold Parser.read
  rw [h.buffer, List.getElem?_eq_getElem hlt]
  exact ⟨_, rfl⟩

/-- A field that passed the check on its length is copied. -/
theorem inBuffer_copy (h : InBuffer input parser) (hshort : ¬scgiParserCursorSize parser ≥ bufferSize - 1) :
    ∃ buffer, parser.copy (scgiParserCursorSize parser) = .ok buffer ∧ scgiParserCursorSize parser ≤ 254 ∧
      buffer.length = 256 := by
  have hsize : bufferSize = 256 := rfl
  have hle := h.start_le
  have hend := h.end_le
  have hcursor : scgiParserCursorSize parser = parser.cursorEnd - parser.cursorStart := rfl
  unfold Parser.copy
  rw [h.buffer, if_neg (by omega), if_neg (by omega)]
  refine ⟨_, rfl, by omega, ?_⟩
  rw [List.length_append, List.length_take, List.length_drop, List.length_replicate]
  omega

theorem inBuffer_advance (h : InBuffer input parser) (heof : scgiParserEof parser = false) :
    InBuffer input parser.advance := by
  have hlt := cursorEnd_lt h heof
  have hle := h.start_le
  refine ⟨h.buffer, ?_, ?_⟩
  · show parser.cursorStart ≤ parser.cursorEnd + 1
    omega
  · exact hlt

theorem inBuffer_skip (h : InBuffer input parser) (heof : scgiParserEof parser = false) (state : ParserState) :
    InBuffer input (parser.skip state) :=
  ⟨h.buffer, Nat.le_refl _, cursorEnd_lt h heof⟩

/-! ## One iteration -/

/-- What an iteration leaves: the loop goes on one byte further, or it returns 1. -/
inductive Iterates (input : List Byte) (parser : Parser) : Except Halt Flow → Prop where
  | goOn {parser' : Parser} {log' : List Log} (hin : InBuffer input parser')
      (hend : parser'.cursorEnd = parser.cursorEnd + 1) (hstate : parser'.state ≠ .done) (hfit : CopiesFit log') :
      Iterates input parser (.ok (.goOn parser' log'))
  | returned {log' : List Log} (hfit : CopiesFit log') : Iterates input parser (.ok (.returned 1 parser log'))

theorem iterates_finish (h : InBuffer input parser) (heof : scgiParserEof parser = false) (hfit : CopiesFit log)
    (field : Field) {state : ParserState} (hstate : state ≠ .done) :
    Iterates input parser (finishHeaderField parser log field state) := by
  unfold finishHeaderField
  simp only
  split
  · exact .returned (copiesFit_append hfit nofun)
  · rename_i hshort
    obtain ⟨buffer, hcopy, hle, hlen⟩ := inBuffer_copy h hshort
    rw [hcopy, ok_bind]
    exact .goOn (inBuffer_skip h heof state) rfl hstate (copiesFit_got hfit field hle hlen)

/-- An iteration reads and copies inside the buffers. -/
theorem parseStep_iterates (h : InBuffer input parser) (hstate : parser.state ≠ .done)
    (heof : scgiParserEof parser = false) (hfit : CopiesFit log) : Iterates input parser (parseStep parser log) := by
  obtain ⟨c, hread⟩ := inBuffer_read h heof
  have hadvance : Iterates input parser (.ok (.goOn parser.advance log)) :=
    .goOn (inBuffer_advance h heof) rfl hstate hfit
  unfold parseStep
  cases hs : parser.state with
  | parsingHeaderName =>
    simp only
    rw [hread, ok_bind]
    split
    · exact .goOn (inBuffer_skip h heof .parsingBody) rfl nofun hfit
    · split
      · exact hadvance
      · exact iterates_finish h heof hfit .headerName nofun
  | parsingHeaderValue =>
    simp only
    rw [hread, ok_bind]
    split
    · exact hadvance
    · exact iterates_finish h heof hfit .headerValue nofun
  | parsingBody => exact hadvance
  | done => exact absurd hs hstate

/-! ## The loop -/

theorem loops_inBuffer {parser₀ : Parser} {k : Nat} (h₀ : InBuffer input parser₀) (hs₀ : parser₀.state ≠ .done)
    (hc₀ : parser₀.cursorEnd = 0) (h : Loops parser₀ k parser log) :
    InBuffer input parser ∧ parser.state ≠ .done ∧ CopiesFit log ∧ parser.cursorEnd = k := by
  induction h with
  | start => exact ⟨h₀, hs₀, copiesFit_start, hc₀⟩
  | next _ hstate heof hstep ih =>
    obtain ⟨hin, hs, hfit, hk⟩ := ih
    have hiter := parseStep_iterates hin hs heof hfit
    rw [hstep] at hiter
    cases hiter with
    | goOn hin' hend hs' hfit' => exact ⟨hin', hs', hfit', by rw [hend, hk]⟩

/-- How the loop ends: at the end of the buffer, or with a return of 1. -/
inductive LoopEnds (input : List Byte) : Except Halt Flow → Prop where
  | eof {parser : Parser} {log : List Log} (hin : InBuffer input parser) (hstate : parser.state ≠ .done)
      (hfit : CopiesFit log) : LoopEnds input (.ok (.goOn parser log))
  | returned {parser : Parser} {log : List Log} (hin : InBuffer input parser) (hstate : parser.state ≠ .done)
      (hfit : CopiesFit log) : LoopEnds input (.ok (.returned 1 parser log))

/-- With fuel for the bytes left, the loop ends. -/
theorem parseLoop_ends {fuel : Nat} (h : InBuffer input parser) (hstate : parser.state ≠ .done) (hfit : CopiesFit log)
    (hfuel : input.length ≤ parser.cursorEnd + fuel) : LoopEnds input (parseLoop fuel parser log) := by
  induction fuel generalizing parser log with
  | zero =>
    have heof : ¬(parser.state ≠ .done ∧ scgiParserEof parser = false) := by
      rintro ⟨-, heof⟩
      have hlt := cursorEnd_lt h heof
      omega
    rw [parseLoop, if_neg heof]
    exact .eof h hstate hfit
  | succ fuel ih =>
    rw [parseLoop]
    split
    · rename_i hgo
      have hiter := parseStep_iterates h hstate hgo.2 hfit
      generalize parseStep parser log = flow at hiter
      cases hiter with
      | goOn hin' hend hs' hfit' => exact ih hin' hs' hfit' (by omega)
      | returned hfit' => exact .returned h hstate hfit'
    · exact .eof h hstate hfit

/-- The iterations made are those that the fuel of the loop is spent on. -/
theorem parseLoop_loops {parser₀ : Parser} {k : Nat} (h : Loops parser₀ k parser log) (fuel : Nat) :
    parseLoop (k + fuel) parser₀ [.parsing] = parseLoop fuel parser log := by
  induction h generalizing fuel with
  | start => rw [Nat.zero_add]
  | @next k parser parser' log log' _ hstate heof hstep ih =>
    rw [show k + 1 + fuel = k + (fuel + 1) by omega, ih, parseLoop, if_pos ⟨hstate, heof⟩, hstep]
    rfl

/-! ## The whole call -/

/-- How `scgi_parser_parse` ends. -/
structure ParseEnds (input : List Byte) (parsed : Parsed) : Prop where
  inBuffer : InBuffer input parsed.parser
  fit : CopiesFit parsed.log
  rc : parsed.rc = 0 ∨ parsed.rc = 1
  done_iff : parsed.parser.state = .done ↔ parsed.rc = 0

theorem parseEnds_failed {log : List Log} (hin : InBuffer input parser) (hstate : parser.state ≠ .done)
    (hfit : CopiesFit log) : ParseEnds input ⟨1, parser, log⟩ :=
  ⟨hin, hfit, Or.inr rfl, iff_of_false hstate Int.one_ne_zero⟩

theorem parseEnd_ends (h : InBuffer input parser) (hstate : parser.state ≠ .done) (hfit : CopiesFit log) :
    ∃ parsed, parseEnd parser log = .ok parsed ∧ ParseEnds input parsed := by
  unfold parseEnd
  split
  · simp only
    split
    · exact ⟨_, rfl, parseEnds_failed h hstate (copiesFit_append hfit nofun)⟩
    · rename_i hshort
      obtain ⟨buffer, hcopy, hle, hlen⟩ := inBuffer_copy h hshort
      rw [hcopy, ok_bind]
      have hin : InBuffer input { parser with state := .done, cursorStart := parser.cursorEnd } :=
        ⟨h.buffer, Nat.le_refl _, h.end_le⟩
      exact ⟨_, rfl, hin, copiesFit_got hfit .body hle hlen, Or.inl rfl, iff_of_true rfl rfl⟩
  · exact ⟨_, rfl, parseEnds_failed h hstate (copiesFit_append hfit nofun)⟩

theorem scgiParserParse_ends (h : InBuffer input parser) (hstate : parser.state ≠ .done) (hc : parser.cursorEnd = 0) :
    ∃ parsed, scgiParserParse parser = .ok parsed ∧ ParseEnds input parsed := by
  have hends : LoopEnds input (parseLoop parser.inputBuffer.length parser [.parsing]) :=
    parseLoop_ends h hstate copiesFit_start (by rw [h.buffer, hc]; omega)
  unfold scgiParserParse
  generalize parseLoop parser.inputBuffer.length parser [.parsing] = flow at hends
  cases hends with
  | eof hin hs hfit' => exact parseEnd_ends hin hs hfit'
  | returned hin hs hfit' => exact ⟨_, rfl, parseEnds_failed hin hs hfit'⟩

end ScgiBoundsAux

open ScgiBoundsAux

/-- On every input `scgi_parser_parse` returns after at most one iteration for each byte. From the start to the end the
cursors are in order and in the buffer, no byte outside it is read, a copy has at most 254 bytes, and the parser is left in
its last state exactly when 0 is returned; -1 never is. -/
theorem scgi_parser_stays_in_bounds (input : List Byte) (hn : 1 ≤ input.length) :
    ∃ parser₀ parsed, scgiParserInit input = .ok parser₀ ∧ scgiParserParse parser₀ = .ok parsed ∧
      (∀ k parser log, Loops parser₀ k parser log → InBuffer input parser ∧ k ≤ input.length ∧
        (scgiParserEof parser = false → k < input.length ∧ parser.cursorEnd < input.length) ∧
        ∀ fuel, parseLoop (k + fuel) parser₀ [.parsing] = parseLoop fuel parser log) ∧
      InBuffer input parsed.parser ∧ CopiesFit parsed.log ∧ parsed.rc ≠ -1 ∧
      (parsed.parser.state = .done ↔ parsed.rc = 0) := by
  have h₀ : InBuffer input ⟨.parsingHeaderName, input, 0, 0⟩ := ⟨rfl, Nat.le_refl 0, Nat.zero_le _⟩
  obtain ⟨parsed, hparse, hends⟩ := scgiParserParse_ends h₀ nofun rfl
  refine ⟨⟨.parsingHeaderName, input, 0, 0⟩, parsed, ?_, hparse, ?_, hends.inBuffer, hends.fit, ?_, hends.done_iff⟩
  · unfold scgiParserInit
    rw [if_pos (show input.length > 0 from hn)]
  · intro k parser log hloops
    obtain ⟨hin, -, -, hk⟩ := loops_inBuffer h₀ nofun rfl hloops
    refine ⟨hin, by rw [← hk]; exact hin.end_le, ?_, parseLoop_loops hloops⟩
    intro heof
    have hlt := cursorEnd_lt hin heof
    exact ⟨by rw [← hk]; exact hlt, hlt⟩
  · rcases hends.rc with hrc | hrc <;> rw [hrc] <;> decide

/-- An input of one comma: an empty header block and an empty body. -/
theorem scgi_parser_stays_in_bounds_comma :
    ∃ parser₀ parsed, scgiParserInit [comma] = .ok parser₀ ∧ scgiParserParse parser₀ = .ok parsed ∧
      InBuffer [comma] parsed.parser ∧ (parsed.parser.state = .done ↔ parsed.rc = 0) := by
  obtain ⟨parser₀, parsed, hinit, hparse, -, hin, -, -, hdone⟩ := scgi_parser_stays_in_bounds [comma] (by decide)
  exact ⟨parser₀, parsed, hinit, hparse, hin, hdone⟩

end CLangExamples.Scgi
