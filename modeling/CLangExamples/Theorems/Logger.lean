import CLangExamples.Emulator.Logger
import Mathlib.Algebra.GroupWithZero.Nat

/-!
# What the logger writes

The five texts of a record are written one behind the other as long as they fit, so `log_log` writes the whole line or fails
an assertion; it never cuts a line short.
-/

namespace CLangExamples.Emulator

open CString Printf TextBuffer

/-- The line of a record. -/
def logLine (t : Tm) (record : LogRecord) : List (BitVec 8) :=
  ascii (timestampText t) ++ headText record ++ record.msg.bytes ++ endText record ++ ascii ansiReset

/-- How many bytes the cause of a record adds to its line. -/
def causeLength (record : LogRecord) : Nat :=
  match record.causedBy with
  | some causedBy => 14 + causedBy.strlen
  | none => 1

/-- The record is not below the configured level. -/
def Logging.Shows (logging : Logging) (record : LogRecord) : Prop :=
  logLevelValue logging.logLevel ≤ logLevelValue record.level

instance (logging : Logging) (record : LogRecord) : Decidable (logging.Shows record) :=
  inferInstanceAs (Decidable (_ ≤ _))

/-- The output with one more line. -/
def Output.logged (o : Output) (line : List (BitVec 8)) : Output :=
  { o with stderr := o.stderr ++ line, times := o.times + 1 }

namespace LoggerAux

/-! ## The length of a line -/

theorem length_number {n k : Nat} (hk : 0 < k) (h : n < 10 ^ k) : (number 10 k n).length = k := by
  have hle : (number 10 0 n).length ≤ k := (length_decimal_le_iff hk).mpr h
  rw [number, List.length_leftpad, Nat.zero_max] at hle
  rw [number, List.length_leftpad]
  omega

theorem length_timestampText (t : Tm) : (timestampText t).length = 22 := by
  have hyear := length_number (n := t.tmYear + 1900) (k := 4) (by decide) (by have := t.year_le; omega)
  have hmon := length_number (n := t.tmMon + 1) (k := 2) (by decide) (by have := t.mon_le; omega)
  have hmday := length_number (n := t.tmMday) (k := 2) (by decide) (by have := t.mday_le; omega)
  have hhour := length_number (n := t.tmHour) (k := 2) (by decide) (by have := t.hour_le; omega)
  have hmin := length_number (n := t.tmMin) (k := 2) (by decide) (by have := t.min_le; omega)
  have hsec := length_number (n := t.tmSec) (k := 2) (by decide) (by have := t.sec_le; omega)
  unfold timestampText
  simp only [List.length_append, List.length_cons, hyear, hmon, hmday, hhour, hmin, hsec, List.length_nil]

theorem length_headText (record : LogRecord) :
    (headText record).length = 36 + (logLevelToString record.level).strlen + record.tag.strlen := by
  have hcolor : (logLevelToAnsiColor record.level).length = 7 := by cases record.level <;> rfl
  have hmiddle : (ansiHwht ++ ": ".toList ++ ansiHora).length = 20 := rfl
  have hlast : (ansiHwht ++ ": ".toList).length = 9 := rfl
  unfold headText CString.strlen
  simp only [List.length_append, length_ascii, hcolor] at *
  omega

theorem length_endText (record : LogRecord) : (endText record).length = causeLength record := by
  unfold endText causeLength
  cases record.causedBy with
  | none => rfl
  | some causedBy =>
    have hcause : ". caused by: ".toList.length = 13 := rfl
    have hnewline : "\n".toList.length = 1 := rfl
    simp only [List.length_append, length_ascii, hcause, hnewline, CString.strlen]
    omega

theorem length_logLine (t : Tm) (record : LogRecord) : (logLine t record).length =
    62 + (logLevelToString record.level).strlen + record.tag.strlen + record.msg.strlen + causeLength record := by
  have hreset : ansiReset.length = 4 := rfl
  unfold logLine
  simp only [List.length_append, length_ascii, length_timestampText, length_headText, length_endText, hreset]
  show 22 + (36 + _ + _) + record.msg.strlen + _ + 4 = _
  omega

/-! ## No text has a NUL -/

theorem isText_timestampText (t : Tm) : IsText (timestampText t) := by
  unfold timestampText IsText
  simp only [List.forall_mem_append, List.forall_mem_cons]
  refine ⟨⟨⟨⟨⟨⟨⟨by decide, isText_number _ _⟩, by decide, isText_number _ _⟩, by decide, isText_number _ _⟩,
    by decide, isText_number _ _⟩, by decide, isText_number _ _⟩, by decide, isText_number _ _⟩, by decide, by decide, ?_⟩
  simp

theorem no_nul_headText (record : LogRecord) : 0#8 ∉ headText record := by
  have hcolor : 0#8 ∉ ascii (logLevelToAnsiColor record.level) := by cases record.level <;> decide
  unfold headText
  exact no_nul_append (no_nul_append (no_nul_append (no_nul_append hcolor (logLevelToString record.level).no_nul) (by decide))
    record.tag.no_nul) (by decide)

theorem no_nul_endText (record : LogRecord) : 0#8 ∉ endText record := by
  unfold endText
  cases record.causedBy with
  | none => decide
  | some causedBy => exact no_nul_append (no_nul_append (by decide) causedBy.no_nul) (by decide)

/-! ## Formatting -/

/-- One text is written if it fits; otherwise an assertion fails. -/
theorem logAppend_cases {buf sofar text : List (BitVec 8)} (h : Holds buf sofar) (hlen : buf.length = logRecordMsgMaxSize)
    (htext : 0#8 ∉ text) :
    (sofar.length + text.length < logRecordMsgMaxSize ∧ ∃ buf', logAppend text (buf, sofar.length) =
      some (buf', (sofar ++ text).length) ∧ Holds buf' (sofar ++ text) ∧ buf'.length = logRecordMsgMaxSize) ∨
    (¬sofar.length + text.length < logRecordMsgMaxSize ∧ logAppend text (buf, sofar.length) = none) := by
  have hsize : logRecordMsgMaxSize = 1024 := rfl
  have hint : intMax = 0x7FFFFFFF := rfl
  have hroom : sofar.length < logRecordMsgMaxSize := by
    obtain ⟨rest, hrest⟩ := h.front
    rw [← hlen, ← hrest]
    simp
  have hrc : (snprintf buf sofar.length text).2 = if text.length ≤ intMax then (text.length : Int) else -1 := rfl
  unfold logAppend
  simp only
  rw [if_neg (not_not.mpr hroom), hrc]
  by_cases hfits : sofar.length + text.length < logRecordMsgMaxSize
  · refine Or.inl ⟨hfits, (snprintf buf sofar.length text).1, ?_, holds_snprintf h htext (by omega), ?_⟩
    · rw [if_pos (show text.length ≤ intMax by omega), if_neg (by omega), if_neg (by omega), List.length_append]
      rfl
    · rw [length_snprintf (by omega), hlen]
  · refine Or.inr ⟨hfits, ?_⟩
    by_cases hcount : text.length ≤ intMax
    · rw [if_pos hcount, if_neg (by omega), if_pos (by omega)]
    · rw [if_neg hcount, if_pos (by omega)]

/-- Texts are written one behind the other if they all fit; otherwise an assertion fails at one of them. -/
theorem logAppend_all {texts : List (List (BitVec 8))} {buf sofar : List (BitVec 8)} (h : Holds buf sofar)
    (hlen : buf.length = logRecordMsgMaxSize) (htexts : ∀ text ∈ texts, 0#8 ∉ text) :
    (sofar.length + texts.flatten.length < logRecordMsgMaxSize ∧ ∃ state,
      texts.foldlM (fun state text => logAppend text state) (buf, sofar.length) = some state ∧
        Holds state.1 (sofar ++ texts.flatten)) ∨
    (¬sofar.length + texts.flatten.length < logRecordMsgMaxSize ∧
      texts.foldlM (fun state text => logAppend text state) (buf, sofar.length) = none) := by
  induction texts generalizing buf sofar with
  | nil =>
    refine Or.inl ⟨?_, _, rfl, by simpa using h⟩
    obtain ⟨rest, hrest⟩ := h.front
    rw [← hlen, ← hrest]
    simp
  | cons text texts ih =>
    obtain ⟨htext, htexts⟩ := List.forall_mem_cons.mp htexts
    rw [List.foldlM_cons, List.flatten_cons, List.length_append]
    rcases logAppend_cases h hlen htext with ⟨-, buf', happend, hholds, hlen'⟩ | ⟨hfull, hnone⟩
    · rw [happend, ← List.append_assoc]
      rcases ih hholds hlen' htexts with ⟨hfits, state, hall, hstate⟩ | ⟨hfull, hnone⟩
      · rw [List.length_append] at hfits
        exact Or.inl ⟨by omega, state, hall, hstate⟩
      · rw [List.length_append] at hfull
        exact Or.inr ⟨by omega, hnone⟩
    · rw [hnone]
      exact Or.inr ⟨by omega, rfl⟩

/-- The line is formatted whole, or an assertion fails. -/
theorem formatRecord_cases (t : Tm) (record : LogRecord) :
    ((logLine t record).length < logRecordMsgMaxSize ∧ ∃ buf, formatRecord t record = some buf ∧
      string buf = logLine t record) ∨
    (¬(logLine t record).length < logRecordMsgMaxSize ∧ formatRecord t record = none) := by
  have hempty : Holds (List.replicate logRecordMsgMaxSize 0#8) [] := ⟨⟨List.replicate 1023 0#8, rfl⟩, List.not_mem_nil⟩
  have hline : logLine t record =
      [ascii (timestampText t), headText record, record.msg.bytes, endText record, ascii ansiReset].flatten := by
    simp [logLine]
  have hformat : formatRecord t record = do
      let state ← [ascii (timestampText t), headText record, record.msg.bytes, endText record, ascii ansiReset].foldlM
        (fun state text => logAppend text state) (List.replicate logRecordMsgMaxSize 0#8, ([] : List (BitVec 8)).length)
      return state.1 := by
    simp [formatRecord, Option.bind_assoc]
  have htexts : ∀ text ∈ [ascii (timestampText t), headText record, record.msg.bytes, endText record, ascii ansiReset],
      0#8 ∉ text := by
    simp only [List.forall_mem_cons]
    exact ⟨no_nul_ascii (isText_timestampText t), no_nul_headText record, record.msg.no_nul, no_nul_endText record,
      by decide, by simp⟩
  rw [hline, hformat]
  rcases logAppend_all hempty List.length_replicate htexts with ⟨hfits, state, hall, hstate⟩ | ⟨hfull, hnone⟩
  · rw [List.length_nil, Nat.zero_add] at hfits
    exact Or.inl ⟨hfits, state.1, by rw [hall]; rfl, string_of_holds hstate⟩
  · rw [List.length_nil, Nat.zero_add] at hfull
    exact Or.inr ⟨hfull, by rw [hnone]; rfl⟩

/-- The three ways `log_log` takes. -/
theorem logLog_cases (logging : Logging) (record : LogRecord) (o : Output) :
    (¬logging.Shows record ∧ logLog logging record o = .ok o) ∨
    (logging.Shows record ∧ (logLine (logging.localtime o.times) record).length < 1024 ∧ logLog logging record o =
      if record.level = .fatal then .error (.exit 1, o.logged (logLine (logging.localtime o.times) record))
      else .ok (o.logged (logLine (logging.localtime o.times) record))) ∨
    (logging.Shows record ∧ 1024 ≤ (logLine (logging.localtime o.times) record).length ∧ logLog logging record o =
      .error (.abort, { o with times := o.times + 1 })) := by
  have hsize : logRecordMsgMaxSize = 1024 := rfl
  unfold Logging.Shows logLog
  by_cases hbelow : logLevelValue record.level < logLevelValue logging.logLevel
  · exact Or.inl ⟨by omega, if_pos hbelow⟩
  · rw [if_neg hbelow]
    simp only
    rcases formatRecord_cases (logging.localtime o.times) record with ⟨hfits, buf, hformat, hstring⟩ | ⟨hfull, hformat⟩
    · refine Or.inr (Or.inl ⟨by omega, by omega, ?_⟩)
      rw [hformat]
      simp only
      rw [hstring]
      rfl
    · refine Or.inr (Or.inr ⟨by omega, by omega, ?_⟩)
      rw [hformat]

end LoggerAux

open LoggerAux

/-- What `log_log` does with a record. Below the configured level it does nothing. Otherwise it writes the whole line, and
exits with 1 after one of the level `fatal`, if the tag, the message and the cause leave room for it in the buffer; if they do
not, an assertion ends the process with nothing written. No line is ever cut short. -/
theorem log_log_whole_line (logging : Logging) (record : LogRecord) (o : Output) :
    (¬logging.Shows record → logLog logging record o = .ok o) ∧
    (logging.Shows record → (logLine (logging.localtime o.times) record).length =
      62 + (logLevelToString record.level).strlen + record.tag.strlen + record.msg.strlen + causeLength record ∧
      ((logLine (logging.localtime o.times) record).length < 1024 → logLog logging record o =
        if record.level = .fatal then .error (.exit 1, o.logged (logLine (logging.localtime o.times) record))
        else .ok (o.logged (logLine (logging.localtime o.times) record))) ∧
      (1024 ≤ (logLine (logging.localtime o.times) record).length → logLog logging record o =
        .error (.abort, { o with times := o.times + 1 }))) := by
  rcases logLog_cases logging record o with ⟨hbelow, hlog⟩ | ⟨hshows, hfits, hlog⟩ | ⟨hshows, hlong, hlog⟩
  · exact ⟨fun _ => hlog, fun hshows => absurd hshows hbelow⟩
  · exact ⟨fun hbelow => absurd hshows hbelow, fun _ => ⟨length_logLine _ _, fun _ => hlog, fun hlong => by omega⟩⟩
  · exact ⟨fun hbelow => absurd hshows hbelow, fun _ => ⟨length_logLine _ _, fun hfits => by omega, fun _ => hlog⟩⟩

/-- The first second of 2000. -/
def firstSecond : Tm where
  tmYear := 100
  tmMon := 0
  tmMday := 1
  tmHour := 0
  tmMin := 0
  tmSec := 0
  year_le := by decide
  mon_le := by decide
  mday_le := by decide
  hour_le := by decide
  min_le := by decide
  sec_le := by decide

/-- A record of the level `error` and one of the level `debug`, at the default level. -/
theorem log_log_whole_line_two :
    ∃ o, logLog ⟨.info, fun _ => firstSecond⟩ ⟨⟨[0x66#8, 0x73#8], by decide⟩, .error, ⟨[0x68#8, 0x69#8], by decide⟩, none⟩
        ⟨[], [], 0⟩ = .ok o ∧ o.stderr.length = 72 ∧
      logLog ⟨.info, fun _ => firstSecond⟩ ⟨⟨[0x66#8, 0x73#8], by decide⟩, .debug, ⟨[0x68#8, 0x69#8], by decide⟩, none⟩ o =
        .ok o := by
  obtain ⟨hlength, hwrites, -⟩ := (log_log_whole_line ⟨.info, fun _ => firstSecond⟩
    ⟨⟨[0x66#8, 0x73#8], by decide⟩, .error, ⟨[0x68#8, 0x69#8], by decide⟩, none⟩ ⟨[], [], 0⟩).2 (by decide)
  refine ⟨_, hwrites ?_, hlength, ?_⟩
  · rw [hlength]
    decide
  · exact (log_log_whole_line _ _ _).1 (by decide)

end CLangExamples.Emulator
