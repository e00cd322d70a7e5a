import CLangExamples.Emulator.Config
import CLangExamples.Lib.Printf
import CLangExamples.Lib.TextBuffer

/-!
# The logger

`log_log` of `logging/logger.c`, with `level.c` and `ansi.h`. A record carries its message as the format and the arguments
come to. What the process has written so far goes from call to call; an assertion of `log_log` ends the process, and so does a
record of the level `fatal`.
-/

namespace CLangExamples.Emulator

open Printf TextBuffer

/-! ## Levels -/

/-- The value of a level in `enum log_level`. -/
def logLevelValue : LogLevel → Nat
  | .trace => 0
  | .debug => 1
  | .info => 2
  | .warn => 3
  | .error => 4
  | .fatal => 5

/-- `log_level_to_string` -/
def logLevelToString (level : LogLevel) : CString := logLevelStr level

/-- `log_level_to_ansi_color` -/
def logLevelToAnsiColor : LogLevel → List Char
  | .trace => "\x1b[0;94m".toList
  | .debug => "\x1b[0;96m".toList
  | .info => "\x1b[0;92m".toList
  | .warn => "\x1b[0;93m".toList
  | .error => "\x1b[0;91m".toList
  | .fatal => "\x1b[1;91m".toList

/-- `ANSI_RESET` -/
def ansiReset : List Char := "\x1b[0m".toList

/-- `ANSI_HWHT` -/
def ansiHwht : List Char := "\x1b[0;97m".toList

/-- `ANSI_HORA` -/
def ansiHora : List Char := "\x1b[38;5;214m".toList

/-! ## Records -/

/-- `struct tm`, as `localtime` fills it in before the year 10000. -/
structure Tm where
  tmYear : Nat
  tmMon : Nat
  tmMday : Nat
  tmHour : Nat
  tmMin : Nat
  tmSec : Nat
  year_le : tmYear + 1900 ≤ 9999
  mon_le : tmMon ≤ 11
  mday_le : tmMday ≤ 31
  hour_le : tmHour ≤ 23
  min_le : tmMin ≤ 59
  sec_le : tmSec ≤ 60

/-- `struct log_record`, with the message formatted. -/
structure LogRecord where
  tag : CString
  level : LogLevel
  msg : CString
  causedBy : Option CString

/-- `LOG_RECORD_MSG_MAX_SIZE` -/
def logRecordMsgMaxSize : Nat := 1024

/-- `"[%04d-%02d-%02d %02d:%02d:%02d] "` -/
def timestampText (t : Tm) : List Char :=
  '[' :: number 10 4 (t.tmYear + 1900) ++ '-' :: number 10 2 (t.tmMon + 1) ++ '-' :: number 10 2 t.tmMday ++
  ' ' :: number 10 2 t.tmHour ++ ':' :: number 10 2 t.tmMin ++ ':' :: number 10 2 t.tmSec ++ [']', ' ']

/-- `"%s%s" ANSI_HWHT ": " ANSI_HORA "%s" ANSI_HWHT ": "` -/
def headText (record : LogRecord) : List (BitVec 8) :=
  ascii (logLevelToAnsiColor record.level) ++ (logLevelToString record.level).bytes ++
  ascii (ansiHwht ++ ": ".toList ++ ansiHora) ++ record.tag.bytes ++ ascii (ansiHwht ++ ": ".toList)

/-- `". caused by: %s\n"` or `"\n"` -/
def endText (record : LogRecord) : List (BitVec 8) :=
  match record.causedBy with
  | some causedBy => ascii ". caused by: ".toList ++ causedBy.bytes ++ ascii "\n".toList
  | none => ascii "\n".toList

/-- One of the calls of `log_log` that format into `buf`, with the assertions around it: `buf` and `offset` after it, or none
when an assertion fails. -/
def logAppend (text : List (BitVec 8)) (state : List (BitVec 8) × Nat) : Option (List (BitVec 8) × Nat) :=
  let (buf, offset) := state
  if ¬offset < logRecordMsgMaxSize then none
  else
    let (buf, rc) := snprintf buf offset text
    if ¬rc ≥ 0 then none
    else if ¬rc < (logRecordMsgMaxSize - offset : Nat) then none
    else some (buf, offset + rc.toNat)

/-- What `log_log` formats into `buf`. -/
def formatRecord (t : Tm) (record : LogRecord) : Option (List (BitVec 8)) := do
  let state ← logAppend (ascii (timestampText t)) (List.replicate logRecordMsgMaxSize 0#8, 0)
  let state ← logAppend (headText record) state
  let state ← logAppend record.msg.bytes state
  let state ← logAppend (endText record) state
  let (buf, _) ← logAppend (ascii ansiReset) state
  return buf

/-! ## Logging -/

/-- How the process ends. -/
inductive Ending where
  /-- `exit`, or `return` from `main` -/
  | exit (status : Nat)
  /-- a failed assertion -/
  | abort
  /-- what stops the machine -/
  | run (halt : RunHalt)
  deriving DecidableEq

/-- What the process has written, and how often it has asked for the time. -/
structure Output where
  stdout : List (BitVec 8)
  stderr : List (BitVec 8)
  times : Nat

/-- A part of the process: a result, or the end of the process with what it has written. -/
abbrev Process (α : Type) : Type := Except (Ending × Output) α

/-- The configured level, and what `localtime` gives each time it is asked. -/
structure Logging where
  logLevel : LogLevel
  localtime : Nat → Tm

/-- `log_log` -/
def logLog (logging : Logging) (record : LogRecord) (o : Output) : Process Output :=
  if logLevelValue record.level < logLevelValue logging.logLevel then .ok o
  else
    let t := logging.localtime o.times
    let o := { o with times := o.times + 1 }
    match formatRecord t record with
    | none => .error (.abort, o)
    | some buf =>
      let o := { o with stderr := o.stderr ++ string buf }
      if record.level = .fatal then .error (.exit 1, o) else .ok o

end CLangExamples.Emulator
