import CLangExamples.Emulator.Logger
import CLangExamples.Emulator.Session

/-!
# The command line

`main.c`, `utils/fs.c` and what `machine.c` and `display.c` do besides the machine itself: the files they read, the lines they
log and print, and how they end the process. What the outside answers to the calls is a `Host`. What is printed when the
configuration is refused is left out, and so is what the CPU prints when it exits.
-/

namespace CLangExamples.Emulator

open CString TextBuffer

namespace Main

/-- Write to `stdout`. -/
def printStdout (text : List (BitVec 8)) (o : Output) : Output := { o with stdout := o.stdout ++ text }

/-- Write to `stderr`. -/
def printStderr (text : List (BitVec 8)) (o : Output) : Output := { o with stderr := o.stderr ++ text }

/-- `"..."` -/
def quoted (before path after : CString) : CString := (before.append path).append after

/-! ## Files -/

/-- What the calls of `file_read_contents` give for a file that can be opened. -/
structure File where
  fseek : Int
  ftell : BitVec 64
  /-- the bytes that are there for `fread` -/
  contents : List Byte

/-- The files, and `strerror(errno)` when a call fails. -/
structure FileSystem where
  fopen : CString → Option File
  strerror : CString

/-- `LOG_TAG` of `fs.c` -/
def fsTag : CString := ⟨ascii "fs".toList, by decide⟩

/-- A record of `fs.c`. -/
def fsRecord (level : LogLevel) (msg : CString) : LogRecord := ⟨fsTag, level, msg, none⟩

/-- `"opening file '%s'..."` -/
def openingMsg (path : CString) : CString := quoted ⟨ascii "opening file '".toList, by decide⟩ path ⟨ascii "'...".toList, by decide⟩

/-- `"failed to open file '%s': %s"` -/
def openFailedMsg (path error : CString) : CString :=
  (quoted ⟨ascii "failed to open file '".toList, by decide⟩ path ⟨ascii "': ".toList, by decide⟩).append error

/-- `"calculating file size..."` -/
def calculatingMsg : CString := ⟨ascii "calculating file size...".toList, by decide⟩

/-- `"failed to seek to the end of file '%s': %s"` -/
def seekFailedMsg (path error : CString) : CString :=
  (quoted ⟨ascii "failed to seek to the end of file '".toList, by decide⟩ path ⟨ascii "': ".toList, by decide⟩).append error

/-- `"file '%s' is empty"` -/
def emptyMsg (path : CString) : CString := quoted ⟨ascii "file '".toList, by decide⟩ path ⟨ascii "' is empty".toList, by decide⟩

/-- `"file '%s' has size = %zu"` -/
def sizeMsg (path : CString) (size : Nat) : CString :=
  (quoted ⟨ascii "file '".toList, by decide⟩ path ⟨ascii "' has size = ".toList, by decide⟩).append (decimal size)

/-- `"failed to read all bytes from file '%s'. file_size=%zu bytes_read=%zu"` -/
def readFailedMsg (path : CString) (size read : Nat) : CString :=
  (quoted ⟨ascii "failed to read all bytes from file '".toList, by decide⟩ path ⟨ascii "'. file_size=".toList, by decide⟩).append
    (quoted (decimal size) ⟨ascii " bytes_read=".toList, by decide⟩ (decimal read))

/-- `file_read_contents`, where `callocFails` says whether `buffer_new` gets no memory: the contents of the buffer. -/
def fileReadContents (logging : Logging) (fs : FileSystem) (callocFails : Bool) (path : CString) (o : Output) :
    Process (List Byte × Output) := do
  let o ← logLog logging (fsRecord .debug (openingMsg path)) o
  match fs.fopen path with
  | none =>
    let o ← logLog logging (fsRecord .error (openFailedMsg path fs.strerror)) o
    return ([], o)
  | some file =>
    let o ← logLog logging (fsRecord .debug calculatingMsg) o
    if file.fseek ≠ 0 then
      let o ← logLog logging (fsRecord .error (seekFailedMsg path fs.strerror)) o
      .error (.exit 1, o)
    else
      let fileSize := file.ftell.toNat
      if fileSize = 0 then
        let o ← logLog logging (fsRecord .warn (emptyMsg path)) o
        return ([], o)
      else
        let o ← logLog logging (fsRecord .debug (sizeMsg path fileSize)) o
        if callocFails then .error (.abort, o)
        else
          let data := file.contents.take fileSize
          if data.length ≠ fileSize then
            let o ← logLog logging (fsRecord .error (readFailedMsg path fileSize data.length)) o
            .error (.exit 1, o)
          else return (data, o)

/-! ## The machine -/

/-- `SDL_version` -/
structure SdlVersion where
  major : Byte
  minor : Byte
  patch : Byte

/-- What the calls of `init_sdl` give. -/
structure Sdl where
  compiled : SdlVersion
  linked : SdlVersion
  init : Int
  createWindowAndRenderer : Int
  getError : CString
  /-- the renderer that is created -/
  renderer : Renderer

/-- `LOG_TAG` of `display.c` -/
def displayTag : CString := ⟨ascii "display".toList, by decide⟩

/-- `LOG_TAG` of `machine.c` -/
def machineTag : CString := ⟨ascii "machine".toList, by decide⟩

/-- A line of `init_sdl` with a version, `%u.%u.%u`. -/
def versionMsg (before : CString) (v : SdlVersion) : CString :=
  let dot : CString := ⟨ascii ".".toList, by decide⟩
  before.append (((quoted (decimal v.major.toNat) dot (decimal v.minor.toNat)).append dot).append (decimal v.patch.toNat))

/-- `init_sdl`, up to its `display_clear`. -/
def initSdl (logging : Logging) (sdl : Sdl) (o : Output) : Process (Renderer × Output) := do
  let o ← logLog logging ⟨displayTag, .info, versionMsg ⟨ascii "sdl: compiled version: ".toList, by decide⟩ sdl.compiled, none⟩ o
  let o ← logLog logging ⟨displayTag, .info, versionMsg ⟨ascii "sdl: linked version..: ".toList, by decide⟩ sdl.linked, none⟩ o
  if sdl.init < 0 then
    .error (.exit 1, printStderr (ascii "error: sdl2: init failed: ".toList ++ sdl.getError.bytes ++ ascii "\n".toList) o)
  else if sdl.createWindowAndRenderer ≠ 0 then
    .error (.exit 1, printStderr (ascii "error: machine: failed to create SDL window and renderer: ".toList ++
      sdl.getError.bytes ++ ascii "\n".toList) o)
  else
    let o ← logLog logging
      ⟨displayTag, .info, ⟨ascii "sdl: window and renderer created successfuly".toList, by decide⟩, none⟩ o
    return (sdl.renderer, o)

/-- `machine_init`, with the window. -/
def machineInit (logging : Logging) (sdl : Sdl) (o : Output) : Process (Session × Output) := do
  let o ← logLog logging ⟨machineTag, .info, ⟨ascii "initializing...".toList, by decide⟩, none⟩ o
  let (renderer, o) ← initSdl logging sdl o
  let o ← logLog logging ⟨machineTag, .info, ⟨ascii "initialization succeeded".toList, by decide⟩, none⟩ o
  return (⟨Emulator.machineInit, renderer, []⟩, o)

/-- `"loading rom \"%s\""` -/
def loadingMsg (path : CString) : CString := quoted ⟨ascii "loading rom \"".toList, by decide⟩ path ⟨ascii "\"".toList, by decide⟩

/-- `"failed to load program rom: program size (%zu) is too big"` -/
def tooBigMsg (size : Nat) : CString :=
  quoted ⟨ascii "failed to load program rom: program size (".toList, by decide⟩ (decimal size)
    ⟨ascii ") is too big".toList, by decide⟩

/-- `"rom size = %zu"` -/
def romSizeMsg (size : Nat) : CString := (⟨ascii "rom size = ".toList, by decide⟩ : CString).append (decimal size)

/-- `machine_load_rom` -/
def machineLoadRom (logging : Logging) (fs : FileSystem) (callocFails : Bool) (m : Machine) (path : CString) (o : Output) :
    Process (Machine × Output) := do
  let o ← logLog logging ⟨machineTag, .info, loadingMsg path, none⟩ o
  let (rom, o) ← fileReadContents logging fs callocFails path o
  match Emulator.machineLoadRom m rom with
  | .error _ =>
    let o ← logLog logging ⟨machineTag, .error, tooBigMsg rom.length, none⟩ o
    .error (.exit 1, o)
  | .ok m =>
    let o ← logLog logging ⟨machineTag, .debug, romSizeMsg rom.length, none⟩ o
    return (m, o)

/-- `machine_disassemble` to `stdout`. -/
def machineDisassemble (m : Machine) (o : Output) : Process Output :=
  let listing := Emulator.machineDisassemble m
  let o := printStdout (ascii listing.file.flatten) o
  match listing.ending with
  | .error halt => .error (.run (.step halt), o)
  | .ok true =>
    .error (.exit 1, printStderr (ascii "error: some unsupported opcodes were found. disassembly failed.\n".toList) o)
  | .ok false => .ok (printStderr (ascii "info: machine: disassembling finished successfuly\n".toList) o)

/-- `machine_run`: whether it has returned, and the session. -/
def machineRun (logging : Logging) (cfg : Config) (delayNow soundNow : BitVec 64) (frames : List Frame) (s : Session)
    (o : Output) : Process (Bool × Session × Output) :=
  match Emulator.machineRun cfg delayNow soundNow frames s with
  | .error (halt, s) => .error (.run halt, printStderr (ascii s.trace) o)
  | .ok (false, s) => .ok (false, s, printStderr (ascii s.trace) o)
  | .ok (true, s) => do
    let o ← logLog logging ⟨machineTag, .info, ⟨ascii "finishing emulation...".toList, by decide⟩, none⟩
      (printStderr (ascii s.trace) o)
    return (true, s, o)

/-! ## The command line -/

/-- `enum cli_command` -/
inductive CliCommand where
  | disassemble
  | run
  deriving DecidableEq

/-- `cmd_disassemble` -/
def cmdDisassemble : CString := ⟨ascii "disassemble".toList, by decide⟩

/-- `cmd_run` -/
def cmdRun : CString := ⟨ascii "run".toList, by decide⟩

/-- `max_arg_size`; the sizes count the NUL. -/
def maxArgSize : Nat := max (cmdDisassemble.strlen + 1) (cmdRun.strlen + 1)

/-- `cli_parse_command`: the command, or none when it returns 1. -/
def cliParseCommand (arg : CString) (o : Output) : Option CliCommand × Output :=
  let argLen := min arg.strlen maxArgSize
  if argLen ≥ maxArgSize then
    (none, printStderr (ascii "error: cli: argument parsing: argument is too big. argv=\"".toList ++ arg.bytes ++
      ascii "\"\n".toList) o)
  else if strncmp arg cmdDisassemble (cmdDisassemble.strlen + 1) = 0 then (some .disassemble, o)
  else if strncmp arg cmdRun (cmdRun.strlen + 1) = 0 then (some .run, o)
  else (none, o)

/-- `usage` -/
def usage : List Char :=
  ("\nUsage: emulator <COMMAND> <ROM_PATH>\n\nCOMMAND:\n    run\n        Load and run the Chip-8 program rom at ROM_PATH\n" ++
  "    disassemble\n        Load and disassemble the Chip-8 program rom at ROM_PATH\n\nROM_PATH:\n" ++
  "    File path for a Chip-8 Program ROM\n").toList

/-- `puts(usage)` -/
def putsUsage (o : Output) : Output := printStdout (ascii (usage ++ "\n".toList)) o

/-- `LOG_TAG` of `main.c` -/
def mainTag : CString := ⟨ascii "main".toList, by decide⟩

/-- `"ROM_PATH argument not specified"` -/
def romPathMsg : CString := ⟨ascii "ROM_PATH argument not specified".toList, by decide⟩

/-- `"cli: invalid command. argv[1]=\"%s\""` -/
def invalidCommandMsg (arg : CString) : CString :=
  quoted ⟨ascii "cli: invalid command. argv[1]=\"".toList, by decide⟩ arg ⟨ascii "\"".toList, by decide⟩

/-- What the outside gives to `main`. -/
structure Host where
  env : Environment
  /-- whether `strtoull` sets `EINVAL` for a string without digits -/
  setsEinval : Bool
  argv : List CString
  localtime : Nat → Tm
  fs : FileSystem
  callocFails : Bool
  sdl : Sdl
  /-- `SDL_GetTicks64()` in the two calls of `timer_start` -/
  delayNow : BitVec 64
  soundNow : BitVec 64
  frames : List Frame

/-- What `main` does with a command, once it is parsed. -/
def mainCommand (host : Host) (cfg : Config) (logging : Logging) (command : CliCommand) (romFilePath : CString) (o : Output) :
    Process (Session × Output) := do
  let (s, o) ← machineInit logging host.sdl o
  let (m, o) ← machineLoadRom logging host.fs host.callocFails s.machine romFilePath o
  match command with
  | .disassemble =>
    let o ← machineDisassemble m o
    .error (.exit 0, o)
  | .run =>
    match ← machineRun logging cfg host.delayNow host.soundNow host.frames { s with machine := m } o with
    | (false, s, o) => return (s, o)
    | (true, _, o) => .error (.exit 0, o)

/-- `main`: a result as long as `machine_run` goes on. -/
def main (host : Host) : Process (Session × Output) :=
  let o : Output := ⟨[], [], 0⟩
  match configInitFromEnv host.setsEinval host.env with
  | .error _ => .error (.exit 1, o)
  | .ok cfg =>
    let logging : Logging := ⟨cfg.logLevel, host.localtime⟩
    match host.argv with
    | [_, arg, romFilePath] =>
      match cliParseCommand arg o with
      | (none, o) => do
        let o ← logLog logging ⟨mainTag, .error, invalidCommandMsg arg, none⟩ o
        .error (.exit 1, putsUsage o)
      | (some command, o) => mainCommand host cfg logging command romFilePath o
    | _ => do
      let o ← logLog logging ⟨mainTag, .error, romPathMsg, none⟩ o
      .error (.exit 1, putsUsage o)

end Main

end CLangExamples.Emulator
