import CLangExamples.Emulator.Run
import CLangExamples.Lib.CString
import CLangExamples.Lib.Strtoul

/-!
# The configuration

`config.c` and `logging/level.c`, and the clock speed control of `machine_run`, which divides by what the configuration
holds. How long an iteration took and how long `SDL_Delay` waits is left out.
-/

namespace CLangExamples.Emulator

open CString Strtoul

/-! ## Log levels -/

/-- `enum log_level` -/
inductive LogLevel where
  | trace
  | debug
  | info
  | warn
  | error
  | fatal
  deriving DecidableEq

/-- `LOG_LEVEL_TRACE_STR` and the others: `"trace"`, `"debug"`, `"info"`, `"warn"`, `"error"` and `"fatal"`. -/
def logLevelStr : LogLevel → CString
  | .trace => ⟨[0x74#8, 0x72#8, 0x61#8, 0x63#8, 0x65#8], by decide⟩
  | .debug => ⟨[0x64#8, 0x65#8, 0x62#8, 0x75#8, 0x67#8], by decide⟩
  | .info => ⟨[0x69#8, 0x6E#8, 0x66#8, 0x6F#8], by decide⟩
  | .warn => ⟨[0x77#8, 0x61#8, 0x72#8, 0x6E#8], by decide⟩
  | .error => ⟨[0x65#8, 0x72#8, 0x72#8, 0x6F#8, 0x72#8], by decide⟩
  | .fatal => ⟨[0x66#8, 0x61#8, 0x74#8, 0x61#8, 0x6C#8], by decide⟩

/-- Why the program exits with 1 before it has a configuration. -/
inductive ConfigExit where
  /-- `error: logging: parsing failed: ... is not a valid log level` -/
  | badLogLevel (str : CString)
  /-- `error: config: parsing ... to uint32_t failed`, with `errno` -/
  | parsingFailed (str : CString) (errno : Errno)
  /-- `error: config: parsing ... to uint32_t failed: value is too high` -/
  | valueTooHigh (str : CString)
  deriving DecidableEq

/-- `log_level_parse`: the first level whose name is the string, compared up to and with its NUL. -/
def logLevelParse : Option CString → Except ConfigExit LogLevel
  | none => .ok .info
  | some str =>
    let levels : List LogLevel := [.trace, .debug, .info, .warn, .error, .fatal]
    match levels.find? fun level => strncmp (logLevelStr level) str ((logLevelStr level).strlen + 1) == 0 with
    | some level => .ok level
    | none => .error (.badLogLevel str)

/-! ## The configuration -/

/-- `struct config` -/
structure Config where
  logLevel : LogLevel
  cpuClockSpeedHz : BitVec 32
  deriving DecidableEq

/-- `CONFIG_CPU_CLOCK_SPEED_HZ_ENV_VAR_KEY` -/
def configCpuClockSpeedHzEnvVarKey : String := "CPU_CLOCK_HZ"

/-- `CONFIG_CPU_CLOCK_SPEED_HZ_DEFAULT_VALUE` -/
def configCpuClockSpeedHzDefaultValue : BitVec 32 := 600

/-- `CONFIG_LOG_LEVEL_ENV_VAR_KEY` -/
def configLogLevelEnvVarKey : String := "LOG_LEVEL"

/-- `UINT32_MAX` -/
def uint32Max : Nat := 0xFFFFFFFF

/-- `parse_string_to_u32`: what `*endptr` is makes no difference. -/
def parseStringToU32 (setsEinval : Bool) (str : CString) : Except ConfigExit (BitVec 32) :=
  let conversion := strtoul setsEinval str.bytes
  if conversion.errno ≠ .zero then .error (.parsingFailed str conversion.errno)
  else if conversion.value ≥ uint32Max then .error (.valueTooHigh str)
  else .ok (BitVec.ofNat 32 conversion.value)

/-- `config_init_log_level` -/
def configInitLogLevel (env : Environment) : Except ConfigExit LogLevel := logLevelParse (env configLogLevelEnvVarKey)

/-- `config_init_cpu_clock_speed` -/
def configInitCpuClockSpeed (setsEinval : Bool) (env : Environment) : Except ConfigExit (BitVec 32) :=
  match env configCpuClockSpeedHzEnvVarKey with
  | none => .ok configCpuClockSpeedHzDefaultValue
  | some value => parseStringToU32 setsEinval value

/-- `config_init_from_env` -/
def configInitFromEnv (setsEinval : Bool) (env : Environment) : Except ConfigExit Config := do
  let logLevel ← configInitLogLevel env
  let cpuClockSpeedHz ← configInitCpuClockSpeed setsEinval env
  return ⟨logLevel, cpuClockSpeedHz⟩

/-! ## Clock speed control -/

/-- Why an iteration of `machine_run` does not end. -/
inductive RunHalt where
  /-- the instruction -/
  | step (halt : Halt)
  /-- `1000 / config()->cpu_clock_speed_hz` with the divisor zero -/
  | divisionByZero
  deriving DecidableEq

/-- `cpu_run_ideal_duration_ms` -/
def cpuRunIdealDurationMs (cfg : Config) : Except RunHalt (BitVec 32) :=
  if cfg.cpuClockSpeedHz = 0 then .error .divisionByZero else .ok (1000 / cfg.cpuClockSpeedHz)

/-- One iteration of the loop of `machine_run` with its clock speed control: the timers and one instruction, then the
division that gives the duration to wait for. -/
def machineRunIteration (cfg : Config) (inp : Input) (m : Machine) : Except RunHalt Machine := do
  let m ← (machineIteration inp m).mapError .step
  let _cpuRunIdealDurationMs ← cpuRunIdealDurationMs cfg
  return m

end CLangExamples.Emulator
