import CLangExamples.Http.Scanner
import CLangExamples.Lib.CString
import CLangExamples.Lib.Strtoul

/-!
# The configuration from the environment

`parse_ull` of `commons.c` and `config_init_*` of `config.c`. The global `config` is passed along. A local variable that was
not written holds whatever was in memory: it is an argument of the model.
-/

namespace CLangExamples.Http

open CString Strtoul

/-- `parse_ull`: what it returns and `*output`. What `endptr` is makes no difference. -/
def parseUll (setsEinval : Bool) (input : CString) (output : BitVec 64) : ResultCode × BitVec 64 :=
  let conversion := strtoul setsEinval input.bytes
  if conversion.errno ≠ .zero ∨ conversion.value = ulongMax then (.err, output)
  else (.ok, BitVec.ofNat 64 conversion.value)

/-- `struct config`; no `server_host` is `NULL`. -/
structure Config where
  debug : Bool
  serverHost : Option CString
  serverPort : BitVec 16
  tcpBacklog : BitVec 16
  readTimeoutMs : BitVec 64
  writeTimeoutMs : BitVec 64
  connectionTimeoutMs : BitVec 64
  deriving DecidableEq

/-- The global `config` before it is initialised. -/
def configZero : Config := ⟨false, none, 0, 0, 0, 0, 0⟩

/-- What a `config_init_*` returns, the errors it logs and the configuration it leaves. -/
structure Configured where
  result : ResultCode
  log : List String
  config : Config
  deriving DecidableEq

/-- `UINT16_MAX` -/
def uint16Max : Nat := 0xFFFF

/-- `INT_MAX` -/
def intMax : Nat := 0x7FFFFFFF

/-- `DEFAULT_HOST`: `"127.0.0.1"` -/
def defaultHost : CString where
  bytes := [0x31#8, 0x32#8, 0x37#8, 0x2E#8, 0x30#8, 0x2E#8, 0x30#8, 0x2E#8, 0x31#8]
  no_nul := by decide

/-- `config_init_debug` -/
def configInitDebug (env : Environment) (config : Config) : Config :=
  { config with debug := (env "HTTP_SERVER_DEBUG").isSome }

/-- `config_init_host` -/
def configInitHost (env : Environment) (config : Config) : Config :=
  match env "HTTP_SERVER_HOST" with
  | none => { config with serverHost := some defaultHost }
  | some value => { config with serverHost := some value }

/-- The numbers of the configuration: one is read from the variable `key`, is `default` when that is not set, has to be at
most `max` where there is one, and is stored by `set`. -/
def configInitNumber (key notANumber : String) (default : BitVec 64) (max : Option Nat)
    (set : Config → BitVec 64 → Config) (setsEinval : Bool) (uninit : BitVec 64) (env : Environment) (config : Config) :
    Configured :=
  match env key with
  | none => ⟨.ok, [], set config default⟩
  | some value =>
    let (result, parsedValue) := parseUll setsEinval value uninit
    if result ≠ .ok then ⟨.err, [key ++ notANumber], config⟩
    else if max.any (parsedValue.toNat > ·) then ⟨.err, [key ++ ": bad value: value is too big"], config⟩
    else ⟨.ok, [], set config parsedValue⟩

/-- `config_init_port` -/
def configInitPort : Bool → BitVec 64 → Environment → Config → Configured :=
  configInitNumber "HTTP_SERVER_PORT" ": bad value: Not a Number" 8080 (some uint16Max)
    fun config value => { config with serverPort := value.setWidth 16 }

/-- `config_init_tcp_backlog` -/
def configInitTcpBacklog : Bool → BitVec 64 → Environment → Config → Configured :=
  configInitNumber "HTTP_SERVER_TCP_BACKLOG" ": bad value: Not a Number" 16 (some uint16Max)
    fun config value => { config with tcpBacklog := value.setWidth 16 }

/-- `config_init_read_timeout_ms` -/
def configInitReadTimeoutMs : Bool → BitVec 64 → Environment → Config → Configured :=
  configInitNumber "HTTP_SERVER_READ_TIMEOUT_MS" ": bad value: NaN" 3000 (some intMax)
    fun config value => { config with readTimeoutMs := value }

/-- `config_init_write_timeout_ms` -/
def configInitWriteTimeoutMs : Bool → BitVec 64 → Environment → Config → Configured :=
  configInitNumber "HTTP_SERVER_WRITE_TIMEOUT_MS" ": bad value: NaN" 1 none
    fun config value => { config with writeTimeoutMs := value }

/-- `config_init_connection_timeout_ms` -/
def configInitConnectionTimeoutMs : Bool → BitVec 64 → Environment → Config → Configured :=
  configInitNumber "HTTP_SERVER_CONNECTION_TIMEOUT_MS" ": bad value: Not a Number" 9000 none
    fun config value => { config with connectionTimeoutMs := value }

/-- One `config_init_*` after those before it, which may have failed. -/
def Configured.andThen (before : Configured) (init : Config → Configured) : Configured :=
  let after := init before.config
  ⟨if after.result ≠ .ok then .err else before.result, before.log ++ after.log, after.config⟩

/-- `config_init_from_env`; `uninit` holds what the locals of the five functions that parse a number were not written. -/
def configInitFromEnv (setsEinval : Bool) (uninit : Fin 5 → BitVec 64) (env : Environment) (config : Config) :
    Configured :=
  let config := configInitDebug env config
  let config := configInitHost env config
  let last := (Configured.mk .ok [] config)
    |>.andThen (configInitPort setsEinval (uninit 0) env)
    |>.andThen (configInitTcpBacklog setsEinval (uninit 1) env)
    |>.andThen (configInitReadTimeoutMs setsEinval (uninit 2) env)
    |>.andThen (configInitWriteTimeoutMs setsEinval (uninit 3) env)
    |>.andThen (configInitConnectionTimeoutMs setsEinval (uninit 4) env)
  if last.result ≠ .ok then
    ⟨.err, last.log ++ ["failed to load configuration from environment variables"], last.config⟩
  else ⟨.ok, last.log, last.config⟩

end CLangExamples.Http
