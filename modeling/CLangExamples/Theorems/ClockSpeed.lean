import CLangExamples.Emulator.Config

/-!
# The divisor of the clock speed control

`machine_run` divides by the configured clock speed in every iteration. The default is not zero, and the configuration is
accepted with a clock speed of zero exactly when the digits of `CPU_CLOCK_HZ` stand for zero or there are none.
-/

namespace CLangExamples.Emulator

open CString Strtoul Transition

/-- From every ROM that is loaded, no iteration of `machine_run` divides by zero. -/
def NeverDividesByZero (cfg : Config) : Prop :=
  ∀ rom delayNow soundNow m₀ inputs, machineBoot rom delayNow soundNow = .ok m₀ →
    Along (machineRunIteration cfg) executedAt m₀ inputs fun inp m => machineRunIteration cfg inp m ≠ .error .divisionByZero

/-- The environment with `CPU_CLOCK_HZ` alone. -/
def onlyClockHz (value : CString) : Environment :=
  fun name => if name = configCpuClockSpeedHzEnvVarKey then some value else none

namespace ClockSpeedAux

/-- With a clock speed other than zero an iteration ends as its instruction does. -/
theorem iteration_of_ne_zero {cfg : Config} (h : cfg.cpuClockSpeedHz ≠ 0) (inp : Input) (m : Machine) :
    machineRunIteration cfg inp m ≠ .error .divisionByZero := by
  unfold machineRunIteration cpuRunIdealDurationMs
  rw [if_neg h]
  cases machineIteration inp m with
  | ok m' => exact fun heq => by cases heq
  | error halt => exact fun heq => by cases heq

/-- The instruction that clears the display is executed, and then a clock speed of zero stops the run. -/
theorem iteration_of_zero {cfg : Config} (h : cfg.cpuClockSpeedHz = 0) :
    ∃ m₀, machineBoot [0x00, 0xE0] 0 0 = .ok m₀ ∧ machineRunIteration cfg idleInput m₀ = .error .divisionByZero := by
  obtain ⟨m₀, hboot, m, hstep⟩ : ∃ m₀, machineBoot [0x00, 0xE0] 0 0 = .ok m₀ ∧ ∃ m, machineIteration idleInput m₀ = .ok m :=
    ⟨_, rfl, _, rfl⟩
  refine ⟨m₀, hboot, ?_⟩
  rw [machineRunIteration, hstep, cpuRunIdealDurationMs, if_pos h]
  rfl

theorem neverDividesByZero_iff (cfg : Config) : NeverDividesByZero cfg ↔ cfg.cpuClockSpeedHz ≠ 0 := by
  constructor
  · intro hnever hzero
    obtain ⟨m₀, hboot, hdivides⟩ := iteration_of_zero hzero
    exact (hnever _ _ _ m₀ [idleInput] hboot).head hdivides
  · intro hne rom delayNow soundNow m₀ inputs _ before inp after history m _ _
    exact iteration_of_ne_zero hne inp m

/-- What `parse_string_to_u32` accepts is zero exactly when `strtoull` gives zero. -/
theorem parseStringToU32_eq_zero_iff {setsEinval : Bool} {str : CString} {hz : BitVec 32}
    (h : parseStringToU32 setsEinval str = .ok hz) : hz = 0 ↔ digitsValue (leadingDigits str.bytes) = 0 := by
  unfold parseStringToU32 at h
  simp only at h
  split at h
  · cases h
  · split at h
    · cases h
    · rename_i hlt
      obtain rfl := Except.ok.inj h
      rw [← strtoul_value_eq_zero_iff setsEinval]
      unfold uint32Max at hlt
      generalize (strtoul setsEinval str.bytes).value = value at hlt ⊢
      constructor
      · intro hzero
        have hnat : value % 0x100000000 = 0 := congrArg BitVec.toNat hzero
        omega
      · rintro rfl
        rfl

/-- The clock speed of a configuration comes from `CPU_CLOCK_HZ` alone. -/
theorem configInitFromEnv_ok {setsEinval : Bool} {env : Environment} {cfg : Config}
    (h : configInitFromEnv setsEinval env = .ok cfg) : configInitCpuClockSpeed setsEinval env = .ok cfg.cpuClockSpeedHz := by
  unfold configInitFromEnv at h
  obtain ⟨logLevel, -, h⟩ := bind_eq_ok h
  obtain ⟨hz, hspeed, h⟩ := bind_eq_ok h
  obtain rfl := Except.ok.inj h
  exact hspeed

/-- The clock speed is not zero exactly when `CPU_CLOCK_HZ` is not set or its number is not zero. -/
theorem cpuClockSpeed_ne_zero_iff {setsEinval : Bool} {env : Environment} {hz : BitVec 32}
    (h : configInitCpuClockSpeed setsEinval env = .ok hz) :
    hz ≠ 0 ↔ ∀ value, env configCpuClockSpeedHzEnvVarKey = some value → digitsValue (leadingDigits value.bytes) ≠ 0 := by
  unfold configInitCpuClockSpeed at h
  cases henv : env configCpuClockSpeedHzEnvVarKey with
  | none =>
    rw [henv] at h
    obtain rfl := Except.ok.inj h
    exact iff_of_true (by decide) (by simp)
  | some value =>
    rw [henv] at h
    rw [ne_eq, parseStringToU32_eq_zero_iff h]
    simp

end ClockSpeedAux

open ClockSpeedAux

/-- With a configuration that was accepted, no iteration of `machine_run` divides by zero exactly when `CPU_CLOCK_HZ` is not
set, or the digits behind its spaces and its sign stand for a number other than zero. -/
theorem clock_speed_divides_iff (setsEinval : Bool) (env : Environment) (cfg : Config)
    (h : configInitFromEnv setsEinval env = .ok cfg) :
    NeverDividesByZero cfg ↔
      ∀ value, env configCpuClockSpeedHzEnvVarKey = some value → digitsValue (leadingDigits value.bytes) ≠ 0 := by
  rw [neverDividesByZero_iff, cpuClockSpeed_ne_zero_iff (configInitFromEnv_ok h)]

/-- `CPU_CLOCK_HZ=5` is accepted, and no iteration divides by zero. -/
theorem clock_speed_five : NeverDividesByZero ⟨.info, 5⟩ := by
  refine (clock_speed_divides_iff true (onlyClockHz ⟨[0x35#8], by decide⟩) ⟨.info, 5⟩ rfl).2 ?_
  intro value hvalue
  obtain rfl := Option.some.inj hvalue
  decide

/-- `CPU_CLOCK_HZ=0` is accepted, and an iteration divides by zero. -/
theorem clock_speed_zero_accepted :
    configInitFromEnv true (onlyClockHz ⟨[0x30#8], by decide⟩) = .ok ⟨.info, 0⟩ ∧
    (∃ m₀, machineBoot [0x00, 0xE0] 0 0 = .ok m₀ ∧
      machineRunIteration ⟨.info, 0⟩ idleInput m₀ = .error .divisionByZero) ∧
    ¬NeverDividesByZero ⟨.info, 0⟩ := by
  refine ⟨rfl, iteration_of_zero rfl, ?_⟩
  rw [neverDividesByZero_iff]
  exact fun hne => hne rfl

end CLangExamples.Emulator
