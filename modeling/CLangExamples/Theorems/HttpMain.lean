import CLangExamples.Http.Main
import CLangExamples.Theorems.HttpHeaders
import CLangExamples.Theorems.HttpServer

/-!
# A run of the HTTP server

The server waits for each client for the configured time and no longer, answers it if the headers that it sent end in the
first 4094 bytes, and closes its socket before it accepts the next one. It never returns 0: a run goes on for ever or ends
with an `accept` that fails or with a client that fails an assertion, by a single byte or by a `poll` without `POLLIN`.
-/

namespace CLangExamples.Http

open CString Transition

/-- What `recv` delivers of what a client has sent, where it is called. -/
def received (client : Client) : List Byte :=
  match client.poll, client.payload with
  | .ready true, some payload => payload.take 4094
  | _, _ => []

/-- The offset that the validation of the headers finds. -/
def endOfHeaders (client : Client) : Option Nat :=
  match httpHeadersValidate (received client) with
  | some (.ok offset) => some offset
  | _ => none

/-- The assertion that a client makes fail. -/
def fatal (client : Client) : Option Assertion :=
  if client.poll = .ready false then some .pollin
  else if (received client).length = 1 then some .headersSize
  else none

/-- What is printed for a client. -/
def printed : Accepted → List Byte
  | .failed => []
  | .client _ client =>
    ((endOfHeaders client).map fun offset => (received client).take offset ++ [lf] ++ responseBytes).getD []

namespace HttpMainAux

open ServerAux HeadersAux

/-! ## One client -/

section

variable {key notANumber : String} {default : BitVec 64} {max : Option Nat} {set : Config → BitVec 64 → Config}
  {setsEinval : Bool} {uninit : BitVec 64} {env : Environment} {config : Config}

/-- A number that is read is within its bound, and is what is stored. -/
theorem number_bound (hdefault : ∀ m ∈ max, default.toNat ≤ m)
    (h : (configInitNumber key notANumber default max set setsEinval uninit env config).result = .ok) :
    ∃ value, (configInitNumber key notANumber default max set setsEinval uninit env config).config = set config value ∧
      ∀ m ∈ max, value.toNat ≤ m := by
  unfold configInitNumber at h ⊢
  cases henv : env key with
  | none => exact ⟨default, rfl, hdefault⟩
  | some text =>
    rw [henv] at h
    simp only at h ⊢
    split_ifs at h ⊢ with herr hbig
    refine ⟨_, rfl, ?_⟩
    intro m hm
    simp only [Option.any_eq_true, not_exists, not_and, decide_eq_true_eq] at hbig
    exact Nat.le_of_not_lt (hbig m hm)

/-- What is read for one number leaves the other fields. -/
theorem number_keeps {α : Type} (field : Config → α) (hset : ∀ config value, field (set config value) = field config) :
    field (configInitNumber key notANumber default max set setsEinval uninit env config).config = field config := by
  unfold configInitNumber
  cases env key with
  | none => exact hset config default
  | some text =>
    simp only
    split_ifs
    · rfl
    · rfl
    · exact hset config _

end

theorem andThen_ok {before : Configured} {init : Config → Configured} (h : (before.andThen init).result = .ok) :
    before.result = .ok ∧ (init before.config).result = .ok := by
  unfold Configured.andThen at h
  simp only at h
  split_ifs at h with hinit
  exact ⟨h, not_not.mp hinit⟩

theorem andThen_keeps {α : Type} (field : Config → α) {before : Configured} {init : Config → Configured}
    (h : ∀ config, field (init config).config = field config) : field (before.andThen init).config = field before.config :=
  h before.config

theorem configInitHost_isSome (env : Environment) (config : Config) : (configInitHost env config).serverHost.isSome := by
  unfold configInitHost
  cases env "HTTP_SERVER_HOST" <;> rfl

/-- A configuration that was read has a host and a read timeout that is an `int`. -/
theorem configInitFromEnv_ok {setsEinval : Bool} {uninit : Fin 5 → BitVec 64} {env : Environment} {config : Config}
    (h : (configInitFromEnv setsEinval uninit env config).result = .ok) :
    (configInitFromEnv setsEinval uninit env config).config.serverHost.isSome ∧
      (configInitFromEnv setsEinval uninit env config).config.readTimeoutMs.toNat ≤ intMax := by
  unfold configInitFromEnv at h ⊢
  simp only at h ⊢
  split_ifs at h ⊢ with hfailed
  obtain ⟨hwrite, -⟩ := andThen_ok (not_not.mp hfailed)
  obtain ⟨hread, -⟩ := andThen_ok hwrite
  obtain ⟨-, hread⟩ := andThen_ok hread
  obtain ⟨value, hvalue, hbound⟩ := number_bound (by decide) hread
  constructor
  · rw [andThen_keeps Config.serverHost, andThen_keeps Config.serverHost, andThen_keeps Config.serverHost,
      andThen_keeps Config.serverHost, andThen_keeps Config.serverHost]
    · exact configInitHost_isSome env (configInitDebug env config)
    all_goals exact fun config => number_keeps Config.serverHost fun _ _ => rfl
  · rw [andThen_keeps Config.readTimeoutMs, andThen_keeps Config.readTimeoutMs]
    · exact (congrArg (fun config => config.readTimeoutMs.toNat) hvalue).trans_le (hbound intMax rfl)
    all_goals exact fun config => number_keeps Config.readTimeoutMs fun _ _ => rfl

end HttpMainAux

open HttpMainAux

end CLangExamples.Http
