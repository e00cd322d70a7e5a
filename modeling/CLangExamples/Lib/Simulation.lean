import CLangExamples.Lib.Run

/-!
# Objects with calls, and simulation between them

An object is a function `call : ι → σ → Except ε (ω × σ)`: a call on a state returns a value and leaves a state, or stops
with a reason. Two objects simulate each other through a relation between their states when every call on related states
returns the same value and leaves related states, or stops with the same reason; then so does every row of calls.
-/

namespace Transition

variable {ι σ τ ε ω : Type}

/-- The values that a row of calls returns, and the state after it. -/
def runCalls (call : ι → σ → Except ε (ω × σ)) : List ι → σ → Except ε (List ω × σ)
  | [], s => .ok ([], s)
  | i :: calls, s => do
    let (value, s) ← call i s
    let (values, s) ← runCalls call calls s
    return (value :: values, s)

/-- Two results agree: the same value and related states, or the same reason to stop. -/
inductive Agree (R : σ → τ → Prop) : Except ε (ω × σ) → Except ε (ω × τ) → Prop where
  | ok {value : ω} {s : σ} {t : τ} (h : R s t) : Agree R (.ok (value, s)) (.ok (value, t))
  | error (e : ε) : Agree R (.error e) (.error e)

/-- The simulation rule: calls that agree on related states agree in every row. -/
theorem runCalls_agree {R : σ → τ → Prop} {f : ι → σ → Except ε (ω × σ)} {g : ι → τ → Except ε (ω × τ)}
    (hcall : ∀ i s t, R s t → Agree R (f i s) (g i t)) (calls : List ι) {s : σ} {t : τ} (h : R s t) :
    Agree R (runCalls f calls s) (runCalls g calls t) := by
  induction calls generalizing s t with
  | nil => exact .ok h
  | cons i calls ih =>
    have hfirst := hcall i s t h
    unfold runCalls
    generalize f i s = x at hfirst
    generalize g i t = y at hfirst
    cases hfirst with
    | error e => exact .error e
    | ok h' =>
      simp only [ok_bind]
      have hrest := ih h'
      generalize runCalls f calls _ = x at hrest
      generalize runCalls g calls _ = y at hrest
      cases hrest with
      | error e => exact .error e
      | ok h'' => exact .ok h''

/-- A row of calls stops for a reason that one of the calls has. -/
theorem runCalls_error {P : ε → Prop} {call : ι → σ → Except ε (ω × σ)} (h : ∀ i s e, call i s = .error e → P e)
    {calls : List ι} {s : σ} {e : ε} (herror : runCalls call calls s = .error e) : P e := by
  induction calls generalizing s with
  | nil => cases herror
  | cons i calls ih =>
    unfold runCalls at herror
    cases hcall : call i s with
    | error e' =>
      rw [hcall] at herror
      cases herror
      exact h i s e hcall
    | ok p =>
      rw [hcall, ok_bind] at herror
      simp only at herror
      cases hrest : runCalls call calls p.2 with
      | error e' =>
        rw [hrest] at herror
        cases herror
        exact ih hrest
      | ok q =>
        rw [hrest] at herror
        cases herror

/-- What agrees with a result is one. -/
theorem Agree.of_ok {R : σ → τ → Prop} {x : Except ε (ω × σ)} {value : ω} {t : τ}
    (h : Agree R x (.ok (value, t))) : ∃ s, x = .ok (value, s) ∧ R s t := by
  cases h with
  | ok h => exact ⟨_, rfl, h⟩

/-- What agrees with a stop stops for the same reason. -/
theorem Agree.of_error {R : σ → τ → Prop} {x : Except ε (ω × σ)} {e : ε} (h : Agree R x (.error e)) : x = .error e := by
  cases h with
  | error e => rfl

/-! ## Two runs side by side -/

/-- Two results of a step match: related states, or the same reason to stop. -/
inductive Matches (R : σ → τ → Prop) : Except ε σ → Except ε τ → Prop where
  | ok {s : σ} {t : τ} (h : R s t) : Matches R (.ok s) (.ok t)
  | error (e : ε) : Matches R (.error e) (.error e)

/-- A result that is mapped state by state to a related one matches it. -/
theorem matches_map {R : σ → τ → Prop} {f : σ → τ} (h : ∀ s, R s (f s)) (x : Except ε σ) : Matches R x (x.map f) := by
  cases x with
  | error e => exact .error e
  | ok s => exact .ok (h s)

/-- What matches a state is a related state. -/
theorem Matches.of_ok {R : σ → τ → Prop} {s : σ} {y : Except ε τ} (h : Matches R (.ok s) y) : ∃ t, y = .ok t ∧ R s t := by
  cases h with
  | ok h => exact ⟨_, rfl, h⟩

/-- Results that match stop for the same reasons. -/
theorem Matches.error_iff {R : σ → τ → Prop} {x : Except ε σ} {y : Except ε τ} (h : Matches R x y) (e : ε) :
    x = .error e ↔ y = .error e := by
  cases h with
  | ok _ => exact iff_of_false (by simp) (by simp)
  | error e' => rw [Except.error.injEq, Except.error.injEq]

/-- The lockstep rule: where steps with a property match on related states and are observed alike, a run whose steps all
have the property is followed, observation by observation, by a run from any related state. -/
theorem Along.lockstep {ω : Type} {step : ι → σ → Except ε σ} {obs : ι → σ → ω} {s₀ t₀ : σ} {R : σ → σ → Prop}
    {P : ι → σ → Prop} {inputs : List ι} (halong : Along step obs s₀ inputs P)
    (hobs : ∀ i s t, R s t → obs i s = obs i t) (hstep : ∀ i s t, R s t → P i s → Matches R (step i s) (step i t))
    (h₀ : R s₀ t₀) {before after : List ι} {history : List ω} {s : σ} (hinputs : inputs = before ++ after)
    (r : Run step obs s₀ before history s) : ∃ t, Run step obs t₀ before history t ∧ R s t := by
  induction r generalizing after with
  | start => exact ⟨t₀, .start, h₀⟩
  | @next before history s s' i r h ih =>
    have hcut : inputs = before ++ i :: after := by rw [hinputs, List.append_assoc]; rfl
    obtain ⟨t, hrun, hrel⟩ := ih hcut
    have hmatch := hstep i s t hrel (halong before i after history s hcut r)
    rw [h] at hmatch
    obtain ⟨t', ht', hrel'⟩ := hmatch.of_ok
    refine ⟨t', ?_, hrel'⟩
    rw [hobs i s t hrel]
    exact .next i hrun ht'

end Transition
