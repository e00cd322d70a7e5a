import Mathlib.Data.List.Induction

/-!
# Runs of a step function that can stop

A system is a step function `step : ι → σ → Except ε σ`: from a state and one input it goes to the next state or stops
with a reason. A run is a finite list of steps that did not stop; along with the inputs it collects one observation of
each step, so that a statement can relate the state reached to the history of the run.
-/

namespace Transition

variable {ι σ ε ω : Type}

/-! ## Computations that can stop -/

/-- A computation that goes on after a result. -/
theorem ok_bind {α β : Type} (a : α) (f : α → Except ε β) : (Except.ok a >>= f) = f a := rfl

/-- A computation that goes on and ends well had a result to go on with. -/
theorem bind_eq_ok {α β : Type} {x : Except ε α} {f : α → Except ε β} {b : β} (h : (x >>= f) = .ok b) :
    ∃ a, x = .ok a ∧ f a = .ok b := by
  cases x with
  | error e => cases h
  | ok a => exact ⟨a, rfl, h⟩

/-- A result that is mapped was one. -/
theorem map_eq_ok {α β : Type} {x : Except ε α} {f : α → β} {b : β} (h : x.map f = .ok b) : ∃ a, x = .ok a ∧ f a = b := by
  cases x with
  | error e => cases h
  | ok a => exact ⟨a, rfl, Except.ok.inj h⟩

/-! ## Runs -/

/-- `Run step obs s₀ inputs history s`: from `s₀` the inputs lead to `s` without a stop, and `history` holds, oldest first,
what was observed of each step before it was taken. -/
inductive Run (step : ι → σ → Except ε σ) (obs : ι → σ → ω) (s₀ : σ) : List ι → List ω → σ → Prop where
  | start : Run step obs s₀ [] [] s₀
  | next {inputs : List ι} {history : List ω} {s s' : σ} (i : ι) (r : Run step obs s₀ inputs history s)
      (h : step i s = .ok s') : Run step obs s₀ (inputs ++ [i]) (history ++ [obs i s]) s'

variable {step : ι → σ → Except ε σ} {obs : ι → σ → ω} {s₀ : σ}

/-- The invariant rule: what holds at the start, of no history, and is kept by every step that does not stop, holds of
every state that a run reaches together with its history. -/
theorem Run.invariant {P : List ω → σ → Prop} (h₀ : P [] s₀)
    (hstep : ∀ history i s s', P history s → step i s = .ok s' → P (history ++ [obs i s]) s')
    {inputs : List ι} {history : List ω} {s : σ} (r : Run step obs s₀ inputs history s) : P history s := by
  induction r with
  | start => exact h₀
  | next i _ h ih => exact hstep _ i _ _ ih h

/-- A run without inputs has not moved. -/
theorem Run.eq_start {inputs : List ι} {history : List ω} {s : σ} (r : Run step obs s₀ inputs history s)
    (h : inputs = []) : s = s₀ := by
  cases r with
  | start => rfl
  | next i _ _ => simp at h

/-- A run without inputs has observed nothing. -/
theorem Run.history_eq_nil {inputs : List ι} {history : List ω} {s : σ} (r : Run step obs s₀ inputs history s)
    (h : inputs = []) : history = [] := by
  cases r with
  | start => rfl
  | next i _ _ => simp at h

/-- A loop over the inputs that does not stop is a run. -/
theorem run_of_foldlM {inputs : List ι} {s : σ} (h : inputs.foldlM (fun s i => step i s) s₀ = .ok s) :
    Run step (fun i _ => i) s₀ inputs inputs s := by
  induction inputs using List.reverseRecOn generalizing s with
  | nil =>
    have hs : s₀ = s := Except.ok.inj h
    subst hs
    exact .start
  | append_singleton before i ih =>
    rw [List.foldlM_append] at h
    obtain ⟨s', hbefore, hlast⟩ := bind_eq_ok h
    rw [List.foldlM_cons] at hlast
    obtain ⟨s'', hstep, hend⟩ := bind_eq_ok hlast
    have hs : s'' = s := Except.ok.inj hend
    subst hs
    exact .next i (ih hbefore) hstep

/-- A property of a state and the next input holds at every step that a list of inputs takes: at each cut of the list,
of the state reached there and the input that follows. -/
def Along (step : ι → σ → Except ε σ) (obs : ι → σ → ω) (s₀ : σ) (inputs : List ι) (P : ι → σ → Prop) : Prop :=
  ∀ (before : List ι) (i : ι) (after : List ι) (history : List ω) (s : σ),
    inputs = before ++ i :: after → Run step obs s₀ before history s → P i s

/-- A run that starts with one more step. -/
theorem Run.cons {i : ι} {s₁ : σ} (h : step i s₀ = .ok s₁) {inputs : List ι} {history : List ω} {s : σ}
    (r : Run step obs s₁ inputs history s) : Run step obs s₀ (i :: inputs) (obs i s₀ :: history) s := by
  induction r with
  | start => exact .next i .start h
  | next j _ hj ih => exact .next j ih hj

/-- A property that holds along a list of inputs holds at the first one, of the state at the start. -/
theorem Along.head {P : ι → σ → Prop} {i : ι} {inputs : List ι} (h : Along step obs s₀ (i :: inputs) P) : P i s₀ :=
  h [] i inputs [] s₀ rfl .start

/-- A property that holds along a list of inputs holds along the rest of it, from the state after the first step. -/
theorem Along.tail {P : ι → σ → Prop} {i : ι} {inputs : List ι} (h : Along step obs s₀ (i :: inputs) P) {s₁ : σ}
    (hs : step i s₀ = .ok s₁) : Along step obs s₁ inputs P := by
  intro before j after history s heq r
  exact h (i :: before) j after (obs i s₀ :: history) s (by rw [heq]; rfl) (r.cons hs)

/-- The first step of a run and the rest of it. -/
theorem Run.uncons {i : ι} {inputs : List ι} {history : List ω} {s : σ} (r : Run step obs s₀ (i :: inputs) history s) :
    ∃ s₁ rest, step i s₀ = .ok s₁ ∧ history = obs i s₀ :: rest ∧ Run step obs s₁ inputs rest s := by
  generalize hall : i :: inputs = all at r
  induction r generalizing inputs with
  | start => cases hall
  | @next before history s s' j r h ih =>
    cases before with
    | nil =>
      obtain ⟨rfl, rfl⟩ := List.cons.inj hall
      obtain rfl := r.eq_start rfl
      obtain rfl := r.history_eq_nil rfl
      exact ⟨s', [], h, rfl, .start⟩
    | cons k before =>
      obtain ⟨rfl, rfl⟩ := List.cons.inj hall
      obtain ⟨s₁, rest, hstep, rfl, hrun⟩ := ih rfl
      exact ⟨s₁, rest ++ [obs j s], hstep, rfl, .next j hrun h⟩

/-- A property holds along a list of inputs when it holds at the first one and along the rest. -/
theorem Along.cons {P : ι → σ → Prop} {i : ι} {inputs : List ι} (h : P i s₀)
    (hrest : ∀ s₁, step i s₀ = .ok s₁ → Along step obs s₁ inputs P) : Along step obs s₀ (i :: inputs) P := by
  intro before j after history s heq r
  cases before with
  | nil =>
    obtain ⟨rfl, -⟩ := List.cons.inj heq
    rw [r.eq_start rfl]
    exact h
  | cons k before =>
    obtain ⟨rfl, htail⟩ := List.cons.inj heq
    obtain ⟨s₁, rest, hstep, -, r⟩ := r.uncons
    exact hrest s₁ hstep before j after rest s htail r

/-- Every property holds along no inputs. -/
theorem Along.nil {P : ι → σ → Prop} : Along step obs s₀ [] P := by
  intro before i after history s heq _
  simp at heq

/-- Two properties that agree at every state and input agree along every list of inputs. -/
theorem along_congr {P Q : ι → σ → Prop} (h : ∀ i s, P i s ↔ Q i s) (inputs : List ι) :
    Along step obs s₀ inputs P ↔ Along step obs s₀ inputs Q := by
  constructor
  · intro hp before i after history s heq r
    exact (h i s).mp (hp before i after history s heq r)
  · intro hq before i after history s heq r
    exact (h i s).mpr (hq before i after history s heq r)

/-- An invariant of the state and the history that steps with a property keep, along inputs whose steps all have it. -/
theorem Along.invariant_history {P : ι → σ → Prop} {I : List ω → σ → Prop} {inputs : List ι}
    (halong : Along step obs s₀ inputs P) (h₀ : I [] s₀)
    (hstep : ∀ history i s s', I history s → P i s → step i s = .ok s' → I (history ++ [obs i s]) s')
    {before after : List ι} {history : List ω} {s : σ} (hinputs : inputs = before ++ after)
    (r : Run step obs s₀ before history s) : I history s := by
  induction r generalizing after with
  | start => exact h₀
  | @next before history s s' i r h ih =>
    have hcut : inputs = before ++ i :: after := by rw [hinputs, List.append_assoc]; rfl
    exact hstep history i s s' (ih hcut) (halong before i after history s hcut r) h

/-- An invariant that steps with a property keep, along inputs whose steps all have it. -/
theorem Along.invariant {P : ι → σ → Prop} {Inv : σ → Prop} {inputs : List ι} (halong : Along step obs s₀ inputs P)
    (h₀ : Inv s₀) (hstep : ∀ i s s', Inv s → P i s → step i s = .ok s' → Inv s') {before after : List ι}
    {history : List ω} {s : σ} (hinputs : inputs = before ++ after) (r : Run step obs s₀ before history s) : Inv s :=
  halong.invariant_history (I := fun _ s => Inv s) h₀ (fun _ i s s' => hstep i s s') hinputs r

/-- Two properties that agree wherever an invariant holds that they keep agree along every list of inputs. -/
theorem along_congr_of_invariant {P Q : ι → σ → Prop} {Inv : σ → Prop} (h₀ : Inv s₀)
    (hiff : ∀ i s, Inv s → (P i s ↔ Q i s)) (hstep : ∀ i s s', Inv s → P i s → step i s = .ok s' → Inv s')
    (inputs : List ι) : Along step obs s₀ inputs P ↔ Along step obs s₀ inputs Q := by
  constructor
  · intro hp before i after history s heq r
    exact (hiff i s (hp.invariant h₀ hstep heq r)).mp (hp before i after history s heq r)
  · intro hq before i after history s heq r
    have hinv := hq.invariant h₀ (fun i s s' hinv hqi => hstep i s s' hinv ((hiff i s hinv).mpr hqi)) heq r
    exact (hiff i s hinv).mpr (hq before i after history s heq r)

end Transition
