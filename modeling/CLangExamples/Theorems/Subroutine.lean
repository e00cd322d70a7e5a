import CLangExamples.Theorems.CallStack

/-!
# Subroutines

What a call and its return do together, whatever the subroutine does in between: it may call further, wait, draw, or
overwrite the program. As long as the stack is higher than at the call, the entries up to the one of the call stay as they
are; so the step that brings the stack back to its height is a return to the instruction behind the call. The machine at
the call is any machine, so calls nest to any depth that the stack allows.
-/

namespace CLangExamples.Emulator

open CallStackAux

namespace SubroutineAux

variable {inp : Input} {caller m m' : Machine}

/-- The entries of the stack while a subroutine called from `caller` has not returned: those of the caller, the address
behind the call, and what further calls have put on top. -/
structure Inside (caller m : Machine) : Prop where
  bounded : m.cpu.stackCount ≤ stackCapacity
  entries : caller.cpu.stackCount < m.cpu.stackCount →
    caller.cpu.stackEntries ++ [caller.cpu.pc + 2] <+: m.cpu.stackEntries

/-- The three ways in which an iteration can treat the stack, on the entries. -/
theorem iteration_entries (h : machineIteration inp m = .ok m') :
    (opcodeAt m = 0x00EE#16 ∧ m'.cpu.stackCount + 1 = m.cpu.stackCount ∧ m'.cpu.stackCount < stackCapacity ∧
      m.cpu.stackEntries = m'.cpu.stackEntries ++ [m'.cpu.pc]) ∨
    (IsCall (opcodeAt m) ∧ m'.cpu.stackCount = m.cpu.stackCount + 1 ∧ m.cpu.stackCount < stackCapacity ∧
      m'.cpu.stackEntries = m.cpu.stackEntries ++ [m.cpu.pc + 2]) ∨
    (¬IsCall (opcodeAt m) ∧ m'.cpu.stackCount = m.cpu.stackCount ∧ m'.cpu.stackEntries = m.cpu.stackEntries) := by
  obtain ⟨-, -, i, hd, he⟩ := cpuStep_ok h
  rw [opcodeAt_updateTimers] at hd
  rcases effect_stack he with ⟨rfl, k, hk, hs, hc, hpc⟩ | ⟨hcall, k, hk, hs, hc⟩ | ⟨-, hcall, hs, hc⟩
  · have hk' : m.cpu.stackCount = k.val + 1 := hk
    have hpop : m.cpu.stackEntries = m'.cpu.stackEntries ++ [m.cpu.stack k] := stackEntries_pop hk hs hc
    refine Or.inl ⟨(decode_ret_iff hd).mpr rfl, by omega, by rw [hc]; exact k.isLt, ?_⟩
    rw [hpop, hpc]
    rfl
  · have hk' : m.cpu.stackCount = k.val := hk
    have hpush : m'.cpu.stackEntries = m.cpu.stackEntries ++ [m.cpu.pc + 2] := stackEntries_push hk hs hc
    exact Or.inr (Or.inl ⟨(decode_call_iff hd).mpr hcall, by omega, by rw [hk']; exact k.isLt, hpush⟩)
  · have hsame : m'.cpu.stackEntries = m.cpu.stackEntries := by
      rw [Cpu.stackEntries, Cpu.stackEntries, hs, hc]
      rfl
    exact Or.inr (Or.inr ⟨fun hop => hcall ((decode_call_iff hd).mp hop), hc, hsame⟩)

/-- A call that succeeds is inside its subroutine. -/
theorem inside_call (hcall : IsCall (opcodeAt caller)) (h : machineIteration inp caller = .ok m) :
    caller.cpu.stackCount < stackCapacity ∧ Inside caller m := by
  rcases iteration_entries h with ⟨hret, -⟩ | ⟨-, hcount, hroom, hentries⟩ | ⟨hno, -⟩
  · rw [hret] at hcall
    exact absurd hcall (by decide)
  · have hpre : caller.cpu.stackEntries ++ [caller.cpu.pc + 2] <+: m.cpu.stackEntries :=
      ⟨[], by rw [hentries, List.append_nil]⟩
    exact ⟨hroom, by omega, fun _ => hpre⟩
  · exact absurd hcall hno

/-- An iteration that starts above the caller keeps the entries up to the one of the call, unless it returns from there. -/
theorem inside_step (hroom : caller.cpu.stackCount < stackCapacity) (hin : Inside caller m)
    (habove : caller.cpu.stackCount < m.cpu.stackCount) (h : machineIteration inp m = .ok m') : Inside caller m' := by
  have hlow := hin.entries habove
  have hbound := hin.bounded
  rcases iteration_entries h with ⟨-, hcount, hcap, hentries⟩ | ⟨-, hcount, hcap, hentries⟩ | ⟨-, hcount, hentries⟩
  · refine ⟨by omega, fun habove' => ?_⟩
    -- the entry that is popped lies above the one of the call
    rw [hentries] at hlow
    refine List.prefix_of_prefix_length_le hlow (List.prefix_append _ _) ?_
    rw [List.length_append, List.length_singleton, length_stackEntries _ (by omega), length_stackEntries _ (by omega)]
    exact habove'
  · refine ⟨by omega, fun _ => ?_⟩
    rw [hentries]
    exact hlow.trans (List.prefix_append _ _)
  · refine ⟨by omega, fun _ => ?_⟩
    rw [hentries]
    exact hlow

/-- The iteration that brings the stack back to the height of the caller returns behind the call. -/
theorem return_of_inside (hroom : caller.cpu.stackCount < stackCapacity) (hin : Inside caller m)
    (habove : caller.cpu.stackCount < m.cpu.stackCount) (h : machineIteration inp m = .ok m')
    (hback : m'.cpu.stackCount = caller.cpu.stackCount) :
    opcodeAt m = 0x00EE#16 ∧ m'.cpu.pc = caller.cpu.pc + 2 ∧ m'.cpu.stackEntries = caller.cpu.stackEntries := by
  have hlow := hin.entries habove
  rcases iteration_entries h with ⟨hret, -, hcap, hentries⟩ | ⟨-, hcount, -⟩ | ⟨-, hcount, -⟩
  · rw [hentries] at hlow
    have hlength : (caller.cpu.stackEntries ++ [caller.cpu.pc + 2]).length =
        (m'.cpu.stackEntries ++ [m'.cpu.pc]).length := by
      rw [List.length_append, List.length_append, length_stackEntries _ (by omega), length_stackEntries _ (by omega), hback]
      rfl
    obtain ⟨hentries', hpc⟩ := List.append_inj' (hlow.eq_of_length hlength) rfl
    exact ⟨hret, (List.singleton_inj.mp hpc).symm, hentries'.symm⟩
  · omega
  · omega

end SubroutineAux

open SubroutineAux

/-- A call and its return. Let `caller` execute a call, and let a run follow in which the stack is higher than it was at
`caller` before every iteration. Then in all of that run the stack begins with the entries of `caller` and the address
behind the call; and if the last iteration brings the stack back to the height of `caller`, that iteration was a 00EE, and
it leaves `pc` behind the call and on the stack the entries of `caller`. -/
theorem subroutine_returns_behind_call (caller m₁ : Machine) (inp : Input) (hcall : IsCall (opcodeAt caller))
    (hstep : machineIteration inp caller = .ok m₁) (inputs : List Input) (last : Input)
    (habove : EveryIteration m₁ (inputs ++ [last]) fun _ m => caller.cpu.stackCount < m.cpu.stackCount)
    (history : List Executed) (m₂ : Machine) (r : Run m₁ inputs history m₂) :
    caller.cpu.stackEntries ++ [caller.cpu.pc + 2] <+: m₂.cpu.stackEntries ∧
    ∀ m₃, machineIteration last m₂ = .ok m₃ → m₃.cpu.stackCount = caller.cpu.stackCount →
      opcodeAt m₂ = 0x00EE#16 ∧ m₃.cpu.pc = caller.cpu.pc + 2 ∧ m₃.cpu.stackEntries = caller.cpu.stackEntries := by
  obtain ⟨hroom, hin₁⟩ := inside_call hcall hstep
  have hin₂ : Inside caller m₂ :=
    habove.invariant hin₁ (fun _ _ _ hin hpre h => inside_step hroom hin hpre h) rfl r
  have habove₂ : caller.cpu.stackCount < m₂.cpu.stackCount := habove inputs last [] history m₂ rfl r
  refine ⟨hin₂.entries habove₂, ?_⟩
  intro m₃ h hback
  exact return_of_inside hroom hin₂ habove₂ h hback

/-- The ROM `22 04 12 02 00 EE`: the call at `0x200` and the return at `0x204`. -/
theorem subroutine_returns_behind_call_one :
    ∃ m₀ m₁ m₂, machineBoot [0x22, 0x04, 0x12, 0x02, 0x00, 0xEE] 0 0 = .ok m₀ ∧ IsCall (opcodeAt m₀) ∧
      machineIteration idleInput m₀ = .ok m₁ ∧ machineIteration idleInput m₁ = .ok m₂ ∧ m₂.cpu.pc = m₀.cpu.pc + 2 := by
  obtain ⟨m₀, m₁, m₂, hboot, hop, hstep, hcount, hreturn, hcount'⟩ : ∃ m₀ m₁ m₂,
      machineBoot [0x22, 0x04, 0x12, 0x02, 0x00, 0xEE] 0 0 = .ok m₀ ∧ opcodeAt m₀ = 0x2204#16 ∧
      machineIteration idleInput m₀ = .ok m₁ ∧ m₀.cpu.stackCount < m₁.cpu.stackCount ∧
      machineIteration idleInput m₁ = .ok m₂ ∧ m₂.cpu.stackCount = m₀.cpu.stackCount :=
    ⟨_, _, _, rfl, rfl, rfl, by decide, rfl, rfl⟩
  have hcall : IsCall (opcodeAt m₀) := by
    rw [hop]
    decide
  have habove : EveryIteration m₁ ([] ++ [idleInput]) fun _ m => m₀.cpu.stackCount < m.cpu.stackCount := by
    intro before i after history s heq r
    have hnil : before = [] := by
      cases before with
      | nil => rfl
      | cons _ _ => simp at heq
    rw [r.eq_start hnil]
    exact hcount
  have hback := (subroutine_returns_behind_call m₀ m₁ idleInput hcall hstep [] idleInput habove [] m₁ .start).2 m₂ hreturn
    hcount'
  exact ⟨m₀, m₁, m₂, hboot, hcall, hstep, hreturn, hback.2.1⟩

end CLangExamples.Emulator
