import CLangExamples.Lemmas.Step

/-!
# The call stack and the history of a run

A call is a 2nnn, or a 0nnn other than 00E0 and 00EE. Along any run from `cpu_init` the entries of the stack are the
addresses after the calls executed and not yet returned from, and the two errors of the stack come exactly at its two
ends. The program is any content of the memory, and may change itself.
-/

namespace CLangExamples.Emulator

/-- `stack[0..stack_count)` -/
def Cpu.stackEntries (cpu : Cpu) : List Address := (List.ofFn cpu.stack).take cpu.stackCount

/-- What one executed instruction does to the calls that are pending: 00EE returns from the last one, a call adds its own
address. -/
def pendingStep (pending : List Address) (e : Executed) : List Address :=
  if e.2 = 0x00EE#16 then pending.dropLast
  else if IsCall e.2 then pending ++ [e.1]
  else pending

/-- The addresses of the calls that a history holds and has not returned from, oldest first. -/
def pendingCalls (history : List Executed) : List Address := history.foldl pendingStep []

/-- The instruction at `pc` is executed: both its bytes are fetched and the assertion on the opcode passes. -/
def Executes (m : Machine) : Prop := Fetchable m ∧ opcodeAt m ≠ 0

namespace CallStackAux

theorem pendingCalls_append (history : List Executed) (e : Executed) :
    pendingCalls (history ++ [e]) = pendingStep (pendingCalls history) e := by
  simp [pendingCalls]

theorem pendingStep_ret (pending : List Address) (a : Address) {opcode : Word} (h : opcode = 0x00EE#16) :
    pendingStep pending (a, opcode) = pending.dropLast :=
  if_pos h

theorem pendingStep_call (pending : List Address) (a : Address) {opcode : Word} (hne : opcode ≠ 0x00EE#16)
    (h : IsCall opcode) : pendingStep pending (a, opcode) = pending ++ [a] :=
  (if_neg hne).trans (if_pos h)

theorem pendingStep_other (pending : List Address) (a : Address) {opcode : Word} (hne : opcode ≠ 0x00EE#16)
    (h : ¬IsCall opcode) : pendingStep pending (a, opcode) = pending :=
  (if_neg hne).trans (if_neg h)

/-! ## The entries of the stack as a list -/

theorem length_stackEntries (cpu : Cpu) (h : cpu.stackCount ≤ stackCapacity) :
    cpu.stackEntries.length = cpu.stackCount := by
  simp only [Cpu.stackEntries, List.length_take, List.length_ofFn]
  omega

/-- The entries below a count are those below a smaller count and the one there. -/
theorem take_succ_ofFn (stack : Fin stackCapacity → Address) (k : Fin stackCapacity) :
    (List.ofFn stack).take (k.val + 1) = (List.ofFn stack).take k.val ++ [stack k] := by
  rw [List.take_add_one, List.getElem?_ofFn, dif_pos k.isLt]
  rfl

/-- A store at or above a count leaves the entries below it. -/
theorem take_update (stack : Fin stackCapacity → Address) (k : Fin stackCapacity) (a : Address) :
    (List.ofFn (Function.update stack k a)).take k.val = (List.ofFn stack).take k.val := by
  apply List.ext_getElem
  · simp
  · intro n h₁ h₂
    simp only [List.length_take, List.length_ofFn] at h₁
    rw [List.getElem_take, List.getElem_take, List.getElem_ofFn, List.getElem_ofFn, Function.update_of_ne]
    intro he
    have := congrArg Fin.val he
    simp only at this
    omega

/-- What a push does to the entries. -/
theorem stackEntries_push {cpu cpu' : Cpu} {k : Fin stackCapacity} {a : Address} (hk : cpu.stackCount = k.val)
    (hs : cpu'.stack = Function.update cpu.stack k a) (hc : cpu'.stackCount = k.val + 1) :
    cpu'.stackEntries = cpu.stackEntries ++ [a] := by
  rw [Cpu.stackEntries, Cpu.stackEntries, hs, hc, hk, take_succ_ofFn, take_update, Function.update_self]

/-- What a pop does to the entries: the last one goes, and it is the one returned. -/
theorem stackEntries_pop {cpu cpu' : Cpu} {k : Fin stackCapacity} (hk : cpu.stackCount = k.val + 1)
    (hs : cpu'.stack = cpu.stack) (hc : cpu'.stackCount = k.val) :
    cpu.stackEntries = cpu'.stackEntries ++ [cpu.stack k] := by
  rw [Cpu.stackEntries, Cpu.stackEntries, hs, hc, hk, take_succ_ofFn]

/-! ## The invariant -/

/-- The stack holds the addresses after the pending calls of the history. -/
structure CallInv (history : List Executed) (m : Machine) : Prop where
  bounded : m.cpu.stackCount ≤ stackCapacity
  entries : m.cpu.stackEntries = (pendingCalls history).map (· + 2)

theorem CallInv.length {history : List Executed} {m : Machine} (h : CallInv history m) :
    (pendingCalls history).length = m.cpu.stackCount := by
  rw [← length_stackEntries m.cpu h.bounded, h.entries, List.length_map]

/-- The invariant holds of a CPU that is initialised, with no history. -/
theorem callInv_init {m₀ : Machine} (h : m₀.cpu = cpuInit) : CallInv [] m₀ := by
  refine ⟨?_, ?_⟩
  · rw [h]
    decide
  · rw [h]
    rfl

/-- One iteration keeps the invariant. -/
theorem callInv_step {history : List Executed} {inp : Input} {m m' : Machine} (hinv : CallInv history m)
    (h : machineIteration inp m = .ok m') : CallInv (history ++ [executedAt inp m]) m' := by
  obtain ⟨-, -, i, hd, he⟩ := cpuStep_ok h
  rw [opcodeAt_updateTimers] at hd
  have hentries := hinv.entries
  have hpend : pendingCalls (history ++ [executedAt inp m]) = pendingStep (pendingCalls history) (m.cpu.pc, opcodeAt m) :=
    pendingCalls_append history _
  rcases effect_stack he with ⟨rfl, k, hk, hs, hc, -⟩ | ⟨hcall, k, hk, hs, hc⟩ | ⟨hret, hcall, hs, hc⟩
  · have hop : opcodeAt m = 0x00EE#16 := (decode_ret_iff hd).mpr rfl
    have hpop : m.cpu.stackEntries = m'.cpu.stackEntries ++ [m.cpu.stack k] := stackEntries_pop hk hs hc
    refine ⟨by rw [hc]; exact Nat.le_of_lt k.isLt, ?_⟩
    rw [hpend, pendingStep_ret _ _ hop, List.map_dropLast, ← hentries, hpop, List.dropLast_concat]
  · have hop : IsCall (opcodeAt m) := (decode_call_iff hd).mpr hcall
    have hne : opcodeAt m ≠ 0x00EE#16 := by
      intro hE
      rw [(decode_ret_iff hd).mp hE] at hcall
      obtain ⟨nnn, hn | hn⟩ := hcall <;> cases hn
    have hpush : m'.cpu.stackEntries = m.cpu.stackEntries ++ [m.cpu.pc + 2] := stackEntries_push hk hs hc
    refine ⟨by rw [hc]; exact k.isLt, ?_⟩
    rw [hpend, pendingStep_call _ _ hne hop, List.map_append, ← hentries, hpush]
    rfl
  · have hne : opcodeAt m ≠ 0x00EE#16 := fun hE => hret ((decode_ret_iff hd).mp hE)
    have hno : ¬IsCall (opcodeAt m) := fun hop => hcall ((decode_call_iff hd).mp hop)
    refine ⟨by rw [hc]; exact hinv.bounded, ?_⟩
    rw [hpend, pendingStep_other _ _ hne hno, ← hentries, Cpu.stackEntries, hs, hc]
    rfl

/-- The invariant holds along every run. -/
theorem callInv_run {m₀ m : Machine} {inputs : List Input} {history : List Executed} (h₀ : m₀.cpu = cpuInit)
    (r : Run m₀ inputs history m) : CallInv history m :=
  Transition.Run.invariant (callInv_init h₀) (fun _ _ _ _ hinv h => callInv_step hinv h) r

/-! ## The ends of the stack -/

/-- A return goes to the address after the last pending call. -/
theorem return_target {history : List Executed} {inp : Input} {m m' : Machine} (hinv : CallInv history m)
    (h : machineIteration inp m = .ok m') (hop : opcodeAt m = 0x00EE#16) :
    ∃ a, (pendingCalls history).getLast? = some a ∧ m'.cpu.pc = a + 2 := by
  obtain ⟨-, -, i, hd, he⟩ := cpuStep_ok h
  rw [opcodeAt_updateTimers] at hd
  obtain rfl := (decode_ret_iff hd).mp hop
  rcases effect_stack he with ⟨-, k, hk, hs, hc, hpc⟩ | ⟨⟨nnn, hn | hn⟩, -⟩ | ⟨hne, -⟩
  · have hpop : m.cpu.stackEntries = m'.cpu.stackEntries ++ [m.cpu.stack k] := stackEntries_pop hk hs hc
    have hlast : ((pendingCalls history).map (· + 2)).getLast? = some (m.cpu.stack k) := by
      rw [← hinv.entries, hpop, List.getLast?_concat]
    rw [List.getLast?_map] at hlast
    obtain ⟨a, ha, hb⟩ := Option.map_eq_some_iff.mp hlast
    exact ⟨a, ha, hpc.trans hb.symm⟩
  · cases hn
  · cases hn
  · exact absurd rfl hne

/-- A step ends with `stack overflow` exactly when it executes a call on a full stack. -/
theorem overflow_iff {history : List Executed} (inp : Input) {m : Machine} (hinv : CallInv history m) :
    machineIteration inp m = .error .stackOverflow ↔
      Executes m ∧ IsCall (opcodeAt m) ∧ (pendingCalls history).length = stackCapacity := by
  rw [hinv.length]
  constructor
  · intro h
    rcases cpuStep_error h with ⟨-, he⟩ | ⟨-, he⟩ | ⟨-, -, he⟩ | ⟨-, -, -, he⟩ | ⟨hf, h0, i, hd, hfail⟩
    · cases he
    · cases he
    · cases he
    · cases he
    · rw [opcodeAt_updateTimers] at hd h0
      have hb := hinv.bounded
      cases hfail with
      | sys hfull => exact ⟨⟨hf, h0⟩, (decode_call_iff hd).mpr ⟨_, Or.inl rfl⟩, Nat.le_antisymm hb hfull⟩
      | call hfull => exact ⟨⟨hf, h0⟩, (decode_call_iff hd).mpr ⟨_, Or.inr rfl⟩, Nat.le_antisymm hb hfull⟩
  · rintro ⟨⟨hf, h0⟩, hcall, hfull⟩
    obtain ⟨i, hd⟩ := decode_isSome_of_call hcall
    have hstep := cpuStep_eq_exec inp (m := machineUpdateTimers m inp) hf h0 hd
    obtain ⟨nnn, rfl | rfl⟩ := (decode_call_iff hd).mp hcall
    · exact hstep.trans (callTo_full nnn (Nat.le_of_eq hfull.symm))
    · exact hstep.trans (callTo_full nnn (Nat.le_of_eq hfull.symm))

/-- A step ends with `stack underflow` exactly when it executes 00EE on an empty stack. -/
theorem underflow_iff {history : List Executed} (inp : Input) {m : Machine} (hinv : CallInv history m) :
    machineIteration inp m = .error .stackUnderflow ↔
      Executes m ∧ opcodeAt m = 0x00EE#16 ∧ pendingCalls history = [] := by
  rw [← List.length_eq_zero_iff, hinv.length]
  constructor
  · intro h
    rcases cpuStep_error h with ⟨-, he⟩ | ⟨-, he⟩ | ⟨-, -, he⟩ | ⟨-, -, -, he⟩ | ⟨hf, h0, i, hd, hfail⟩
    · cases he
    · cases he
    · cases he
    · cases he
    · rw [opcodeAt_updateTimers] at hd h0
      cases hfail with
      | ret hempty => exact ⟨⟨hf, h0⟩, (decode_ret_iff hd).mpr rfl, hempty⟩
  · rintro ⟨⟨hf, h0⟩, hop, hempty⟩
    have hd : decode (opcodeAt (machineUpdateTimers m inp)) = some .ret := by
      rw [opcodeAt_updateTimers, hop]
      rfl
    have hstep := cpuStep_eq_exec inp (m := machineUpdateTimers m inp) hf h0 hd
    have hpop : cpuStackPop (cpuPcAdvance (machineUpdateTimers m inp)) = .error .stackUnderflow := by
      unfold cpuStackPop
      exact if_pos hempty
    unfold machineIteration
    rw [hstep, Instr.exec, hpop]
    rfl

end CallStackAux

/-- The call stack is the history of the calls. In every run from an initialised CPU, whatever the memory holds, the count
is at most the capacity and the entries of the stack are, oldest first, the addresses two past the calls executed and not
yet returned from. So the next iteration, if it executes 00EE and does not halt, continues two bytes past the last of
them; it ends with `stack overflow` exactly when it executes a call while twelve are pending, and with `stack underflow`
exactly when it executes 00EE while none is. -/
theorem call_stack_is_history (m₀ : Machine) (h₀ : m₀.cpu = cpuInit) (inputs : List Input) (history : List Executed)
    (m : Machine) (r : Run m₀ inputs history m) :
    m.cpu.stackCount ≤ stackCapacity ∧
    m.cpu.stackEntries = (pendingCalls history).map (· + 2) ∧
    ∀ inp : Input,
      (∀ m', machineIteration inp m = .ok m' → opcodeAt m = 0x00EE#16 →
        ∃ a, (pendingCalls history).getLast? = some a ∧ m'.cpu.pc = a + 2) ∧
      (machineIteration inp m = .error .stackOverflow ↔
        Executes m ∧ IsCall (opcodeAt m) ∧ (pendingCalls history).length = stackCapacity) ∧
      (machineIteration inp m = .error .stackUnderflow ↔
        Executes m ∧ opcodeAt m = 0x00EE#16 ∧ pendingCalls history = []) := by
  have hinv := CallStackAux.callInv_run h₀ r
  refine ⟨hinv.bounded, hinv.entries, fun inp => ⟨?_, ?_, ?_⟩⟩
  · intro m' h hop
    exact CallStackAux.return_target hinv h hop
  · exact CallStackAux.overflow_iff inp hinv
  · exact CallStackAux.underflow_iff inp hinv

/-- The ROM `22 04 12 02 00 EE` calls `0x204`: after one iteration the call at `0x200` is pending. -/
theorem call_stack_is_history_one_call :
    ∃ m₀ m, machineBoot [0x22, 0x04, 0x12, 0x02, 0x00, 0xEE] 0 0 = .ok m₀ ∧ m₀.cpu = cpuInit ∧
      Run m₀ [idleInput] [(0x200#16, 0x2204#16)] m ∧
      m.cpu.stackEntries = (pendingCalls [(0x200#16, 0x2204#16)]).map (· + 2) := by
  obtain ⟨m₀, hboot, hcpu, hop, m, hstep⟩ : ∃ m₀, machineBoot [0x22, 0x04, 0x12, 0x02, 0x00, 0xEE] 0 0 = .ok m₀ ∧
      m₀.cpu = cpuInit ∧ opcodeAt m₀ = 0x2204#16 ∧ ∃ m, machineIteration idleInput m₀ = .ok m :=
    ⟨_, rfl, rfl, rfl, _, rfl⟩
  have hx : executedAt idleInput m₀ = (0x200#16, 0x2204#16) := by
    unfold executedAt
    rw [hop, hcpu]
    rfl
  have r : Run m₀ [idleInput] [(0x200#16, 0x2204#16)] m := by
    rw [← hx]
    exact .next idleInput .start hstep
  exact ⟨m₀, m, hboot, hcpu, r, (call_stack_is_history m₀ hcpu _ _ m r).2.1⟩

end CLangExamples.Emulator
