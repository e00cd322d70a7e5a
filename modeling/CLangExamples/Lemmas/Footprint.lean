import CLangExamples.Theorems.Frame

/-!
# The cells a run stores to

Fx33 and Fx55 are the instructions that store. A cell that no iteration of a run stores to is, after the run, what it was
before it, whatever the program does otherwise.
-/

namespace CLangExamples.Emulator

/-- The instruction at `pc` stores to a cell: Fx33 to the cells from `I` to `I + 2`, Fx55 to those from `I` to `I + x`. -/
def StoresTo (m : Machine) (index : Nat) : Prop :=
  (opcodeAt m &&& 0xF0FF#16 = 0xF033#16 ∧ m.cpu.i.toNat ≤ index ∧ index ≤ m.cpu.i.toNat + 2) ∨
  (opcodeAt m &&& 0xF0FF#16 = 0xF055#16 ∧ m.cpu.i.toNat ≤ index ∧
    index ≤ m.cpu.i.toNat + (opcodeDecodeRegisterX (opcodeAt m)).val)

/-- An iteration leaves a cell that it does not store to. -/
theorem cell_iteration {inp : Input} {m m' : Machine} {index : Nat} (h : machineIteration inp m = .ok m')
    (hkeeps : ¬StoresTo m index) : m'.cell index = m.cell index := by
  by_cases hlt : index < memorySize
  · obtain ⟨-, -, i, hd, he⟩ := cpuStep_ok h
    rw [opcodeAt_updateTimers] at hd
    have hencodes := decode_encodes hd
    by_contra hne
    rw [cell_of_lt m' hlt, cell_of_lt m hlt] at hne
    apply hkeeps
    rcases FrameAux.effect_memory he ⟨index, hlt⟩ hne with ⟨x, rfl, hlow, hhigh⟩ | ⟨x, rfl, hlow, hhigh⟩
    · exact Or.inl ⟨hencodes, hlow, hhigh⟩
    · obtain ⟨hop, rfl⟩ := hencodes
      exact Or.inr ⟨hop, hlow, hhigh⟩
  · rw [cell_of_ge m' hlt, cell_of_ge m hlt]

/-- A run leaves a cell that none of its iterations stores to. -/
theorem cell_run {m₀ m : Machine} {inputs before after : List Input} {history : List Executed} {index : Nat}
    (hkeeps : EveryIteration m₀ inputs fun _ m => ¬StoresTo m index) (hinputs : inputs = before ++ after)
    (r : Run m₀ before history m) : m.cell index = m₀.cell index := by
  have hstep : ∀ inp s s', s.cell index = m₀.cell index → ¬StoresTo s index → machineIteration inp s = .ok s' →
      s'.cell index = m₀.cell index := by
    intro inp s s' hsame hnot h
    exact (cell_iteration h hnot).trans hsame
  exact Transition.Along.invariant hkeeps (Eq.refl (m₀.cell index)) hstep hinputs r

end CLangExamples.Emulator
