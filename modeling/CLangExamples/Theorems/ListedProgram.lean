import CLangExamples.Lemmas.Footprint
import CLangExamples.Theorems.Listing

/-!
# The listing and the run

`disassemble` and `run` are two commands on the same ROM. What the first prints is what the second executes: as long as the
program does not store into the part of itself that is listed, every instruction that is fetched from a listed address has
the opcode of its line. Only the addresses between the lines, which a jump to an odd address reaches, are not listed.
-/

namespace CLangExamples.Emulator

open ListingAux

namespace ListedProgramAux

variable {m₀ m : Machine} {rom : List Byte}

/-- Starting the timers and loading the ROM can change places. -/
theorem machineBoot_eq_load (rom : List Byte) (delayNow soundNow : BitVec 64) :
    machineBoot rom delayNow soundNow = machineLoadRom (machineStartTimers machineInit delayNow soundNow) rom := by
  unfold machineBoot machineLoadRom
  split <;> rfl

theorem getElem?_wordEntries (rom : List Byte) {k n : Nat} (h : k < n) :
    (wordEntries rom 0 n)[k]? = some (wordEntry rom k) := by
  unfold wordEntries
  rw [List.getElem?_map, Nat.sub_zero, ← List.range_eq_range', List.getElem?_range h]
  rfl

theorem length_wordEntries (rom : List Byte) (n : Nat) : (wordEntries rom 0 n).length = n := by
  simp [wordEntries]

/-- A listing holds the words of the program area in order, up to its length. -/
theorem lists_entries {l : Listing} (h : Lists rom 0 l) :
    l.file.length ≤ programWords ∧ ∀ k < l.file.length, l.file[k]? = some (wordEntry rom k) := by
  cases h with
  | @zero n _ hn _ _ =>
    simp only [length_wordEntries]
    exact ⟨Nat.le_of_lt hn, fun k hk => getElem?_wordEntries rom hk⟩
  | @unsupported n _ hn _ _ _ =>
    simp only [List.length_append, length_wordEntries, List.length_singleton]
    refine ⟨hn, fun k hk => ?_⟩
    rcases Nat.lt_or_ge k n with hlt | hge
    · rw [List.getElem?_append_left (by rw [length_wordEntries]; exact hlt), getElem?_wordEntries rom hlt]
    · have hkn : k = n := by omega
      rw [List.getElem?_append_right (by rw [length_wordEntries]; exact hge), length_wordEntries, hkn, Nat.sub_self]
      rfl
  | past_end _ _ =>
    simp only [length_wordEntries]
    exact ⟨Nat.le_refl _, fun k hk => getElem?_wordEntries rom hk⟩

/-- A program that does not begin with a zero word has a first line. -/
theorem lists_pos {l : Listing} (h : Lists rom 0 l) (hfirst : romWord rom 0 ≠ 0) : 0 < l.file.length := by
  cases h with
  | @zero n _ _ _ hz =>
    rw [length_wordEntries]
    refine Nat.pos_of_ne_zero ?_
    rintro rfl
    exact hfirst hz
  | unsupported _ _ _ _ _ => simp
  | past_end _ _ =>
    rw [length_wordEntries]
    decide

/-- The opcode at the address of a word whose two bytes are those of the ROM. -/
theorem opcodeAt_word {k : Nat} (hload : machineLoadRom m₀ rom = .ok m) {m' : Machine} (hk : k < programWords)
    (hpc : m'.cpu.pc = wordAddress k)
    (hhigh : m'.cell (memoryProgramStartingAddress + 2 * k) = m.cell (memoryProgramStartingAddress + 2 * k))
    (hlow : m'.cell (memoryProgramStartingAddress + (2 * k + 1)) = m.cell (memoryProgramStartingAddress + (2 * k + 1))) :
    opcodeAt m' = romWord rom k := by
  have hlt := programWord_lt hk
  unfold opcodeAt romWord
  rw [hpc, toNat_wordAddress (Nat.le_of_lt hk), Nat.add_assoc, hhigh, hlow, cell_of_load hload (by omega),
    cell_of_load hload hlt]

end ListedProgramAux

open ListedProgramAux

/-- The run executes what the listing shows. Boot a ROM and let a run follow in which no iteration stores to one of the
words that `machine_disassemble` lists for the booted machine. Then every instruction executed at the address of a listed
word has that word's line: the line shows its address, its opcode and its mnemonic. -/
theorem executed_as_listed (rom : List Byte) (delayNow soundNow : BitVec 64) (m₀ : Machine)
    (hboot : machineBoot rom delayNow soundNow = .ok m₀) (inputs : List Input) (history : List Executed) (m : Machine)
    (r : Run m₀ inputs history m)
    (hkeeps : ∀ j < 2 * (machineDisassemble m₀).file.length,
      EveryIteration m₀ inputs fun _ m => ¬StoresTo m (memoryProgramStartingAddress + j)) :
    ∀ e ∈ history, ∀ k < (machineDisassemble m₀).file.length, e.1 = wordAddress k →
      (machineDisassemble m₀).file[k]? = some (listingEntry e.1 e.2) := by
  rw [machineBoot_eq_load] at hboot
  obtain ⟨hlength, hentries⟩ := lists_entries (machineDisassemble_lists hboot)
  generalize machineDisassemble m₀ = listing at hkeeps hlength hentries ⊢
  -- the words of the ROM are still there in every machine of the run
  have hword : ∀ before after history' m', inputs = before ++ after → Run m₀ before history' m' →
      ∀ k < listing.file.length, m'.cpu.pc = wordAddress k → opcodeAt m' = romWord rom k := by
    intro before after history' m' hinputs r' k hk hpc
    exact opcodeAt_word hboot (by omega) hpc (cell_run (hkeeps (2 * k) (by omega)) hinputs r')
      (cell_run (hkeeps (2 * k + 1) (by omega)) hinputs r')
  clear hkeeps
  induction r with
  | start =>
    intro e he
    simp at he
  | @next before history m' m'' inp r' _ ih =>
    intro e he k hk haddr
    rcases List.mem_append.mp he with he | he
    · refine ih ?_ e he k hk haddr
      intro before' after history' m'' hinputs r''
      exact hword before' (after ++ [inp]) history' m'' (by rw [hinputs, List.append_assoc]) r''
    · obtain rfl := List.mem_singleton.mp he
      have hop : opcodeAt m' = romWord rom k := hword before [inp] history m' rfl r' k hk haddr
      rw [hentries k hk]
      unfold wordEntry executedAt
      rw [hop, ← haddr]
      rfl

/-- A ROM of one jump to itself: what its first iteration executes is the first line of the listing. -/
theorem executed_as_listed_jump :
    ∃ m₀ m, machineBoot [0x12, 0x00] 0 0 = .ok m₀ ∧ Run m₀ [idleInput] [(0x200#16, 0x1200#16)] m ∧
      (machineDisassemble m₀).file[0]? = some (listingEntry 0x200#16 0x1200#16) := by
  obtain ⟨m₀, m, hboot, hop, hpc, hstep⟩ : ∃ m₀ m, machineBoot [0x12, 0x00] 0 0 = .ok m₀ ∧ opcodeAt m₀ = 0x1200#16 ∧
      m₀.cpu.pc = 0x200#16 ∧ machineIteration idleInput m₀ = .ok m :=
    ⟨_, _, rfl, rfl, rfl, rfl⟩
  have hx : executedAt idleInput m₀ = (0x200#16, 0x1200#16) := by
    unfold executedAt
    rw [hop, hpc]
  have r : Run m₀ [idleInput] [(0x200#16, 0x1200#16)] m := by
    rw [← hx]
    exact .next idleInput .start hstep
  have hkeeps : ∀ j < 2 * (machineDisassemble m₀).file.length,
      EveryIteration m₀ [idleInput] fun _ m => ¬StoresTo m (memoryProgramStartingAddress + j) := by
    intro j _
    refine Transition.Along.cons ?_ fun _ _ => Transition.Along.nil
    unfold StoresTo
    rw [hop]
    simp
  have hload : machineLoadRom (machineStartTimers machineInit 0 0) [0x12, 0x00] = .ok m₀ := by
    rw [← machineBoot_eq_load]
    exact hboot
  have hpos : 0 < (machineDisassemble m₀).file.length := lists_pos (machineDisassemble_lists hload) (by decide)
  exact ⟨m₀, m, hboot, r, executed_as_listed _ 0 0 m₀ hboot _ _ m r hkeeps _ (List.mem_singleton_self _) 0 hpos rfl⟩

end CLangExamples.Emulator
