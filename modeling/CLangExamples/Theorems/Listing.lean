import CLangExamples.Emulator.MachineDisassemble
import CLangExamples.Lemmas.Step
import Mathlib.Algebra.GroupWithZero.Nat

/-!
# The listing of a ROM

`machine_disassemble` lists the words of the program area one behind the other up to the first zero word or the first
unsupported opcode. A ROM that has neither is listed to the last word of the memory, and then the increment of the loop
reads the two bytes past it before the condition on the address ends the loop.
-/

namespace CLangExamples.Emulator

open Printf

/-- The words of the program area, from 0x200 to 0xFFE. -/
def programWords : Nat := programMaxSize / 2

/-- The word `k` of the program area once a ROM is loaded: the bytes of the ROM, filled up with zeros. -/
def romWord (rom : List Byte) (k : Nat) : Word := wordOfBytes (rom[2 * k]?.getD 0) (rom[2 * k + 1]?.getD 0)

/-- The address of the word `k` of the program area. -/
def wordAddress (k : Nat) : Address := BitVec.ofNat 16 (memoryProgramStartingAddress + 2 * k)

/-- The opcode is one that the disassembler refuses. -/
def Unsupported (opcode : Word) : Prop := (disassemblerDisassemble opcode).1 = false

/-- The word `k` ends the listing: it is zero or an unsupported opcode. -/
def StopsAt (rom : List Byte) (k : Nat) : Prop := romWord rom k = 0 ∨ Unsupported (romWord rom k)

/-- What is printed for the word `k`. -/
def wordEntry (rom : List Byte) (k : Nat) : List Char := listingEntry (wordAddress k) (romWord rom k)

/-- What is printed for the words from `k` up to `n`. -/
def wordEntries (rom : List Byte) (k n : Nat) : List (List Char) := (List.range' k (n - k)).map (wordEntry rom)

/-- The listing a ROM should have: one line, in order, for each word before the first zero word, the first unsupported
opcode or the end of the memory. An unsupported opcode is reported on a line of its own and as a failure; no index past the
memory is read. -/
def ListsProgram (rom : List Byte) (l : Listing) : Prop :=
  (∀ cs ∈ l.file, IsLine cs) ∧
  ∃ n ≤ programWords, (∀ k < n, ¬StopsAt rom k) ∧
    ((n = programWords ∧ l = ⟨wordEntries rom 0 n, .ok false⟩) ∨
      (n < programWords ∧ romWord rom n = 0 ∧ l = ⟨wordEntries rom 0 n, .ok false⟩) ∨
      n < programWords ∧ romWord rom n ≠ 0 ∧ Unsupported (romWord rom n) ∧
        l = ⟨wordEntries rom 0 n ++ [wordEntry rom n], .ok true⟩)

namespace ListingAux

/-! ## Every entry is a line -/

theorem isLine_step {opcode : Word} {c : Prop} [Decidable c] {line : Line} {rest : Bool × List Char}
    (hline : endsLine line = true) (hrest : IsLine rest.2) : IsLine (if c then printed opcode line else rest).2 := by
  split
  · exact isLine_render opcode hline
  · exact hrest

theorem isLine_disassemble (opcode : Word) : IsLine (disassemblerDisassemble opcode).2 := by
  unfold disassemblerDisassemble
  iterate 35 refine isLine_step (by decide) ?_
  exact isLine_render opcode (by decide)

theorem isLine_listingEntry (addr : Address) (opcode : Word) : IsLine (listingEntry addr opcode) :=
  (isLine_disassemble opcode).append (newline_not_mem_render (addr, opcode) (by decide))

/-! ## The program area after a load -/

variable {m₀ m : Machine} {rom : List Byte}

/-- A byte of the program area is in the memory. -/
theorem programArea_lt {j : Nat} (hj : j < programMaxSize) : memoryProgramStartingAddress + j < memorySize := by
  have hsize : programMaxSize = 3584 := rfl
  have hstart : memoryProgramStartingAddress = 512 := rfl
  have hmemory : memorySize = 4096 := rfl
  omega

/-- Both bytes of a word are in the program area. -/
theorem programWord_lt {k : Nat} (hk : k < programWords) : 2 * k + 1 < programMaxSize := by
  have hw : programWords = 1792 := rfl
  have hsize : programMaxSize = 3584 := rfl
  omega

theorem cell_of_load (h : machineLoadRom m₀ rom = .ok m) {j : Nat} (hj : j < programMaxSize) :
    m.cell (memoryProgramStartingAddress + j) = rom[j]?.getD 0 := by
  have hlt := programArea_lt hj
  unfold machineLoadRom at h
  split at h
  · cases h
  · have hmem : m.memory = memcpy (memcpy m₀.memory memoryProgramStartingAddress (List.replicate programMaxSize 0))
        memoryProgramStartingAddress rom := by rw [← Except.ok.inj h]
    rw [cell_of_lt m hlt, hmem]
    by_cases hr : j < rom.length
    · rw [memcpy_of_mem _ _ _ _ j hr rfl, List.getElem?_eq_getElem hr, Option.getD_some]
    · rw [memcpy_of_not_mem _ _ rom _ (by simp only; omega), memcpy_of_mem _ _ _ _ j (by simpa using hj) rfl,
        List.getElem_replicate, List.getElem?_eq_none (by omega), Option.getD_none]

theorem toNat_wordAddress {k : Nat} (hk : k ≤ programWords) :
    (wordAddress k).toNat = memoryProgramStartingAddress + 2 * k := by
  have hw : programWords = 1792 := rfl
  have hstart : memoryProgramStartingAddress = 512 := rfl
  unfold wordAddress
  rw [BitVec.toNat_ofNat, Nat.mod_eq_of_lt]
  omega

theorem wordAddress_succ (k : Nat) : wordAddress k + 2 = wordAddress (k + 1) := by
  unfold wordAddress
  rw [show memoryProgramStartingAddress + 2 * (k + 1) = memoryProgramStartingAddress + 2 * k + 2 by omega,
    BitVec.ofNat_add _ 2]
  rfl

/-- A word of the program area is read as the word of the ROM. -/
theorem readWord_of_lt (h : machineLoadRom m₀ rom = .ok m) {k : Nat} (hk : k < programWords) :
    m.readWord (wordAddress k) = .ok (romWord rom k) := by
  have haddr := toNat_wordAddress (Nat.le_of_lt hk)
  have hhigh := programWord_lt hk
  have hlow : 2 * k < programMaxSize := Nat.lt_of_succ_lt hhigh
  unfold Machine.readWord
  rw [haddr, readMemory_of_lt m (programArea_lt hlow), Transition.ok_bind, Nat.add_assoc,
    readMemory_of_lt m (programArea_lt hhigh), Transition.ok_bind, ← cell_of_lt m (programArea_lt hlow),
    ← cell_of_lt m (programArea_lt hhigh), cell_of_load h hlow, cell_of_load h hhigh]
  rfl

/-- After the last word of the memory the read is past its end. -/
theorem readWord_past_end (m : Machine) : m.readWord (wordAddress programWords) = .error (.memoryIndex 4096) := by
  unfold Machine.readWord
  rw [toNat_wordAddress (Nat.le_refl _), readMemory_of_ge m (by decide)]
  rfl

/-! ## The loop -/

/-- How the loop ends that is about to test the word `k`: at a zero word, at an unsupported opcode, or past the memory. -/
inductive Lists (rom : List Byte) (k : Nat) : Listing → Prop where
  | zero {n : Nat} (hk : k ≤ n) (hn : n < programWords) (hgo : ∀ j, k ≤ j → j < n → ¬StopsAt rom j)
      (hz : romWord rom n = 0) : Lists rom k ⟨wordEntries rom k n, .ok false⟩
  | unsupported {n : Nat} (hk : k ≤ n) (hn : n < programWords) (hgo : ∀ j, k ≤ j → j < n → ¬StopsAt rom j)
      (hz : romWord rom n ≠ 0) (hu : Unsupported (romWord rom n)) :
      Lists rom k ⟨wordEntries rom k n ++ [wordEntry rom n], .ok true⟩
  | past_end (hk : k ≤ programWords) (hgo : ∀ j, k ≤ j → j < programWords → ¬StopsAt rom j) :
      Lists rom k ⟨wordEntries rom k programWords, .error (.memoryIndex 4096)⟩

theorem wordEntries_self (rom : List Byte) (k : Nat) : wordEntries rom k k = [] := by
  simp [wordEntries]

theorem wordEntries_cons (rom : List Byte) {k n : Nat} (h : k < n) :
    wordEntries rom k n = wordEntry rom k :: wordEntries rom (k + 1) n := by
  unfold wordEntries
  rw [show n - k = n - (k + 1) + 1 by omega, List.range'_succ, List.map_cons]

theorem go_cons {k n : Nat} (hk : ¬StopsAt rom k) (hgo : ∀ j, k + 1 ≤ j → j < n → ¬StopsAt rom j) :
    ∀ j, k ≤ j → j < n → ¬StopsAt rom j := by
  intro j hkj hjn
  rcases Nat.eq_or_lt_of_le hkj with rfl | hlt
  · exact hk
  · exact hgo j hlt hjn

/-- A word that does not stop the loop is one more entry in front. -/
theorem Lists.cons {k : Nat} {l : Listing} (hk : ¬StopsAt rom k) (h : Lists rom (k + 1) l) :
    Lists rom k ⟨wordEntry rom k :: l.file, l.ending⟩ := by
  cases h with
  | @zero n hle hn hgo hz =>
    rw [← wordEntries_cons rom hle]
    exact .zero (by omega) hn (go_cons hk hgo) hz
  | @unsupported n hle hn hgo hz hu =>
    rw [← List.cons_append, ← wordEntries_cons rom hle]
    exact .unsupported (by omega) hn (go_cons hk hgo) hz hu
  | past_end hle hgo =>
    rw [← wordEntries_cons rom hle]
    exact .past_end (by omega) (go_cons hk hgo)

section Step

variable (m) {addr : Address} {opcode : Word}

theorem loop_zero : machineDisassembleLoop m addr 0 = ⟨[], .ok false⟩ := by
  rw [machineDisassembleLoop, dif_neg (fun h => h.1 rfl)]

theorem loop_unsupported (h0 : opcode ≠ 0) (hlt : addr.toNat < memorySize) (hu : Unsupported opcode) :
    machineDisassembleLoop m addr opcode = ⟨[listingEntry addr opcode], .ok true⟩ := by
  unfold Unsupported at hu
  rw [machineDisassembleLoop, dif_pos ⟨h0, hlt⟩, if_neg (by simp [hu])]

theorem loop_next (h0 : opcode ≠ 0) (hlt : addr.toNat < memorySize) (hs : ¬Unsupported opcode) {next : Word}
    (hread : m.readWord (addr + 2) = .ok next) :
    machineDisassembleLoop m addr opcode = ⟨listingEntry addr opcode :: (machineDisassembleLoop m (addr + 2) next).file,
      (machineDisassembleLoop m (addr + 2) next).ending⟩ := by
  unfold Unsupported at hs
  rw [machineDisassembleLoop, dif_pos ⟨h0, hlt⟩, if_pos (by simpa using hs), hread]

theorem loop_fault (h0 : opcode ≠ 0) (hlt : addr.toNat < memorySize) (hs : ¬Unsupported opcode) {e : Halt}
    (hread : m.readWord (addr + 2) = .error e) :
    machineDisassembleLoop m addr opcode = ⟨[listingEntry addr opcode], .error e⟩ := by
  unfold Unsupported at hs
  rw [machineDisassembleLoop, dif_pos ⟨h0, hlt⟩, if_pos (by simpa using hs), hread]

end Step

theorem nothing_between (rom : List Byte) (k : Nat) : ∀ j, k ≤ j → j < k → ¬StopsAt rom j := by
  intro j hkj hjk
  omega

theorem wordAddress_lt {k : Nat} (hk : k < programWords) : (wordAddress k).toNat < memorySize := by
  rw [toNat_wordAddress (Nat.le_of_lt hk)]
  exact programArea_lt (Nat.lt_of_succ_lt (programWord_lt hk))

/-- A word that stops the loop ends the listing. -/
theorem loop_at_stop (m : Machine) {k : Nat} (hk : k < programWords) (hstop : StopsAt rom k) :
    Lists rom k (machineDisassembleLoop m (wordAddress k) (romWord rom k)) := by
  by_cases h0 : romWord rom k = 0
  · rw [h0, loop_zero, ← wordEntries_self rom k]
    exact .zero (Nat.le_refl k) hk (nothing_between rom k) h0
  · have hu : Unsupported (romWord rom k) := hstop.resolve_left h0
    have hlists := Lists.unsupported (Nat.le_refl k) hk (nothing_between rom k) h0 hu
    rw [wordEntries_self] at hlists
    rw [loop_unsupported m h0 (wordAddress_lt hk) hu]
    exact hlists

/-- The loop lists the words that are left. The induction is on their number after `k`. -/
theorem loop_lists (h : machineLoadRom m₀ rom = .ok m) (left : Nat) {k : Nat} (hk : k + left + 1 = programWords) :
    Lists rom k (machineDisassembleLoop m (wordAddress k) (romWord rom k)) := by
  induction left generalizing k with
  | zero =>
    by_cases hstop : StopsAt rom k
    · exact loop_at_stop m (by omega) hstop
    · -- the last word: the next read is past the memory
      obtain ⟨h0, hu⟩ := not_or.1 hstop
      have hnext : m.readWord (wordAddress k + 2) = .error (.memoryIndex 4096) := by
        rw [wordAddress_succ, show k + 1 = programWords by omega]
        exact readWord_past_end m
      have hend : Lists rom (k + 1) ⟨wordEntries rom (k + 1) programWords, .error (.memoryIndex 4096)⟩ :=
        .past_end (by omega) (fun j hj hjn => by omega)
      have hcons := hend.cons hstop
      rw [show k + 1 = programWords by omega, wordEntries_self] at hcons
      rw [loop_fault m h0 (wordAddress_lt (by omega)) hu hnext]
      exact hcons
  | succ left ih =>
    by_cases hstop : StopsAt rom k
    · exact loop_at_stop m (by omega) hstop
    · obtain ⟨h0, hu⟩ := not_or.1 hstop
      have hnext : m.readWord (wordAddress k + 2) = .ok (romWord rom (k + 1)) := by
        rw [wordAddress_succ]
        exact readWord_of_lt h (by omega)
      rw [loop_next m h0 (wordAddress_lt (by omega)) hu hnext, wordAddress_succ]
      exact (ih (by omega)).cons hstop

/-- The whole listing of a ROM that was loaded. -/
theorem machineDisassemble_lists (h : machineLoadRom m₀ rom = .ok m) : Lists rom 0 (machineDisassemble m) := by
  have hpos : 0 < programWords := by decide
  have hfirst : machineFirstOpcode m = .ok (romWord rom 0) := readWord_of_lt h hpos
  unfold machineDisassemble
  rw [hfirst]
  exact loop_lists h (programWords - 1) (by decide)

theorem isLine_wordEntries (rom : List Byte) (k n : Nat) : ∀ cs ∈ wordEntries rom k n, IsLine cs := by
  intro cs hcs
  obtain ⟨j, -, rfl⟩ := List.mem_map.1 hcs
  exact isLine_listingEntry _ _

theorem isLine_lists {k : Nat} {l : Listing} (h : Lists rom k l) : ∀ cs ∈ l.file, IsLine cs := by
  cases h with
  | zero => exact isLine_wordEntries rom k _
  | unsupported =>
    intro cs hcs
    rcases List.mem_append.1 hcs with hcs | hcs
    · exact isLine_wordEntries rom k _ cs hcs
    · rw [List.mem_singleton.1 hcs]
      exact isLine_listingEntry _ _
  | past_end => exact isLine_wordEntries rom k _

/-- Without a word that stops it, the loop reads past the memory. -/
theorem ending_of_no_stop (h : machineLoadRom m₀ rom = .ok m) (hno : ∀ k < programWords, ¬StopsAt rom k) :
    (machineDisassemble m).ending = .error (.memoryIndex 4096) := by
  have hlists := machineDisassemble_lists h
  generalize machineDisassemble m = l at hlists
  cases hlists with
  | zero hk hn hgo hz => exact absurd (Or.inl hz) (hno _ hn)
  | unsupported hk hn hgo hz hu => exact absurd (Or.inr hu) (hno _ hn)
  | past_end hk hgo => rfl

/-- The listing that a ROM should have does not end in a fault. -/
theorem ending_of_listsProgram {l : Listing} (h : ListsProgram rom l) (e : Halt) : l.ending ≠ .error e := by
  obtain ⟨-, n, -, -, hends⟩ := h
  intro he
  rcases hends with ⟨-, rfl⟩ | ⟨-, -, rfl⟩ | ⟨-, -, -, rfl⟩ <;> cases he

/-- A listing that is stopped is the one the ROM should have. -/
theorem listsProgram_of_stop (h : machineLoadRom m₀ rom = .ok m) {k : Nat} (hk : k < programWords)
    (hstop : StopsAt rom k) : ListsProgram rom (machineDisassemble m) := by
  have hlists := machineDisassemble_lists h
  refine ⟨isLine_lists hlists, ?_⟩
  generalize machineDisassemble m = l at hlists
  cases hlists with
  | @zero n _ hn hgo hz =>
    exact ⟨n, Nat.le_of_lt hn, fun k hk => hgo k (Nat.zero_le k) hk, Or.inr (Or.inl ⟨hn, hz, rfl⟩)⟩
  | @unsupported n _ hn hgo hz hu =>
    exact ⟨n, Nat.le_of_lt hn, fun k hk => hgo k (Nat.zero_le k) hk, Or.inr (Or.inr ⟨hn, hz, hu, rfl⟩)⟩
  | past_end _ hgo => exact absurd hstop (hgo k (Nat.zero_le k) hk)

end ListingAux

open ListingAux

/-- The listing of a ROM that was loaded is the one it should have exactly when one of the words of the program area is
zero or an unsupported opcode. -/
theorem machine_disassemble_iff {m₀ m : Machine} {rom : List Byte} (h : machineLoadRom m₀ rom = .ok m) :
    ListsProgram rom (machineDisassemble m) ↔ ∃ k < programWords, StopsAt rom k := by
  constructor
  · intro hlists
    by_contra hno
    have hgo : ∀ k < programWords, ¬StopsAt rom k := fun k hk hstop => hno ⟨k, hk, hstop⟩
    exact ending_of_listsProgram hlists _ (ending_of_no_stop h hgo)
  · rintro ⟨k, hk, hstop⟩
    exact listsProgram_of_stop h hk hstop

/-- A ROM of one jump is listed up to the zeros behind it. -/
theorem machine_disassemble_jump :
    ∃ m, machineLoadRom machineInit [0x12, 0x00] = .ok m ∧ ListsProgram [0x12, 0x00] (machineDisassemble m) :=
  ⟨_, rfl, (@machine_disassemble_iff machineInit _ _ rfl).2 ⟨1, by decide, Or.inl (by decide)⟩⟩

/-- A ROM of jumps that fills the program area is listed to its end, and then the loop reads past the memory. -/
theorem machine_disassemble_reads_past_memory :
    ¬∀ (m₀ m : Machine) (rom : List Byte), machineLoadRom m₀ rom = .ok m → ListsProgram rom (machineDisassemble m) := by
  intro h
  have hload : ∃ m, machineLoadRom machineInit (List.replicate programMaxSize 0x12) = .ok m := by
    unfold machineLoadRom
    rw [if_neg (by rw [List.length_replicate]; exact Nat.lt_irrefl _)]
    exact ⟨_, rfl⟩
  obtain ⟨m, hm⟩ := hload
  have hword : ∀ k < programWords, romWord (List.replicate programMaxSize 0x12) k = 0x1212#16 := by
    intro k hk
    have hw : programWords = 1792 := rfl
    have hsize : programMaxSize = 3584 := rfl
    unfold romWord
    rw [List.getElem?_replicate_of_lt (by omega), List.getElem?_replicate_of_lt (by omega)]
    rfl
  refine ending_of_listsProgram (h machineInit m _ hm) _ (ending_of_no_stop hm ?_)
  intro k hk
  unfold StopsAt
  rw [hword k hk]
  exact fun hstop => hstop.elim (by decide) (by unfold Unsupported; decide)

end CLangExamples.Emulator
