import CLangExamples.Http.Scanner

/-!
# The scanner loses nothing

Whatever calls are made, the slices that the successful ones return, and then what remains, are the input again; a
successful search stops at the first delimiter, and a call that fails changes nothing (`scanner_lossless`).
-/

namespace CLangExamples.Http

/-- A call of the scanner. -/
inductive ScanCall where
  | untilChar (c : Byte)
  | untilSlice (pattern : StrSlice) (nonempty : strSliceIsEmpty pattern = false)
  | untilEnd

/-- What a call does. -/
def ScanCall.perform (memory : Memory) (s : Scanner) (out : StrSlice) : ScanCall → Scanned
  | .untilChar c => scannerNextUntilChar memory s c out
  | .untilSlice pattern _ => scannerNextUntilSlice memory s pattern out
  | .untilEnd => scannerNextUntilEnd s out

/-- The delimiter that a call looks for. -/
def ScanCall.delimiter (memory : Memory) : ScanCall → Option (List Byte)
  | .untilChar c => some [c]
  | .untilSlice pattern _ => some (pattern.bytes memory)
  | .untilEnd => none

/-- A call that was made: the scanner and the out slice before it, and what it did. -/
structure ScanStep where
  call : ScanCall
  before : Scanner
  out : StrSlice
  scanned : Scanned

/-- A row of calls, each with its own out slice, and the scanner after them. -/
def scanAll (memory : Memory) : List (ScanCall × StrSlice) → Scanner → List ScanStep × Scanner
  | [], s => ([], s)
  | (call, out) :: calls, s =>
    let scanned := call.perform memory s out
    let (steps, s') := scanAll memory calls scanned.scanner
    (⟨call, s, out, scanned⟩ :: steps, s')

/-- The bytes of the slices that the successful calls returned. -/
def returned (memory : Memory) (steps : List ScanStep) : List Byte :=
  steps.flatMap fun step => if step.scanned.result = .ok then step.scanned.out.bytes memory else []

/-- What a call is to do. -/
structure StepLaw (memory : Memory) (step : ScanStep) : Prop where
  /-- a call that fails changes nothing -/
  unchanged : step.scanned.result = .err → step.scanned.scanner = step.before ∧ step.scanned.out = step.out
  /-- what remains starts with the delimiter -/
  starts : step.scanned.result = .ok → ∀ d, step.call.delimiter memory = some d →
    d <+: step.scanned.scanner.input.bytes memory
  /-- which does not occur earlier in what remained before -/
  first : step.scanned.result = .ok → ∀ d, step.call.delimiter memory = some d →
    ∀ i < step.scanned.out.len, ¬d <+: (step.before.input.bytes memory).drop i

namespace ScannerAux

/-! ## Slices of slices -/

theorem bytes_of_ne {memory : Memory} {p n : Nat} (hp : p ≠ 0) :
    StrSlice.bytes memory ⟨p, n⟩ = (List.range n).map fun i => memory (p + i) := if_neg hp

theorem bytes_append (memory : Memory) {p : Nat} (hp : p ≠ 0) (a b : Nat) :
    StrSlice.bytes memory ⟨p, a + b⟩ = StrSlice.bytes memory ⟨p, a⟩ ++ StrSlice.bytes memory ⟨p + a, b⟩ := by
  rw [bytes_of_ne hp, bytes_of_ne hp, bytes_of_ne (by omega), List.range_add, List.map_append, List.map_map]
  simp [Function.comp_def, Nat.add_assoc]

/-- A slice cut in two. -/
theorem bytes_cut (memory : Memory) {p n i : Nat} (hp : p ≠ 0) (hi : i ≤ n) :
    StrSlice.bytes memory ⟨p, n⟩ = StrSlice.bytes memory ⟨p, i⟩ ++ StrSlice.bytes memory ⟨p + i, n - i⟩ := by
  rw [← bytes_append memory hp, Nat.add_sub_cancel' hi]

theorem bytes_drop (memory : Memory) {p n i : Nat} (hp : p ≠ 0) (hi : i ≤ n) :
    (StrSlice.bytes memory ⟨p, n⟩).drop i = StrSlice.bytes memory ⟨p + i, n - i⟩ := by
  have hlength : (StrSlice.bytes memory ⟨p, i⟩).length = i := by
    rw [bytes_of_ne hp, List.length_map, List.length_range]
  rw [bytes_cut memory hp hi, List.drop_left' hlength]

/-- The bytes that a slice begins with. -/
theorem prefix_bytes_iff (memory : Memory) {p n : Nat} (hp : p ≠ 0) (d : List Byte) :
    d <+: StrSlice.bytes memory ⟨p, n⟩ ↔ d.length ≤ n ∧ ∀ j (hj : j < d.length), d[j] = memory (p + j) := by
  rw [bytes_of_ne hp, List.prefix_iff_getElem]
  simp

/-! ## The searches -/

/-- The address of the first occurrence of a delimiter in a slice. -/
def FirstAt (memory : Memory) (p n : Nat) (d : List Byte) (q : Nat) : Prop :=
  ∃ i, i ≤ n ∧ q = p + i ∧ d <+: StrSlice.bytes memory ⟨p + i, n - i⟩ ∧
    ∀ j < i, ¬d <+: StrSlice.bytes memory ⟨p + j, n - j⟩

theorem memchr_first {memory : Memory} {p n q : Nat} {c : Byte} (hp : p ≠ 0) (h : memchr memory p c n = some q) :
    FirstAt memory p n [c] q := by
  unfold memchr at h
  obtain ⟨i, hfind, rfl⟩ := Option.map_eq_some_iff.mp h
  rw [List.find?_range_eq_some] at hfind
  obtain ⟨hc, hi, hfirst⟩ := hfind
  rw [List.mem_range] at hi
  refine ⟨i, Nat.le_of_lt hi, rfl, ?_, ?_⟩
  · rw [prefix_bytes_iff memory (by omega)]
    simp only [List.length_singleton]
    refine ⟨by omega, fun j hj => ?_⟩
    obtain rfl : j = 0 := by omega
    exact (of_decide_eq_true hc).symm
  · intro j hj hprefix
    rw [prefix_bytes_iff memory (by omega)] at hprefix
    have hne := hfirst j hj
    have heq := hprefix.2 0 (by simp)
    simp only [List.getElem_cons_zero, Nat.add_zero] at heq
    simp [heq] at hne

theorem memmem_first {memory : Memory} {p n q : Nat} {pattern : StrSlice} (hp : p ≠ 0)
    (hpattern : strSliceIsEmpty pattern = false) (h : memmem memory p n pattern.ptr pattern.len = some q) :
    FirstAt memory p n (pattern.bytes memory) q := by
  have hptr : pattern.ptr ≠ 0 := by
    intro h0
    simp [strSliceIsEmpty, h0] at hpattern
  have hbytes : pattern.bytes memory = (List.range pattern.len).map fun j => memory (pattern.ptr + j) := if_neg hptr
  have hoccurs : ∀ i, i ≤ n → (pattern.bytes memory <+: StrSlice.bytes memory ⟨p + i, n - i⟩ ↔
      i + pattern.len ≤ n ∧ ∀ j < pattern.len, memory (p + i + j) = memory (pattern.ptr + j)) := by
    intro i hi
    rw [prefix_bytes_iff memory (by omega), hbytes]
    simp only [List.length_map, List.length_range, List.getElem_map, List.getElem_range]
    constructor
    · rintro ⟨hlen, hall⟩
      exact ⟨by omega, fun j hj => (hall j hj).symm⟩
    · rintro ⟨hlen, hall⟩
      exact ⟨by omega, fun j hj => (hall j hj).symm⟩
  unfold memmem at h
  obtain ⟨i, hfind, rfl⟩ := Option.map_eq_some_iff.mp h
  rw [List.find?_range_eq_some] at hfind
  obtain ⟨hmatch, hi, hfirst⟩ := hfind
  rw [List.mem_range] at hi
  refine ⟨i, by omega, rfl, (hoccurs i (by omega)).mpr (of_decide_eq_true hmatch), ?_⟩
  intro j hj hprefix
  have hnot := hfirst j hj
  rw [hoccurs j (by omega)] at hprefix
  simp only [Bool.not_eq_eq_eq_not, Bool.not_true, decide_eq_false_iff_not] at hnot
  exact hnot hprefix

/-! ## One call -/

/-- Nothing of the input is lost in a call. -/
def Keeps (memory : Memory) (s : Scanner) (scanned : Scanned) : Prop :=
  (if scanned.result = .ok then scanned.out.bytes memory else []) ++ scanned.scanner.input.bytes memory =
    s.input.bytes memory

/-- A call that fails. -/
theorem err_spec (memory : Memory) (s : Scanner) (out : StrSlice) (call : ScanCall) :
    Keeps memory s ⟨.err, s, out⟩ ∧ StepLaw memory ⟨call, s, out, ⟨.err, s, out⟩⟩ := by
  refine ⟨rfl, ⟨fun _ => ⟨rfl, rfl⟩, ?_, ?_⟩⟩
  · intro hok
    cases hok
  · intro hok
    cases hok

/-- A search cuts the input at the first delimiter, or fails. -/
theorem cutAt_spec {memory : Memory} {s : Scanner} {out : StrSlice} {found : Option Nat} {d : List Byte}
    (hp : s.input.ptr ≠ 0) (hfound : ∀ q, found = some q → FirstAt memory s.input.ptr s.input.len d q) {call : ScanCall}
    (hcall : call.delimiter memory = some d) :
    Keeps memory s (s.cutAt out found) ∧ StepLaw memory ⟨call, s, out, s.cutAt out found⟩ := by
  cases found with
  | none => exact err_spec memory s out call
  | some q =>
    obtain ⟨i, hi, rfl, hprefix, hfirst⟩ := hfound q rfl
    have hcut : s.cutAt out (some (s.input.ptr + i)) =
        ⟨.ok, ⟨⟨s.input.ptr + i, s.input.len - i⟩⟩, ⟨s.input.ptr, i⟩⟩ := by
      simp only [Scanner.cutAt, Nat.add_sub_cancel_left]
    rw [hcut]
    refine ⟨(bytes_cut memory hp hi).symm, ⟨?_, ?_, ?_⟩⟩
    · intro herr
      cases herr
    · intro _ d' hd'
      obtain rfl : d = d' := Option.some.inj (hcall.symm.trans hd')
      exact hprefix
    · intro _ d' hd' j hj
      obtain rfl : d = d' := Option.some.inj (hcall.symm.trans hd')
      have hji : j < i := hj
      have hdrop := bytes_drop memory hp (show j ≤ s.input.len by omega)
      rw [show (s.input.bytes memory).drop j = _ from hdrop]
      exact hfirst j hji

/-- A call loses nothing and does what it is to do. -/
theorem perform_spec (memory : Memory) (s : Scanner) (out : StrSlice) (call : ScanCall) :
    Keeps memory s (call.perform memory s out) ∧ StepLaw memory ⟨call, s, out, call.perform memory s out⟩ := by
  by_cases hempty : strSliceIsEmpty s.input = true
  · have hfails : call.perform memory s out = ⟨.err, s, out⟩ := by
      cases call with
      | untilChar c => exact if_pos hempty
      | untilSlice pattern hpattern => exact if_pos hempty
      | untilEnd => exact if_pos hempty
    rw [hfails]
    exact err_spec memory s out call
  · have hp : s.input.ptr ≠ 0 := by
      intro h0
      simp [strSliceIsEmpty, h0] at hempty
    cases call with
    | untilChar c =>
      rw [ScanCall.perform, scannerNextUntilChar, if_neg hempty]
      exact cutAt_spec hp (fun q hq => memchr_first hp hq) rfl
    | untilSlice pattern hpattern =>
      rw [ScanCall.perform, scannerNextUntilSlice, if_neg hempty]
      exact cutAt_spec hp (fun q hq => memmem_first hp hpattern hq) rfl
    | untilEnd =>
      rw [ScanCall.perform, scannerNextUntilEnd, if_neg hempty]
      refine ⟨(bytes_cut memory hp (Nat.le_refl s.input.len)).symm, ⟨?_, ?_, ?_⟩⟩
      · intro herr
        cases herr
      · intro _ d hd
        cases hd
      · intro _ d hd
        cases hd

end ScannerAux

open ScannerAux

/-- The slices that the successful calls return, followed by what remains, are the original input, and every call does what
it is to do, whatever calls are made. -/
theorem scanner_lossless (memory : Memory) (initial : Scanner) (calls : List (ScanCall × StrSlice)) :
    returned memory (scanAll memory calls initial).1 ++ (scanAll memory calls initial).2.input.bytes memory =
      initial.input.bytes memory ∧
    ∀ step ∈ (scanAll memory calls initial).1, StepLaw memory step := by
  induction calls generalizing initial with
  | nil => exact ⟨rfl, by simp [scanAll]⟩
  | cons first calls ih =>
    obtain ⟨call, out⟩ := first
    obtain ⟨hkeeps, hlaw⟩ := perform_spec memory initial out call
    obtain ⟨hlossless, hlaws⟩ := ih (call.perform memory initial out).scanner
    rw [scanAll]
    refine ⟨?_, List.forall_mem_cons.mpr ⟨hlaw, hlaws⟩⟩
    unfold returned at hlossless ⊢
    rw [List.flatMap_cons, List.append_assoc, hlossless]
    exact hkeeps

end CLangExamples.Http
