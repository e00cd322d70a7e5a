import CLangExamples.Http.Headers
import CLangExamples.Lib.Run
import Mathlib.Order.Nat
import Mathlib.Tactic.SplitIfs

/-!
# Where the headers end

The state machine of `http_headers_validate` is the matching automaton of `\r\n\r\n` but for one transition: after
`\r\n\r` a further `\r` goes to the start and not to the state of one `\r` (from the state of one `\r` it does stay). So a
terminator that comes right after `\r\n\r` is not seen, unless that `\r\n\r` was itself not seen. The state after any
bytes without a terminator is computed from the bytes alone (`stateOf`, `scan_inv`); it is the blind one exactly when they
end with an odd number of blocks `\r\n\r`.
-/

namespace CLangExamples.Http

open Transition

/-! ## What the validation is for -/

/-- The bytes `\r\n\r\n` stand at offset `p`. -/
def TerminatorAt (buffer : List Byte) (p : Nat) : Prop := [cr, lf, cr, lf] <+: buffer.drop p

/-- The first `n` bytes are valid header bytes. -/
def ValidUpTo (buffer : List Byte) (n : Nat) : Prop := ∀ byte ∈ buffer.take n, httpHeadersIsValidByte byte = true

instance (buffer : List Byte) (n : Nat) : Decidable (ValidUpTo buffer n) :=
  inferInstanceAs (Decidable (∀ byte ∈ buffer.take n, httpHeadersIsValidByte byte = true))

/-- The terminator at `p` has only valid bytes up to its end and is the first one. -/
structure FirstTerminator (buffer : List Byte) (p : Nat) : Prop where
  terminator : TerminatorAt buffer p
  valid : ValidUpTo buffer (p + 4)
  first : ∀ q < p, ¬TerminatorAt buffer q

/-- The validation succeeds on the buffers with a terminator after valid bytes, and stops at the first one: the offset it
writes is that of the second byte of the terminator. -/
structure FindsTerminator (buffer : List Byte) : Prop where
  ok_iff : (∃ o, httpHeadersValidate buffer = some (.ok o)) ↔ ∃ p, TerminatorAt buffer p ∧ ValidUpTo buffer (p + 4)
  first : ∀ o, httpHeadersValidate buffer = some (.ok o) → ∃ p, o = p + 1 ∧ FirstTerminator buffer p

/-- The offset cuts the buffer into the header lines, the `\r\n` that separates them from the body, and the body: the
block before it ends with the `\r\n` of the last header line and the two bytes at it are the separator. -/
def SplitsHeadersFromBody (buffer : List Byte) (o : Nat) : Prop :=
  (buffer.drop o).take 2 = [cr, lf] ∧ [cr, lf] <:+ buffer.take o

/-- How many blocks `\r\n\r` a list starts with. A block is the same read backwards. -/
def crBlocks : List Byte → Nat
  | a :: b :: c :: rest => if a = cr ∧ b = lf ∧ c = cr then crBlocks rest + 1 else 0
  | _ => 0

/-- How many blocks `\r\n\r` stand one after the other right before offset `p`. -/
def blocksBefore (buffer : List Byte) (p : Nat) : Nat := crBlocks (buffer.take p).reverse

namespace HeadersAux

/-! ## One byte -/

theorem cr_ne_lf : cr ≠ lf := by decide

theorem valid_lf : httpHeadersIsValidByte lf = true := by decide

/-- What a byte that does not end the loop does to the state. -/
inductive Moves : Nat → Byte → Nat → Prop where
  | firstCr {s : Nat} (h : s = 0 ∨ s = 1) : Moves s cr 1
  | firstLf : Moves 1 lf 2
  | secondCr : Moves 2 cr 3
  | blindCr : Moves 3 cr 0
  | lostLf {s : Nat} (h : s = 0 ∨ s = 2) : Moves s lf 0
  | other {s : Nat} {b : Byte} (hcr : b ≠ cr) (hlf : b ≠ lf) : Moves s b 0

theorem moves_le {s s' : Nat} {b : Byte} (h : Moves s b s') : s' ≤ 3 := by
  cases h <;> decide

/-- The byte is valid and moves the state when the loop goes on. -/
theorem validateStep_ok {s s' : Nat} {b : Byte} (hs : s ≤ 3) (h : validateStep s b = .ok s') :
    httpHeadersIsValidByte b = true ∧ Moves s b s' := by
  unfold validateStep at h
  split_ifs at h with hv h0 h1 h2 h3 h4
  all_goals rw [Bool.not_eq_false] at hv
  all_goals refine ⟨hv, ?_⟩
  all_goals obtain rfl := Except.ok.inj h
  · rw [h0.2]
    exact .firstCr (Or.inl h0.1)
  · rw [h1.1, h1.2]
    exact .firstCr (Or.inr rfl)
  · rw [h2.1, h2.2]
    exact .firstLf
  · rw [h3.1, h3.2]
    exact .secondCr
  · by_cases hcr : b = cr
    · subst hcr
      have h3' : s = 3 := by
        simp only [and_true] at h0 h1 h3
        omega
      rw [h3']
      exact .blindCr
    · by_cases hlf : b = lf
      · subst hlf
        simp only [and_true] at h2 h4
        exact .lostLf (by omega)
      · exact .other hcr hlf

/-- The loop ends well on a `\n` in state 3, and only so. -/
theorem validateStep_endOfHeaders {s : Nat} {b : Byte} (h : validateStep s b = .error .endOfHeaders) : s = 3 ∧ b = lf := by
  unfold validateStep at h
  split_ifs at h with hv h0 h1 h2 h3 h4
  · cases h
  · exact h4

/-- The loop ends badly only on a byte that is not valid. -/
theorem validateStep_badByte {s : Nat} {b c : Byte} (h : validateStep s b = .error (.badByte c)) :
    httpHeadersIsValidByte b = false := by
  unfold validateStep at h
  split_ifs at h with hv
  · exact hv
  · cases h

/-! ## The state of the bytes read -/

/-- The bytes read have no terminator. -/
def NoTerminator (read : List Byte) : Prop := ¬[cr, lf, cr, lf] <:+: read

/-- `Shape back s`: the state after some bytes without a terminator, from the bytes alone, last byte first. -/
inductive Shape : List Byte → Nat → Prop where
  | block {back : List Byte} (h : crBlocks back % 2 = 0) : Shape (cr :: lf :: cr :: back) 3
  | blindBlock {back : List Byte} (h : crBlocks back % 2 = 1) : Shape (cr :: lf :: cr :: back) 1
  | crlf {back : List Byte} (h : crBlocks back % 2 = 0) : Shape (lf :: cr :: back) 2
  | blindCrlf {back : List Byte} (h : crBlocks back % 2 = 1) : Shape (lf :: cr :: back) 0
  | cr {back : List Byte} (hb : ¬[lf, cr] <+: back) (h : crBlocks back % 2 = 0) : Shape (cr :: back) 1
  | blindCr {back : List Byte} (hb : ¬[lf, cr] <+: back) (h : crBlocks back % 2 = 1) : Shape (cr :: back) 0
  | other {back : List Byte} (hcr : ¬[cr] <+: back) (hlf : ¬[lf, cr] <+: back) : Shape back 0

theorem crBlocks_block (back : List Byte) : crBlocks (cr :: lf :: cr :: back) = crBlocks back + 1 := by
  simp [crBlocks]

/-- A list that does not start with a block has none. -/
theorem crBlocks_eq_zero {back : List Byte} (h : ¬[cr, lf, cr] <+: back) : crBlocks back = 0 := by
  match back with
  | [] | [_] | [_, _] => rfl
  | a :: b :: c :: rest =>
    unfold crBlocks
    rw [if_neg]
    rintro ⟨rfl, rfl, rfl⟩
    exact h ⟨rest, rfl⟩

theorem not_prefix_cons {a b : Byte} {as bs : List Byte} (h : a ≠ b) : ¬a :: as <+: b :: bs := by
  intro hp
  exact h (List.cons_prefix_cons.mp hp).1

/-- State 3 is an odd number of blocks. -/
theorem shape_three_iff {back : List Byte} {s : Nat} (h : Shape back s) : s = 3 ↔ crBlocks back % 2 = 1 := by
  have hlf : ∀ r, crBlocks (lf :: r) = 0 := fun r => crBlocks_eq_zero (not_prefix_cons cr_ne_lf)
  have hcr : ∀ r, ¬[lf, cr] <+: r → crBlocks (cr :: r) = 0 := by
    intro r hr
    exact crBlocks_eq_zero (fun hp => hr (List.cons_prefix_cons.mp hp).2)
  cases h with
  | block h =>
    rw [crBlocks_block]
    omega
  | blindBlock h =>
    rw [crBlocks_block]
    omega
  | crlf h => simp [hlf]
  | blindCrlf h => simp [hlf]
  | cr hb h => simp [hcr _ hb]
  | blindCr hb h => simp [hcr _ hb]
  | other hcr hlf =>
    have h0 : crBlocks back = 0 := by
      apply crBlocks_eq_zero
      rintro ⟨t, rfl⟩
      exact hcr ⟨_, rfl⟩
    simp [h0]

/-- One byte keeps the shape, as long as it does not complete a terminator. -/
theorem shape_step {back : List Byte} {s s' : Nat} {b : Byte} (h : Shape back s) (hm : Moves s b s')
    (hno : ¬[lf, cr, lf, cr] <+: b :: back) : Shape (b :: back) s' := by
  cases hm with
  | firstCr hs =>
    by_cases hb : [lf, cr] <+: back
    · obtain ⟨r, rfl⟩ := hb
      cases h with
      | crlf h => omega
      | blindCrlf h => exact .blindBlock h
      | other _ hlf => exact absurd ⟨r, rfl⟩ hlf
    · have heven : ¬crBlocks back % 2 = 1 := fun h1 => by
        have := (shape_three_iff h).mpr h1
        omega
      exact .cr hb (by omega)
  | firstLf =>
    cases h with
    | blindBlock h => exact absurd ⟨_, rfl⟩ hno
    | cr hb h => exact .crlf h
  | secondCr =>
    cases h with
    | crlf h => exact .block h
  | blindCr =>
    have hodd := (shape_three_iff h).mp rfl
    cases h with
    | block h => exact .blindCr (not_prefix_cons cr_ne_lf.symm) hodd
  | lostLf hs =>
    by_cases hb : [cr] <+: back
    · obtain ⟨r, rfl⟩ := hb
      cases h with
      | block h => omega
      | blindBlock h => omega
      | cr hb h => omega
      | blindCr hb h => exact .blindCrlf h
      | other hcr _ => exact absurd ⟨r, rfl⟩ hcr
    · refine .other (not_prefix_cons cr_ne_lf) ?_
      intro hp
      exact hb (List.cons_prefix_cons.mp hp).2
  | other hcr hlf => exact .other (not_prefix_cons hcr.symm) (not_prefix_cons hlf.symm)

/-! ## The scan -/

/-- What holds of the state after the bytes read. -/
structure ScanInv (read : List Byte) (s : Nat) : Prop where
  le : s ≤ 3
  valid : ∀ b ∈ read, httpHeadersIsValidByte b = true
  one : s = 1 → [cr] <+: read.reverse
  two : s = 2 → [lf, cr] <+: read.reverse
  three : s = 3 → [cr, lf, cr] <+: read.reverse
  shape : NoTerminator read → Shape read.reverse s

theorem noTerminator_append {read rest : List Byte} (h : NoTerminator (read ++ rest)) : NoTerminator read := by
  intro hi
  exact h (hi.trans (List.prefix_append read rest).isInfix)

/-- A terminator at the end of the bytes read, seen from the last byte. -/
theorem noTerminator_back {read : List Byte} (h : NoTerminator read) : ¬[lf, cr, lf, cr] <+: read.reverse := by
  intro hp
  have hs : [cr, lf, cr, lf] <:+ read := by
    rw [← List.reverse_prefix]
    exact hp
  exact h hs.isInfix

/-- The state after any bytes that the loop passes. -/
theorem scan_inv {read : List Byte} {s : Nat} (h : read.foldlM validateStep 0 = .ok s) : ScanInv read s := by
  have hrun : Run (fun b s => validateStep s b) (fun b _ => b) 0 read read s := run_of_foldlM h
  refine Run.invariant (P := ScanInv) ?_ ?_ hrun
  · refine ⟨by decide, by simp, by simp, by simp, by simp, fun _ => ?_⟩
    exact .other (by simp) (by simp)
  · intro read b s s' hinv hstep
    obtain ⟨hv, hm⟩ := validateStep_ok hinv.le hstep
    have hrev : (read ++ [b]).reverse = b :: read.reverse := by simp
    refine ⟨moves_le hm, ?_, ?_, ?_, ?_, ?_⟩
    · intro c hc
      rcases List.mem_append.mp hc with hc | hc
      · exact hinv.valid c hc
      · rw [List.mem_singleton.mp hc]
        exact hv
    · rintro rfl
      cases hm with
      | firstCr hs => exact ⟨read.reverse, hrev.symm⟩
    · rintro rfl
      cases hm with
      | firstLf =>
        rw [hrev]
        exact List.cons_prefix_cons.mpr ⟨rfl, hinv.one rfl⟩
    · rintro rfl
      cases hm with
      | secondCr =>
        rw [hrev]
        exact List.cons_prefix_cons.mpr ⟨rfl, hinv.two rfl⟩
    · intro hno
      have hback := noTerminator_back hno
      rw [hrev] at hback ⊢
      exact shape_step (hinv.shape (noTerminator_append hno)) hm hback

/-- The loop passes valid bytes without a terminator. -/
theorem scan_ok {read : List Byte} (hv : ∀ b ∈ read, httpHeadersIsValidByte b = true) (hno : NoTerminator read) :
    ∃ s, read.foldlM validateStep 0 = .ok s := by
  induction read using List.reverseRecOn with
  | nil => exact ⟨0, rfl⟩
  | append_singleton read b ih =>
    obtain ⟨s, hs⟩ := ih (fun c hc => hv c (by simp [hc])) (noTerminator_append hno)
    rw [List.foldlM_append, hs, ok_bind, List.foldlM_cons]
    cases hstep : validateStep s b with
    | ok s' => exact ⟨s', rfl⟩
    | error stop =>
      exfalso
      cases stop with
      | badByte c =>
        have := validateStep_badByte hstep
        rw [hv b (by simp)] at this
        cases this
      | endOfHeaders =>
        obtain ⟨rfl, rfl⟩ := validateStep_endOfHeaders hstep
        apply noTerminator_back hno
        rw [List.reverse_append]
        exact List.cons_prefix_cons.mpr ⟨rfl, (scan_inv hs).three rfl⟩

/-- The loop over bytes that it passes goes on with the bytes after them. -/
theorem validateLoop_append {read rest : List Byte} {s s' i : Nat} (h : read.foldlM validateStep s = .ok s') :
    validateLoop s i (read ++ rest) = validateLoop s' (i + read.length) rest := by
  induction read generalizing s i with
  | nil =>
    obtain rfl := Except.ok.inj h
    rfl
  | cons b read ih =>
    rw [List.foldlM_cons] at h
    obtain ⟨t, hstep, hrest⟩ := bind_eq_ok h
    rw [List.cons_append, validateLoop, hstep]
    simp only
    rw [ih hrest, List.length_cons, Nat.add_assoc, Nat.add_comm 1]

/-- The loop ends well on a `\n` after bytes that it passed to state 3. -/
theorem validateLoop_ok {rest : List Byte} {s i o : Nat} (h : validateLoop s i rest = .ok o) :
    ∃ mid after, rest = mid ++ lf :: after ∧ mid.foldlM validateStep s = .ok 3 ∧ o = i + mid.length - 2 := by
  induction rest generalizing s i with
  | nil => cases h
  | cons b rest ih =>
    unfold validateLoop at h
    cases hstep : validateStep s b with
    | error stop =>
      rw [hstep] at h
      cases stop with
      | badByte c => cases h
      | endOfHeaders =>
        obtain ⟨rfl, rfl⟩ := validateStep_endOfHeaders hstep
        exact ⟨[], rest, rfl, rfl, (Result.ok.inj h).symm⟩
    | ok s' =>
      rw [hstep] at h
      obtain ⟨mid, after, rfl, hmid, ho⟩ := ih h
      refine ⟨b :: mid, after, rfl, ?_, ?_⟩
      · rw [List.foldlM_cons, hstep]
        exact hmid
      · rw [ho, List.length_cons]
        omega

/-! ## The first terminator -/

/-- A terminator cuts the buffer in what stands before it and what stands after it. -/
theorem terminatorAt_iff (buffer : List Byte) (p : Nat) :
    TerminatorAt buffer p ↔ ∃ before after, buffer = before ++ ([cr, lf, cr, lf] ++ after) ∧ before.length = p := by
  constructor
  · rintro ⟨after, h⟩
    refine ⟨buffer.take p, after, ?_, ?_⟩
    · rw [h, List.take_append_drop]
    · have hlen := congrArg List.length h
      simp only [List.length_append, List.length_cons, List.length_drop] at hlen
      rw [List.length_take]
      omega
  · rintro ⟨before, after, rfl, rfl⟩
    unfold TerminatorAt
    rw [List.drop_left]
    exact List.prefix_append _ after

/-- The first terminator, when there is one. -/
theorem exists_first {buffer : List Byte} (h : ∃ p, TerminatorAt buffer p ∧ ValidUpTo buffer (p + 4)) :
    ∃ p, FirstTerminator buffer p := by
  classical
  obtain ⟨q, hq, hv⟩ := h
  have hex : ∃ p, TerminatorAt buffer p := ⟨q, hq⟩
  refine ⟨Nat.find hex, Nat.find_spec hex, ?_, fun r hr => Nat.find_min hex hr⟩
  intro b hb
  have hle : Nat.find hex ≤ q := Nat.find_min' hex hq
  exact hv b ((List.take_prefix_take_left (by omega)).subset hb)

theorem first_unique {buffer : List Byte} {p q : Nat} (hp : FirstTerminator buffer p) (hq : FirstTerminator buffer q) :
    p = q := by
  rcases Nat.lt_trichotomy p q with h | h | h
  · exact absurd hp.terminator (hq.first p h)
  · exact h
  · exact absurd hq.terminator (hp.first q h)

/-- Before the first terminator there are valid bytes with no terminator, and they do not end with `\r\n`. -/
theorem first_split {buffer : List Byte} {p : Nat} (h : FirstTerminator buffer p) :
    ∃ before after, buffer = before ++ ([cr, lf, cr, lf] ++ after) ∧ before.length = p ∧
      (∀ b ∈ before, httpHeadersIsValidByte b = true) ∧ NoTerminator before ∧ ¬[lf, cr] <+: before.reverse := by
  obtain ⟨before, after, rfl, rfl⟩ := (terminatorAt_iff buffer p).mp h.terminator
  refine ⟨before, after, rfl, rfl, ?_, ?_, ?_⟩
  · intro b hb
    apply h.valid b
    rw [List.take_length_add_append]
    exact List.mem_append_left _ hb
  · rintro ⟨u, v, huv⟩
    refine h.first u.length ?_ ((terminatorAt_iff _ _).mpr ⟨u, v ++ ([cr, lf, cr, lf] ++ after), ?_, rfl⟩)
    · rw [← huv]
      simp
    · rw [← huv]
      simp
  · rintro ⟨t, ht⟩
    have hb : before = t.reverse ++ [cr, lf] := by
      rw [← List.reverse_reverse before, ← ht]
      simp
    refine h.first t.reverse.length ?_ ((terminatorAt_iff _ _).mpr ⟨t.reverse, [cr, lf] ++ after, ?_, rfl⟩)
    · rw [hb]
      simp
    · rw [hb]
      simp

/-- At the first terminator the loop ends well, unless an odd number of blocks stands before it: then it has passed the
terminator by. -/
theorem validateLoop_first {buffer : List Byte} {p : Nat} (h : FirstTerminator buffer p) :
    (blocksBefore buffer p % 2 = 0 ∧ validateLoop 0 0 buffer = .ok (p + 1)) ∨
      (blocksBefore buffer p % 2 = 1 ∧ ∃ after, validateLoop 0 0 buffer = validateLoop 2 (p + 4) after) := by
  obtain ⟨before, after, rfl, rfl, hv, hno, hback⟩ := first_split h
  obtain ⟨s, hs⟩ := scan_ok hv hno
  have hinv := scan_inv hs
  have hshape := hinv.shape hno
  have hblocks : blocksBefore (before ++ ([cr, lf, cr, lf] ++ after)) before.length = crBlocks before.reverse := by
    unfold blocksBefore
    rw [List.take_left]
  have hthree := shape_three_iff hshape
  have hle := hinv.le
  rw [hblocks, validateLoop_append hs, Nat.zero_add]
  rcases Nat.lt_or_eq_of_le hle with hlt | rfl
  · refine Or.inl ⟨by omega, ?_⟩
    have h2 : s ≠ 2 := fun h2 => hback (hinv.two h2)
    rcases (show s = 0 ∨ s = 1 by omega) with rfl | rfl
    · rfl
    · rfl
  · exact Or.inr ⟨hthree.mp rfl, after, rfl⟩

/-- The loop ends well after bytes that end with the first three of a terminator, and the offset is that of the second
one. -/
theorem split_of_ok {buffer : List Byte} {o : Nat} (h : validateLoop 0 0 buffer = .ok o) :
    ∃ front after, buffer = (front ++ [cr, lf, cr]) ++ lf :: after ∧
      (front ++ [cr, lf, cr]).foldlM validateStep 0 = .ok 3 ∧ o = front.length + 1 := by
  obtain ⟨mid, after, rfl, hmid, ho⟩ := validateLoop_ok h
  obtain ⟨t, ht⟩ := (scan_inv hmid).three rfl
  have hb : mid = t.reverse ++ [cr, lf, cr] := by
    rw [← List.reverse_reverse mid, ← ht]
    simp
  subst hb
  refine ⟨t.reverse, after, rfl, hmid, ?_⟩
  rw [ho, List.length_append]
  show 0 + (t.reverse.length + 3) - 2 = t.reverse.length + 1
  omega

/-- The loop ends well only at a terminator after valid bytes. -/
theorem terminator_of_ok {buffer : List Byte} {o : Nat} (h : validateLoop 0 0 buffer = .ok o) :
    ∃ p, TerminatorAt buffer p ∧ ValidUpTo buffer (p + 4) := by
  obtain ⟨front, after, rfl, hmid, -⟩ := split_of_ok h
  have hinv := scan_inv hmid
  refine ⟨front.length, (terminatorAt_iff _ _).mpr ⟨front, after, by simp, rfl⟩, ?_⟩
  intro b hbm
  have hlen : front.length + 4 = (front ++ [cr, lf, cr]).length + 1 := by simp
  rw [hlen, List.take_length_add_append, List.take_succ_cons, List.take_zero] at hbm
  rcases List.mem_append.mp hbm with hbm | hbm
  · exact hinv.valid b hbm
  · rw [List.mem_singleton.mp hbm]
    exact valid_lf

end HeadersAux

open HeadersAux

/-- The validation finds the end of the headers exactly when the first terminator, if there is one after valid bytes, does
not come right after an odd number of blocks `\r\n\r`. -/
theorem httpHeadersValidate_finds_iff (buffer : List Byte) (hsize : 2 ≤ buffer.length) :
    FindsTerminator buffer ↔ ¬∃ p, FirstTerminator buffer p ∧ blocksBefore buffer p % 2 = 1 := by
  have hloop : httpHeadersValidate buffer = some (validateLoop 0 0 buffer) := by
    unfold httpHeadersValidate
    rw [if_pos (by omega)]
  constructor
  · rintro hfinds ⟨p, hp, hodd⟩
    obtain ⟨o, ho⟩ := hfinds.ok_iff.mpr ⟨p, hp.terminator, hp.valid⟩
    obtain ⟨q, rfl, hq⟩ := hfinds.first o ho
    obtain rfl := first_unique hp hq
    rcases validateLoop_first hp with ⟨heven, -⟩ | ⟨-, after, hpassed⟩
    · omega
    · -- the loop can end only after the terminator it passed by
      rw [hloop, hpassed, Option.some.injEq] at ho
      obtain ⟨mid, -, -, -, heq⟩ := validateLoop_ok ho
      omega
  · intro hnot
    have hfound : ∀ p, FirstTerminator buffer p → validateLoop 0 0 buffer = .ok (p + 1) := by
      intro p hp
      rcases validateLoop_first hp with ⟨-, hok⟩ | ⟨hodd, -⟩
      · exact hok
      · exact absurd ⟨p, hp, hodd⟩ hnot
    refine ⟨⟨?_, ?_⟩, ?_⟩
    · rintro ⟨o, ho⟩
      rw [hloop, Option.some.injEq] at ho
      exact terminator_of_ok ho
    · intro hex
      obtain ⟨p, hp⟩ := exists_first hex
      exact ⟨p + 1, by rw [hloop, hfound p hp]⟩
    · intro o ho
      rw [hloop, Option.some.injEq] at ho
      obtain ⟨p, hp⟩ := exists_first (terminator_of_ok ho)
      rw [hfound p hp] at ho
      exact ⟨p, (Result.ok.inj ho).symm, hp⟩

/-- The validation of a buffer that is the terminator alone. -/
theorem httpHeadersValidate_finds_alone : FindsTerminator [cr, lf, cr, lf] := by
  refine (httpHeadersValidate_finds_iff [cr, lf, cr, lf] (by decide)).mpr ?_
  rintro ⟨p, hp, hodd⟩
  have h0 : FirstTerminator [cr, lf, cr, lf] 0 := ⟨⟨[], rfl⟩, by decide, by simp⟩
  obtain rfl := first_unique hp h0
  cases hodd

/-- The terminator of `\r\n\r\r\n\r\n` is not found. -/
theorem httpHeadersValidate_misses_terminator : ¬FindsTerminator [cr, lf, cr, cr, lf, cr, lf] := by
  intro hfinds
  have hterm : TerminatorAt [cr, lf, cr, cr, lf, cr, lf] 3 := ⟨[], rfl⟩
  obtain ⟨o, ho⟩ := hfinds.ok_iff.mpr ⟨3, hterm, by decide⟩
  have herr : httpHeadersValidate [cr, lf, cr, cr, lf, cr, lf] = some (.err .endNotFound) := by decide
  rw [herr] at ho
  cases ho

/-- The offset that is returned never separates the headers from the body: the block before it ends with the `\r` of the
last header line, and the two bytes at it are the `\n` of that line and the `\r` of the separator. -/
theorem httpHeadersValidate_never_splits {buffer : List Byte} {o : Nat} (h : httpHeadersValidate buffer = some (.ok o)) :
    (buffer.drop o).take 2 = [lf, cr] ∧ [cr] <:+ buffer.take o ∧ ¬SplitsHeadersFromBody buffer o := by
  have hloop : validateLoop 0 0 buffer = .ok o := by
    unfold httpHeadersValidate at h
    split at h
    · exact Option.some.inj h
    · cases h
  obtain ⟨front, after, rfl, -, rfl⟩ := split_of_ok hloop
  have hcut : (front ++ [cr, lf, cr]) ++ lf :: after = (front ++ [cr]) ++ (lf :: cr :: lf :: after) := by simp
  have hlen : front.length + 1 = (front ++ [cr]).length := by simp
  have hat : (((front ++ [cr, lf, cr]) ++ lf :: after).drop (front.length + 1)).take 2 = [lf, cr] := by
    rw [hcut, hlen, List.drop_left]
    rfl
  refine ⟨hat, ?_, ?_⟩
  · rw [hcut, hlen, List.take_left]
    exact ⟨front, rfl⟩
  · rintro ⟨hsep, -⟩
    rw [hat] at hsep
    exact absurd hsep (by decide)

/-- Of `\r\n\r\n` the offset 1 is returned, between the `\r` and the `\n` of the first line. -/
theorem httpHeadersValidate_never_splits_alone :
    httpHeadersValidate [cr, lf, cr, lf] = some (.ok 1) ∧ ¬SplitsHeadersFromBody [cr, lf, cr, lf] 1 :=
  ⟨by decide, (httpHeadersValidate_never_splits (by decide)).2.2⟩

/-- A request `a\r\n\r\nb` on which the offset is not the one that splits it. -/
theorem httpHeadersValidate_splits_off_by_one :
    ¬∀ (buffer : List Byte) (o : Nat), httpHeadersValidate buffer = some (.ok o) → SplitsHeadersFromBody buffer o := by
  intro h
  have hsplit := h [0x61#8, cr, lf, cr, lf, 0x62#8] 2 (by decide)
  exact absurd hsplit.1 (by decide)

end CLangExamples.Http
