import CLangExamples.Lib.Run
import CLangExamples.Scgi.Connection

/-!
# What reaches the parser

`connection_handle` is to hand the parser the headers of a netstring and their comma, and nothing else. It does, except that
it takes a missing number for a zero, and that it does not notice when the stream ends where the comma should be
(`connection_netstring_iff`).
-/

namespace CLangExamples.Scgi

open Strtoul Transition

/-- The stream begins with the netstring of the headers `hs`. -/
def NetstringOf (hs bytes : List Byte) : Prop :=
  ∃ ds rest, 1 ≤ ds.length ∧ ds.length ≤ 9 ∧ (∀ d ∈ ds, isdigit d = true) ∧ digitsValue ds = hs.length ∧
    hs.length < scgiHeadersMaxSize ∧ bytes = ds ++ colon :: (hs ++ comma :: rest)

/-- On a stream that the client closes, the parser is only handed the headers of a netstring and their comma, and nothing
depends on what `dummy` held before. -/
def Sound (setsEinval : Bool) (bytes : List Byte) : Prop :=
  (∀ garbage handed parsed, connectionHandle setsEinval garbage ⟨bytes, .closed⟩ = .ok (handed, parsed) →
    ∃ hs, NetstringOf hs bytes ∧ handed = hs ++ [comma]) ∧
  ∀ garbage garbage', connectionHandle setsEinval garbage ⟨bytes, .closed⟩ =
    connectionHandle setsEinval garbage' ⟨bytes, .closed⟩

/-- The stream is a size and as many bytes, `rest` behind them. Where `strtoul` does not complain, no digits are a size of
zero. -/
structure Announced (setsEinval : Bool) (bytes ds hs rest : List Byte) : Prop where
  digits : ∀ d ∈ ds, isdigit d = true
  count : ds.length ≤ 9
  number : ds = [] → setsEinval = false
  size : digitsValue ds = hs.length
  small : hs.length < scgiHeadersMaxSize
  split : bytes = ds ++ colon :: (hs ++ rest)

namespace ConnectionAux

/-! ## The digits -/

theorem recv_closed (bytes : List Byte) (size : Nat) :
    recv ⟨bytes, .closed⟩ size = (bytes.take size, ((bytes.take size).length : Int), ⟨bytes.drop size, .closed⟩) := by
  unfold recv
  rw [if_neg (by simp)]

theorem ne_colon_of_isdigit {c : Byte} (h : isdigit c = true) : c ≠ colon := by
  rintro rfl
  cases h

/-- What the loop over the digits leaves. -/
theorem readDigits_of_ok {digits all : List Byte} {left : Nat} {bytes : List Byte} {stream : Stream}
    (h : readDigits digits left ⟨bytes, .closed⟩ = .ok (all, stream)) :
    ∃ more rest, all = digits ++ more ∧ more.length ≤ left ∧ (∀ d ∈ more, isdigit d = true) ∧
      bytes = more ++ colon :: rest ∧ stream = ⟨rest, .closed⟩ := by
  induction bytes generalizing digits left with
  | nil =>
    unfold readDigits at h
    cases h
  | cons c bytes ih =>
    unfold readDigits at h
    rw [recvChar_cons] at h
    simp only at h
    split at h
    · rename_i hc
      obtain ⟨rfl, rfl⟩ := Prod.mk.inj (Except.ok.inj h)
      exact ⟨[], bytes, by simp, by simp, by simp, by rw [hc]; rfl, rfl⟩
    · split at h
      · cases h
      · rename_i hdigit
        cases left with
        | zero => cases h
        | succ left =>
          obtain ⟨more, rest, rfl, hlength, hdigits, rfl, rfl⟩ := ih h
          refine ⟨c :: more, rest, by simp, Nat.succ_le_succ hlength, ?_, rfl, rfl⟩
          exact List.forall_mem_cons.mpr ⟨by simpa using hdigit, hdigits⟩

/-- The loop over the digits reads them and the colon. -/
theorem readDigits_of_digits {digits more rest : List Byte} {left : Nat} (hlength : more.length ≤ left)
    (h : ∀ d ∈ more, isdigit d = true) :
    readDigits digits left ⟨more ++ colon :: rest, .closed⟩ = .ok (digits ++ more, ⟨rest, .closed⟩) := by
  induction more generalizing digits left with
  | nil =>
    unfold readDigits
    rw [List.nil_append, recvChar_cons, List.append_nil]
    rfl
  | cons c more ih =>
    obtain ⟨hc, hmore⟩ := List.forall_mem_cons.mp h
    obtain ⟨left, rfl⟩ : ∃ n, left = n + 1 := ⟨left - 1, by rw [List.length_cons] at hlength; omega⟩
    unfold readDigits
    rw [List.cons_append, recvChar_cons]
    simp only
    rw [if_neg (ne_colon_of_isdigit hc), if_neg (by simp [hc]), ih (Nat.le_of_succ_le_succ hlength) hmore,
      List.append_assoc]
    rfl

/-- The size that at most nine digits announce. -/
theorem cstrParseSizeT_digits (setsEinval : Bool) {ds : List Byte} (h : ∀ d ∈ ds, isdigit d = true)
    (hcount : ds.length ≤ 9) :
    cstrParseSizeT setsEinval ds = if ds = [] ∧ setsEinval = true then none else some (digitsValue ds) := by
  unfold cstrParseSizeT
  by_cases hne : ds = []
  · rw [hne, strtoul_nil]
    cases setsEinval <;> rfl
  · have hlt : digitsValue ds < 10 ^ 9 :=
      Nat.lt_of_lt_of_le (digitsValue_lt h) (Nat.pow_le_pow_right (by decide) hcount)
    have hmax : 10 ^ 9 < ulongMax := by decide
    have hnumber : ¬(ds = [] ∧ setsEinval = true) := fun hnil => hne hnil.1
    have hbig : ¬digitsValue ds ≥ ulongMax := by omega
    rw [strtoul_digits setsEinval h hne (by omega), if_neg hnumber]
    simp [hbig]

/-! ## The headers -/

/-- What `connection_handle` does behind the colon. -/
theorem receiveHeaders_digits (setsEinval : Bool) {ds : List Byte} (rest : List Byte) (h : ∀ d ∈ ds, isdigit d = true)
    (hcount : ds.length ≤ maxDigits) :
    receiveHeaders setsEinval ⟨ds ++ colon :: rest, .closed⟩ =
      if ds = [] ∧ setsEinval = true then .error .badDigits
      else if digitsValue ds ≥ scgiHeadersMaxSize then .error (.tooBig (digitsValue ds))
      else if rest.length < digitsValue ds then .error (.badSize (digitsValue ds) rest.length)
      else .ok (digitsValue ds, rest.take (digitsValue ds) ++ (List.replicate scgiInputBufferSize nul).drop (digitsValue ds),
        ⟨rest.drop (digitsValue ds), .closed⟩) := by
  unfold receiveHeaders
  simp only
  rw [readDigits_of_digits hcount h, ok_bind]
  simp only [List.nil_append, recv_closed]
  rw [cstrParseSizeT_digits setsEinval h hcount]
  by_cases hnumber : ds = [] ∧ setsEinval = true
  · rw [if_pos hnumber, if_pos hnumber]
  · rw [if_neg hnumber, if_neg hnumber]
    simp only
    by_cases hbig : digitsValue ds ≥ scgiHeadersMaxSize
    · rw [if_pos hbig, if_pos hbig]
    · rw [if_neg hbig, if_neg hbig, if_neg (by omega), Int.toNat_natCast]
      by_cases hshort : rest.length < digitsValue ds
      · have htake : rest.take (digitsValue ds) = rest := List.take_of_length_le (Nat.le_of_lt hshort)
        rw [if_pos hshort, htake, if_pos (by omega)]
      · have htake : (rest.take (digitsValue ds)).length = digitsValue ds := List.length_take_of_le (by omega)
        rw [if_neg hshort, htake, if_neg (not_not.mpr rfl)]
        rfl

/-- The headers that were received were announced. -/
theorem receiveHeaders_of_ok {setsEinval : Bool} {bytes : List Byte} {received : Nat × List Byte × Stream}
    (h : receiveHeaders setsEinval ⟨bytes, .closed⟩ = .ok received) :
    ∃ ds hs rest, Announced setsEinval bytes ds hs rest := by
  obtain ⟨⟨ds, stream⟩, hread, -⟩ := bind_eq_ok h
  obtain ⟨ds, rest, -, hcount, hdigits, rfl, -⟩ := readDigits_of_ok hread
  rw [receiveHeaders_digits setsEinval rest hdigits hcount] at h
  split at h
  · cases h
  · rename_i hnumber
    split at h
    · cases h
    · rename_i hsmall
      split at h
      · cases h
      · rename_i hlong
        have hsize : (rest.take (digitsValue ds)).length = digitsValue ds := List.length_take_of_le (by omega)
        refine ⟨ds, rest.take (digitsValue ds), rest.drop (digitsValue ds), hdigits, hcount, ?_, hsize.symm, by omega, ?_⟩
        · intro hnil
          simpa [hnil] using hnumber
        · rw [List.take_append_drop]

/-- Headers that are announced are received. -/
theorem receiveHeaders_announced {setsEinval : Bool} {bytes ds hs rest : List Byte}
    (h : Announced setsEinval bytes ds hs rest) :
    receiveHeaders setsEinval ⟨bytes, .closed⟩ =
      .ok (hs.length, hs ++ (List.replicate scgiInputBufferSize nul).drop hs.length, ⟨rest, .closed⟩) := by
  have hnumber : ¬(ds = [] ∧ setsEinval = true) := by
    rintro ⟨hnil, hset⟩
    rw [h.number hnil] at hset
    cases hset
  have hsmall := h.small
  have hlong : ¬(hs ++ rest).length < hs.length := by simp
  rw [h.split, receiveHeaders_digits setsEinval _ h.digits h.count, if_neg hnumber, h.size, if_neg (by omega),
    if_neg hlong, List.take_left, List.drop_left]

/-! ## The comma -/

/-- What is handed over behind the headers, with what `dummy` holds. -/
def handOver (hs : List Byte) (dummy : Byte) : Except Rejected (List Byte × Except Halt Parsed) :=
  if dummy ≠ comma then .error (.noComma dummy)
  else .ok (hs ++ [comma], scgiParserInit (hs ++ [comma]) >>= scgiParserParse)

theorem set_take {hs rest : List Byte} (b : Byte) (hne : rest ≠ []) :
    ((hs ++ rest).set hs.length b).take (hs.length + 1) = hs ++ [b] := by
  obtain ⟨r, rest, rfl⟩ := List.exists_cons_of_ne_nil hne
  rw [List.set_append_right _ _ (Nat.le_refl _), Nat.sub_self, List.set_cons_zero, List.take_length_add_append]
  rfl

/-- Headers that are announced: the byte behind them decides, or what `dummy` held if there is none. -/
theorem connectionHandle_announced {setsEinval : Bool} {bytes ds hs rest : List Byte}
    (h : Announced setsEinval bytes ds hs rest) (garbage : Byte) :
    connectionHandle setsEinval garbage ⟨bytes, .closed⟩ = handOver hs (rest.head?.getD garbage) := by
  have hroom : (List.replicate scgiInputBufferSize nul).drop hs.length ≠ [] := by
    have hsmall : hs.length < 1024 := h.small
    rw [Ne, List.drop_eq_nil_iff, List.length_replicate, show scgiInputBufferSize = 4096 from rfl]
    omega
  have hhead : (rest.take 1).head? = rest.head? := by cases rest <;> rfl
  unfold connectionHandle
  rw [receiveHeaders_announced h, ok_bind]
  simp only
  rw [recv_closed]
  simp only
  rw [if_neg (by omega), hhead, handOver]
  split
  · rfl
  · rename_i hcomma
    have hcomma' : rest.head?.getD garbage = comma := by simpa using hcomma
    rw [hcomma', set_take comma hroom]
    rfl

/-- Without announced headers nothing is handed over, whatever `dummy` held. -/
theorem connectionHandle_rejects {setsEinval : Bool} {bytes : List Byte}
    (h : ¬∃ ds hs rest, Announced setsEinval bytes ds hs rest) :
    ∃ rejected, ∀ garbage, connectionHandle setsEinval garbage ⟨bytes, .closed⟩ = .error rejected := by
  cases hreceive : receiveHeaders setsEinval ⟨bytes, .closed⟩ with
  | ok received => exact absurd (receiveHeaders_of_ok hreceive) h
  | error rejected =>
    refine ⟨rejected, fun garbage => ?_⟩
    unfold connectionHandle
    rw [hreceive]
    rfl

/-- A stream that ends right behind its headers leaves it to what `dummy` held. -/
theorem not_sound_of_end {setsEinval : Bool} {bytes ds hs : List Byte} (h : Announced setsEinval bytes ds hs []) :
    ¬Sound setsEinval bytes := by
  rintro ⟨-, hsame⟩
  have hdiffer := hsame comma nul
  rw [connectionHandle_announced h, connectionHandle_announced h] at hdiffer
  cases hdiffer

/-- A stream that begins with a colon and a comma is handed over without a number. -/
theorem not_sound_of_colon (rest : List Byte) : ¬Sound false (colon :: comma :: rest) := by
  rintro ⟨honly, -⟩
  have hannounced : Announced false (colon :: comma :: rest) [] [] (comma :: rest) :=
    ⟨by simp, by simp, by simp, rfl, by decide, rfl⟩
  have hhandle : connectionHandle false nul ⟨colon :: comma :: rest, .closed⟩ =
      .ok ([comma], scgiParserInit [comma] >>= scgiParserParse) := connectionHandle_announced hannounced nul
  obtain ⟨hs, ⟨ds, rest', hpos, -, hdigits, -, -, hbytes⟩, -⟩ := honly nul _ _ hhandle
  obtain ⟨d, ds, rfl⟩ := List.exists_cons_of_ne_nil (List.ne_nil_of_length_pos hpos)
  have hfirst : colon = d := (List.cons.inj hbytes).1
  exact ne_colon_of_isdigit (hdigits d List.mem_cons_self) hfirst.symm

/-- Headers with a byte behind them are handed over only behind a number, and with their comma. -/
theorem sound_of_announced {setsEinval : Bool} {bytes ds hs rest : List Byte} {c : Byte}
    (h : Announced setsEinval bytes ds hs (c :: rest)) (hnumber : ¬(setsEinval = false ∧ [colon, comma] <+: bytes)) :
    Sound setsEinval bytes := by
  refine ⟨?_, ?_⟩
  · intro garbage handed parsed hok
    rw [connectionHandle_announced h, List.head?_cons, Option.getD_some, handOver] at hok
    split at hok
    · cases hok
    · rename_i hcomma
      obtain rfl : c = comma := by simpa using hcomma
      obtain ⟨rfl, -⟩ := Prod.mk.inj (Except.ok.inj hok)
      have hne : ds ≠ [] := by
        rintro rfl
        have hnil : hs = [] := List.eq_nil_of_length_eq_zero h.size.symm
        subst hnil
        exact hnumber ⟨h.number rfl, rest, h.split.symm⟩
      exact ⟨hs, ⟨ds, rest, List.length_pos_iff.mpr hne, h.count, h.digits, h.size, h.small, h.split⟩, rfl⟩
  · intro garbage garbage'
    rw [connectionHandle_announced h, connectionHandle_announced h]
    rfl

end ConnectionAux

open ConnectionAux

/-- The parser is handed netstrings only, and independently of what memory held, exactly when the stream does not begin with
`:,` (where `strtoul` does not complain about a missing number) and does not end right behind the headers it announces. -/
theorem connection_netstring_iff (setsEinval : Bool) (bytes : List Byte) :
    Sound setsEinval bytes ↔
      ¬(setsEinval = false ∧ [colon, comma] <+: bytes) ∧ ¬∃ ds hs, Announced setsEinval bytes ds hs [] := by
  constructor
  · intro hsound
    refine ⟨?_, ?_⟩
    · rintro ⟨rfl, rest, rfl⟩
      exact not_sound_of_colon rest hsound
    · rintro ⟨ds, hs, hannounced⟩
      exact not_sound_of_end hannounced hsound
  · rintro ⟨hnumber, hends⟩
    by_cases hannounced : ∃ ds hs rest, Announced setsEinval bytes ds hs rest
    · obtain ⟨ds, hs, rest, hannounced⟩ := hannounced
      cases rest with
      | nil => exact absurd ⟨ds, hs, hannounced⟩ hends
      | cons c rest => exact sound_of_announced hannounced hnumber
    · obtain ⟨rejected, hrejects⟩ := connectionHandle_rejects hannounced
      refine ⟨?_, ?_⟩
      · intro garbage handed parsed hok
        rw [hrejects] at hok
        cases hok
      · intro garbage garbage'
        rw [hrejects, hrejects]

/-- `0:` and the end of the stream: it is up to what `dummy` held whether the parser is called. Where `strtoul` does not
complain, `:,` is handed over too. -/
theorem connection_ends_before_comma :
    ¬Sound true [0x30#8, colon] ∧ ¬Sound false [0x30#8, colon] ∧ ¬Sound false [colon, comma] := by
  have hannounced : ∀ setsEinval, Announced setsEinval [0x30#8, colon] [0x30#8] [] [] :=
    fun setsEinval => ⟨by decide, by decide, by simp, rfl, by decide, rfl⟩
  exact ⟨not_sound_of_end (hannounced true), not_sound_of_end (hannounced false), not_sound_of_colon []⟩

end CLangExamples.Scgi
