import CLangExamples.Scgi.BufferedReader

/-!
# Reading digits into a buffer

`buffered_reader_read_digits_until` is to read at most `max_digits` digits and the delimiter behind them. It tests the limit
in every iteration but does not count the digits, so any limit other than zero is no limit: only the buffer bounds what is
stored.
-/

namespace CLangExamples.Scgi

open Strtoul

/-- The bytes of the buffer that are left. -/
def BufferedReader.left (reader : BufferedReader) : Nat := reader.buffer.bytes.length - reader.cursor

/-- The reader with other bytes in the stream. -/
def BufferedReader.received (reader : BufferedReader) (bytes : List Byte) : BufferedReader :=
  { reader with input := ⟨bytes, reader.input.ending⟩ }

/-- What a call leaves that has read digits and the delimiter behind them: the digits are at the old cursor in order, the
rest of the buffer is as it was, and `rest` has not been received. -/
structure ReadDigits (delim : Byte) (reader reader' : BufferedReader) (digits rest : List Byte) : Prop where
  all_digits : ∀ d ∈ digits, isdigit d = true
  bytes : reader.input.bytes = digits ++ delim :: rest
  consumed : reader'.input = ⟨rest, reader.input.ending⟩
  stored : reader'.buffer.bytes =
    reader.buffer.bytes.take reader.cursor ++ digits ++ reader.buffer.bytes.drop (reader.cursor + digits.length)
  cursor : reader'.cursor = reader.cursor + digits.length
  room : digits.length ≤ reader.left

/-- What `buffered_reader_read_digits_until` is to do: 0 stands for at most `max_digits` digits and the delimiter read, and
after 1 the cursor is still in the buffer. -/
def ReadsUpTo (maxDigits : Nat) (delim : Byte) (reader : BufferedReader) : Prop :=
  ∃ ret reader', bufferedReaderReadDigitsUntil reader delim maxDigits = .ok (ret, reader') ∧
    (ret = 0 ∧ (∃ digits rest, ReadDigits delim reader reader' digits rest ∧ digits.length ≤ maxDigits) ∨
      ret = 1 ∧ reader'.cursor ≤ reader'.buffer.bytes.length)

/-- The stream begins with more digits than the limit and the delimiter, and the buffer has room for them. -/
def LongNumber (maxDigits : Nat) (delim : Byte) (reader : BufferedReader) : Prop :=
  ∃ digits rest, reader.input.bytes = digits ++ delim :: rest ∧ (∀ d ∈ digits, isdigit d = true) ∧
    maxDigits < digits.length ∧ digits.length < reader.left

namespace BufferedReaderAux

variable {delim : Byte} {maxDigits : Nat} {reader : BufferedReader}

/-- The digits in front of a byte that is none are all of them. -/
theorem takeWhile_digits {digits : List Byte} (rest : List Byte) (h : ∀ d ∈ digits, isdigit d = true)
    (hdelim : isdigit delim = false) : (digits ++ delim :: rest).takeWhile isdigit = digits := by
  rw [List.takeWhile_append_of_pos h, List.takeWhile_cons_of_neg (by simp [hdelim]), List.append_nil]

theorem take_set_succ {l : List Byte} {i : Nat} (h : i < l.length) (c : Byte) :
    (l.set i c).take (i + 1) = l.take i ++ [c] := by
  rw [List.take_add_one, List.take_set_of_le (Nat.le_refl i), List.getElem?_set_self h, Option.toList_some]

/-- The delimiter in front, received. -/
theorem readDigits_received {rest : List Byte} (hbytes : reader.input.bytes = delim :: rest) :
    ReadDigits delim reader (reader.received rest) [] rest where
  all_digits := by simp
  bytes := hbytes
  consumed := rfl
  stored := by simp [BufferedReader.received]
  cursor := rfl
  room := Nat.zero_le _

/-- One digit stored and then what the rest of the loop leaves. -/
theorem readDigits_store {c : Byte} {bytes digits rest : List Byte} {reader' : BufferedReader}
    (hinput : reader.input.bytes = c :: bytes) (hc : isdigit c = true) (hroom : reader.cursor < reader.buffer.bytes.length)
    (h : ReadDigits delim (reader.store c ⟨bytes, reader.input.ending⟩) reader' digits rest) :
    ReadDigits delim reader reader' (c :: digits) rest where
  all_digits := List.forall_mem_cons.2 ⟨hc, h.all_digits⟩
  bytes := by rw [hinput, List.cons_append, ← h.bytes, store_input]
  consumed := h.consumed
  stored := by
    have hstored := h.stored
    rw [store_bytes, store_cursor, take_set_succ hroom, List.drop_set_of_lt (by omega), Nat.add_right_comm] at hstored
    rw [hstored, List.length_cons]
    simp [Nat.add_assoc]
  cursor := by
    rw [h.cursor, store_cursor, List.length_cons]
    omega
  room := by
    have hleft := h.room
    unfold BufferedReader.left at hleft ⊢
    rw [store_bytes, store_cursor, List.length_set] at hleft
    rw [List.length_cons]
    omega

/-- The loop at the end of the stream. -/
theorem loop_nil (delim : Byte) (maxDigits : Nat) (hbytes : reader.input.bytes = []) :
    readDigitsUntilLoop delim maxDigits 0 reader = (1, reader) := by
  have hinput : reader.input = ⟨[], reader.input.ending⟩ := by rw [← hbytes]
  rw [readDigitsUntilLoop]
  split
  · rfl
  · rw [hinput, recvChar_nil]
    simp only [← hinput]

/-- One iteration of the loop with a byte to receive and room in the buffer. -/
theorem loop_cons (delim : Byte) (maxDigits : Nat) {c : Byte} {bytes : List Byte} (hbytes : reader.input.bytes = c :: bytes)
    (hroom : reader.cursor < reader.buffer.bytes.length) :
    readDigitsUntilLoop delim maxDigits 0 reader =
      if c = delim then (0, reader.received bytes)
      else if isdigit c = false then (1, reader.received bytes)
      else if 0 ≥ maxDigits then (1, reader.received bytes)
      else readDigitsUntilLoop delim maxDigits 0 (reader.store c ⟨bytes, reader.input.ending⟩) := by
  have hinput : reader.input = ⟨c :: bytes, reader.input.ending⟩ := by rw [← hbytes]
  rw [readDigitsUntilLoop, if_neg (by omega), hinput, recvChar_cons]
  rfl

/-- The loop ends with the digits and the delimiter read, or with 1 and the cursor in the buffer. -/
theorem loop_cases (delim : Byte) (maxDigits : Nat) (h : reader.cursor ≤ reader.buffer.bytes.length) :
    ∃ ret reader', readDigitsUntilLoop delim maxDigits 0 reader = (ret, reader') ∧
      (ret = 0 ∧ (∃ digits rest, ReadDigits delim reader reader' digits rest ∧ digits.length < reader.left ∧
        (digits ≠ [] → 0 < maxDigits)) ∨
      ret = 1 ∧ reader'.cursor ≤ reader'.buffer.bytes.length) := by
  -- Each iteration receives one more byte.
  induction hbytes : reader.input.bytes generalizing reader with
  | nil => exact ⟨1, reader, loop_nil delim maxDigits hbytes, Or.inr ⟨rfl, h⟩⟩
  | cons c bytes ih =>
    by_cases hroom : reader.cursor < reader.buffer.bytes.length
    · rw [loop_cons delim maxDigits hbytes hroom]
      by_cases hdelim : c = delim
      · rw [if_pos hdelim]
        have hleft : 0 < reader.left := by
          unfold BufferedReader.left
          omega
        refine ⟨0, reader.received bytes, rfl, Or.inl ⟨rfl, [], bytes, ?_, hleft, fun hne => absurd rfl hne⟩⟩
        exact readDigits_received (by rw [hbytes, hdelim])
      · rw [if_neg hdelim]
        by_cases hdigit : isdigit c = false
        · rw [if_pos hdigit]
          exact ⟨1, reader.received bytes, rfl, Or.inr ⟨rfl, h⟩⟩
        · rw [if_neg hdigit]
          by_cases hmax : 0 ≥ maxDigits
          · rw [if_pos hmax]
            exact ⟨1, reader.received bytes, rfl, Or.inr ⟨rfl, h⟩⟩
          · rw [if_neg hmax]
            have hnext : (reader.store c ⟨bytes, reader.input.ending⟩).cursor ≤
                (reader.store c ⟨bytes, reader.input.ending⟩).buffer.bytes.length := by
              rw [store_cursor, store_bytes, List.length_set]
              omega
            obtain ⟨ret, reader', hloop, ⟨hzero, digits, rest, hread, hlt, -⟩ | hone⟩ := ih hnext rfl
            · refine ⟨ret, reader', hloop, Or.inl ⟨hzero, c :: digits, rest, ?_, ?_, fun _ => by omega⟩⟩
              · exact readDigits_store hbytes (by simpa using hdigit) hroom hread
              · unfold BufferedReader.left at hlt ⊢
                rw [store_cursor, store_bytes, List.length_set] at hlt
                rw [List.length_cons]
                omega
            · exact ⟨ret, reader', hloop, Or.inr hone⟩
    · refine ⟨1, reader, ?_, Or.inr ⟨rfl, h⟩⟩
      rw [readDigitsUntilLoop, if_pos (by omega)]

/-- Digits and the delimiter are read as far as the buffer has room, whatever the limit is, unless it is zero. -/
theorem loop_reads {digits rest : List Byte} (hbytes : reader.input.bytes = digits ++ delim :: rest)
    (hdigits : ∀ d ∈ digits, isdigit d = true) (hdelim : isdigit delim = false) (hmax : 0 < maxDigits)
    (hroom : digits.length < reader.left) :
    ∃ reader', readDigitsUntilLoop delim maxDigits 0 reader = (0, reader') ∧
      ReadDigits delim reader reader' digits rest := by
  unfold BufferedReader.left at hroom
  induction digits generalizing reader with
  | nil =>
    refine ⟨reader.received rest, ?_, readDigits_received hbytes⟩
    rw [loop_cons delim maxDigits hbytes (by omega), if_pos rfl]
  | cons d digits ih =>
    obtain ⟨hd, htail⟩ := List.forall_mem_cons.1 hdigits
    have hne : d ≠ delim := by
      rintro rfl
      rw [hd] at hdelim
      cases hdelim
    rw [List.cons_append] at hbytes
    rw [List.length_cons] at hroom
    have hroom' : digits.length < (reader.store d ⟨digits ++ delim :: rest, reader.input.ending⟩).buffer.bytes.length -
        (reader.store d ⟨digits ++ delim :: rest, reader.input.ending⟩).cursor := by
      rw [store_cursor, store_bytes, List.length_set]
      omega
    obtain ⟨reader', hloop, hread⟩ := ih rfl htail hroom'
    refine ⟨reader', ?_, readDigits_store hbytes hd (by omega) hread⟩
    rw [loop_cons delim maxDigits hbytes (by omega), if_neg hne, if_neg (by simp [hd]), if_neg (by omega), hloop]

theorem readDigitsUntil_eq (reader : BufferedReader) (maxDigits : Nat) (hdelim : isdigit delim = false) :
    bufferedReaderReadDigitsUntil reader delim maxDigits = .ok (readDigitsUntilLoop delim maxDigits 0 reader) := by
  rw [bufferedReaderReadDigitsUntil, if_neg (by simp [hdelim])]

/-- More digits than the limit are read when the buffer has room for them. -/
theorem not_readsUpTo (hdelim : isdigit delim = false) (hmax : 0 < maxDigits)
    (hlong : LongNumber maxDigits delim reader) : ¬ReadsUpTo maxDigits delim reader := by
  obtain ⟨digits, rest, hbytes, hdigits, hlong, hroom⟩ := hlong
  rintro ⟨ret, reader', hok, hcase⟩
  rw [readDigitsUntil_eq reader maxDigits hdelim] at hok
  obtain ⟨reader'', hloop, -⟩ := loop_reads hbytes hdigits hdelim hmax hroom
  rw [hloop] at hok
  obtain ⟨rfl, -⟩ := Prod.mk.inj (Except.ok.inj hok)
  rcases hcase with ⟨-, digits', rest', hread, hle⟩ | ⟨hone, -⟩
  · have hsame : digits = digits' := by
      rw [← takeWhile_digits rest hdigits hdelim, ← hbytes, hread.bytes, takeWhile_digits _ hread.all_digits hdelim]
    rw [hsame] at hlong
    omega
  · cases hone

end BufferedReaderAux

open BufferedReaderAux

/-- A reader that was initialised has its cursor in the buffer, and every call keeps it there. -/
theorem cursor_stays_in_buffer :
    (∀ input buffer reader, bufferedReaderInit input buffer = .ok reader → reader.cursor ≤ reader.buffer.bytes.length) ∧
    ∀ reader delim maxDigits ret reader', reader.cursor ≤ reader.buffer.bytes.length →
      bufferedReaderReadDigitsUntil reader delim maxDigits = .ok (ret, reader') →
        reader'.cursor ≤ reader'.buffer.bytes.length := by
  constructor
  · intro input buffer reader hinit
    unfold bufferedReaderInit at hinit
    split at hinit
    · obtain rfl := Except.ok.inj hinit
      exact Nat.zero_le _
    · cases hinit
  · intro reader delim maxDigits ret reader' hcursor hok
    unfold bufferedReaderReadDigitsUntil at hok
    split at hok
    · cases hok
    · obtain ⟨ret', reader'', hloop, hcase⟩ := loop_cases delim maxDigits hcursor
      simp only [hloop, Except.ok.injEq, Prod.mk.injEq] at hok
      obtain ⟨rfl, rfl⟩ := hok
      rcases hcase with ⟨-, digits, rest, hread, hroom, -⟩ | ⟨-, hle⟩
      · unfold BufferedReader.left at hroom
        rw [hread.cursor, hread.stored]
        simp only [List.length_append, List.length_take, List.length_drop]
        omega
      · exact hle

/-- `buffered_reader_read_digits_until` does what it is to do exactly when the limit is zero or the stream does not begin
with more digits than the limit that the buffer has room for. -/
theorem read_digits_until_iff (reader : BufferedReader) (delim : Byte) (maxDigits : Nat)
    (hcursor : reader.cursor ≤ reader.buffer.bytes.length) (hdelim : isdigit delim = false) :
    ReadsUpTo maxDigits delim reader ↔ ¬(0 < maxDigits ∧ LongNumber maxDigits delim reader) := by
  constructor
  · rintro hreads ⟨hmax, hlong⟩
    exact not_readsUpTo hdelim hmax hlong hreads
  · intro hnot
    obtain ⟨ret, reader', hloop, hcase⟩ := loop_cases delim maxDigits hcursor
    refine ⟨ret, reader', (readDigitsUntil_eq reader maxDigits hdelim).trans (congrArg Except.ok hloop), ?_⟩
    rcases hcase with ⟨hzero, digits, rest, hread, hroom, hmax⟩ | hone
    · refine Or.inl ⟨hzero, digits, rest, hread, ?_⟩
      by_contra hlong
      have hne : digits ≠ [] := by
        rintro rfl
        exact hlong (Nat.zero_le _)
      exact hnot ⟨hmax hne, digits, rest, hread.bytes, hread.all_digits, Nat.lt_of_not_le hlong, hroom⟩
    · exact Or.inr hone

/-- At most nine digits before a colon, read into a buffer of four bytes. -/
theorem read_digits_until_twelve :
    ReadsUpTo 9 colon ⟨⟨[0x31#8, 0x32#8, 0x3A#8], .closed⟩, ⟨[nul, nul, nul, nul], by decide⟩, 0⟩ := by
  refine (read_digits_until_iff ⟨⟨[0x31#8, 0x32#8, 0x3A#8], .closed⟩, ⟨[nul, nul, nul, nul], by decide⟩, 0⟩ colon 9
    (by decide) (by decide)).2 ?_
  rintro ⟨-, digits, rest, -, -, hlong, hroom⟩
  have hleft : digits.length < 4 := hroom
  omega

/-- With a limit of one digit, two digits and the colon are read, and 0 is returned. -/
theorem read_digits_until_exceeds_limit :
    (∃ reader', bufferedReaderReadDigitsUntil
        ⟨⟨[0x31#8, 0x32#8, 0x3A#8], .closed⟩, ⟨[nul, nul, nul, nul], by decide⟩, 0⟩ colon 1 = .ok (0, reader') ∧
      reader'.cursor = 2) ∧
    ¬ReadsUpTo 1 colon ⟨⟨[0x31#8, 0x32#8, 0x3A#8], .closed⟩, ⟨[nul, nul, nul, nul], by decide⟩, 0⟩ := by
  constructor
  · obtain ⟨reader', hloop, hread⟩ :
        ∃ reader', readDigitsUntilLoop colon 1 0
            ⟨⟨[0x31#8, 0x32#8, 0x3A#8], .closed⟩, ⟨[nul, nul, nul, nul], by decide⟩, 0⟩ = (0, reader') ∧
          ReadDigits colon ⟨⟨[0x31#8, 0x32#8, 0x3A#8], .closed⟩, ⟨[nul, nul, nul, nul], by decide⟩, 0⟩ reader'
            [0x31#8, 0x32#8] [] := by
      exact loop_reads rfl (by decide) (by decide) (by decide) (by decide)
    exact ⟨reader', (readDigitsUntil_eq _ 1 (by decide)).trans (congrArg Except.ok hloop), hread.cursor⟩
  · exact not_readsUpTo (by decide) (by decide) ⟨[0x31#8, 0x32#8], [], rfl, by decide, by decide, by decide⟩

end CLangExamples.Scgi
