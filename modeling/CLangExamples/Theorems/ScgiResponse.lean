import CLangExamples.Scgi.Response

/-!
# What `scgi_send_text` sends

The check on the size of the output compares only the text with the buffer. The header lines take 77 bytes and the digits
of `Content-Length` besides, and the NUL one more, so a text of 4015 to 4096 bytes passes the check and fails the assertion
on what `snprintf` returned.
-/

namespace CLangExamples.Scgi

/-- A row of decimal digits with a value. -/
def IsDecimal (digits : List Char) (value : Nat) : Prop :=
  (∀ c ∈ digits, c.isDigit = true) ∧ Printf.readNumber 10 digits = value

/-- The header lines of a text response. -/
def headerLines (status contentLength : List Char) : List (List Char) :=
  ["Status: ".toList ++ status ++ " OK".toList, "Content-Length: ".toList ++ contentLength,
    "Content-Type: text/plain; charset=utf-8".toList]

/-- The complete header lines, a blank line and the whole text; the value of `Content-Length` is the number of bytes after
the blank line. -/
def IsResponse (statusCode : Int) (text : CString) (sent : List Byte) : Prop :=
  ∃ status contentLength : List Char,
    IsDecimal status statusCode.toNat ∧ IsDecimal contentLength text.bytes.length ∧
    sent = ascii ((headerLines status contentLength).flatMap (· ++ "\r\n".toList)) ++ ascii "\r\n".toList ++ text.bytes

/-- No assertion failed, and a text that is too big was refused without sending or a whole response was sent. -/
def SendsOrRefuses (statusCode : Int) (text : CString) (outcome : Except Halt SendText) : Prop :=
  ∃ result, outcome = .ok result ∧
    ((result.rc = 1 ∧ result.sent = none ∧ scgiOutputBufferSize < text.strlen) ∨
      ∃ sent, result.sent = some sent ∧ IsResponse statusCode text sent)

namespace ScgiResponseAux

@[simp]
theorem ascii_append (as bs : List Char) : ascii (as ++ bs) = ascii as ++ ascii bs := List.map_append

@[simp]
theorem length_ascii (cs : List Char) : (ascii cs).length = cs.length := List.length_map _

theorem isDecimal_number (n : Nat) : IsDecimal (Printf.number 10 0 n) n :=
  ⟨Printf.decimal_isDigit n, Printf.readNumber_number (by decide) (by decide) 0 n⟩

/-- `snprintf` returns the length of the output; one that leaves room for the NUL is in the buffer as it is. -/
theorem snprintf_spec (size : Nat) (output : List Byte) :
    ∃ buffer, snprintf size output = (output.length, buffer) ∧
      (output.length < size → buffer.take output.length = output) := by
  refine ⟨_, rfl, ?_⟩
  intro h
  have hwritten : output.take (size - 1) = output := List.take_of_length_le (by omega)
  rw [hwritten]
  exact List.take_left

variable {bytesSent statusCode : Int} {text : CString} {textLen : BitVec 64}

theorem formatInt_status (h : 100 ≤ statusCode) : formatInt statusCode = Printf.number 10 0 statusCode.toNat := by
  unfold formatInt
  rw [if_neg (by omega)]

theorem length_status (h : 100 ≤ statusCode) (h' : statusCode < 600) : (formatInt statusCode).length = 3 := by
  rw [formatInt_status h]
  have hle : (Printf.number 10 0 statusCode.toNat).length ≤ 3 := (Printf.length_decimal_le_iff (by decide)).2 (by omega)
  have hgt : ¬(Printf.number 10 0 statusCode.toNat).length ≤ 2 := mt (Printf.length_decimal_le_iff (by decide)).1 (by omega)
  omega

/-- The length of the whole output: 77 bytes, the digits of `Content-Length` and the text. -/
theorem length_responseText (h : 100 ≤ statusCode) (h' : statusCode < 600) :
    (responseText statusCode textLen text).length = 77 + (formatSize textLen).length + text.strlen := by
  have hstatus := length_status h h'
  unfold responseText CString.strlen
  simp only [List.length_append, length_ascii, hstatus]
  show 8 + 3 + 5 + 16 + (formatSize textLen).length + 2 + 41 + 2 + text.bytes.length = _
  omega

/-- Of the texts that pass the check on the size, those of up to 4014 bytes leave room for the headers and the NUL. -/
theorem response_fits_iff (h : 100 ≤ statusCode) (h' : statusCode < 600) (hlen : textLen.toNat = text.strlen)
    (hle : text.strlen ≤ 4096) : (responseText statusCode textLen text).length < 4096 ↔ text.strlen ≤ 4014 := by
  have hdigits : (formatSize textLen).length ≤ 4 := (Printf.length_decimal_le_iff (by decide)).2 (by omega)
  rw [length_responseText h h']
  constructor
  · intro hfits
    by_contra hbig
    have hfour : ¬(formatSize textLen).length ≤ 3 := mt (Printf.length_decimal_le_iff (by decide)).1 (by omega)
    omega
  · intro hsmall
    omega

/-- The bytes of the output are a response. -/
theorem isResponse_responseText (h : 100 ≤ statusCode) (hlen : textLen.toNat = text.strlen) :
    IsResponse statusCode text (responseText statusCode textLen text) := by
  refine ⟨_, _, isDecimal_number statusCode.toNat, isDecimal_number text.bytes.length, ?_⟩
  have hok : " OK\r\n".toList = " OK".toList ++ "\r\n".toList := rfl
  have htype : "Content-Type: text/plain; charset=utf-8\r\n".toList =
      "Content-Type: text/plain; charset=utf-8".toList ++ "\r\n".toList := rfl
  unfold responseText formatSize headerLines
  rw [formatInt_status h, hlen, CString.strlen, hok, htype]
  simp only [List.flatMap_cons, List.flatMap_nil, ascii_append, List.append_assoc, List.append_nil]

/-- A text with a byte passes the assertion on its length. -/
theorem textLen_pos (hlen : textLen.toNat = text.strlen) (hpos : 1 ≤ text.strlen) : textLen > 0#64 := by
  show (0#64).toNat < textLen.toNat
  rw [hlen]
  exact hpos

/-- What a call with a fitting status and length comes to after the check on the size. -/
theorem scgiSendText_eq (h : 100 ≤ statusCode) (h' : statusCode < 600) (hlen : textLen.toNat = text.strlen)
    (hpos : 1 ≤ text.strlen) (hle : text.strlen ≤ 4096) :
    scgiSendText bytesSent statusCode text textLen =
      if text.strlen ≤ 4014 then
        .ok ⟨if bytesSent = -1 then 1 else 0, some (responseText statusCode textLen text)⟩
      else .error .assertion := by
  have hsize := textLen_pos hlen hpos
  have hfits := response_fits_iff h h' hlen hle
  have hformatted := @length_responseText statusCode text textLen h h'
  obtain ⟨buffer, hbuffer, htake⟩ := snprintf_spec scgiOutputBufferSize (responseText statusCode textLen text)
  unfold scgiSendText
  rw [if_neg (not_not.mpr ⟨h, h'⟩), if_neg (not_not.mpr hsize), if_neg (by rw [hlen]; exact Nat.not_lt.mpr hle), hbuffer]
  simp only
  rw [if_neg (by omega)]
  by_cases hsmall : text.strlen ≤ 4014
  · have hfit := hfits.2 hsmall
    rw [if_neg (not_not.mpr hfit), if_pos hsmall, htake hfit]
    split <;> rfl
  · rw [if_pos (mt hfits.1 hsmall), if_neg hsmall]

/-- A text that is longer than the buffer is refused. -/
theorem scgiSendText_refuses (h : 100 ≤ statusCode) (h' : statusCode < 600) (hlen : textLen.toNat = text.strlen)
    (hbig : 4096 < text.strlen) : scgiSendText bytesSent statusCode text textLen = .ok ⟨1, none⟩ := by
  have hsize := textLen_pos hlen (by omega)
  unfold scgiSendText
  rw [if_neg (not_not.mpr ⟨h, h'⟩), if_neg (not_not.mpr hsize), if_pos (by rw [hlen]; exact hbig)]

end ScgiResponseAux

open ScgiResponseAux

/-- `scgi_send_text` fails no assertion and sends the whole response, or refuses the text, just when the text is not one of
4015 to 4096 bytes. -/
theorem scgiSendText_sends_or_refuses_iff (bytesSent statusCode : Int) (text : CString) (textLen : BitVec 64)
    (hstatus : 100 ≤ statusCode ∧ statusCode < 600) (hlen : textLen.toNat = text.strlen) (hpos : 1 ≤ text.strlen) :
    SendsOrRefuses statusCode text (scgiSendText bytesSent statusCode text textLen) ↔
      text.strlen ≤ 4014 ∨ 4096 < text.strlen := by
  obtain ⟨hlow, hhigh⟩ := hstatus
  rcases Nat.lt_or_ge 4096 text.strlen with hbig | hle
  · refine iff_of_true ⟨_, scgiSendText_refuses hlow hhigh hlen hbig, ?_⟩ (Or.inr hbig)
    exact Or.inl ⟨rfl, rfl, hbig⟩
  · rw [scgiSendText_eq hlow hhigh hlen hpos hle]
    by_cases hsmall : text.strlen ≤ 4014
    · rw [if_pos hsmall]
      refine iff_of_true ⟨_, rfl, ?_⟩ (Or.inl hsmall)
      exact Or.inr ⟨_, rfl, isResponse_responseText hlow hlen⟩
    · rw [if_neg hsmall]
      refine iff_of_false ?_ (by omega)
      rintro ⟨result, hresult, -⟩
      nomatch hresult

/-- The body `Hi` with status 200. -/
theorem scgiSendText_sends_hi :
    SendsOrRefuses 200 ⟨[0x48#8, 0x69#8], by decide⟩ (scgiSendText 82 200 ⟨[0x48#8, 0x69#8], by decide⟩ 2#64) :=
  (scgiSendText_sends_or_refuses_iff 82 200 ⟨[0x48#8, 0x69#8], by decide⟩ 2#64 (by decide) (by decide) (by decide)).2
    (by decide)

/-- A text of 4015 bytes `a`. -/
def longText : CString := ⟨List.replicate 4015 0x61#8, fun h => absurd (List.eq_of_mem_replicate h) (by decide)⟩

/-- With a text of 4015 bytes the check on the size passes and the assertion on the formatted length fails. -/
theorem scgiSendText_long_text_fails_assertion :
    longText.strlen = 4015 ∧ scgiSendText 4096 200 longText 4015#64 = .error .assertion ∧
      ¬SendsOrRefuses 200 longText (scgiSendText 4096 200 longText 4015#64) := by
  have hstrlen : longText.strlen = 4015 := List.length_replicate
  have hfails : scgiSendText 4096 200 longText 4015#64 = .error .assertion := by
    rw [scgiSendText_eq (by decide) (by decide) (by rw [hstrlen]; decide) (by omega) (by omega)]
    exact if_neg (by omega)
  refine ⟨hstrlen, hfails, ?_⟩
  rintro ⟨result, hresult, -⟩
  rw [hfails] at hresult
  nomatch hresult

end CLangExamples.Scgi
