import CLangExamples.Lib.Run
import CLangExamples.Scgi.Parser

/-!
# Requests and their bytes

A request as the parser sees it, without the netstring around its headers: `encode` writes it, `decode` reads it. `decode`
is what the parser does, said on the bytes still to come and those of the field it is in.
-/

namespace CLangExamples.Scgi

open Transition

/-- A header: its name and its value. -/
abbrev Header : Type := List Byte × List Byte

/-- `name NUL value NUL` -/
def encodeHeader (header : Header) : List Byte := header.1 ++ nul :: (header.2 ++ [nul])

/-- `(name NUL value NUL)*` -/
def encodeHeaders (headers : List Header) : List Byte := headers.flatMap encodeHeader

/-- `(name NUL value NUL)* ',' body` -/
def encode (headers : List Header) (body : List Byte) : List Byte := encodeHeaders headers ++ comma :: body

/-- A header that can be written and read back: no NUL in it and no comma in its name. -/
structure Header.Clean (header : Header) : Prop where
  name_nul : nul ∉ header.1
  name_comma : comma ∉ header.1
  value_nul : nul ∉ header.2

/-- A field that the parser found, and its bytes. -/
abbrev Report : Type := Field × List Byte

/-- What an entry of the log reports: the bytes that were copied. -/
def Log.report : Log → Option Report
  | .got field buffer byteLen => some (field, buffer.take byteLen)
  | _ => none

/-- The fields that a log reports, in order. -/
def reports (log : List Log) : List Report := log.filterMap Log.report

/-- The fields of a header. -/
def headerReports (header : Header) : List Report := [(.headerName, header.1), (.headerValue, header.2)]

/-- The fields of a request, in order. -/
def reportsOf (headers : List Header) (body : List Byte) : List Report :=
  headers.flatMap headerReports ++ [(.body, body)]

/-- A field that the parser finds has room in its buffer. -/
def fits (field : Field) (bytes : List Byte) : Except Log Report :=
  if bytes.length ≥ bufferSize - 1 then .error (.tooManyBytes field) else .ok (field, bytes)

/-- The fields found in the bytes still to come, with the bytes `pending` of the field begun, or the error that is
logged. -/
def decode : Field → (pending : List Byte) → List Byte → Except Log (List Report)
  | .body, pending, [] => do
    let body ← fits .body pending
    return [body]
  | _, _, [] => .error .illegalState
  | .headerName, pending, c :: rest =>
    if c = comma then decode .body [] rest
    else if c ≠ nul then decode .headerName (pending ++ [c]) rest
    else do
      let name ← fits .headerName pending
      let found ← decode .headerValue [] rest
      return name :: found
  | .headerValue, pending, c :: rest =>
    if c ≠ nul then decode .headerValue (pending ++ [c]) rest
    else do
      let value ← fits .headerValue pending
      let found ← decode .headerName [] rest
      return value :: found
  | .body, pending, c :: rest => decode .body (pending ++ [c]) rest

/-! ## Decoding what was encoded -/

theorem fits_of_le {field : Field} {bytes : List Byte} (h : bytes.length ≤ 254) : fits field bytes = .ok (field, bytes) := by
  unfold fits bufferSize
  rw [if_neg (by omega)]

/-- The body is all that is still to come. -/
theorem decode_body (pending rest : List Byte) :
    decode .body pending rest = (fits .body (pending ++ rest)).map fun body => [body] := by
  induction rest generalizing pending with
  | nil =>
    rw [decode, List.append_nil]
    rfl
  | cons c rest ih => rw [decode, ih, List.append_assoc, List.singleton_append]

/-- A header name goes up to the NUL. -/
theorem decode_name {name : List Byte} (hnul : nul ∉ name) (hcomma : comma ∉ name) (pending rest : List Byte) :
    decode .headerName pending (name ++ rest) = decode .headerName (pending ++ name) rest := by
  induction name generalizing pending with
  | nil => simp
  | cons c name ih =>
    simp only [List.mem_cons, not_or] at hnul hcomma
    rw [List.cons_append, decode, if_neg (Ne.symm hcomma.1), if_pos (Ne.symm hnul.1), ih hnul.2 hcomma.2]
    simp

/-- A header value goes up to the NUL. -/
theorem decode_value {value : List Byte} (hnul : nul ∉ value) (pending rest : List Byte) :
    decode .headerValue pending (value ++ rest) = decode .headerValue (pending ++ value) rest := by
  induction value generalizing pending with
  | nil => simp
  | cons c value ih =>
    simp only [List.mem_cons, not_or] at hnul
    rw [List.cons_append, decode, if_pos (Ne.symm hnul.1), ih hnul.2]
    simp

theorem decode_header {header : Header} (h : header.Clean) (hname : header.1.length ≤ 254)
    (hvalue : header.2.length ≤ 254) (rest : List Byte) :
    decode .headerName [] (encodeHeader header ++ rest) =
      (decode .headerName [] rest).map fun found => headerReports header ++ found := by
  have hsplit : encodeHeader header ++ rest = header.1 ++ nul :: (header.2 ++ nul :: rest) := by
    simp [encodeHeader]
  rw [hsplit, decode_name h.name_nul h.name_comma, List.nil_append, decode, if_neg (by decide), if_neg (by decide),
    fits_of_le hname, decode_value h.value_nul, List.nil_append, decode, if_neg (by decide), fits_of_le hvalue]
  cases decode .headerName [] rest with
  | error e => rfl
  | ok found => rfl

/-- Decoding undoes encoding. -/
theorem decode_encode {headers : List Header} {body : List Byte}
    (h : ∀ header ∈ headers, header.Clean ∧ header.1.length ≤ 254 ∧ header.2.length ≤ 254) (hbody : body.length ≤ 254) :
    decode .headerName [] (encode headers body) = .ok (reportsOf headers body) := by
  unfold encode encodeHeaders reportsOf
  induction headers with
  | nil =>
    rw [List.flatMap_nil, List.nil_append, decode, if_pos rfl, decode_body, List.nil_append, fits_of_le hbody]
    rfl
  | cons header headers ih =>
    obtain ⟨hclean, hname, hvalue⟩ := h header (by simp)
    rw [List.flatMap_cons, List.append_assoc, decode_header hclean hname hvalue, ih (fun x hx => h x (by simp [hx]))]
    simp [Except.map]

/-! ## What is decoded -/

end CLangExamples.Scgi
