import CLangExamples.Lemmas.ScgiParser
import CLangExamples.Scgi.Server
import CLangExamples.Theorems.ScgiConnection
import CLangExamples.Theorems.ScgiResponse

/-!
# What the clients of the SCGI server get

Whether a client is answered is decided by the framing of its request alone: the size, the headers and the comma. What the
parser makes of the headers is not looked at, and no client can bring the server down. The framing of a request that is
written as a netstring is right, and then the parser reports the headers that were written.
-/

namespace CLangExamples.Scgi

open Strtoul Transition

/-- The request of a client is framed: a size, as many bytes, and a comma. Where the stream ends behind the bytes, `dummy` is
compared with the comma as it is. -/
def Framed (setsEinval : Bool) (client : Client) : Prop :=
  ∃ ds hs rest, Announced setsEinval client.stream.bytes ds hs rest ∧
    (rest.head? = some comma ∨ (rest = [] ∧ client.stream.ending = .closed ∧ client.garbage = comma))

/-- The response that every answered client is sent. -/
def helloResponse : List Byte := responseText 200 (BitVec.ofNat 64 responseBody.strlen) responseBody

namespace ScgiServerAux

variable {setsEinval : Bool}

/-! ## A connection that fails -/

/-- The digits are read alike from a stream that fails behind its bytes. -/
theorem readDigits_failed (digits : List Byte) (left : Nat) (bytes : List Byte) :
    readDigits digits left ⟨bytes, .failed⟩ =
      (readDigits digits left ⟨bytes, .closed⟩).map fun read => (read.1, ⟨read.2.bytes, .failed⟩) := by
  induction bytes generalizing digits left with
  | nil =>
    unfold readDigits
    rfl
  | cons c bytes ih =>
    unfold readDigits
    rw [recvChar_cons, recvChar_cons]
    simp only
    split
    · rfl
    · split
      · rfl
      · cases left with
        | zero => rfl
        | succ left => exact ih _ _

theorem recv_failed (bytes : List Byte) (size : Nat) (h : ¬(size ≠ 0 ∧ bytes = [])) :
    recv ⟨bytes, .failed⟩ size = (bytes.take size, ((bytes.take size).length : Int), ⟨bytes.drop size, .failed⟩) := by
  unfold recv
  rw [if_neg (fun hfail => h ⟨hfail.1, hfail.2.1⟩)]

theorem recv_failed_nil {size : Nat} (h : size ≠ 0) : recv ⟨[], .failed⟩ size = ([], -1, ⟨[], .failed⟩) := by
  unfold recv
  rw [if_pos ⟨h, rfl, rfl⟩]

/-- The headers are received alike from a stream that fails behind its bytes, or from neither. -/
theorem receiveHeaders_failed (setsEinval : Bool) (bytes : List Byte) :
    (∃ size buffer rest, receiveHeaders setsEinval ⟨bytes, .failed⟩ = .ok (size, buffer, ⟨rest, .failed⟩) ∧
      receiveHeaders setsEinval ⟨bytes, .closed⟩ = .ok (size, buffer, ⟨rest, .closed⟩)) ∨
    ∃ e e', receiveHeaders setsEinval ⟨bytes, .failed⟩ = .error e ∧
      receiveHeaders setsEinval ⟨bytes, .closed⟩ = .error e' := by
  unfold receiveHeaders
  simp only [readDigits_failed]
  cases hread : readDigits [] maxDigits ⟨bytes, .closed⟩ with
  | error e => exact Or.inr ⟨e, e, rfl, rfl⟩
  | ok read =>
    obtain ⟨ds, rest, -, -, -, -, hstream⟩ := ConnectionAux.readDigits_of_ok hread
    obtain ⟨digits, stream⟩ := read
    simp only at hstream
    subst hstream
    simp only [Except.map, ok_bind]
    cases cstrParseSizeT setsEinval digits with
    | none => exact Or.inr ⟨_, _, rfl, rfl⟩
    | some size =>
      simp only
      by_cases hbig : size ≥ scgiHeadersMaxSize
      · rw [if_pos hbig, if_pos hbig]
        exact Or.inr ⟨_, _, rfl, rfl⟩
      · rw [if_neg hbig, if_neg hbig, ConnectionAux.recv_closed]
        by_cases hnone : size ≠ 0 ∧ rest = []
        · obtain ⟨hsize, rfl⟩ := hnone
          rw [recv_failed_nil hsize]
          refine Or.inr ⟨_, .badSize size 0, rfl, ?_⟩
          have hshort : ((0 : Nat) : Int).toNat ≠ size := Ne.symm hsize
          simp only [List.take_nil, List.length_nil]
          rw [if_neg (by decide), if_pos hshort]
          rfl
        · rw [recv_failed rest size hnone]
          simp only
          rw [if_neg (by omega)]
          split
          · exact Or.inr ⟨_, _, rfl, rfl⟩
          · exact Or.inl ⟨_, _, _, rfl, rfl⟩

/-- Headers that are announced on a stream that fails: the byte behind them decides, and there has to be one. -/
theorem connectionHandle_failed {bytes ds hs rest : List Byte} (h : Announced setsEinval bytes ds hs rest)
    (garbage : Byte) :
    connectionHandle setsEinval garbage ⟨bytes, .failed⟩ =
      if rest = [] then .error .readFailed else connectionHandle setsEinval garbage ⟨bytes, .closed⟩ := by
  have hclosed := ConnectionAux.receiveHeaders_announced h
  rcases receiveHeaders_failed setsEinval bytes with ⟨size, buffer, rest', hfailed, hclosed'⟩ | ⟨e, e', -, he⟩
  · rw [hclosed, Except.ok.injEq, Prod.mk.injEq, Prod.mk.injEq, Stream.mk.injEq] at hclosed'
    obtain ⟨hsize, hbuffer, hrest, -⟩ := hclosed'
    unfold connectionHandle
    rw [hfailed, hclosed, ok_bind, ok_bind]
    simp only
    rw [← hsize, ← hbuffer, ← hrest]
    by_cases hnil : rest = []
    · rw [if_pos hnil, hnil, recv_failed_nil (by decide)]
      rfl
    · rw [if_neg hnil, recv_failed rest 1 (fun hnone => hnil hnone.2), ConnectionAux.recv_closed]
  · rw [hclosed] at he
    cases he

/-- Without announced headers nothing is handed over from a stream that fails. -/
theorem connectionHandle_failed_rejects {bytes : List Byte} (h : ¬∃ ds hs rest, Announced setsEinval bytes ds hs rest)
    (garbage : Byte) : ∃ rejected, connectionHandle setsEinval garbage ⟨bytes, .failed⟩ = .error rejected := by
  rcases receiveHeaders_failed setsEinval bytes with ⟨_, _, _, -, hok⟩ | ⟨e, -, he, -⟩
  · exact absurd (ConnectionAux.receiveHeaders_of_ok hok) h
  · refine ⟨e, ?_⟩
    unfold connectionHandle
    rw [he]
    rfl

/-! ## What a connection comes to -/

/-- The byte that `dummy` holds behind headers that are announced is the comma. -/
def CommaBehind (client : Client) (rest : List Byte) : Prop :=
  rest.head? = some comma ∨ (rest = [] ∧ client.stream.ending = .closed ∧ client.garbage = comma)

/-- Headers that are announced and have their comma are handed to the parser. -/
theorem connectionHandle_comma {client : Client} {ds hs rest : List Byte}
    (hannounced : Announced setsEinval client.stream.bytes ds hs rest) (hcomma : CommaBehind client rest) :
    connectionHandle setsEinval client.garbage client.stream =
      .ok (hs ++ [comma], scgiParserInit (hs ++ [comma]) >>= scgiParserParse) := by
  obtain ⟨⟨bytes, ending⟩, garbage, bytesSent⟩ := client
  have hdummy : rest.head?.getD garbage = comma := by
    rcases hcomma with hhead | ⟨rfl, -, hgarbage⟩
    · rw [hhead, Option.getD_some]
    · exact hgarbage
  have hclosed : connectionHandle setsEinval garbage ⟨bytes, .closed⟩ =
      .ok (hs ++ [comma], scgiParserInit (hs ++ [comma]) >>= scgiParserParse) := by
    rw [ConnectionAux.connectionHandle_announced hannounced, hdummy]
    rfl
  cases ending with
  | closed => exact hclosed
  | failed =>
    rcases hcomma with hhead | ⟨-, hending, -⟩
    · have hne : rest ≠ [] := by
        rintro rfl
        cases hhead
      show connectionHandle setsEinval garbage ⟨bytes, .failed⟩ = _
      rw [connectionHandle_failed hannounced, if_neg hne, hclosed]
    · cases hending

/-- A request that is not framed is given up before the parser. -/
theorem connectionHandle_not_framed {client : Client} (h : ¬Framed setsEinval client) :
    ∃ rejected, connectionHandle setsEinval client.garbage client.stream = .error rejected := by
  obtain ⟨⟨bytes, ending⟩, garbage, bytesSent⟩ := client
  by_cases hannounced : ∃ ds hs rest, Announced setsEinval bytes ds hs rest
  · obtain ⟨ds, hs, rest, hannounced⟩ := hannounced
    have hcomma := fun hc => h ⟨ds, hs, rest, hannounced, hc⟩
    cases ending with
    | closed =>
      have hdummy : rest.head?.getD garbage ≠ comma := by
        intro hdummy
        cases rest with
        | nil => exact hcomma (Or.inr ⟨rfl, rfl, hdummy⟩)
        | cons c rest => exact hcomma (Or.inl (congrArg some hdummy))
      refine ⟨.noComma (rest.head?.getD garbage), ?_⟩
      show connectionHandle setsEinval garbage ⟨bytes, .closed⟩ = _
      rw [ConnectionAux.connectionHandle_announced hannounced, ConnectionAux.handOver, if_pos hdummy]
    | failed =>
      show ∃ rejected, connectionHandle setsEinval garbage ⟨bytes, .failed⟩ = _
      rw [connectionHandle_failed hannounced, ConnectionAux.connectionHandle_announced hannounced]
      cases rest with
      | nil => exact ⟨_, rfl⟩
      | cons c rest =>
        have hdummy : c ≠ comma := fun hc => hcomma (Or.inl (congrArg some hc))
        refine ⟨.noComma c, ?_⟩
        rw [if_neg (List.cons_ne_nil c rest), List.head?_cons, Option.getD_some, ConnectionAux.handOver, if_pos hdummy]
  · cases ending with
    | closed =>
      obtain ⟨rejected, hrejects⟩ := ConnectionAux.connectionHandle_rejects hannounced
      exact ⟨rejected, hrejects garbage⟩
    | failed => exact connectionHandle_failed_rejects hannounced garbage

/-- The parser returns, whatever is in front of the comma. -/
theorem parse_returns (hs : List Byte) : ∃ parsed, (scgiParserInit (hs ++ [comma]) >>= scgiParserParse) = .ok parsed := by
  have hpos : (hs ++ [comma]).length > 0 := by simp
  have hinit : scgiParserInit (hs ++ [comma]) = .ok ⟨.parsingHeaderName, hs ++ [comma], 0, 0⟩ := by
    unfold scgiParserInit
    rw [if_pos hpos]
  have hends := (scgiParserParse_decodes hinit).2
  rw [hinit, ok_bind]
  generalize decode .headerName [] (hs ++ [comma]) = found at hends
  generalize scgiParserParse _ = result at hends
  cases hends with
  | done _ _ _ _ _ => exact ⟨_, rfl⟩
  | failed _ => exact ⟨_, rfl⟩

/-- The response is sent, whatever `send` returns. -/
theorem send_response (bytesSent : Int) :
    scgiSendText bytesSent 200 responseBody (BitVec.ofNat 64 responseBody.strlen) =
      .ok ⟨if bytesSent = -1 then 1 else 0, some helloResponse⟩ := by
  have hsmall : responseBody.strlen = 14 := rfl
  rw [ScgiResponseAux.scgiSendText_eq (by decide) (by decide) rfl (by omega) (by omega), if_pos (by omega)]
  rfl

open Classical in
theorem connectionRespond_eq (client : Client) :
    connectionRespond setsEinval client = .ok (if Framed setsEinval client then some helloResponse else none) := by
  unfold connectionRespond
  by_cases h : Framed setsEinval client
  · obtain ⟨ds, hs, rest, hannounced, hcomma⟩ := h
    obtain ⟨parsed, hparsed⟩ := parse_returns hs
    rw [connectionHandle_comma hannounced hcomma, if_pos ⟨ds, hs, rest, hannounced, hcomma⟩, hparsed]
    simp only [ok_bind]
    rw [send_response]
    rfl
  · obtain ⟨rejected, hhandle⟩ := connectionHandle_not_framed h
    rw [hhandle, if_neg h]

/-- The decimal digits as characters and as bytes. -/
theorem digit_bytes : ∀ k < 10, isdigit (BitVec.ofNat 8 (Char.ofNat (48 + k)).toNat) = true ∧
    (BitVec.ofNat 8 (Char.ofNat (48 + k)).toNat).toNat - 0x30 = Printf.digitValue (Char.ofNat (48 + k)) := by
  decide

theorem digit_byte {c : Char} (h : c.isDigit = true) :
    isdigit (BitVec.ofNat 8 c.toNat) = true ∧ (BitVec.ofNat 8 c.toNat).toNat - 0x30 = Printf.digitValue c := by
  rw [Char.isDigit_iff_toNat] at h
  obtain ⟨hlow, hhigh⟩ : 48 ≤ c.toNat ∧ c.toNat ≤ 57 := h
  have hc : c = Char.ofNat (48 + (c.toNat - 48)) := by
    rw [Nat.add_sub_cancel' hlow, Char.ofNat_toNat]
  rw [hc]
  exact digit_bytes (c.toNat - 48) (by omega)

theorem number_ne_nil (n : Nat) : Printf.number 10 0 n ≠ [] := by
  unfold Printf.number
  rw [List.leftpad]
  rcases Nat.lt_or_ge n 10 with h | h
  · rw [Printf.digits_of_lt h]
    simp
  · rw [Printf.digits_of_le (by decide) h]
    simp

theorem isdigit_ascii {digits : List Char} (h : ∀ c ∈ digits, c.isDigit = true) :
    ∀ b ∈ ascii digits, isdigit b = true := by
  intro b hb
  obtain ⟨c, hc, rfl⟩ := List.mem_map.mp hb
  exact (digit_byte (h c hc)).1

/-- The bytes of a row of decimal digits stand for its number. -/
theorem digitsValue_ascii {digits : List Char} (h : ∀ c ∈ digits, c.isDigit = true) :
    digitsValue (ascii digits) = Printf.readNumber 10 digits := by
  unfold digitsValue Printf.readNumber ascii
  rw [List.foldl_map]
  refine List.foldl_ext _ _ _ ?_
  intro n c hc
  rw [(digit_byte (h c hc)).2, Nat.mul_comm]

end ScgiServerAux

open ScgiServerAux

/-- Headers as a client writes them: the netstring of the header block. -/
def netstring (headers : List Header) : List Byte :=
  ascii (Printf.number 10 0 (encodeHeaders headers).length) ++ colon :: (encodeHeaders headers ++ [comma])

/-- A request arrives. If a client sends headers as a netstring of less than 1024 bytes, with names and values of at most 254
bytes that can be told apart, then whatever it sends after them, and however the connection ends, the parser is handed the
header block and its comma, returns 0 and reports those headers in order with an empty body; and the client is answered. -/
theorem scgi_request_arrives (setsEinval : Bool) (client : Client) (headers : List Header) (rest : List Byte)
    (hbytes : client.stream.bytes = netstring headers ++ rest)
    (hclean : ∀ header ∈ headers, header.Clean ∧ header.1.length ≤ 254 ∧ header.2.length ≤ 254)
    (hsize : (encodeHeaders headers).length < scgiHeadersMaxSize) :
    ∃ parsed, connectionHandle setsEinval client.garbage client.stream = .ok (encode headers [], .ok parsed) ∧
      parsed.rc = 0 ∧ reports parsed.log = reportsOf headers [] ∧
      connectionRespond setsEinval client = .ok (some helloResponse) := by
  have hdigits := Printf.decimal_isDigit (encodeHeaders headers).length
  have hannounced : Announced setsEinval client.stream.bytes (ascii (Printf.number 10 0 (encodeHeaders headers).length))
      (encodeHeaders headers) (comma :: rest) := by
    have hmax : scgiHeadersMaxSize = 1024 := rfl
    refine ⟨isdigit_ascii hdigits, ?_, ?_, ?_, hsize, ?_⟩
    · rw [ScgiResponseAux.length_ascii]
      exact (Printf.length_decimal_le_iff (by decide)).2 (by omega)
    · intro hnil
      exact absurd (List.map_eq_nil_iff.mp hnil) (number_ne_nil _)
    · rw [digitsValue_ascii hdigits, Printf.readNumber_number (by decide) (by decide)]
    · rw [hbytes, netstring]
      simp
  have hhandle := connectionHandle_comma hannounced (Or.inl rfl)
  have hframed : Framed setsEinval client := ⟨_, _, _, hannounced, Or.inl rfl⟩
  have hrespond : connectionRespond setsEinval client = .ok (some helloResponse) := by
    rw [connectionRespond_eq, if_pos hframed]
  have hinit : scgiParserInit (encode headers []) = .ok ⟨.parsingHeaderName, encode headers [], 0, 0⟩ := by
    unfold scgiParserInit
    rw [if_pos (by simp [encode])]
  have hends := (scgiParserParse_decodes hinit).2
  rw [decode_encode hclean (by simp)] at hends
  generalize hresult : scgiParserParse ⟨.parsingHeaderName, encode headers [], 0, 0⟩ = result at hends
  cases hends with
  | @done _ entries parser' hreports _ _ _ _ =>
    refine ⟨⟨0, parser', [.parsing] ++ entries⟩, ?_, rfl, hreports, hrespond⟩
    rw [hhandle]
    show Except.ok (encode headers [], scgiParserInit (encode headers []) >>= scgiParserParse) = _
    rw [hinit, ok_bind, hresult]

/-- The header `S` with the value `1`, and an `H` behind the headers. -/
theorem scgi_request_arrives_small :
    ∃ parsed, connectionHandle true nul ⟨netstring [([0x53#8], [0x31#8])] ++ [0x48#8], .closed⟩ =
        .ok (encode [([0x53#8], [0x31#8])] [], .ok parsed) ∧
      parsed.rc = 0 ∧ reports parsed.log = reportsOf [([0x53#8], [0x31#8])] [] := by
  have hclean : ∀ header ∈ [([0x53#8], [0x31#8])], Header.Clean header ∧ header.1.length ≤ 254 ∧
      header.2.length ≤ 254 := by
    intro header hheader
    obtain rfl := List.mem_singleton.mp hheader
    exact ⟨⟨by decide, by decide, by decide⟩, by decide, by decide⟩
  obtain ⟨parsed, hhandle, hrc, hreports, -⟩ := scgi_request_arrives true
    ⟨⟨netstring [([0x53#8], [0x31#8])] ++ [0x48#8], .closed⟩, nul, 0⟩ _ [0x48#8] rfl hclean (by decide)
  exact ⟨parsed, hhandle, hrc, hreports⟩

end CLangExamples.Scgi
