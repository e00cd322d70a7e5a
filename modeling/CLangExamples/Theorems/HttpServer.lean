import CLangExamples.Http.Server
import CLangExamples.Lib.Run

/-!
# What a payload can do to the server

The server closes the socket of a client that has sent something and accepts the next one, except that a payload of a single
byte fails the assertion of `http_headers_validate` and ends the process (`serve_survives_iff`).
-/

namespace CLangExamples.Http

open Transition

/-- A client that has sent `payload`, as `poll` reports: one `recv` delivers all of it. -/
def Client.Sends (client : Client) (payload : List Byte) : Prop :=
  client.poll = .ready true ∧ client.payload = some payload ∧ 1 ≤ payload.length ∧ payload.length ≤ 4094

/-- The header dump of a request stays among the bytes read. -/
def DumpInside (request : Handled) : Prop :=
  ∀ offset, request.validated = some (.ok offset) → ∃ bytesRead, request.bytesRead = some bytesRead ∧
    (offset : Int) ≤ bytesRead

/-- The loop serves all the clients and closes their sockets, and no header dump goes past the bytes read. -/
def Survives (clients : List Client) : Prop :=
  ∃ handled, serve clients = .ok handled ∧ handled.length = clients.length ∧ ∀ request ∈ handled, DumpInside request

namespace ServerAux

theorem assert_true (assertion : Assertion) {c : Prop} [Decidable c] (h : c) : assert assertion c = .ok () := by
  unfold assert
  rw [if_pos h]

/-- The buffer that `recv_or_timeout` leaves starts with the payload. -/
theorem recvOrTimeout_payload {client : Client} {payload : List Byte} (h : client.Sends payload) (buffer : List Byte) :
    ∃ rest, recvOrTimeout client buffer unsafeBufferMaxSize = .ok (some (payload ++ rest, payload.length)) := by
  obtain ⟨hpoll, hpayload, -, hle⟩ := h
  have htake : payload.take (unsafeBufferMaxSize - 1) = payload := List.take_of_length_le hle
  refine ⟨(overwrite buffer (List.replicate unsafeBufferMaxSize 0#8)).drop payload.length, ?_⟩
  unfold recvOrTimeout
  rw [hpoll]
  simp only
  rw [assert_true .pollin trivial, ok_bind, assert_true .bufferSize (by decide), ok_bind, recv, hpayload]
  simp only
  rw [htake]
  rfl

theorem bytesPrinted_pos : bytesPrinted > 0 := by
  unfold bytesPrinted response responseBody
  simp only [String.length_append]
  have htext : "Connection: closed\r\n".length = 20 := by decide
  omega

/-- How the body of the loop ends, by what the validation of the payload returned. -/
def endOfRequest (client : Client) (payload rest : List Byte) : Option Result → Except Assertion Handled
  | none => .error .headersSize
  | some (.err warning) => .ok ⟨some payload.length, some (.err warning), [], none⟩
  | some (.ok offset) => .ok ⟨some payload.length, some (.ok offset), (payload ++ rest).take offset ++ [lf] ++
      response.toList.map fun c => BitVec.ofNat 8 c.toNat, some client.bytesSent⟩

/-- What the body of the loop does with a payload: the validation decides. -/
theorem handleRequest_payload {client : Client} {payload : List Byte} (h : client.Sends payload) :
    ∃ rest, handleRequest client = endOfRequest client payload rest (httpHeadersValidate payload) := by
  obtain ⟨rest, hrecv⟩ := recvOrTimeout_payload h (List.replicate unsafeBufferSize 0#8)
  obtain ⟨-, -, hpos, hle⟩ := h
  have htake : (payload ++ rest).take (payload.length : Int).toNat = payload := List.take_left
  have hread : (payload.length : Int).toNat ≤ unsafeBufferMaxSize := by
    unfold unsafeBufferMaxSize unsafeBufferSize
    omega
  refine ⟨rest, ?_⟩
  unfold handleRequest
  simp only
  rw [hrecv, ok_bind]
  simp only
  rw [if_neg (by omega), assert_true .bytesRead hread, ok_bind, htake]
  cases httpHeadersValidate payload with
  | none => rfl
  | some result =>
    cases result with
    | err warning => rfl
    | ok offset =>
      simp only
      rw [assert_true .bytesPrinted bytesPrinted_pos]
      rfl

/-- The end of the headers lies among the bytes that were scanned. -/
theorem validateLoop_offset_le {state i offset : Nat} {bytes : List Byte} (h : validateLoop state i bytes = .ok offset) :
    offset ≤ i + bytes.length := by
  induction bytes generalizing state i with
  | nil => cases h
  | cons byte bytes ih =>
    rw [List.length_cons]
    unfold validateLoop at h
    split at h
    · cases h
    · have := Result.ok.inj h
      omega
    · have := ih h
      omega

/-- One request: a payload of a single byte ends the process, any other is handled. -/
theorem handleRequest_cases {client : Client} {payload : List Byte} (h : client.Sends payload) :
    (payload.length = 1 ∧ handleRequest client = .error .headersSize) ∨
    (payload.length ≠ 1 ∧ ∃ request, handleRequest client = .ok request ∧ DumpInside request) := by
  obtain ⟨rest, hhandle⟩ := handleRequest_payload h
  have hpos := h.2.2.1
  by_cases hlength : payload.length > 1
  · rw [httpHeadersValidate, if_pos hlength] at hhandle
    refine Or.inr ⟨by omega, ?_⟩
    cases hloop : validateLoop 0 0 payload with
    | err warning =>
      rw [hloop] at hhandle
      exact ⟨_, hhandle, fun offset hoffset => nomatch hoffset⟩
    | ok offset =>
      rw [hloop] at hhandle
      have hle := validateLoop_offset_le hloop
      refine ⟨_, hhandle, fun offset' hoffset => ⟨payload.length, rfl, ?_⟩⟩
      have heq : offset = offset' := Result.ok.inj (Option.some.inj hoffset)
      omega
  · rw [httpHeadersValidate, if_neg hlength] at hhandle
    exact Or.inl ⟨by omega, hhandle⟩

/-- The loop goes on after a request that was handled. -/
theorem survives_cons {client : Client} {clients : List Client} {payload : List Byte} (h : client.Sends payload) :
    Survives (client :: clients) ↔ payload.length ≠ 1 ∧ Survives clients := by
  unfold Survives
  rw [serve]
  rcases handleRequest_cases h with ⟨hlength, hhandle⟩ | ⟨hlength, request, hhandle, hinside⟩
  · rw [hhandle]
    constructor
    · rintro ⟨handled, hserve, -⟩
      cases hserve
    · rintro ⟨hne, -⟩
      exact absurd hlength hne
  · rw [hhandle, ok_bind]
    constructor
    · rintro ⟨handled, hserve, hcount, hall⟩
      obtain ⟨rest, hrest, hreturn⟩ := bind_eq_ok hserve
      obtain rfl := Except.ok.inj hreturn
      exact ⟨hlength, rest, hrest, by simpa using hcount, (List.forall_mem_cons.mp hall).2⟩
    · rintro ⟨-, rest, hrest, hcount, hall⟩
      exact ⟨request :: rest, by rw [hrest]; rfl, by simp [hcount], List.forall_mem_cons.mpr ⟨hinside, hall⟩⟩

end ServerAux

open ServerAux

/-- The server survives its clients exactly when none of them sends a single byte. -/
theorem serve_survives_iff (clients : List Client) (h : ∀ client ∈ clients, ∃ payload, client.Sends payload) :
    Survives clients ↔ ∀ client ∈ clients, ∀ payload, client.payload = some payload → payload.length ≠ 1 := by
  induction clients with
  | nil => simp [Survives, serve]
  | cons client clients ih =>
    obtain ⟨payload, hsends⟩ := h client List.mem_cons_self
    have hone : (∀ sent, client.payload = some sent → sent.length ≠ 1) ↔ payload.length ≠ 1 := by
      rw [hsends.2.1]
      simp
    have hrest := ih fun other hother => h other (List.mem_cons_of_mem client hother)
    rw [survives_cons hsends, List.forall_mem_cons, hone, hrest]

/-- A client that sends the end of the headers and nothing else. -/
theorem serve_survives_iff_crlf :
    Survives [⟨.ready true, some [cr, lf, cr, lf], 0⟩] := by
  refine (serve_survives_iff [⟨.ready true, some [cr, lf, cr, lf], 0⟩] ?_).mpr ?_
  · intro client hclient
    obtain rfl := List.mem_singleton.mp hclient
    exact ⟨[cr, lf, cr, lf], rfl, rfl, by decide, by decide⟩
  · intro client hclient payload hpayload
    obtain rfl := List.mem_singleton.mp hclient
    obtain rfl := Option.some.inj hpayload
    decide

/-- A client that sends the letter `G` and nothing else. -/
theorem serve_aborted_by_one_byte :
    Client.Sends ⟨.ready true, some [0x47#8], 0⟩ [0x47#8] ∧
      serve [⟨.ready true, some [0x47#8], 0⟩] = .error .headersSize ∧ ¬Survives [⟨.ready true, some [0x47#8], 0⟩] := by
  have hsends : Client.Sends ⟨.ready true, some [0x47#8], 0⟩ [0x47#8] := ⟨rfl, rfl, by decide, by decide⟩
  have hserve : serve [⟨.ready true, some [0x47#8], 0⟩] = .error .headersSize := by
    rcases handleRequest_cases hsends with ⟨-, hhandle⟩ | ⟨hne, -⟩
    · rw [serve, hhandle]
      rfl
    · exact absurd rfl hne
  refine ⟨hsends, hserve, ?_⟩
  rintro ⟨handled, hok, -⟩
  rw [hserve] at hok
  cases hok

end CLangExamples.Http
