import CLangExamples.Http.Headers

/-!
# The request path of the server

`recv_or_timeout` of `io.c` and the loop of `main` from `accept` to `close`. What the operating system answers for a client
(to `poll`, `recv` and `send`) is a `Client`; nothing is assumed of it. The assertions of the source are taken as enabled: a
failed one ends the process.
-/

namespace CLangExamples.Http

/-- What `poll` reports of the client socket. -/
inductive Poll where
  | failed
  | timedOut
  /-- a positive count; `revents` with or without `POLLIN` -/
  | ready (pollin : Bool)
  deriving DecidableEq

/-- An accepted connection. -/
structure Client where
  poll : Poll
  /-- the bytes that are there for `recv`, or none when it returns -1 -/
  payload : Option (List Byte)
  /-- what `send` returns -/
  bytesSent : Int

/-- The assertions on the request path. -/
inductive Assertion where
  /-- `assert(pollfd.revents & POLLIN)` -/
  | pollin
  /-- `assert(buffer_size > 1)` -/
  | bufferSize
  /-- `assert((size_t) bytes_read <= unsafe_buffer_max_size)` -/
  | bytesRead
  /-- `assert(unsafe_cstr_buffer_size > 1)` in `http_headers_validate` -/
  | headersSize
  /-- `assert(bytes_printed > 0)` -/
  | bytesPrinted
  deriving DecidableEq

/-- `assert` -/
def assert (assertion : Assertion) (c : Prop) [Decidable c] : Except Assertion Unit :=
  if c then .ok () else .error assertion

/-- Write bytes over the front of a buffer. -/
def overwrite (buffer bytes : List Byte) : List Byte := bytes ++ buffer.drop bytes.length

/-- `recv` with room for `size` bytes: the buffer after it and what it returns. -/
def recv (client : Client) (buffer : List Byte) (size : Nat) : List Byte × Int :=
  match client.payload with
  | none => (buffer, -1)
  | some payload => (overwrite buffer (payload.take size), (payload.take size).length)

/-- `recv_or_timeout`: the buffer and `*out_bytes_read` after `RESULT_OK`, nothing after `RESULT_ERR`. -/
def recvOrTimeout (client : Client) (buffer : List Byte) (bufferSize : Nat) :
    Except Assertion (Option (List Byte × Int)) :=
  match client.poll with
  | .failed => .ok none
  | .timedOut => .ok (some (buffer, 0))
  | .ready pollin => do
    assert .pollin (pollin = true)
    let buffer := overwrite buffer (List.replicate bufferSize 0#8)
    assert .bufferSize (bufferSize > 1)
    return some (recv client buffer (bufferSize - 1))

/-- `unsafe_buffer_size` -/
def unsafeBufferSize : Nat := 4096

/-- `unsafe_buffer_max_size` -/
def unsafeBufferMaxSize : Nat := unsafeBufferSize - 1

/-- `response_body` -/
def responseBody : String := "Server is under development... please be patient\n"

/-- The text that `snprintf` writes to `response_buffer`, which has room for it. -/
def response : String :=
  "HTTP/1.1 " ++ toString 501 ++ " Not Implemented\r\n" ++
  "Server: http-server/0.0.0\r\n" ++
  "Content-Length: " ++ toString responseBody.length ++ "\r\n" ++
  "Content-Type: text/plain; charset=utf-8\r\n" ++
  "Connection: closed\r\n" ++
  "\r\n" ++
  responseBody

/-- `bytes_printed`: the text is ASCII. -/
def bytesPrinted : Nat := response.length

/-- What a request had done when its socket was closed, at `end_of_request`. -/
structure Handled where
  /-- `bytes_read`, when `recv_or_timeout` returned `RESULT_OK` -/
  bytesRead : Option Int
  /-- what `http_headers_validate` returned, when it was called -/
  validated : Option Result
  /-- what `fwrite` and `fputc` wrote to `stdout` -/
  stdout : List Byte
  /-- what `send` returned, when it was called; the branches on it only log -/
  bytesSent : Option Int

/-- The body of the loop of `main`, from `accept` to `close`. -/
def handleRequest (client : Client) : Except Assertion Handled := do
  let unsafeBuffer := List.replicate unsafeBufferSize 0#8
  match ← recvOrTimeout client unsafeBuffer unsafeBufferMaxSize with
  | none => return ⟨none, none, [], none⟩
  | some (unsafeBuffer, bytesRead) =>
    if bytesRead ≤ 0 then return ⟨some bytesRead, none, [], none⟩
    else
      assert .bytesRead (bytesRead.toNat ≤ unsafeBufferMaxSize)
      match httpHeadersValidate (unsafeBuffer.take bytesRead.toNat) with
      | none => .error .headersSize
      | some (.err warning) => return ⟨some bytesRead, some (.err warning), [], none⟩
      | some (.ok endOfHeadersOffset) =>
        assert .bytesPrinted (bytesPrinted > 0)
        let headers := unsafeBuffer.take endOfHeadersOffset ++ [lf]
        let sent := response.toList.map fun c => BitVec.ofNat 8 c.toNat
        return ⟨some bytesRead, some (.ok endOfHeadersOffset), headers ++ sent, some client.bytesSent⟩

/-- The loop of `main` over the clients it accepts: one entry for each socket that was closed. -/
def serve : List Client → Except Assertion (List Handled)
  | [] => .ok []
  | client :: clients => do
    let handled ← handleRequest client
    let rest ← serve clients
    return handled :: rest

end CLangExamples.Http
