import CLangExamples.Scgi.Connection
import CLangExamples.Scgi.Response

/-!
# The SCGI server

`main` of `main.c` and what it calls: `tcp_socket_create` of `net.c`, the loop over `accept`, and the whole of
`connection_handle`, with the response that it sends after the parser has returned. What the system calls return is part of
the input. What the server does with its sockets is the result: the bytes that it passes to `send` and the descriptors that
it closes, in order. The loop has no end, so a run of it is over a list of what `accept` returned so far.
-/

namespace CLangExamples.Scgi

/-- A call on a socket. -/
inductive Action where
  /-- `send(fd, bytes, ...)` -/
  | send (fd : Nat) (bytes : List Byte)
  /-- `close(fd)` -/
  | close (fd : Nat)
  deriving DecidableEq

/-! ## The listening socket -/

/-- What the calls of `tcp_socket_create` return; no descriptor is -1. -/
structure SetUp where
  socket : Option Nat
  setsockopt : Int
  inetPton : Int
  bind : Int
  listen : Int

/-- `tcp_socket_create`: the descriptor, or none for -1, and what it has closed. -/
def tcpSocketCreate (calls : SetUp) (serverPort : BitVec 16) : Except Halt (Option Nat × List Action) :=
  if ¬serverPort > 0#16 then .error .assertion
  else
    match calls.socket with
    | none => .ok (none, [])
    | some socketFd =>
      if calls.setsockopt ≠ 0 then .ok (none, [.close socketFd])
      else if calls.inetPton ≠ 1 then .ok (none, [.close socketFd])
      else if calls.bind ≠ 0 then .ok (none, [.close socketFd])
      else if calls.listen ≠ 0 then .ok (none, [.close socketFd])
      else .ok (some socketFd, [])

/-! ## A connection -/

/-- A client, with what the calls of `connection_handle` meet: the stream it sends, what `dummy` holds before `recv` writes
to it, and what `send` returns. -/
structure Client where
  stream : Stream
  garbage : Byte
  bytesSent : Int

/-- `response_body` -/
def responseBody : CString := ⟨ascii "Hello, World!\n".toList, by decide⟩

/-- `connection_handle`, the parser and the response included: the bytes that it passes to `send`, if it comes to that. What
`scgi_parser_parse` returns is printed and not looked at. -/
def connectionRespond (setsEinval : Bool) (client : Client) : Except Halt (Option (List Byte)) :=
  match connectionHandle setsEinval client.garbage client.stream with
  | .error _ => .ok none
  | .ok (_, parsed) => do
    let _ ← parsed
    let result ← scgiSendText client.bytesSent 200 responseBody (BitVec.ofNat 64 responseBody.strlen)
    return result.sent

/-! ## The loop -/

/-- What `accept` returns. -/
inductive Accepted where
  /-- -1 -/
  | failed
  | client (fd : Nat) (client : Client)

/-- An iteration of the main server loop. -/
def serveAccepted (setsEinval : Bool) (log : List Action) : Accepted → Except Halt (List Action)
  | .failed => .ok log
  | .client fd client => do
    let sent ← connectionRespond setsEinval client
    return log ++ (sent.map (Action.send fd)).toList ++ [.close fd]

/-- `server_port` -/
def serverPort : BitVec 16 := 8081

/-- `main`, over what `accept` has returned so far. Without a listening socket it returns 1. -/
def main (setsEinval : Bool) (calls : SetUp) (accepts : List Accepted) : Except Halt (List Action) := do
  let (serverSocketFd, log) ← tcpSocketCreate calls serverPort
  match serverSocketFd with
  | none => return log
  | some _ => accepts.foldlM (serveAccepted setsEinval) log

end CLangExamples.Scgi
