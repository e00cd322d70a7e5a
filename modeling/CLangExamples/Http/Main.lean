import CLangExamples.Http.Config
import CLangExamples.Http.Server

/-!
# The HTTP server

`main` of `main.c` and what it calls to get a listening socket: `http/server.c` and `net.c`. What the system calls return is
part of the input; the calls on sockets are the result, with what is written to `stdout` and how the process ends. The loop
over `accept` has no end, so a run of it is over what `accept` has returned so far. The log goes to `stderr` and is left out.
-/

namespace CLangExamples.Http

open CString

/-- `struct sockaddr_in`, with the host as the string that `inet_addr` converts. -/
structure SockaddrIn where
  host : Option CString
  port : BitVec 16
  deriving DecidableEq

/-- A call on a socket. -/
inductive Action where
  | bind (fd : Nat) (address : SockaddrIn)
  | listen (fd backlog : Nat)
  /-- `poll` for `POLLIN` of one descriptor; a negative timeout is none at all -/
  | poll (fd : Nat) (timeout : Int)
  | send (fd : Nat) (bytes : List Byte)
  | close (fd : Nat)
  deriving DecidableEq

/-- How far the process has come. -/
inductive Ending where
  /-- it is in `accept` -/
  | accepting
  | returned (status : Nat)
  | exited (status : Nat)
  | aborted (assertion : Assertion)
  deriving DecidableEq

/-! ## The listening socket -/

/-- What the calls of `http_server_init` return; no descriptor is -1. -/
structure SetUp where
  socket : Option Nat
  setsockopt : Int
  bind : Int
  listen : Int

/-- `tcp_socket_or_exit`: the descriptor, or the status that the process exits with. -/
def tcpSocketOrExit (calls : SetUp) : Except Nat Nat :=
  match calls.socket with
  | none => .error 1
  | some sock => .ok sock

/-- `ipv4_address_create` -/
def ipv4AddressCreate (ip : Option CString) (port : BitVec 16) : SockaddrIn := ⟨ip, port⟩

/-- `struct http_server` -/
structure HttpServer where
  config : Config
  socket : Nat

/-- `http_server_bind` -/
def httpServerBind (calls : SetUp) (server : HttpServer) : ResultCode × List Action :=
  let serverAddress := ipv4AddressCreate server.config.serverHost server.config.serverPort
  (if calls.bind ≠ 0 then .err else .ok, [.bind server.socket serverAddress])

/-- `http_server_listen` -/
def httpServerListen (calls : SetUp) (server : HttpServer) : ResultCode × List Action :=
  (if calls.listen ≠ 0 then .err else .ok, [.listen server.socket server.config.tcpBacklog.toNat])

/-- `http_server_init`: the server after `RESULT_OK`, none after `RESULT_ERR`, or the status of `exit`. -/
def httpServerInit (calls : SetUp) (config : Config) : Except Nat (Option HttpServer × List Action) := do
  let server : HttpServer := ⟨config, ← tcpSocketOrExit calls⟩
  if calls.setsockopt ≠ 0 then return (none, [.close server.socket])
  let (bound, log) := httpServerBind calls server
  if bound ≠ .ok then return (none, log ++ [.close server.socket])
  let (listening, log') := httpServerListen calls server
  if listening ≠ .ok then return (none, log ++ log' ++ [.close server.socket])
  return (some server, log ++ log')

/-- `http_server_free` -/
def httpServerFree (server : HttpServer) : List Action := [.close server.socket]

/-! ## The main server loop -/

/-- What `accept` returns. -/
inductive Accepted where
  /-- -1 -/
  | failed
  | client (fd : Nat) (client : Client)

/-- What a process has done so far. -/
structure Process where
  log : List Action
  stdout : List Byte
  ending : Ending
  deriving DecidableEq

/-- The text of the response as bytes. -/
def responseBytes : List Byte := response.toList.map fun c => BitVec.ofNat 8 c.toNat

/-- The calls on the socket of a request that came to `end_of_request`. -/
def Handled.calls (handled : Handled) (fd : Nat) (timeout : Int) : List Action :=
  [.poll fd timeout] ++ (handled.bytesSent.map fun _ => Action.send fd responseBytes).toList ++ [.close fd]

/-- `(int) timeout_ms` in `recv_or_timeout` -/
def pollTimeout (config : Config) : Int := (config.readTimeoutMs.setWidth 32).toInt

/-- The loop of `main` over what `accept` has returned so far. An assertion fails after `poll`, if one does. -/
def serverLoop (server : HttpServer) : List Accepted → Process
  | [] => ⟨[], [], .accepting⟩
  | .failed :: _ => ⟨httpServerFree server, [], .returned 1⟩
  | .client fd client :: accepts =>
    match handleRequest client with
    | .error assertion => ⟨[.poll fd (pollTimeout server.config)], [], .aborted assertion⟩
    | .ok handled =>
      let rest := serverLoop server accepts
      ⟨handled.calls fd (pollTimeout server.config) ++ rest.log, handled.stdout ++ rest.stdout, rest.ending⟩

/-- `main` -/
def main (setsEinval : Bool) (uninit : Fin 5 → BitVec 64) (env : Environment) (calls : SetUp) (accepts : List Accepted) :
    Process :=
  let configured := configInitFromEnv setsEinval uninit env configZero
  if configured.result ≠ .ok then ⟨[], [], .returned 1⟩
  else
    match httpServerInit calls configured.config with
    | .error status => ⟨[], [], .exited status⟩
    | .ok (none, log) => ⟨log, [], .returned 1⟩
    | .ok (some server, log) =>
      let served := serverLoop server accepts
      ⟨log ++ served.log, served.stdout, served.ending⟩

end CLangExamples.Http
