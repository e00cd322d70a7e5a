import CLangExamples.Lib.Printf
import CLangExamples.Lib.Run
import Mathlib.Logic.Function.Basic

/-!
# Threads that are started and joined

`pthreads-examples/simple-example/main.c`: `main` starts a thread for each context and joins them. The threads share the
contexts and `stdout` with `main`. A step is one call of one thread that the others can see: which thread is next, and whether
`pthread_create` or `pthread_join` fails, is up to the scheduler and the system. A line is written to `stdout` as a whole, as
`stdio` locks the stream. When `main` returns or exits, the process and with it every thread ends.
-/

namespace CLangExamples.Pthreads

/-- `THREADS_SIZE` -/
def threadsSize : Nat := 4

/-- `THREADS_CTX_NAME_BUFFER_SIZE` -/
def threadsCtxNameBufferSize : Nat := 50

/-- `thread_context`; the name is the string in its buffer. -/
structure ThreadContext where
  tid : Nat
  name : List Char
  deriving DecidableEq

/-- `snprintf` to a buffer of a size: the text, as much of it as there is room for with the NUL. -/
def snprintf (size : Nat) (text : List Char) : List Char := text.take (size - 1)

/-- What the loop of `main` writes to the context of the thread `i`. -/
def threadContext (i : Nat) : ThreadContext where
  tid := i
  name := snprintf (threadsCtxNameBufferSize - 1) ("Thread ".toList ++ Printf.number 10 0 i)

/-- Where `main` is. -/
inductive Main where
  /-- before the first `puts` -/
  | start
  /-- at the test of the first loop, and at the context behind it -/
  | initContext (i : Nat)
  /-- at `pthread_create` -/
  | create (i : Nat)
  /-- at the test of the second loop, and at `pthread_join` behind it -/
  | join (i : Nat)
  /-- the process has ended -/
  | ended (status : Nat)
  deriving DecidableEq

/-- Where a thread is. -/
inductive Thread where
  | notCreated
  /-- before the first `printf` of `on_thread_create` -/
  | created
  | sleeping
  | awake
  | terminated
  deriving DecidableEq

/-- A line on a stream. -/
abbrev Line : Type := List Char

/-- The process, with `n` threads. -/
structure Process (n : Nat) where
  main : Main
  threads : Fin n → Thread
  /-- `threads_context` -/
  contexts : Fin n → ThreadContext
  stdout : List Line
  stderr : List Line

/-- Who makes the next step. -/
inductive Actor (n : Nat) where
  | main
  /-- `main`, and its call of `pthread_create` or `pthread_join` returns an error -/
  | mainFails
  | thread (i : Fin n)
  deriving DecidableEq

/-- The actor cannot make a step. -/
inductive Blocked where
  | blocked
  deriving DecidableEq

/-- `"[info] starting threads..."` -/
def startingLine : Line := "[info] starting threads...".toList

/-- `"[info] finished!"` -/
def finishedLine : Line := "[info] finished!".toList

/-- `"%s has started!\n"` -/
def threadStartedLine (name : List Char) : Line := name ++ " has started!".toList

/-- `"%s has finished!\n"` -/
def threadFinishedLine (name : List Char) : Line := name ++ " has finished!".toList

variable {n : Nat}

/-- `panic` -/
def panic (s : Process n) (msg : String) : Process n := { s with main := .ended 1, stderr := s.stderr ++ [msg.toList] }

/-- A step of `main`. -/
def mainStep (s : Process n) : Except Blocked (Process n) :=
  match s.main with
  | .start => .ok { s with main := .initContext 0, stdout := s.stdout ++ [startingLine] }
  | .initContext i =>
    if h : i < n then
      .ok { s with main := .create i, contexts := Function.update s.contexts ⟨i, h⟩ (threadContext i) }
    else .ok { s with main := .join 0 }
  | .create i =>
    if h : i < n then
      .ok { s with main := .initContext (i + 1), threads := Function.update s.threads ⟨i, h⟩ .created }
    else .error .blocked
  | .join i =>
    if h : i < n then
      -- `pthread_join` waits until the thread has terminated
      if s.threads ⟨i, h⟩ = .terminated then .ok { s with main := .join (i + 1) } else .error .blocked
    else .ok { s with main := .ended 0, stdout := s.stdout ++ [finishedLine] }
  | .ended _ => .error .blocked

/-- A step of `main` in which its call fails. -/
def mainFailsStep (s : Process n) : Except Blocked (Process n) :=
  match s.main with
  | .create _ => .ok (panic s "error: thread creation failed\n")
  | .join i => if i < n then .ok (panic s "error: thread joining failed\n") else .error .blocked
  | _ => .error .blocked

/-- A step of `on_thread_create` on the context of the thread. -/
def threadStep (s : Process n) (i : Fin n) : Except Blocked (Process n) :=
  match s.threads i with
  | .created =>
    .ok { s with
      threads := Function.update s.threads i .sleeping
      stdout := s.stdout ++ [threadStartedLine (s.contexts i).name] }
  | .sleeping => .ok { s with threads := Function.update s.threads i .awake }
  | .awake =>
    .ok { s with
      threads := Function.update s.threads i .terminated
      stdout := s.stdout ++ [threadFinishedLine (s.contexts i).name] }
  | .notCreated => .error .blocked
  | .terminated => .error .blocked

/-- A step of the process. -/
def step (a : Actor n) (s : Process n) : Except Blocked (Process n) :=
  match a with
  | .main => mainStep s
  | .mainFails => mainFailsStep s
  | .thread i =>
    match s.main with
    | .ended _ => .error .blocked
    | _ => threadStep s i

/-- The process before its first step; the contexts hold what was in memory. -/
def initial (memory : Fin n → ThreadContext) : Process n where
  main := .start
  threads := fun _ => .notCreated
  contexts := memory
  stdout := []
  stderr := []

end CLangExamples.Pthreads
