import CLangExamples.Http.DynamicArray
import CLangExamples.Http.Scanner
import CLangExamples.Http.Server

/-!
# Reading a whole request

`http_request_poll_and_read` of `http.c`: it polls and receives until the request is complete, and keeps what it has received
in a dynamic array. What the system calls answer in an iteration of its loop is a `Round`. The scanner works on addresses, so
the block of the array and the pattern are given a place in memory.
-/

namespace CLangExamples.Http

/-- Where the block of the array and the string `"\r\n"` lie. -/
structure Layout where
  items : Nat
  pattern : Nat
  pattern_pos : 0 < pattern
  /-- a string literal lies below the heap -/
  below : pattern + 2 < items

/-- The memory with the bytes of the array in place. -/
def Layout.memory (layout : Layout) (bytes : List Byte) : Memory := fun address =>
  if address < layout.items then [cr, lf].getD (address - layout.pattern) 0#8 else bytes.getD (address - layout.items) 0#8

/-- What the calls of an iteration answer: `poll`, the bytes that are there for `recv` or none when it returns -1, and
`realloc`. -/
structure Round where
  poll : Poll
  payload : Option (List Byte)
  heap : Heap

/-- How far the call has come. -/
inductive ReadEnding where
  /-- it is in `poll` -/
  | polling
  | returned (result : ResultCode)
  | aborted (assertion : Assertion)
  | fault (fault : Fault)
  deriving DecidableEq

/-- What the call has done so far: `req->data` and what is written to `stdout`. -/
structure ReadState where
  data : DynamicArray
  stdout : List Byte
  ending : ReadEnding

/-- `sizeof(buffer)` -/
def bufferSize : Nat := 4096

/-- `str_slice_from_buffer` -/
def strSliceFromBuffer (buf bufLen : Nat) : StrSlice := ⟨buf, bufLen⟩

/-- `str_slice_println`: what it writes. -/
def strSlicePrintln (memory : Memory) (s : StrSlice) : List Byte := s.bytes memory ++ [lf]

/-- The line that the first chunk begins with, as it is printed, or none without `"\r\n"`. -/
def firstLine (layout : Layout) (data : DynamicArray) : Option (List Byte) :=
  let memory := layout.memory (data.items.getD [])
  let scanner : Scanner := ⟨strSliceFromBuffer layout.items data.length.toNat⟩
  let scanned := scannerNextUntilSlice memory scanner ⟨layout.pattern, 2⟩ ⟨0, 0⟩
  match scanned.result with
  | .err => none
  | .ok => some (strSlicePrintln memory scanned.out)

/-- The loop of `http_request_poll_and_read` over the rounds so far, and what stands behind it. -/
def pollLoop (layout : Layout) (requestCompleted firstChunk : Bool) (data : DynamicArray) : List Round → ReadState
  | [] => ⟨data, [], .polling⟩
  | round :: rounds =>
    match round.poll with
    | .failed => ⟨data, [], .returned .err⟩
    | .timedOut => ⟨data, [], .returned .err⟩
    | .ready pollin =>
      if pollin = false then ⟨data, [], .aborted .pollin⟩
      else
        let (buffer, bytesReceived) := recv ⟨round.poll, round.payload, 0⟩ (List.replicate bufferSize 0#8) bufferSize
        if bytesReceived ≤ 0 then
          if requestCompleted = false then ⟨data, [], .returned .err⟩
          else ⟨data, (data.items.getD []).take data.length.toNat, .returned .ok⟩
        else
          match dynamicArrayPushBack round.heap data (buffer.take bytesReceived.toNat) with
          | .error fault => ⟨data, [], .fault fault⟩
          | .ok (rc, data) =>
            if rc ≠ 0 then ⟨data, [], .returned .err⟩
            else if firstChunk then
              match firstLine layout data with
              | none => ⟨data, [], .returned .err⟩
              | some line =>
                let rest := pollLoop layout requestCompleted false data rounds
                ⟨rest.data, line ++ rest.stdout, rest.ending⟩
            else pollLoop layout requestCompleted false data rounds

/-- `http_request_poll_and_read` over the rounds so far. `request_completed` is never assigned. -/
def httpRequestPollAndRead (layout : Layout) (data : DynamicArray) (rounds : List Round) : ReadState :=
  pollLoop layout false true data rounds

end CLangExamples.Http
