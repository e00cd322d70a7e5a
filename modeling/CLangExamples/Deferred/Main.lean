import CLangExamples.Deferred.Defer
import CLangExamples.Lib.Heap
import CLangExamples.Lib.Run

/-!
# Three ways to give memory back

`defer/main.c`: three functions that allocate four integers one after the other and give back what they have when an
allocation fails. The first repeats its calls of `free`, the second jumps to them, the third defers them. The calls that they
make are recorded.
-/

namespace CLangExamples.Deferred

open BlockHeap (Misuse)

abbrev Heap : Type := BlockHeap.Heap (List (BitVec 8))

/-- A call of the library, with what it returns. -/
inductive LibraryCall where
  | malloc (result : Option Nat)
  | perror
  | free (p : Option Nat)
  deriving DecidableEq

/-- The heap, and the calls so far. -/
structure World where
  heap : Heap
  calls : List LibraryCall

/-- What ends a call other than by `return`. -/
inductive Stop where
  | halt (halt : Halt)
  | misuse (misuse : Misuse)
  deriving DecidableEq

/-- `malloc(1 * sizeof(int))`; which calls return `NULL` and what the new bytes hold is not up to the program. -/
def malloc (fails : Nat → Bool) (memory : List (BitVec 8)) (w : World) : Option Nat × World :=
  let (p, h) := BlockHeap.allocate fails w.heap memory
  (p, ⟨h, w.calls ++ [.malloc p]⟩)

/-- `free` -/
def free (w : World) (p : Option Nat) : Except Stop World := do
  let h ← (BlockHeap.free w.heap p).mapError Stop.misuse
  return ⟨h, w.calls ++ [.free p]⟩

/-- `perror("oom")` -/
def perror (w : World) : World := { w with calls := w.calls ++ [.perror] }

variable (fails : Nat → Bool) (memory : List (BitVec 8))

/-- `gotoless_duplicated_approach` -/
def gotolessDuplicatedApproach (w : World) : Except Stop (Nat × World) :=
  match malloc fails memory w with
  | (none, w) => .ok (1, perror w)
  | (some x1, w) =>
    match malloc fails memory w with
    | (none, w) => do
      let w ← free (perror w) (some x1)
      return (1, w)
    | (some x2, w) =>
      match malloc fails memory w with
      | (none, w) => do
        let w ← free (perror w) (some x2)
        let w ← free w (some x1)
        return (1, w)
      | (some x3, w) =>
        match malloc fails memory w with
        | (none, w) => do
          let w ← free (perror w) (some x3)
          let w ← free w (some x2)
          let w ← free w (some x1)
          return (1, w)
        | (some x4, w) => do
          let w ← free w (some x4)
          let w ← free w (some x3)
          let w ← free w (some x2)
          let w ← free w (some x1)
          return (0, w)

/-- The label `err_free_1` of `goto_approach`. -/
def errFree1 (x1 : Option Nat) (w : World) : Except Stop (Nat × World) := do
  let w ← free w x1
  return (1, w)

/-- The label `err_free_2` of `goto_approach`, which falls through to the next one. -/
def errFree2 (x1 x2 : Option Nat) (w : World) : Except Stop (Nat × World) := do
  let w ← free w x2
  errFree1 x1 w

/-- The label `err_free_3` of `goto_approach`, which falls through to the next one. -/
def errFree3 (x1 x2 x3 : Option Nat) (w : World) : Except Stop (Nat × World) := do
  let w ← free w x3
  errFree2 x1 x2 w

/-- `goto_approach` -/
def gotoApproach (w : World) : Except Stop (Nat × World) :=
  match malloc fails memory w with
  | (none, w) => .ok (1, perror w)
  | (some x1, w) =>
    match malloc fails memory w with
    | (none, w) => errFree1 (some x1) (perror w)
    | (some x2, w) =>
      match malloc fails memory w with
      | (none, w) => errFree2 (some x1) (some x2) (perror w)
      | (some x3, w) =>
        match malloc fails memory w with
        | (none, w) => errFree3 (some x1) (some x2) (some x3) (perror w)
        | (some x4, w) => do
          let w ← free w (some x4)
          let w ← free w (some x3)
          let w ← free w (some x2)
          let w ← free w (some x1)
          return (0, w)

/-- The functions without an argument that are deferred: none. -/
abbrev NoArg : Type := Empty

/-- The functions of a pointer that are deferred: `free`. -/
inductive PtrArg where
  | free
  deriving DecidableEq

/-- `DEFER_ITEMS_MAX_SIZE`, where nothing else is defined. -/
def deferItemsMaxSize : Nat := 16

/-- A `struct defer` of the program. -/
abbrev FreeDefer : Type := Defer NoArg PtrArg (Option Nat) deferItemsMaxSize

/-- A deferred call is made. -/
def performCall (w : World) : Call NoArg PtrArg (Option Nat) → Except Stop World
  | .noArg func => nomatch func
  | .singlePtrArg .free p => free w p

/-- `defer_push_1(free, x)` -/
def pushFree (defer : FreeDefer) (x : Option Nat) : Except Stop FreeDefer :=
  (deferPushSinglePtrArg defer .free x).mapError Stop.halt

/-- `defer_scope_end()` -/
def scopeEnd (defer : FreeDefer) (w : World) : Except Stop World := do
  let (calls, _) ← (deferScopeEnd defer).mapError Stop.halt
  calls.foldlM performCall w

/-- `defer_gotoless_approach`, where `defer` is as it is found on the stack. -/
def deferGotolessApproach (defer : FreeDefer) (w : World) : Except Stop (Nat × World) := do
  let defer := deferScopeBegin defer
  match malloc fails memory w with
  | (none, w) =>
    let w ← scopeEnd defer (perror w)
    return (1, w)
  | (some x1, w) =>
    let defer ← pushFree defer (some x1)
    match malloc fails memory w with
    | (none, w) =>
      let w ← scopeEnd defer (perror w)
      return (1, w)
    | (some x2, w) =>
      let defer ← pushFree defer (some x2)
      match malloc fails memory w with
      | (none, w) =>
        let w ← scopeEnd defer (perror w)
        return (1, w)
      | (some x3, w) =>
        let defer ← pushFree defer (some x3)
        match malloc fails memory w with
        | (none, w) =>
          let w ← scopeEnd defer (perror w)
          return (1, w)
        | (some x4, w) =>
          let defer ← pushFree defer (some x4)
          let w ← scopeEnd defer w
          return (0, w)

/-- `main`: the three functions one after the other; what they return is not looked at. -/
def main (defer : FreeDefer) (w : World) : Except Stop World := do
  let (_, w) ← gotolessDuplicatedApproach fails memory w
  let (_, w) ← gotoApproach fails memory w
  let (_, w) ← deferGotolessApproach fails memory defer w
  return w

end CLangExamples.Deferred
