import Mathlib.Logic.Function.Basic

/-!
# Deferred calls

`defer.h` and `defer.c`. The pointers to functions without an argument, the pointers to functions of a pointer and the
arguments are three types of any values. The functions that are called do not touch the `struct defer`, so a call of them is
what `_defer_scope_end` returns.
-/

namespace CLangExamples.Deferred

variable {φ ψ α : Type}

/-- `enum defer_item_kind`, with the values that it does not name. -/
inductive ItemKind where
  | noArg
  | singlePtrArg
  | unknown
  deriving DecidableEq

/-- The union `as` of a `struct defer_item`, with the member that was written last. -/
inductive ItemAs (φ ψ α : Type) where
  | itemNoArg (func : φ)
  | itemSinglePtrArg (func : ψ) (arg : α)
  deriving DecidableEq

/-- `struct defer_item` -/
structure Item (φ ψ α : Type) where
  kind : ItemKind
  as : ItemAs φ ψ α
  deriving DecidableEq

/-- `struct defer`, with `DEFER_ITEMS_MAX_SIZE` items: 16 where nothing else is defined. -/
structure Defer (φ ψ α : Type) (maxSize : Nat) where
  items : Fin maxSize → Item φ ψ α
  len : Int

/-- A call of a function. -/
inductive Call (φ ψ α : Type) where
  | noArg (func : φ)
  | singlePtrArg (func : ψ) (arg : α)
  deriving DecidableEq

/-- What ends a call other than by `return`. -/
inductive Halt where
  /-- `assert(defer->len < DEFER_ITEMS_MAX_SIZE)` -/
  | full
  /-- `assert(0 && "unknown defer item kind")` -/
  | unknownKind
  /-- a member of the union is read that was not written last -/
  | otherMember
  /-- `defer->items[index]` with an index outside of the array -/
  | itemIndex (index : Int)
  deriving DecidableEq

variable {maxSize : Nat}

/-- `_defer_scope_begin` -/
def deferScopeBegin (defer : Defer φ ψ α maxSize) : Defer φ ψ α maxSize := { defer with len := 0 }

/-- The body of `_defer_push_no_arg` and `_defer_push_single_ptr_arg`. -/
def deferPush (defer : Defer φ ψ α maxSize) (item : Item φ ψ α) : Except Halt (Defer φ ψ α maxSize) :=
  if defer.len < maxSize then
    if h : 0 ≤ defer.len ∧ defer.len.toNat < maxSize then
      .ok { items := Function.update defer.items ⟨defer.len.toNat, h.2⟩ item, len := defer.len + 1 }
    else .error (.itemIndex defer.len)
  else .error .full

/-- `_defer_push_no_arg` -/
def deferPushNoArg (defer : Defer φ ψ α maxSize) (func : φ) : Except Halt (Defer φ ψ α maxSize) :=
  deferPush defer ⟨.noArg, .itemNoArg func⟩

/-- `_defer_push_single_ptr_arg` -/
def deferPushSinglePtrArg (defer : Defer φ ψ α maxSize) (func : ψ) (arg : α) : Except Halt (Defer φ ψ α maxSize) :=
  deferPush defer ⟨.singlePtrArg, .itemSinglePtrArg func arg⟩

/-- The `switch` of `_defer_scope_end` on the kind of an item. -/
def runItem (item : Item φ ψ α) : Except Halt (Call φ ψ α) :=
  match item.kind, item.as with
  | .noArg, .itemNoArg func => .ok (.noArg func)
  | .singlePtrArg, .itemSinglePtrArg func arg => .ok (.singlePtrArg func arg)
  | .unknown, _ => .error .unknownKind
  | _, _ => .error .otherMember

/-- The loop of `_defer_scope_end` over the items below an index, from the last one down: the calls in their order. -/
def scopeEndLoop (items : Fin maxSize → Item φ ψ α) : Nat → Except Halt (List (Call φ ψ α))
  | 0 => .ok []
  | i + 1 =>
    if h : i < maxSize then do
      let call ← runItem (items ⟨i, h⟩)
      let calls ← scopeEndLoop items i
      return call :: calls
    else .error (.itemIndex i)

/-- `_defer_scope_end`: the calls it makes and what it leaves. A negative length runs nothing. -/
def deferScopeEnd (defer : Defer φ ψ α maxSize) : Except Halt (List (Call φ ψ α) × Defer φ ψ α maxSize) := do
  let calls ← scopeEndLoop defer.items defer.len.toNat
  return (calls, { defer with len := 0 })

end CLangExamples.Deferred
