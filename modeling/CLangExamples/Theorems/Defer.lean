import CLangExamples.Deferred.Defer
import CLangExamples.Lib.Simulation
import Mathlib.Data.List.Infix

/-!
# Deferred calls run once, in reverse

The functions of `defer.c` in any order on one `struct defer`, beside the list of the calls that are pending. In a scope
that never holds too many items, each `_defer_scope_end` makes the calls that were pushed since the last begin or end, the
last one first, and leaves none of them.
-/

namespace CLangExamples.Deferred

open Transition

variable {φ ψ α : Type}

/-- A call of one of the four functions. -/
inductive DeferOp (φ ψ α : Type) where
  | scopeBegin
  | pushNoArg (func : φ)
  | pushSinglePtrArg (func : ψ) (arg : α)
  | scopeEnd
  deriving DecidableEq

/-- The calls that one of the four functions makes, and the `struct defer` after it. -/
def deferOp {maxSize : Nat} : DeferOp φ ψ α → Defer φ ψ α maxSize → Except Halt (List (Call φ ψ α) × Defer φ ψ α maxSize)
  | .scopeBegin, defer => .ok ([], deferScopeBegin defer)
  | .pushNoArg func, defer => (deferPushNoArg defer func).map ([], ·)
  | .pushSinglePtrArg func arg, defer => (deferPushSinglePtrArg defer func arg).map ([], ·)
  | .scopeEnd, defer => deferScopeEnd defer

/-! ## Histories -/

/-- The call that is pushed, if one is. -/
def DeferOp.pushed : DeferOp φ ψ α → Option (Call φ ψ α)
  | .pushNoArg func => some (.noArg func)
  | .pushSinglePtrArg func arg => some (.singlePtrArg func arg)
  | _ => none

/-- The calls pushed since the last begin or end of a history, oldest first. -/
def pushedSince (history : List (DeferOp φ ψ α)) : List (Call φ ψ α) :=
  (history.reverse.takeWhile (·.pushed.isSome)).reverse.filterMap DeferOp.pushed

/-- What is to be called next in a history: at an end, the calls pushed since the last begin or end, newest first. -/
def toRun (history : List (DeferOp φ ψ α)) : DeferOp φ ψ α → List (Call φ ψ α)
  | .scopeEnd => (pushedSince history).reverse
  | _ => []

/-- A history never holds more than `maxSize` items. -/
def Fits (maxSize : Nat) (history : List (DeferOp φ ψ α)) : Prop :=
  ∀ before, before <+: history → (pushedSince before).length ≤ maxSize

/-- What the calls of a history ran: each end exactly what it is to run, and nothing twice, so that what was run, put back
in the order of the pushes, is some of what was pushed. -/
structure RunsOnce (history : List (DeferOp φ ψ α)) (ran : List (List (Call φ ψ α))) : Prop where
  length : ran.length = history.length
  each : ∀ j op, history[j]? = some op → ran[j]? = some (toRun (history.take j) op)
  once : (ran.map List.reverse).flatten.Sublist (history.filterMap DeferOp.pushed)

/-! ## The pending calls -/

/-- One of the four functions on the list of the pending calls, newest first. -/
def pendingOp (maxSize : Nat) : DeferOp φ ψ α → List (Call φ ψ α) → Except Halt (List (Call φ ψ α) × List (Call φ ψ α))
  | .scopeBegin, _ => .ok ([], [])
  | .pushNoArg func, pending => if pending.length < maxSize then .ok ([], .noArg func :: pending) else .error .full
  | .pushSinglePtrArg func arg, pending =>
    if pending.length < maxSize then .ok ([], .singlePtrArg func arg :: pending) else .error .full
  | .scopeEnd, pending => .ok (pending, [])

namespace DeferAux

/-- The item of a call. -/
def itemOf : Call φ ψ α → Item φ ψ α
  | .noArg func => ⟨.noArg, .itemNoArg func⟩
  | .singlePtrArg func arg => ⟨.singlePtrArg, .itemSinglePtrArg func arg⟩

theorem runItem_itemOf (call : Call φ ψ α) : runItem (itemOf call) = .ok call := by
  cases call with
  | noArg func => rfl
  | singlePtrArg func arg => rfl

/-- The items below the length of the pending calls are theirs, the oldest first. -/
def HoldsItems {maxSize : Nat} (items : Fin maxSize → Item φ ψ α) : List (Call φ ψ α) → Prop
  | [] => True
  | call :: pending => (∃ h : pending.length < maxSize, items ⟨pending.length, h⟩ = itemOf call) ∧ HoldsItems items pending

/-- A `struct defer` holds the pending calls. -/
structure Holds {maxSize : Nat} (defer : Defer φ ψ α maxSize) (pending : List (Call φ ψ α)) : Prop where
  len : defer.len = pending.length
  items : HoldsItems defer.items pending

variable {maxSize : Nat}

/-- The loop makes the pending calls, newest first. -/
theorem scopeEndLoop_eq {items : Fin maxSize → Item φ ψ α} {pending : List (Call φ ψ α)} (h : HoldsItems items pending) :
    scopeEndLoop items pending.length = .ok pending := by
  induction pending with
  | nil => rfl
  | cons call pending ih =>
    obtain ⟨⟨hlt, hitem⟩, hrest⟩ := h
    rw [List.length_cons, scopeEndLoop, dif_pos hlt, hitem, runItem_itemOf, ok_bind, ih hrest]
    rfl

/-- A write at or past the length changes none of the items below it. -/
theorem holdsItems_update {items : Fin maxSize → Item φ ψ α} {pending : List (Call φ ψ α)} (h : HoldsItems items pending)
    {i : Fin maxSize} (hi : pending.length ≤ i.val) (item : Item φ ψ α) :
    HoldsItems (Function.update items i item) pending := by
  induction pending with
  | nil => trivial
  | cons call pending ih =>
    rw [List.length_cons] at hi
    obtain ⟨⟨hlt, hitem⟩, hrest⟩ := h
    refine ⟨⟨hlt, ?_⟩, ih hrest (by omega)⟩
    rw [Function.update_of_ne, hitem]
    intro heq
    have hval := congrArg Fin.val heq
    simp only at hval
    omega

/-- Pushing the item of a call, on the `struct defer` and on the pending calls. -/
theorem deferPush_agree {defer : Defer φ ψ α maxSize} {pending : List (Call φ ψ α)} (h : Holds defer pending)
    (call : Call φ ψ α) :
    Agree Holds ((deferPush defer (itemOf call)).map fun defer => (([] : List (Call φ ψ α)), defer))
      (if pending.length < maxSize then .ok ([], call :: pending) else .error .full) := by
  have hlen := h.len
  unfold deferPush
  by_cases hroom : pending.length < maxSize
  · have hindex : 0 ≤ defer.len ∧ defer.len.toNat < maxSize := by omega
    have hnat : defer.len.toNat = pending.length := by omega
    rw [if_pos hroom, if_pos (by omega), dif_pos hindex]
    refine .ok ⟨?_, ⟨hroom, ?_⟩, ?_⟩
    · simp only [List.length_cons]
      omega
    · simp only [hnat, Function.update_self]
    · exact holdsItems_update h.items (by simp only; omega) _
  · rw [if_neg hroom, if_neg (by omega)]
    exact .error _

/-- One of the four functions on a `struct defer` and on its pending calls. -/
theorem deferOp_agree (op : DeferOp φ ψ α) (defer : Defer φ ψ α maxSize) (pending : List (Call φ ψ α))
    (h : Holds defer pending) : Agree Holds (deferOp op defer) (pendingOp maxSize op pending) := by
  cases op with
  | scopeBegin => exact .ok ⟨rfl, trivial⟩
  | pushNoArg func => exact deferPush_agree h (.noArg func)
  | pushSinglePtrArg func arg => exact deferPush_agree h (.singlePtrArg func arg)
  | scopeEnd =>
    have hnat : defer.len.toNat = pending.length := by
      have hlen := h.len
      omega
    rw [deferOp, deferScopeEnd, hnat, scopeEndLoop_eq h.items]
    exact .ok ⟨rfl, trivial⟩

/-! ## Histories one operation longer -/

theorem pushedSince_append (history : List (DeferOp φ ψ α)) (op : DeferOp φ ψ α) :
    pushedSince (history ++ [op]) = (op.pushed.map fun call => pushedSince history ++ [call]).getD [] := by
  unfold pushedSince
  rw [List.reverse_append, List.reverse_singleton, List.singleton_append]
  cases hop : op.pushed with
  | none =>
    rw [List.takeWhile_cons_of_neg (by simp [hop])]
    rfl
  | some call =>
    rw [List.takeWhile_cons_of_pos (by simp [hop]), List.reverse_cons, List.filterMap_append]
    simp [hop]

/-- One of the four functions on the pending calls of a history. -/
theorem pendingOp_eq {before : List (DeferOp φ ψ α)} {op : DeferOp φ ψ α}
    (h : (pushedSince (before ++ [op])).length ≤ maxSize) :
    pendingOp maxSize op (pushedSince before).reverse =
      .ok (toRun before op, (pushedSince (before ++ [op])).reverse) := by
  rw [pushedSince_append] at h ⊢
  cases op with
  | scopeBegin => rfl
  | scopeEnd => rfl
  | pushNoArg func =>
    simp only [DeferOp.pushed, Option.map_some, Option.getD_some, List.length_append, List.length_singleton] at h
    rw [pendingOp, List.length_reverse, if_pos (by omega)]
    simp [DeferOp.pushed, toRun]
  | pushSinglePtrArg func arg =>
    simp only [DeferOp.pushed, Option.map_some, Option.getD_some, List.length_append, List.length_singleton] at h
    rw [pendingOp, List.length_reverse, if_pos (by omega)]
    simp [DeferOp.pushed, toRun]

/-- What one operation runs and leaves pending was pending before it or is pushed by it. -/
theorem toRun_sublist (before : List (DeferOp φ ψ α)) (op : DeferOp φ ψ α) :
    ((toRun before op).reverse ++ pushedSince (before ++ [op])).Sublist (pushedSince before ++ op.pushed.toList) := by
  rw [pushedSince_append]
  cases op <;> simp [toRun, DeferOp.pushed]

/-- What the operations of a history run on the pending calls, after those before them. -/
theorem pending_run (before : List (DeferOp φ ψ α)) {ops : List (DeferOp φ ψ α)} (h : Fits maxSize (before ++ ops)) :
    ∃ ran, runCalls (pendingOp maxSize) ops (pushedSince before).reverse =
        .ok (ran, (pushedSince (before ++ ops)).reverse) ∧
      ran.length = ops.length ∧
      (∀ j op, ops[j]? = some op → ran[j]? = some (toRun (before ++ ops.take j) op)) ∧
      ((ran.map List.reverse).flatten ++ pushedSince (before ++ ops)).Sublist
        (pushedSince before ++ ops.filterMap DeferOp.pushed) := by
  induction ops generalizing before with
  | nil => exact ⟨[], by simp [runCalls], rfl, by simp, by simp⟩
  | cons op ops ih =>
    have hcons : before ++ op :: ops = before ++ [op] ++ ops := by rw [List.append_assoc, List.singleton_append]
    rw [hcons] at h ⊢
    obtain ⟨ran, hrun, hlength, heach, honce⟩ := ih _ h
    refine ⟨toRun before op :: ran, ?_, by rw [List.length_cons, hlength, List.length_cons], ?_, ?_⟩
    · rw [runCalls, pendingOp_eq (h _ (List.prefix_append _ _)), ok_bind]
      simp only
      rw [hrun]
      rfl
    · intro j op' hop
      cases j with
      | zero =>
        obtain rfl := Option.some.inj hop
        simp
      | succ j =>
        rw [List.getElem?_cons_succ] at hop ⊢
        rw [heach j op' hop, List.take_succ_cons, List.append_assoc, List.singleton_append]
    · have hops : (op :: ops).filterMap DeferOp.pushed = op.pushed.toList ++ ops.filterMap DeferOp.pushed := by
        cases hpushed : op.pushed <;> simp [hpushed]
      rw [hops, List.map_cons, List.flatten_cons, List.append_assoc, ← List.append_assoc (pushedSince before)]
      refine (honce.append_left _).trans ?_
      rw [← List.append_assoc]
      exact (toRun_sublist before op).append_right _

end DeferAux

open DeferAux

/-- From any `struct defer`, a begin and then any history that never holds too many items run through, and run what they are
to run, once. -/
theorem defer_runs_once {maxSize : Nat} (defer : Defer φ ψ α maxSize) (history : List (DeferOp φ ψ α))
    (h : Fits maxSize history) :
    ∃ ran defer', runCalls deferOp (.scopeBegin :: history) defer = .ok ([] :: ran, defer') ∧ RunsOnce history ran := by
  obtain ⟨ran, hrun, hlength, heach, honce⟩ := pending_run [] h
  have hbegin : Holds (deferScopeBegin defer) (pushedSince ([] : List (DeferOp φ ψ α))).reverse := ⟨rfl, trivial⟩
  have hagree := runCalls_agree deferOp_agree history hbegin
  rw [hrun] at hagree
  obtain ⟨defer', hdefer, -⟩ := hagree.of_ok
  refine ⟨ran, defer', ?_, hlength, heach, (List.sublist_append_left _ _).trans honce⟩
  rw [runCalls, deferOp, ok_bind]
  simp only
  rw [hdefer]
  rfl

/-- A scope of two items that is filled with one of each kind, ended twice and used again. -/
def reusedScope : List (DeferOp Nat Nat Nat) :=
  [.pushNoArg 1, .pushSinglePtrArg 2 3, .scopeEnd, .scopeEnd, .pushNoArg 4, .scopeEnd]

theorem defer_reused_scope :
    ∃ ran defer', runCalls deferOp (.scopeBegin :: reusedScope)
        (⟨fun _ => ⟨.unknown, .itemNoArg 0⟩, -7⟩ : Defer Nat Nat Nat 2) = .ok ([] :: ran, defer') ∧
      RunsOnce reusedScope ran ∧ ran[2]? = some [.singlePtrArg 2 3, .noArg 1] ∧ ran[3]? = some [] := by
  have hfits : Fits 2 reusedScope := by
    intro before hbefore
    have hall : ∀ before ∈ reusedScope.inits, (pushedSince before).length ≤ 2 := by decide
    exact hall before ((List.mem_inits _ _).2 hbefore)
  obtain ⟨ran, defer', hrun, honce⟩ := defer_runs_once ⟨fun _ => ⟨.unknown, .itemNoArg 0⟩, -7⟩ reusedScope hfits
  exact ⟨ran, defer', hrun, honce, honce.each 2 .scopeEnd rfl, honce.each 3 .scopeEnd rfl⟩

end CLangExamples.Deferred
