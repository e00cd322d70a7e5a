import CLangExamples.Deferred.Main
import CLangExamples.Theorems.Defer

/-!
# The three approaches agree

Whatever allocation fails, the three functions of `defer/main.c` make the same calls of the library in the same order and
return the same: each is the allocation in a row and the release in reverse of `inScope`. They give back what they were given,
once (`approaches_agree`).
-/

namespace CLangExamples.Deferred

open Transition

/-- `free` of each block, in order. -/
def giveBack (w : World) (xs : List Nat) : Except Stop World := xs.foldlM (fun w x => free w (some x)) w

/-- What the three functions are meant to do with `n` more allocations: when one fails, or when all are made, the blocks are
given back, the last one first. -/
def inScope (fails : Nat → Bool) (memory : List (BitVec 8)) : Nat → List Nat → World → Except Stop (Nat × World)
  | 0, acquired, w => do
    let w ← giveBack w acquired
    return (0, w)
  | n + 1, acquired, w =>
    match malloc fails memory w with
    | (none, w) => do
      let w ← giveBack (perror w) acquired
      return (1, w)
    | (some x, w) => inScope fails memory n (x :: acquired) w

/-- The calls of a function that is given the blocks `xs` and returns `rc`. -/
def scopeCalls (rc : Nat) (xs : List Nat) : List LibraryCall :=
  xs.map (fun x => .malloc (some x)) ++ (if rc = 0 then [] else [.malloc none, .perror]) ++
    xs.reverse.map (fun x => .free (some x))

namespace DeferMainAux

variable {fails : Nat → Bool} {memory : List (BitVec 8)}

/-! ## Giving back -/

theorem addresses_some (xs : List Nat) : BlockHeap.addresses (xs.map some) = xs := by
  simp [BlockHeap.addresses]

/-- Where the frees of the heap go through, so do those of the program. -/
theorem giveBack_of_freeAll {xs : List Nat} {w : World} {h : Heap} (hfree : BlockHeap.freeAll w.heap (xs.map some) = .ok h) :
    giveBack w xs = .ok ⟨h, w.calls ++ xs.map fun x => .free (some x)⟩ := by
  induction xs generalizing w with
  | nil =>
    obtain rfl := Except.ok.inj hfree
    simp [giveBack]
    rfl
  | cons x xs ih =>
    rw [List.map_cons, BlockHeap.freeAll_cons] at hfree
    obtain ⟨h₁, hfirst, hrest⟩ := bind_eq_ok hfree
    have hcall : free w (some x) = .ok ⟨h₁, w.calls ++ [.free (some x)]⟩ := by
      unfold free
      rw [hfirst]
      rfl
    have htail := ih (w := ⟨h₁, w.calls ++ [.free (some x)]⟩) hrest
    unfold giveBack at htail ⊢
    rw [List.foldlM_cons, hcall, ok_bind, htail, List.map_cons, List.append_assoc]
    rfl

/-- Live blocks, none of them twice, are given back. -/
theorem giveBack_live {xs : List Nat} {w : World} (hnodup : xs.Nodup) (hlive : ∀ x ∈ xs, w.heap.live x ≠ none) :
    ∃ h, giveBack w xs = .ok ⟨h, w.calls ++ xs.map fun x => .free (some x)⟩ ∧
      ∀ a, h.live a = if a ∈ xs then none else w.heap.live a := by
  rw [← addresses_some xs] at hnodup hlive
  obtain ⟨h, hfree, hlive'⟩ := BlockHeap.freeAll_live hnodup hlive
  rw [addresses_some] at hlive'
  exact ⟨h, giveBack_of_freeAll hfree, hlive'⟩

/-! ## The scope -/

/-- A scope that holds live blocks gives them back together with those that it is given, and makes the calls for it. -/
theorem inScope_gives_back (n : Nat) (acquired : List Nat) {w : World} (hnodup : acquired.Nodup)
    (hlive : ∀ x ∈ acquired, w.heap.live x ≠ none) :
    ∃ rc w' xs, inScope fails memory n acquired w = .ok (rc, w') ∧
      (rc = 0 ∧ xs.length = n ∨ rc = 1 ∧ xs.length < n) ∧
      w'.calls = w.calls ++ scopeCalls rc xs ++ acquired.map (fun x => .free (some x)) ∧
      ∀ a, w'.heap.live a = if a ∈ acquired then none else w.heap.live a := by
  induction n generalizing acquired w with
  | zero =>
    obtain ⟨h, hback, hlive'⟩ := giveBack_live hnodup hlive
    refine ⟨0, _, [], by rw [inScope, hback]; rfl, Or.inl ⟨rfl, rfl⟩, ?_, hlive'⟩
    simp [scopeCalls]
  | succ n ih =>
    rw [inScope]
    cases hf : fails w.heap.next with
    | true =>
      have hmalloc : malloc fails memory w = (none, ⟨w.heap.refused, w.calls ++ [.malloc none]⟩) := by
        unfold malloc
        rw [BlockHeap.allocate_refused _ hf]
      rw [hmalloc]
      obtain ⟨h, hback, hlive'⟩ := giveBack_live (w := perror ⟨w.heap.refused, w.calls ++ [.malloc none]⟩) hnodup hlive
      refine ⟨1, _, [], by simp only; rw [hback]; rfl, Or.inr ⟨rfl, Nat.succ_pos n⟩, ?_, hlive'⟩
      simp [scopeCalls, perror]
    | false =>
      have hmalloc : malloc fails memory w =
          (some w.heap.next, ⟨w.heap.granted memory, w.calls ++ [.malloc (some w.heap.next)]⟩) := by
        unfold malloc
        rw [BlockHeap.allocate_granted _ hf]
      have hfresh : w.heap.live w.heap.next = none := w.heap.fresh _ (Nat.le_refl _)
      have hnew : w.heap.next ∉ acquired := fun hmem => hlive _ hmem hfresh
      have hlive₁ : ∀ x ∈ w.heap.next :: acquired, (w.heap.granted memory).live x ≠ none := by
        intro x hx
        rw [BlockHeap.granted_live]
        by_cases hxn : x = w.heap.next
        · rw [hxn, Function.update_self]
          simp
        · rw [Function.update_of_ne hxn]
          exact hlive x ((List.mem_cons.mp hx).resolve_left hxn)
      rw [hmalloc]
      obtain ⟨rc, w', xs, hscope, hrc, hcalls, hlive'⟩ :=
        ih (w.heap.next :: acquired) (w := ⟨w.heap.granted memory, w.calls ++ [.malloc (some w.heap.next)]⟩) (List.nodup_cons.mpr ⟨hnew, hnodup⟩) hlive₁
      refine ⟨rc, w', w.heap.next :: xs, hscope, ?_, ?_, ?_⟩
      · rcases hrc with ⟨hzero, hlength⟩ | ⟨hone, hlength⟩
        · exact Or.inl ⟨hzero, by rw [List.length_cons, hlength]⟩
        · exact Or.inr ⟨hone, by rw [List.length_cons]; omega⟩
      · rw [hcalls]
        simp [scopeCalls]
      · intro a
        rw [hlive' a, BlockHeap.granted_live]
        by_cases ha : a = w.heap.next
        · rw [ha, if_pos (List.mem_cons_self ..), if_neg hnew, hfresh]
        · rw [Function.update_of_ne ha]
          simp [ha]

/-! ## The functions are scopes -/

/-- The duplicated calls are the scope. -/
theorem gotoless_eq (w : World) : gotolessDuplicatedApproach fails memory w = inScope fails memory 4 [] w := by
  simp only [gotolessDuplicatedApproach, inScope]
  rcases malloc fails memory w with ⟨_ | x1, w1⟩
  · rfl
  simp only
  rcases malloc fails memory w1 with ⟨_ | x2, w2⟩
  · simp [giveBack]
  simp only
  rcases malloc fails memory w2 with ⟨_ | x3, w3⟩
  · simp [giveBack]
  simp only
  rcases malloc fails memory w3 with ⟨_ | x4, w4⟩
  · simp [giveBack]
  · simp [giveBack]

/-- The jumps are the scope. -/
theorem goto_eq (w : World) : gotoApproach fails memory w = inScope fails memory 4 [] w := by
  simp only [gotoApproach, inScope, errFree3, errFree2, errFree1]
  rcases malloc fails memory w with ⟨_ | x1, w1⟩
  · rfl
  simp only
  rcases malloc fails memory w1 with ⟨_ | x2, w2⟩
  · simp [giveBack]
  simp only
  rcases malloc fails memory w2 with ⟨_ | x3, w3⟩
  · simp [giveBack]
  simp only
  rcases malloc fails memory w3 with ⟨_ | x4, w4⟩
  · simp [giveBack]
  · simp [giveBack]

/-- The deferred calls for some blocks. -/
def deferred (acquired : List Nat) : List (Call NoArg PtrArg (Option Nat)) :=
  acquired.map fun x => .singlePtrArg .free (some x)

/-- A call is deferred in a `struct defer` with room. -/
theorem pushFree_holds {defer : FreeDefer} {acquired : List Nat} (h : DeferAux.Holds defer (deferred acquired)) (x : Nat)
    (hroom : acquired.length < deferItemsMaxSize) :
    ∃ defer', pushFree defer (some x) = .ok defer' ∧ DeferAux.Holds defer' (deferred (x :: acquired)) := by
  have hagree := DeferAux.deferPush_agree h (.singlePtrArg .free (some x))
  rw [if_pos (by simpa [deferred] using hroom)] at hagree
  obtain ⟨defer', hpush, hholds⟩ := hagree.of_ok
  obtain ⟨defer'', hpush', heq⟩ := map_eq_ok hpush
  obtain rfl := (Prod.mk.inj heq).2
  refine ⟨defer'', ?_, hholds⟩
  have hpush'' : deferPushSinglePtrArg defer .free (some x) = .ok defer'' := hpush'
  unfold pushFree
  rw [hpush'']
  rfl

/-- The end of the scope gives back the blocks whose calls were deferred. -/
theorem scopeEnd_holds {defer : FreeDefer} {acquired : List Nat} (h : DeferAux.Holds defer (deferred acquired)) (w : World) :
    scopeEnd defer w = giveBack w acquired := by
  have hnat : defer.len.toNat = (deferred acquired).length := by
    have hlen := h.len
    omega
  have hend : deferScopeEnd defer = .ok (deferred acquired, { defer with len := 0 }) := by
    unfold deferScopeEnd
    rw [hnat, DeferAux.scopeEndLoop_eq h.items]
    rfl
  unfold scopeEnd
  rw [hend]
  simp only [Except.mapError, ok_bind, deferred, giveBack, List.foldlM_map]
  rfl

/-- The deferred calls are the scope. -/
theorem deferGotoless_eq (defer : FreeDefer) (w : World) :
    deferGotolessApproach fails memory defer w = inScope fails memory 4 [] w := by
  have h₀ : DeferAux.Holds (deferScopeBegin defer) (deferred []) := ⟨rfl, trivial⟩
  simp only [deferGotolessApproach, inScope]
  rcases malloc fails memory w with ⟨_ | x1, w1⟩
  · simp only [scopeEnd_holds h₀]
  obtain ⟨defer₁, hpush₁, h₁⟩ := pushFree_holds h₀ x1 (by decide)
  simp only [hpush₁, ok_bind]
  rcases malloc fails memory w1 with ⟨_ | x2, w2⟩
  · simp only [scopeEnd_holds h₁]
  obtain ⟨defer₂, hpush₂, h₂⟩ := pushFree_holds h₁ x2 (by simp [deferItemsMaxSize])
  simp only [hpush₂, ok_bind]
  rcases malloc fails memory w2 with ⟨_ | x3, w3⟩
  · simp only [scopeEnd_holds h₂]
  obtain ⟨defer₃, hpush₃, h₃⟩ := pushFree_holds h₂ x3 (by simp [deferItemsMaxSize])
  simp only [hpush₃, ok_bind]
  rcases malloc fails memory w3 with ⟨_ | x4, w4⟩
  · simp only [scopeEnd_holds h₃]
  obtain ⟨defer₄, hpush₄, h₄⟩ := pushFree_holds h₃ x4 (by simp [deferItemsMaxSize])
  simp only [hpush₄, ok_bind, scopeEnd_holds h₄]

end DeferMainAux

open DeferMainAux

/-- For every heap, every outcome of the allocations and whatever the `struct defer` holds before: the three functions return
the same and make the same calls of the library in the same order. With the blocks `xs` they have been given they free each of
them once, the last one first, so that the heap is as before, and return 0 when they were given all four; and so `main`, which
runs the three, leaves the heap as it found it. -/
theorem approaches_agree (fails : Nat → Bool) (memory : List (BitVec 8)) (defer : FreeDefer) (w : World) :
    gotolessDuplicatedApproach fails memory w = gotoApproach fails memory w ∧
      deferGotolessApproach fails memory defer w = gotoApproach fails memory w ∧
      (∃ rc w' xs, gotoApproach fails memory w = .ok (rc, w') ∧ (rc = 0 ∧ xs.length = 4 ∨ rc = 1 ∧ xs.length < 4) ∧
        w'.calls = w.calls ++ scopeCalls rc xs ∧ w'.heap.live = w.heap.live) ∧
      ∃ w', main fails memory defer w = .ok w' ∧ w'.heap.live = w.heap.live := by
  have hscope : ∀ w : World, ∃ rc w' xs, inScope fails memory 4 [] w = .ok (rc, w') ∧
      (rc = 0 ∧ xs.length = 4 ∨ rc = 1 ∧ xs.length < 4) ∧ w'.calls = w.calls ++ scopeCalls rc xs ∧
      w'.heap.live = w.heap.live := by
    intro w
    obtain ⟨rc, w', xs, hreturns, hrc, hcalls, hlive⟩ := inScope_gives_back 4 [] List.nodup_nil (by simp)
    refine ⟨rc, w', xs, hreturns, hrc, by simpa using hcalls, funext fun a => ?_⟩
    rw [hlive a, if_neg List.not_mem_nil]
  refine ⟨by rw [gotoless_eq, goto_eq], by rw [deferGotoless_eq, goto_eq], by rw [goto_eq]; exact hscope w, ?_⟩
  obtain ⟨_, w₁, _, h₁, -, -, hlive₁⟩ := hscope w
  obtain ⟨_, w₂, _, h₂, -, -, hlive₂⟩ := hscope w₁
  obtain ⟨_, w₃, _, h₃, -, -, hlive₃⟩ := hscope w₂
  refine ⟨w₃, ?_, hlive₃.trans (hlive₂.trans hlive₁)⟩
  unfold main
  rw [gotoless_eq, h₁, ok_bind]
  simp only
  rw [goto_eq, h₂, ok_bind]
  simp only
  rw [deferGotoless_eq, h₃]
  rfl

end CLangExamples.Deferred
