import CLangExamples.Theorems.DynamicArray

/-!
# Pushes without memory

A push whose `realloc` fails returns 1, but the source has then already written the `NULL` over `items`: the array still
says how many bytes it holds and has lost them. Only an array without a block has nothing to lose.
-/

namespace CLangExamples.Http

open Transition

/-- The push calls `realloc` and gets `NULL`. -/
def Push.ReallocFails (array : DynamicArray) : Push → Prop
  | .byte _ heap => heap = none ∧ dynamicArrayIsFull array = true
  | .buffer bytes heap => heap = none ∧ BitVec.ofNat 64 bytes.length > 0#64 ∧
      dynamicArrayWouldOverflow array (BitVec.ofNat 64 bytes.length) = true

/-- A push whose `realloc` fails returns 1 and leaves the array as it was. -/
def Push.Atomic (push : Push) (array : DynamicArray) : Prop :=
  push.ReallocFails array → push.perform array = .ok (1, array)

/-- A push whose `realloc` fails finds an array without a block. -/
def Push.FailsOnNull (push : Push) (array : DynamicArray) : Prop := push.ReallocFails array → array.items = none

/-- The array after a push. -/
def pushStep (push : Push) (array : DynamicArray) : Except Fault DynamicArray := (push.perform array).map Prod.snd

/-- A property of every push of a row, of the array that it finds. -/
def EveryPush (initial : DynamicArray) (pushes : List Push) (P : Push → DynamicArray → Prop) : Prop :=
  Along pushStep (fun push _ => push) initial pushes P

/-- Everything that the pushes of a row that returned 0 pushed. -/
def succeeded (pushes : List Push) (rcs : List Nat) : List Byte :=
  ((pushes.zip rcs).filter fun p => p.2 == 0).flatMap fun p => p.1.bytes

namespace FailedGrowthAux

/-- A push whose `realloc` fails returns 1 and loses the block. -/
theorem perform_fails {array : DynamicArray} {push : Push} (h : push.ReallocFails array) :
    push.perform array = .ok (1, { array with items := none }) := by
  cases push with
  | byte item heap =>
    obtain ⟨rfl, hfull⟩ := h
    show dynamicArrayPushBackByte none array item = _
    unfold dynamicArrayPushBackByte
    rw [if_pos hfull]
    rfl
  | buffer bytes heap =>
    obtain ⟨rfl, hpos, hover⟩ := h
    show dynamicArrayPushBack none array bytes = _
    unfold dynamicArrayPushBack
    simp only
    rw [if_neg (not_not.mpr hpos), if_pos hover]
    rfl

theorem perform_same_iff {array : DynamicArray} {push : Push} (h : push.ReallocFails array) :
    push.perform array = .ok (1, array) ↔ array.items = none := by
  rw [perform_fails h, Except.ok.injEq, Prod.mk.injEq, and_iff_right rfl]
  constructor
  · intro heq
    exact (congrArg DynamicArray.items heq).symm
  · intro hnone
    rw [← hnone]

theorem atomic_iff (push : Push) (array : DynamicArray) : push.Atomic array ↔ push.FailsOnNull array := by
  constructor
  · intro h hfails
    exact (perform_same_iff hfails).mp (h hfails)
  · intro h hfails
    exact (perform_same_iff hfails).mpr (h hfails)

/-- The same push with an answer of the heap. -/
def withHeap (heap : Heap) : Push → Push
  | .byte item _ => .byte item heap
  | .buffer bytes _ => .buffer bytes heap

/-- A push that does not call `realloc`, or gets a block from it, does not depend on its failing. -/
theorem perform_withHeap {array : DynamicArray} {push : Push} (h : ¬push.ReallocFails array) (hnone : push.heap = none)
    (heap : Heap) : push.perform array = (withHeap heap push).perform array := by
  cases push with
  | byte item heap' =>
    obtain rfl : heap' = none := hnone
    have hroom : ¬dynamicArrayIsFull array = true := fun hfull => h ⟨rfl, hfull⟩
    show dynamicArrayPushBackByte none array item = dynamicArrayPushBackByte heap array item
    unfold dynamicArrayPushBackByte
    rw [if_neg hroom, if_neg hroom]
  | buffer bytes heap' =>
    obtain rfl : heap' = none := hnone
    show dynamicArrayPushBack none array bytes = dynamicArrayPushBack heap array bytes
    unfold dynamicArrayPushBack
    simp only
    by_cases hpos : BitVec.ofNat 64 bytes.length > 0#64
    · have hroom : ¬dynamicArrayWouldOverflow array (BitVec.ofNat 64 bytes.length) = true :=
        fun hover => h ⟨rfl, hpos, hover⟩
      rw [if_neg (not_not.mpr hpos), if_neg (not_not.mpr hpos), if_neg hroom, if_neg hroom]
    · rw [if_pos hpos, if_pos hpos]

/-- A push that does not fail to grow the array appends what it pushes. -/
theorem perform_appends {array : DynamicArray} (h : DynamicArrayAux.ArrayInv array) {push : Push}
    (hfails : ¬push.ReallocFails array) (hne : push.bytes ≠ []) (hsmall : array.length.toNat + push.bytes.length < 2 ^ 62) :
    DynamicArrayAux.Appends array push.bytes (push.perform array) := by
  cases hheap : push.heap with
  | some memory => exact DynamicArrayAux.perform_spec h (by rw [hheap]; rfl) hne hsmall
  | none =>
    have hbytes : (withHeap (some fun _ => 0#8) push).bytes = push.bytes := by cases push <;> rfl
    have hsome : (withHeap (some fun _ => 0#8) push).heap.isSome = true := by cases push <;> rfl
    rw [perform_withHeap hfails hheap (some fun _ => 0#8), ← hbytes]
    exact DynamicArrayAux.perform_spec h hsome (by rw [hbytes]; exact hne) (by rw [hbytes]; exact hsmall)

theorem pushStep_of_perform {array array' : DynamicArray} {push : Push} {rc : Nat}
    (h : push.perform array = .ok (rc, array')) : pushStep push array = .ok array' := by
  unfold pushStep
  rw [h]
  rfl

theorem pushAll_cons {array array₁ array' : DynamicArray} {push : Push} {pushes : List Push} {rc : Nat} {rcs : List Nat}
    (h : push.perform array = .ok (rc, array₁)) (hrest : pushAll pushes array₁ = .ok (rcs, array')) :
    pushAll (push :: pushes) array = .ok (rc :: rcs, array') := by
  rw [pushAll, h, ok_bind]
  simp only
  rw [hrest]
  rfl

theorem succeeded_cons_zero (push : Push) (pushes : List Push) (rcs : List Nat) :
    succeeded (push :: pushes) (0 :: rcs) = push.bytes ++ succeeded pushes rcs := rfl

theorem succeeded_cons_one (push : Push) (pushes : List Push) (rcs : List Nat) :
    succeeded (push :: pushes) (1 :: rcs) = succeeded pushes rcs := rfl

/-- A row of pushes that fail only on an array without a block leaves what the other ones pushed. -/
theorem pushAll_succeeded {pushes : List Push} {array : DynamicArray} (h : DynamicArrayAux.ArrayInv array)
    (hnull : EveryPush array pushes Push.FailsOnNull) (hne : ∀ push ∈ pushes, push.bytes ≠ [])
    (hsmall : array.length.toNat + (pushed pushes).length < 2 ^ 62) :
    ∃ rcs array', pushAll pushes array = .ok (rcs, array') ∧ rcs.length = pushes.length ∧
      array'.contents = array.contents ++ succeeded pushes rcs := by
  induction pushes generalizing array with
  | nil => exact ⟨[], array, rfl, rfl, (List.append_nil _).symm⟩
  | cons push pushes ih =>
    obtain ⟨hne₁, hne⟩ := List.forall_mem_cons.mp hne
    have hpushed : pushed (push :: pushes) = push.bytes ++ pushed pushes := rfl
    rw [hpushed, List.length_append] at hsmall
    by_cases hfails : push.ReallocFails array
    · have hperform := (perform_same_iff hfails).mpr (hnull.head hfails)
      obtain ⟨rcs, array', hrest, hlen, hcontents⟩ := ih h (hnull.tail (pushStep_of_perform hperform)) hne (by omega)
      refine ⟨1 :: rcs, array', pushAll_cons hperform hrest, by rw [List.length_cons, List.length_cons, hlen], ?_⟩
      rw [hcontents, succeeded_cons_one]
    · obtain ⟨array₁, hperform, hinv₁, hcontents₁, hlength₁⟩ := perform_appends h hfails hne₁ (by omega)
      obtain ⟨rcs, array', hrest, hlen, hcontents⟩ :=
        ih hinv₁ (hnull.tail (pushStep_of_perform hperform)) hne (by omega)
      refine ⟨0 :: rcs, array', pushAll_cons hperform hrest, by rw [List.length_cons, List.length_cons, hlen], ?_⟩
      rw [hcontents, hcontents₁, succeeded_cons_zero, List.append_assoc]

end FailedGrowthAux

open FailedGrowthAux

/-- In a row of pushes on any array, every push whose `realloc` fails returns 1 and leaves the array as it was exactly when
each of them finds an array without a block. A new array then holds in the end what the other pushes pushed, in order. -/
theorem failed_growth_atomic_iff (initial : DynamicArray) (pushes : List Push) :
    (EveryPush initial pushes Push.Atomic ↔ EveryPush initial pushes Push.FailsOnNull) ∧
    (Initialised initial → EveryPush initial pushes Push.FailsOnNull → (∀ push ∈ pushes, push.bytes ≠ []) →
      (pushed pushes).length < 2 ^ 62 →
      ∃ rcs array, pushAll pushes initial = .ok (rcs, array) ∧ rcs.length = pushes.length ∧
        array.contents = succeeded pushes rcs) := by
  constructor
  · exact along_congr atomic_iff pushes
  · intro hinit hnull hne htotal
    obtain ⟨hinv, hlength, hcontents⟩ := DynamicArrayAux.arrayInv_initialised hinit
    obtain ⟨rcs, array, hall, hlen, heq⟩ := pushAll_succeeded hinv hnull hne (by omega)
    exact ⟨rcs, array, hall, hlen, by rw [heq, hcontents, List.nil_append]⟩

/-- A byte on an array of capacity one, then a byte without memory: the first byte is lost. -/
theorem failed_growth_loses_bytes :
    ¬∀ (initial : DynamicArray) (pushes : List Push), Initialised initial → EveryPush initial pushes Push.Atomic := by
  intro h
  have hevery := h ⟨some [0#8], 0#64, 1#64⟩ [.byte 7#8 none, .byte 9#8 none] (Or.inr ⟨1#64, rfl⟩)
  have hstep : pushStep (.byte 7#8 none) ⟨some [0#8], 0#64, 1#64⟩ = .ok ⟨some [7#8], 1#64, 1#64⟩ := rfl
  have hfails : Push.ReallocFails ⟨some [7#8], 1#64, 1#64⟩ (.byte 9#8 none) := ⟨rfl, by decide⟩
  have hitems := (perform_same_iff hfails).mp ((hevery.tail hstep).head hfails)
  cases hitems

end CLangExamples.Http
