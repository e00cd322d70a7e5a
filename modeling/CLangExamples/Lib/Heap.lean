import Mathlib.Data.List.Nodup
import Mathlib.Logic.Function.Basic

/-!
# A heap of blocks

The blocks of a heap are known by their addresses; a block holds a content of any type. An allocation hands out an address
that was never handed out before, or none: which allocations fail is a function of their number. To free a block, to read it
or to replace its content it has to be live. What a program leaves of the heap is compared with what it found by the live
blocks alone: `freeAll_live` is the rule for the release of everything that a program has allocated.
-/

namespace BlockHeap

variable {β : Type}

/-- A misuse of the heap. -/
inductive Misuse where
  /-- `NULL` is dereferenced -/
  | nullPointer
  /-- a block is used, or freed, that is not live -/
  | notLive (address : Nat)
  deriving DecidableEq

/-- The live blocks, and the number of allocations so far: no address from there on is live. -/
structure Heap (β : Type) where
  live : Nat → Option β
  next : Nat
  fresh : ∀ a, next ≤ a → live a = none

/-- Replace the content of a block, or the block by none. -/
def Heap.put (h : Heap β) (a : Nat) (block : Option β) (ha : a < h.next) : Heap β where
  live := Function.update h.live a block
  next := h.next
  fresh := by
    intro b hb
    rw [Function.update_of_ne (by omega)]
    exact h.fresh b hb

/-- An address of a live block was handed out. -/
theorem lt_next {h : Heap β} {a : Nat} (ha : h.live a ≠ none) : a < h.next := by
  by_contra hle
  exact ha (h.fresh a (by omega))

/-- The heap with one allocation more, which failed. -/
def Heap.refused (h : Heap β) : Heap β where
  live := h.live
  next := h.next + 1
  fresh := fun a ha => h.fresh a (by omega)

/-- The heap with one block more. -/
def Heap.granted (h : Heap β) (block : β) : Heap β where
  live := Function.update h.live h.next (some block)
  next := h.next + 1
  fresh := by
    intro a ha
    rw [Function.update_of_ne (by omega)]
    exact h.fresh a (by omega)

/-- An allocation: the address of the new block, or none for `NULL`. -/
def allocate (fails : Nat → Bool) (h : Heap β) (block : β) : Option Nat × Heap β :=
  if fails h.next then (none, h.refused) else (some h.next, h.granted block)

/-- The content of the block that a pointer points to. -/
def read (h : Heap β) : Option Nat → Except Misuse β
  | none => .error .nullPointer
  | some a =>
    match h.live a with
    | none => .error (.notLive a)
    | some block => .ok block

/-- Replace the content of the block that a pointer points to. -/
def write (h : Heap β) (p : Option Nat) (block : β) : Except Misuse (Heap β) :=
  match p with
  | none => .error .nullPointer
  | some a =>
    if ha : h.live a ≠ none then .ok (h.put a (some block) (lt_next ha)) else .error (.notLive a)

/-- `free`, which does nothing for `NULL`. -/
def free (h : Heap β) : Option Nat → Except Misuse (Heap β)
  | none => .ok h
  | some a => if ha : h.live a ≠ none then .ok (h.put a none (lt_next ha)) else .error (.notLive a)

/-- `realloc`: the block, resized, at a new address; when it fails the old block stays. -/
def reallocate (fails : Nat → Bool) (h : Heap β) (p : Option Nat) (resize : Option β → β) :
    Except Misuse (Option Nat × Heap β) :=
  match p with
  | none => .ok (allocate fails h (resize none))
  | some a =>
    match h.live a with
    | none => .error (.notLive a)
    | some block =>
      match allocate fails h (resize (some block)) with
      | (none, h') => .ok (none, h')
      | (some b, h') => (free h' (some a)).map fun h'' => (some b, h'')

/-- `free` of each pointer of a list, in order. -/
def freeAll (h : Heap β) (ps : List (Option Nat)) : Except Misuse (Heap β) := ps.foldlM free h

/-! ## What the operations do to the live blocks -/

theorem granted_live (h : Heap β) (block : β) : (h.granted block).live = Function.update h.live h.next (some block) := rfl

theorem allocate_refused {fails : Nat → Bool} {h : Heap β} (block : β) (hf : fails h.next = true) :
    allocate fails h block = (none, h.refused) := if_pos hf

theorem allocate_granted {fails : Nat → Bool} {h : Heap β} (block : β) (hf : fails h.next = false) :
    allocate fails h block = (some h.next, h.granted block) := if_neg (by simp [hf])

theorem read_live {h : Heap β} {a : Nat} {block : β} (ha : h.live a = some block) : read h (some a) = .ok block := by
  simp [read, ha]

theorem free_live {h : Heap β} {a : Nat} (ha : h.live a ≠ none) :
    ∃ h', free h (some a) = .ok h' ∧ h'.live = Function.update h.live a none :=
  ⟨_, dif_pos ha, rfl⟩

@[simp]
theorem freeAll_nil (h : Heap β) : freeAll h [] = .ok h := rfl

theorem freeAll_cons (h : Heap β) (p : Option Nat) (ps : List (Option Nat)) :
    freeAll h (p :: ps) = (free h p >>= fun h => freeAll h ps) := List.foldlM_cons

/-- The addresses that a list of pointers has. -/
def addresses (ps : List (Option Nat)) : List Nat := ps.filterMap id

/-- Pointers to live blocks, no block twice, can be freed in any order: their blocks are gone and all others are as they
were. -/
theorem freeAll_live {ps : List (Option Nat)} {h : Heap β} (hnodup : (addresses ps).Nodup)
    (hlive : ∀ a ∈ addresses ps, h.live a ≠ none) :
    ∃ h', freeAll h ps = .ok h' ∧ ∀ a, h'.live a = if a ∈ addresses ps then none else h.live a := by
  induction ps generalizing h with
  | nil => exact ⟨h, rfl, fun a => by simp [addresses]⟩
  | cons p ps ih =>
    rw [freeAll_cons]
    cases p with
    | none =>
      have heq : addresses (none :: ps) = addresses ps := rfl
      rw [heq] at hnodup hlive ⊢
      exact ih hnodup hlive
    | some a =>
      have heq : addresses (some a :: ps) = a :: addresses ps := rfl
      rw [heq, List.nodup_cons] at hnodup
      rw [heq] at hlive ⊢
      obtain ⟨h₁, hfree, hlive₁⟩ := free_live (hlive a (List.mem_cons_self ..))
      have hrest : ∀ b ∈ addresses ps, h₁.live b ≠ none := by
        intro b hb
        have hne : b ≠ a := fun hba => hnodup.1 (hba ▸ hb)
        rw [hlive₁, Function.update_of_ne hne]
        exact hlive b (List.mem_cons_of_mem a hb)
      obtain ⟨h', hall, hlive'⟩ := ih hnodup.2 hrest
      refine ⟨h', by rw [hfree]; exact hall, ?_⟩
      intro b
      rw [hlive' b, hlive₁]
      by_cases hb : b = a
      · simp [hb]
      · simp [hb]

end BlockHeap
