import CLangExamples.Lib.Run
import CLangExamples.Scgi.Mem

/-!
# The blocks of the fixed buffer allocator

Over any row of requests the blocks lie in the buffer, apart from each other, and `NULL` is returned exactly when a request
does not fit, as long as the sum of `allocated` and `size` does not wrap around; the request at which it does is granted
(`allocator_lawful_iff`).
-/

namespace CLangExamples.Scgi

open Transition

/-- The functions that allocate. -/
inductive AllocCall where
  | malloc
  | calloc
  deriving DecidableEq

/-- A request for at least one byte. -/
structure Request where
  call : AllocCall
  size : BitVec 64
  pos : 0 < size.toNat

/-- The call that a request makes. -/
def Request.perform (request : Request) (allocator : FixedBufferAllocator) :
    Except Halt (Option Nat × FixedBufferAllocator) :=
  match request.call with
  | .malloc => fixedBufferAllocatorMalloc allocator request.size
  | .calloc => fixedBufferAllocatorCalloc allocator request.size

/-- A block that was returned. -/
structure Block where
  offset : Nat
  size : Nat

/-- Two blocks without a byte in common. -/
def Block.Disjoint (a b : Block) : Prop := a.offset + a.size ≤ b.offset ∨ b.offset + b.size ≤ a.offset

/-- The allocator and the blocks it has returned. -/
structure Pool where
  allocator : FixedBufferAllocator
  blocks : List Block

/-- `allocated` -/
def Pool.allocated (pool : Pool) : Nat := pool.allocator.allocated.toNat

/-- The length of the buffer. -/
def Pool.len (pool : Pool) : Nat := pool.allocator.buffer.bytes.length

/-- A request and what becomes of the pool. -/
def poolStep (request : Request) (pool : Pool) : Except Halt Pool := do
  let (ptr, allocator) ← request.perform pool.allocator
  match ptr with
  | none => return ⟨allocator, pool.blocks⟩
  | some offset => return ⟨allocator, pool.blocks ++ [⟨offset, request.size.toNat⟩]⟩

/-- What is observed of a request: nothing. -/
abbrev unseen (_ : Request) (_ : Pool) : Unit := ()

/-- What a request is to do with a pool. -/
structure Granted (request : Request) (pool : Pool) (ptr : Option Nat) (allocator : FixedBufferAllocator) : Prop where
  performed : request.perform pool.allocator = .ok (ptr, allocator)
  allocated_le : allocator.allocated.toNat ≤ pool.len
  grows : pool.allocated ≤ allocator.allocated.toNat
  null_iff : ptr = none ↔ request.size.toNat > pool.len - pool.allocated
  null_same : ptr = none → allocator = pool.allocator
  inside : ∀ offset, ptr = some offset → offset + request.size.toNat ≤ pool.len
  disjoint : ∀ offset, ptr = some offset → ∀ block ∈ pool.blocks, block.Disjoint ⟨offset, request.size.toNat⟩

/-- The request is granted, or refused, as it is to be. -/
def Lawful (request : Request) (pool : Pool) : Prop := ∃ ptr allocator, Granted request pool ptr allocator

/-- The sum of `allocated` and the size is a `size_t`. -/
def NoWrap (request : Request) (pool : Pool) : Prop := pool.allocated + request.size.toNat < 2 ^ 64

namespace AllocatorAux

theorem toNat_len (slice : Slice) : slice.len.toNat = slice.bytes.length := by
  unfold Slice.len
  rw [BitVec.toNat_ofNat]
  exact Nat.mod_eq_of_lt slice.length_lt

/-- The blocks returned so far lie below `allocated`. -/
structure PoolInv (pool : Pool) : Prop where
  allocated_le : pool.allocated ≤ pool.len
  below : ∀ block ∈ pool.blocks, block.offset + block.size ≤ pool.allocated

/-- What `fixed_buffer_allocator_malloc` does, by the sum that it computes. -/
theorem malloc_eq (allocator : FixedBufferAllocator) {size : BitVec 64} (hpos : 0 < size.toNat) :
    fixedBufferAllocatorMalloc allocator size =
      if (allocator.allocated + size).toNat > allocator.buffer.bytes.length then .ok (none, allocator)
      else .ok (some allocator.allocated.toNat, { allocator with allocated := allocator.allocated + size }) := by
  have hsize : size > 0#64 := hpos
  have hgt : allocator.allocated + size > allocator.buffer.len ↔
      (allocator.allocated + size).toNat > allocator.buffer.bytes.length := by
    rw [← toNat_len]
    exact Iff.rfl
  unfold fixedBufferAllocatorMalloc
  rw [if_neg (not_not.mpr hsize)]
  by_cases hfull : allocator.allocated + size > allocator.buffer.len
  · rw [if_pos hfull, if_pos (hgt.mp hfull)]
  · have hle : allocator.allocated + size ≤ allocator.buffer.len := Nat.le_of_not_lt hfull
    rw [if_neg hfull, if_neg (fun h => hfull (hgt.mpr h))]
    simp only
    rw [if_neg (not_not.mpr hle)]

theorem toNat_sum {request : Request} {pool : Pool} (hwrap : NoWrap request pool) :
    (pool.allocator.allocated + request.size).toNat = pool.allocated + request.size.toNat := by
  rw [BitVec.toNat_add]
  exact Nat.mod_eq_of_lt hwrap

/-- A request that does not wrap and fits. -/
theorem perform_fits {request : Request} {pool : Pool} (hwrap : NoWrap request pool)
    (hfits : pool.allocated + request.size.toNat ≤ pool.len) :
    ∃ allocator, request.perform pool.allocator = .ok (some pool.allocated, allocator) ∧
      allocator.allocated.toNat = pool.allocated + request.size.toNat ∧
      allocator.buffer.bytes.length = pool.len := by
  have hsum := toNat_sum hwrap
  have hmalloc := malloc_eq pool.allocator request.pos
  rw [if_neg (by rw [hsum]; exact Nat.not_lt.mpr hfits)] at hmalloc
  unfold Request.perform
  cases request.call with
  | malloc => exact ⟨_, hmalloc, hsum, rfl⟩
  | calloc =>
    simp only
    unfold fixedBufferAllocatorCalloc
    rw [hmalloc, ok_bind]
    simp only
    unfold memsetZero
    have hinside : pool.allocator.allocated.toNat + request.size.toNat ≤ pool.allocator.buffer.bytes.length := hfits
    rw [dif_pos hinside]
    exact ⟨_, rfl, hsum, length_zeroed hinside⟩

/-- A request that does not wrap and does not fit. -/
theorem perform_full {request : Request} {pool : Pool} (hwrap : NoWrap request pool)
    (hfull : pool.len < pool.allocated + request.size.toNat) :
    request.perform pool.allocator = .ok (none, pool.allocator) := by
  have hsum := toNat_sum hwrap
  have hmalloc := malloc_eq pool.allocator request.pos
  rw [if_pos (by rw [hsum]; exact hfull)] at hmalloc
  unfold Request.perform
  cases request.call with
  | malloc => exact hmalloc
  | calloc =>
    simp only
    unfold fixedBufferAllocatorCalloc
    rw [hmalloc]
    rfl

/-- Both calls return the pointer of `fixed_buffer_allocator_malloc`. -/
theorem malloc_of_perform {request : Request} {allocator allocator' : FixedBufferAllocator} {ptr : Option Nat}
    (h : request.perform allocator = .ok (ptr, allocator')) :
    ∃ after, fixedBufferAllocatorMalloc allocator request.size = .ok (ptr, after) := by
  unfold Request.perform at h
  split at h
  · exact ⟨allocator', h⟩
  · obtain ⟨⟨ptr', after⟩, hmalloc, hrest⟩ := bind_eq_ok h
    cases ptr' with
    | none =>
      obtain ⟨rfl, -⟩ := Prod.mk.inj (Except.ok.inj hrest)
      exact ⟨after, hmalloc⟩
    | some offset =>
      obtain ⟨buffer, -, hreturn⟩ := bind_eq_ok hrest
      obtain ⟨rfl, -⟩ := Prod.mk.inj (Except.ok.inj hreturn)
      exact ⟨after, hmalloc⟩

/-- A request that wraps is granted, although it does not fit. -/
theorem perform_wraps {request : Request} {pool : Pool} (hinv : PoolInv pool) (hwrap : ¬NoWrap request pool)
    {ptr : Option Nat} {allocator : FixedBufferAllocator} (h : request.perform pool.allocator = .ok (ptr, allocator)) :
    ptr ≠ none := by
  have hlen : pool.allocator.buffer.bytes.length < 2 ^ 64 := pool.allocator.buffer.length_lt
  have hle : pool.allocated ≤ pool.allocator.buffer.bytes.length := hinv.allocated_le
  have hsize : request.size.toNat < 2 ^ 64 := request.size.isLt
  have hmod : (pool.allocator.allocated + request.size).toNat = (pool.allocated + request.size.toNat) % 2 ^ 64 :=
    BitVec.toNat_add _ _
  unfold NoWrap at hwrap
  -- the sum loses `2 ^ 64`, so that it is below `allocated`
  rw [Nat.mod_eq_sub_mod (by omega), Nat.mod_eq_of_lt (by omega)] at hmod
  obtain ⟨after, hmalloc⟩ := malloc_of_perform h
  rw [malloc_eq pool.allocator request.pos, if_neg (by omega)] at hmalloc
  obtain ⟨rfl, -⟩ := Prod.mk.inj (Except.ok.inj hmalloc)
  exact Option.some_ne_none _

/-- A request that does not wrap and fits is granted behind the blocks returned so far. -/
theorem lawful_of_fits {request : Request} {pool : Pool} (hinv : PoolInv pool) (hwrap : NoWrap request pool)
    (hfits : pool.allocated + request.size.toNat ≤ pool.len) : Lawful request pool := by
  obtain ⟨allocator, hperform, hallocated, -⟩ := perform_fits hwrap hfits
  refine ⟨some pool.allocated, allocator, hperform, by omega, by omega, ?_, ?_, ?_, ?_⟩
  · constructor
    · intro hnone
      cases hnone
    · intro hgt
      omega
  · intro hnone
    cases hnone
  · intro offset hoffset
    obtain rfl := Option.some.inj hoffset
    exact hfits
  · intro offset hoffset block hblock
    obtain rfl := Option.some.inj hoffset
    exact Or.inl (hinv.below block hblock)

/-- A request that does not wrap and does not fit is refused. -/
theorem lawful_of_full {request : Request} {pool : Pool} (hinv : PoolInv pool) (hwrap : NoWrap request pool)
    (hfull : pool.len < pool.allocated + request.size.toNat) : Lawful request pool := by
  have hle := hinv.allocated_le
  refine ⟨none, pool.allocator, perform_full hwrap hfull, hle, Nat.le_refl _, ?_, fun _ => rfl, ?_, ?_⟩
  · constructor
    · intro _
      omega
    · intro _
      rfl
  · intro offset hoffset
    cases hoffset
  · intro offset hoffset
    cases hoffset

/-- A request is treated as it is to be exactly when its sum does not wrap. -/
theorem lawful_iff {request : Request} {pool : Pool} (hinv : PoolInv pool) : Lawful request pool ↔ NoWrap request pool := by
  constructor
  · rintro ⟨ptr, allocator, h⟩
    by_contra hwrap
    refine perform_wraps hinv hwrap h.performed (h.null_iff.mpr ?_)
    have hle := hinv.allocated_le
    have hlen : pool.len < 2 ^ 64 := pool.allocator.buffer.length_lt
    unfold NoWrap at hwrap
    omega
  · intro hwrap
    rcases Nat.lt_or_ge pool.len (pool.allocated + request.size.toNat) with hfull | hfits
    · exact lawful_of_full hinv hwrap hfull
    · exact lawful_of_fits hinv hwrap hfits

/-- A request that is treated as it is to be keeps the blocks below `allocated`. -/
theorem poolInv_step {request : Request} {pool pool' : Pool} (hinv : PoolInv pool) (hlawful : Lawful request pool)
    (h : poolStep request pool = .ok pool') : PoolInv pool' := by
  have hwrap := (lawful_iff hinv).mp hlawful
  have hle := hinv.allocated_le
  unfold poolStep at h
  by_cases hfits : pool.allocated + request.size.toNat ≤ pool.len
  · obtain ⟨allocator, hperform, hallocated, hlength⟩ := perform_fits hwrap hfits
    rw [hperform, ok_bind] at h
    obtain rfl := Except.ok.inj h
    refine ⟨?_, ?_⟩
    · show allocator.allocated.toNat ≤ allocator.buffer.bytes.length
      omega
    · intro block hblock
      show block.offset + block.size ≤ allocator.allocated.toNat
      rcases List.mem_append.mp hblock with hold | hnew
      · have := hinv.below block hold
        omega
      · obtain rfl := List.mem_singleton.mp hnew
        simp only
        omega
  · rw [perform_full hwrap (Nat.lt_of_not_le hfits), ok_bind] at h
    obtain rfl := Except.ok.inj h
    exact hinv

end AllocatorAux

open AllocatorAux

/-- Every request of a row is treated as it is to be exactly when no request of the row makes the sum of `allocated` and
`size` wrap around. -/
theorem allocator_lawful_iff (buffer : Slice) (allocator : FixedBufferAllocator)
    (h : fixedBufferAllocatorFromBuffer buffer = .ok allocator) (requests : List Request) :
    Along poolStep unseen ⟨allocator, []⟩ requests Lawful ↔ Along poolStep unseen ⟨allocator, []⟩ requests NoWrap := by
  have hinv : PoolInv ⟨allocator, []⟩ := by
    unfold fixedBufferAllocatorFromBuffer at h
    split at h
    · obtain rfl := Except.ok.inj h
      exact ⟨Nat.zero_le _, by simp⟩
    · cases h
  exact along_congr_of_invariant hinv (fun request pool hpool => lawful_iff hpool)
    (fun request pool pool' hpool hlawful hstep => poolInv_step hpool hlawful hstep) requests

/-- A request for four bytes of sixteen. -/
theorem allocator_lawful_iff_four :
    ∃ allocator, fixedBufferAllocatorFromBuffer ⟨List.replicate 16 nul, by decide⟩ = .ok allocator ∧
      Along poolStep unseen ⟨allocator, []⟩ [⟨.malloc, 4#64, by decide⟩] Lawful := by
  refine ⟨_, rfl, (allocator_lawful_iff ⟨List.replicate 16 nul, by decide⟩ _ rfl [⟨.malloc, 4#64, by decide⟩]).mpr ?_⟩
  intro before request after history pool heq r
  cases before with
  | nil =>
    obtain ⟨rfl, -⟩ := List.cons.inj heq
    rw [r.eq_start rfl]
    unfold NoWrap
    decide
  | cons first before => simp at heq

/-- One byte of sixteen is requested, then `SIZE_MAX` bytes: the second request is granted. -/
theorem allocator_grants_size_max :
    ∃ allocator, fixedBufferAllocatorFromBuffer ⟨List.replicate 16 nul, by decide⟩ = .ok allocator ∧
      ¬Along poolStep unseen ⟨allocator, []⟩
        [⟨.malloc, 1#64, by decide⟩, ⟨.malloc, 0xFFFFFFFFFFFFFFFF#64, by decide⟩] Lawful := by
  refine ⟨_, rfl, fun halong => ?_⟩
  obtain ⟨ptr, allocator, hgranted⟩ := halong [⟨.malloc, 1#64, by decide⟩] ⟨.malloc, 0xFFFFFFFFFFFFFFFF#64, by decide⟩ [] _ _
    rfl (.next _ .start rfl)
  have hnull := hgranted.null_iff.mpr (by decide)
  have hperformed := hgranted.performed
  rw [hnull] at hperformed
  cases hperformed

end CLangExamples.Scgi
