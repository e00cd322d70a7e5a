import CLangExamples.Http.DynamicArray
import CLangExamples.Lib.Run
import Mathlib.Algebra.GroupWithZero.Nat

/-!
# What a dynamic array holds

Whatever is pushed, byte by byte or in buffers, on an array of any initial capacity: each push finds or makes the room it
needs, and the array holds everything pushed in order (`pushes_concatenate`).
-/

namespace CLangExamples.Http

open Transition

/-- A push and what `realloc` would answer to it. -/
inductive Push where
  | byte (item : Byte) (heap : Heap)
  | buffer (bytes : List Byte) (heap : Heap)

/-- What is pushed. -/
def Push.bytes : Push → List Byte
  | .byte item _ => [item]
  | .buffer bytes _ => bytes

/-- What `realloc` would answer. -/
def Push.heap : Push → Heap
  | .byte _ heap => heap
  | .buffer _ heap => heap

/-- The call that a push makes. -/
def Push.perform (self : DynamicArray) : Push → Except Fault (Nat × DynamicArray)
  | .byte item heap => dynamicArrayPushBackByte heap self item
  | .buffer bytes heap => dynamicArrayPushBack heap self bytes

/-- A row of pushes: what they return, and the array after them. -/
def pushAll : List Push → DynamicArray → Except Fault (List Nat × DynamicArray)
  | [], self => .ok ([], self)
  | push :: pushes, self => do
    let (rc, self) ← push.perform self
    let (rcs, self) ← pushAll pushes self
    return (rc :: rcs, self)

/-- Everything that a row of pushes pushes. -/
def pushed (pushes : List Push) : List Byte := pushes.flatMap Push.bytes

/-- `items[0..length)` -/
def DynamicArray.contents (array : DynamicArray) : List Byte := (array.items.getD []).take array.length.toNat

/-- The array is as `dynamic_array_init` or `dynamic_array_init_with_capacity` leaves it. -/
def Initialised (array : DynamicArray) : Prop :=
  array = dynamicArrayInit ∨ ∃ capacity, dynamicArrayInitWithCapacity capacity false = .ok (some array)

/-- What a row of pushes is to leave. A write that is not below the size of the block would be a fault, and that size is
the capacity. -/
structure Pushed (initial : DynamicArray) (pushes : List Push) (array : DynamicArray) : Prop where
  returns : pushAll pushes initial = .ok (List.replicate pushes.length 0, array)
  room : (array.items.getD []).length = array.capacity.toNat
  length_le : array.length ≤ array.capacity
  contents : array.contents = pushed pushes

namespace DynamicArrayAux

/-- The block has as many bytes as the capacity says, and no more of them are used. -/
structure ArrayInv (array : DynamicArray) : Prop where
  room : (array.items.getD []).length = array.capacity.toNat
  length_le : array.length.toNat ≤ array.capacity.toNat

theorem arrayInv_initialised {array : DynamicArray} (h : Initialised array) :
    ArrayInv array ∧ array.length.toNat = 0 ∧ array.contents = [] := by
  rcases h with rfl | ⟨capacity, hinit⟩
  · exact ⟨⟨rfl, Nat.le_refl _⟩, rfl, rfl⟩
  · unfold dynamicArrayInitWithCapacity at hinit
    split at hinit
    · cases hinit
    · obtain rfl := Option.some.inj (Except.ok.inj hinit)
      exact ⟨⟨List.length_replicate, Nat.zero_le _⟩, rfl, rfl⟩

theorem take_resized {items : Option (List Byte)} {size n : Nat} (memory : Nat → Byte) (hold : n ≤ (items.getD []).length)
    (hnew : n ≤ size) : (resized items size memory).take n = (items.getD []).take n := by
  apply List.ext_getElem?
  intro i
  by_cases hi : i < n
  · have hi' : i < (items.getD []).length := by omega
    rw [List.getElem?_take_of_lt hi, List.getElem?_take_of_lt hi, resized, List.getElem?_ofFn, dif_pos (by omega)]
    simp only
    rw [List.getElem?_eq_getElem hi', Option.getD_some]
  · rw [List.getElem?_eq_none (by rw [List.length_take]; omega), List.getElem?_eq_none (by rw [List.length_take]; omega)]

/-- Growing to a capacity of at least the length keeps the contents. -/
theorem grow_spec {array : DynamicArray} (h : ArrayInv array) (memory : Nat → Byte) {newCapacity : BitVec 64}
    (hle : array.length.toNat ≤ newCapacity.toNat) :
    ∃ grown, array.grow (some memory) newCapacity = (grown, true) ∧ ArrayInv grown ∧ grown.contents = array.contents ∧
      grown.length = array.length ∧ grown.capacity = newCapacity := by
  refine ⟨_, rfl, ⟨?_, hle⟩, ?_, rfl, rfl⟩
  · exact List.length_ofFn
  · exact take_resized memory (by rw [h.room]; exact h.length_le) hle

/-- Writing behind the contents, where there is room. -/
theorem append_spec {array : DynamicArray} (h : ArrayInv array) {bytes : List Byte} (hne : bytes ≠ [])
    (hroom : array.length.toNat + bytes.length ≤ array.capacity.toNat) :
    ∃ array', array.append bytes = .ok array' ∧ ArrayInv array' ∧ array'.contents = array.contents ++ bytes ∧
      array'.length.toNat = array.length.toNat + bytes.length := by
  have hpos : 0 < bytes.length := List.length_pos_iff.mpr hne
  have hroom' := h.room
  have hcapacity : array.capacity.toNat < 2 ^ 64 := array.capacity.isLt
  cases hitems : array.items with
  | none =>
    rw [hitems, Option.getD_none, List.length_nil] at hroom'
    omega
  | some block =>
    rw [hitems, Option.getD_some] at hroom'
    have hlength : (array.length + BitVec.ofNat 64 bytes.length).toNat = array.length.toNat + bytes.length := by
      rw [BitVec.toNat_add, BitVec.toNat_ofNat, Nat.add_mod_mod]
      exact Nat.mod_eq_of_lt (by omega)
    have hprefix : (block.take array.length.toNat ++ bytes).length = array.length.toNat + bytes.length := by
      rw [List.length_append, List.length_take]
      omega
    unfold DynamicArray.append memcpyTo
    rw [hitems]
    simp only
    rw [if_pos (by omega), ok_bind]
    refine ⟨_, rfl, ⟨?_, ?_⟩, ?_, hlength⟩
    · simp only [Option.getD_some, List.length_append, List.length_take, List.length_drop]
      omega
    · simp only [hlength]
      exact hroom
    · unfold DynamicArray.contents
      simp only [hlength, hitems, Option.getD_some]
      rw [← hprefix, List.take_left]

/-- What a push of `bytes` is to do: return 0, and append them. -/
def Appends (array : DynamicArray) (bytes : List Byte) (result : Except Fault (Nat × DynamicArray)) : Prop :=
  ∃ array', result = .ok (0, array') ∧ ArrayInv array' ∧ array'.contents = array.contents ++ bytes ∧
    array'.length.toNat = array.length.toNat + bytes.length

/-- The end of a push, once there is room. -/
theorem appends_of_room {array grown : DynamicArray} {bytes : List Byte} (h : ArrayInv grown)
    (hcontents : grown.contents = array.contents) (hlength : grown.length = array.length) (hne : bytes ≠ [])
    (hroom : array.length.toNat + bytes.length ≤ grown.capacity.toNat) :
    Appends array bytes (grown.append bytes >>= fun self => .ok (0, self)) := by
  obtain ⟨array', happend, hinv, hcontents', hlength'⟩ := append_spec h hne (by rw [hlength]; exact hroom)
  refine ⟨array', by rw [happend]; rfl, hinv, by rw [hcontents', hcontents], by rw [hlength', hlength]⟩

/-- A push that grows the array first. -/
theorem appends_of_grow {array : DynamicArray} {bytes : List Byte} (h : ArrayInv array) (memory : Nat → Byte)
    {newCapacity : BitVec 64} (hne : bytes ≠ []) (hroom : array.length.toNat + bytes.length ≤ newCapacity.toNat) :
    ∃ grown, array.grow (some memory) newCapacity = (grown, true) ∧
      Appends array bytes (grown.append bytes >>= fun self => .ok (0, self)) := by
  obtain ⟨grown, hgrow, hinv, hcontents, hlength, hcapacity⟩ :=
    grow_spec h memory (show array.length.toNat ≤ newCapacity.toNat by omega)
  exact ⟨grown, hgrow, appends_of_room hinv hcontents hlength hne (by rw [hcapacity]; exact hroom)⟩

/-! ## One byte -/

/-- The capacity that a full array grows to has room for a byte: it is twice the length, which does not wrap. -/
theorem doubled_room {array : DynamicArray} (h : ArrayInv array) (hsmall : array.length.toNat + 1 < 2 ^ 62)
    (hfull : array.capacity.toNat ≤ array.length.toNat) :
    array.length.toNat + 1 ≤
      (if array.capacity = 0#64 then dynamicArrayInitialCapacity else dynamicArrayGrowFactor * array.capacity).toNat := by
  have hle := h.length_le
  split
  · rename_i hzero
    have hcapacity : array.capacity.toNat = 0 := by rw [hzero]; rfl
    show array.length.toNat + 1 ≤ 8
    omega
  · rename_i hzero
    have hcapacity : array.capacity.toNat ≠ 0 := fun h0 => hzero (BitVec.eq_of_toNat_eq h0)
    rw [BitVec.toNat_mul]
    show array.length.toNat + 1 ≤ 2 * array.capacity.toNat % 2 ^ 64
    omega

/-- `dynamic_array_push_back_byte` appends the byte. -/
theorem pushBackByte_spec {array : DynamicArray} (h : ArrayInv array) (item : Byte) (memory : Nat → Byte)
    (hsmall : array.length.toNat + 1 < 2 ^ 62) :
    Appends array [item] (dynamicArrayPushBackByte (some memory) array item) := by
  unfold dynamicArrayPushBackByte
  by_cases hfull : dynamicArrayIsFull array = true
  · have hroom := doubled_room h hsmall (of_decide_eq_true hfull)
    obtain ⟨grown, hgrow, happends⟩ := appends_of_grow h memory (List.cons_ne_nil item []) hroom
    rw [if_pos hfull, hgrow]
    exact happends
  · have hroom : array.length.toNat < array.capacity.toNat := by
      unfold dynamicArrayIsFull at hfull
      rw [decide_eq_true_eq] at hfull
      exact Nat.lt_of_not_le hfull
    rw [if_neg hfull]
    exact appends_of_room h rfl rfl (List.cons_ne_nil item []) hroom

/-! ## A buffer -/

/-- The length that a push leaves does not wrap. -/
theorem toNat_length_add {array : DynamicArray} {buffer : List Byte}
    (hsmall : array.length.toNat + buffer.length < 2 ^ 62) :
    (BitVec.ofNat 64 buffer.length).toNat = buffer.length ∧
      (array.length + BitVec.ofNat 64 buffer.length).toNat = array.length.toNat + buffer.length := by
  have hlen : (BitVec.ofNat 64 buffer.length).toNat = buffer.length := by
    rw [BitVec.toNat_ofNat]
    exact Nat.mod_eq_of_lt (by omega)
  refine ⟨hlen, ?_⟩
  rw [BitVec.toNat_add, hlen]
  exact Nat.mod_eq_of_lt (by omega)

theorem wouldOverflow_iff {array : DynamicArray} {buffer : List Byte} (hne : buffer ≠ [])
    (hsmall : array.length.toNat + buffer.length < 2 ^ 62) :
    dynamicArrayWouldOverflow array (BitVec.ofNat 64 buffer.length) = true ↔
      array.capacity.toNat < array.length.toNat + buffer.length := by
  obtain ⟨hlen, hsum⟩ := toNat_length_add hsmall
  have hpos : 0 < buffer.length := List.length_pos_iff.mpr hne
  have hlen_ne : BitVec.ofNat 64 buffer.length ≠ 0#64 := by
    intro h0
    rw [h0] at hlen
    exact absurd hlen (Nat.ne_of_lt hpos)
  unfold dynamicArrayWouldOverflow
  rw [if_neg hlen_ne, decide_eq_true_eq, ← hsum]
  exact Iff.rfl

/-- The capacity that an array grows to has room for the buffer that did not fit. -/
theorem extended_room {array : DynamicArray} {buffer : List Byte} (hsmall : array.length.toNat + buffer.length < 2 ^ 62)
    (hover : array.capacity.toNat < array.length.toNat + buffer.length) :
    array.length.toNat + buffer.length ≤
      (if array.capacity = 0#64 then
        sizeMax dynamicArrayInitialCapacity (array.length + BitVec.ofNat 64 buffer.length - array.capacity)
      else dynamicArrayGrowFactor *
        (array.capacity + (array.length + BitVec.ofNat 64 buffer.length - array.capacity))).toNat := by
  obtain ⟨-, hsum⟩ := toNat_length_add hsmall
  have hextra : (array.length + BitVec.ofNat 64 buffer.length - array.capacity).toNat =
      array.length.toNat + buffer.length - array.capacity.toNat := by
    have hle : array.capacity ≤ array.length + BitVec.ofNat 64 buffer.length := by
      show array.capacity.toNat ≤ _
      omega
    rw [BitVec.toNat_sub_of_le hle, hsum]
  generalize array.length + BitVec.ofNat 64 buffer.length - array.capacity = extraCount at hextra
  split
  · rename_i hzero
    have hcapacity : array.capacity.toNat = 0 := by rw [hzero]; rfl
    unfold sizeMax
    split
    · rename_i hgt
      have hgt' : extraCount.toNat < dynamicArrayInitialCapacity.toNat := hgt
      omega
    · omega
  · rw [BitVec.toNat_mul, BitVec.toNat_add, hextra]
    show array.length.toNat + buffer.length ≤ 2 * (_ % 2 ^ 64) % 2 ^ 64
    omega

/-- `dynamic_array_push_back` appends the buffer. -/
theorem pushBack_spec {array : DynamicArray} (h : ArrayInv array) {buffer : List Byte} (memory : Nat → Byte)
    (hne : buffer ≠ []) (hsmall : array.length.toNat + buffer.length < 2 ^ 62) :
    Appends array buffer (dynamicArrayPushBack (some memory) array buffer) := by
  have hover := wouldOverflow_iff hne hsmall
  have hlen_pos : BitVec.ofNat 64 buffer.length > 0#64 := by
    show 0 < (BitVec.ofNat 64 buffer.length).toNat
    rw [(toNat_length_add hsmall).1]
    exact List.length_pos_iff.mpr hne
  unfold dynamicArrayPushBack
  simp only
  rw [if_neg (not_not.mpr hlen_pos)]
  by_cases hfull : dynamicArrayWouldOverflow array (BitVec.ofNat 64 buffer.length) = true
  · obtain ⟨grown, hgrow, happends⟩ := appends_of_grow h memory hne (extended_room hsmall (hover.mp hfull))
    rw [if_pos hfull, hgrow]
    exact happends
  · have hroom : array.length.toNat + buffer.length ≤ array.capacity.toNat := by
      rw [hover] at hfull
      omega
    rw [if_neg hfull]
    exact appends_of_room h rfl rfl hne hroom

/-! ## A row of pushes -/

/-- A push appends what it pushes. -/
theorem perform_spec {array : DynamicArray} (h : ArrayInv array) {push : Push} (hheap : push.heap.isSome = true)
    (hne : push.bytes ≠ []) (hsmall : array.length.toNat + push.bytes.length < 2 ^ 62) :
    Appends array push.bytes (push.perform array) := by
  obtain ⟨memory, hmemory⟩ := Option.isSome_iff_exists.mp hheap
  cases push with
  | byte item heap =>
    obtain rfl : heap = some memory := hmemory
    exact pushBackByte_spec h item memory hsmall
  | buffer bytes heap =>
    obtain rfl : heap = some memory := hmemory
    exact pushBack_spec h memory hne hsmall

/-- A row of pushes appends what they push, in order. -/
theorem pushAll_spec {pushes : List Push} {array : DynamicArray} (h : ArrayInv array)
    (hheap : ∀ push ∈ pushes, push.heap.isSome = true) (hne : ∀ push ∈ pushes, push.bytes ≠ [])
    (hsmall : array.length.toNat + (pushed pushes).length < 2 ^ 62) :
    ∃ array', pushAll pushes array = .ok (List.replicate pushes.length 0, array') ∧ ArrayInv array' ∧
      array'.contents = array.contents ++ pushed pushes := by
  induction pushes generalizing array with
  | nil => exact ⟨array, rfl, h, (List.append_nil _).symm⟩
  | cons push pushes ih =>
    obtain ⟨hheap₁, hheap⟩ := List.forall_mem_cons.mp hheap
    obtain ⟨hne₁, hne⟩ := List.forall_mem_cons.mp hne
    have hpushed : pushed (push :: pushes) = push.bytes ++ pushed pushes := rfl
    rw [hpushed, List.length_append] at hsmall
    obtain ⟨array₁, hperform, hinv₁, hcontents₁, hlength₁⟩ := perform_spec h hheap₁ hne₁ (by omega)
    obtain ⟨array', hrest, hinv', hcontents'⟩ := ih hinv₁ hheap hne (by omega)
    refine ⟨array', ?_, hinv', by rw [hcontents', hcontents₁, hpushed, List.append_assoc]⟩
    rw [pushAll, hperform, ok_bind]
    simp only
    rw [hrest]
    rfl

/-- The bytes pushed one at a time. -/
theorem pushed_bytewise (bytes : List Byte) (memory : Nat → Byte) :
    pushed (bytes.map fun b => .byte b (some memory)) = bytes := by
  induction bytes with
  | nil => rfl
  | cons b bytes ih => exact congrArg (b :: ·) ih

end DynamicArrayAux

open DynamicArrayAux

/-- Pushes on a new array, with memory to grow and fewer than `2 ^ 62` bytes in all, each return 0 and leave the
concatenation of what was pushed; the bytes pushed one at a time leave the same contents. -/
theorem pushes_concatenate (initial : DynamicArray) (hinit : Initialised initial) (pushes : List Push)
    (hheap : ∀ push ∈ pushes, push.heap.isSome = true) (hne : ∀ push ∈ pushes, push.bytes ≠ [])
    (htotal : (pushed pushes).length < 2 ^ 62) :
    ∃ array, Pushed initial pushes array ∧
      ∀ memory, ∃ array', Pushed initial ((pushed pushes).map fun b => .byte b (some memory)) array' ∧
        array'.contents = array.contents := by
  obtain ⟨hinv, hlength, hcontents⟩ := arrayInv_initialised hinit
  have hall : ∀ pushes : List Push, (∀ push ∈ pushes, push.heap.isSome = true) → (∀ push ∈ pushes, push.bytes ≠ []) →
      (pushed pushes).length < 2 ^ 62 → ∃ array, Pushed initial pushes array := by
    intro pushes hheap hne htotal
    obtain ⟨array, hreturns, hinv', hcontents'⟩ := pushAll_spec hinv hheap hne (by omega)
    exact ⟨array, hreturns, hinv'.room, hinv'.length_le, by rw [hcontents', hcontents, List.nil_append]⟩
  obtain ⟨array, harray⟩ := hall pushes hheap hne htotal
  refine ⟨array, harray, fun memory => ?_⟩
  obtain ⟨array', harray'⟩ := hall ((pushed pushes).map fun b => .byte b (some memory))
    (by simp [Push.heap]) (by simp [Push.bytes]) (by rw [pushed_bytewise]; exact htotal)
  exact ⟨array', harray', by rw [harray'.contents, pushed_bytewise, harray.contents]⟩

/-- A byte and a buffer of three on an empty array. -/
theorem pushes_concatenate_four :
    ∃ array, Pushed dynamicArrayInit [.byte 1#8 (some fun _ => 0#8), .buffer [2#8, 3#8, 4#8] (some fun _ => 0#8)] array ∧
      array.contents = [1#8, 2#8, 3#8, 4#8] := by
  obtain ⟨array, harray, -⟩ := pushes_concatenate dynamicArrayInit (Or.inl rfl)
    [.byte 1#8 (some fun _ => 0#8), .buffer [2#8, 3#8, 4#8] (some fun _ => 0#8)] (by simp [Push.heap]) (by simp [Push.bytes])
    (by decide)
  exact ⟨array, harray, harray.contents⟩

end CLangExamples.Http
