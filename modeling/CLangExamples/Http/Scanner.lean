import CLangExamples.Http.Headers

/-!
# The scanner

`scanner.c` and the slices of `str.c` that it works on. A `const char*` is an address, with 0 for `NULL`, and the memory a
function from addresses to bytes; the scanner writes only to its own slices.
-/

namespace CLangExamples.Http

/-- The bytes in memory. -/
abbrev Memory : Type := Nat → Byte

/-! ## Slices -/

/-- `struct str_slice` -/
structure StrSlice where
  ptr : Nat
  len : Nat
  deriving DecidableEq

/-- `str_slice_is_empty` -/
def strSliceIsEmpty (s : StrSlice) : Bool := s.ptr == 0 || s.len == 0

/-- The bytes that a slice shows. -/
def StrSlice.bytes (memory : Memory) (s : StrSlice) : List Byte :=
  if s.ptr = 0 then [] else (List.range s.len).map fun i => memory (s.ptr + i)

/-! ## Searching -/

/-- `memchr`: the address of the first occurrence, or none for `NULL`. -/
def memchr (memory : Memory) (ptr : Nat) (c : Byte) (len : Nat) : Option Nat :=
  ((List.range len).find? fun i => memory (ptr + i) = c).map (ptr + ·)

/-- `memmem`: the address of the first occurrence, or none for `NULL`. -/
def memmem (memory : Memory) (haystack haystackLen needle needleLen : Nat) : Option Nat :=
  ((List.range (haystackLen + 1)).find? fun i =>
    i + needleLen ≤ haystackLen ∧ ∀ j < needleLen, memory (haystack + i + j) = memory (needle + j)).map (haystack + ·)

/-! ## The scanner -/

/-- `struct scanner` -/
structure Scanner where
  input : StrSlice
  deriving DecidableEq

/-- `enum result` -/
inductive ResultCode where
  | ok
  | err
  deriving DecidableEq

/-- What a call returns, with the scanner and the out slice it leaves. -/
structure Scanned where
  result : ResultCode
  scanner : Scanner
  out : StrSlice
  deriving DecidableEq

/-- The end of `scanner_next_until_char` and `scanner_next_until_slice`, with what the search returned. -/
def Scanner.cutAt (s : Scanner) (out : StrSlice) : Option Nat → Scanned
  | none => ⟨.err, s, out⟩
  | some ptr =>
    let offset := ptr - s.input.ptr
    ⟨.ok, ⟨⟨ptr, s.input.len - offset⟩⟩, ⟨s.input.ptr, offset⟩⟩

/-- `scanner_next_until_char` -/
def scannerNextUntilChar (memory : Memory) (s : Scanner) (c : Byte) (out : StrSlice) : Scanned :=
  if strSliceIsEmpty s.input then ⟨.err, s, out⟩ else s.cutAt out (memchr memory s.input.ptr c s.input.len)

/-- `scanner_next_until_slice` -/
def scannerNextUntilSlice (memory : Memory) (s : Scanner) (pattern out : StrSlice) : Scanned :=
  if strSliceIsEmpty s.input then ⟨.err, s, out⟩
  else s.cutAt out (memmem memory s.input.ptr s.input.len pattern.ptr pattern.len)

/-- `scanner_next_until_end` -/
def scannerNextUntilEnd (s : Scanner) (out : StrSlice) : Scanned :=
  if strSliceIsEmpty s.input then ⟨.err, s, out⟩
  else ⟨.ok, ⟨⟨s.input.ptr + s.input.len, s.input.len - s.input.len⟩⟩, s.input⟩

end CLangExamples.Http
