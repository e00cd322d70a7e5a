import CLangExamples.Http.Request
import CLangExamples.Theorems.FailedGrowth
import CLangExamples.Theorems.HttpServer
import CLangExamples.Theorems.Scanner

/-!
# What comes of reading a whole request

Nothing ever says that the request is complete, so the call does not end well: it goes on until a `poll` or a `recv` fails,
the client is late or gone, or memory runs out. Up to there the array holds what was received, one chunk after the other.
-/

namespace CLangExamples.Http

open Transition

/-- What is received in a round. -/
def Round.chunk (round : Round) : List Byte :=
  match round.poll, round.payload with
  | .ready true, some payload => payload.take bufferSize
  | _, _ => []

/-- What is received in a row of rounds. -/
def chunks (rounds : List Round) : List Byte := rounds.flatMap Round.chunk

/-- The bytes in front of the first `"\r\n"`. -/
def FirstLine (bytes line : List Byte) : Prop :=
  line ++ [cr, lf] <+: bytes ∧ ∀ i < line.length, ¬[cr, lf] <+: bytes.drop i

/-- `Stops firstChunk data left after ending`: with `data` received and `left` still to come, the call ends with the array
`after`, or is in `poll`. -/
inductive Stops (firstChunk : Bool) (data : DynamicArray) : List Round → DynamicArray → ReadEnding → Prop where
  | polls : Stops firstChunk data [] data .polling
  /-- `poll` or `recv` fails, the client is late, or it has closed the connection -/
  | gone {round : Round} {left : List Round} (hpoll : round.poll ≠ .ready false) (hchunk : round.chunk = []) :
      Stops firstChunk data (round :: left) data (.returned .err)
  | aborts {round : Round} {left : List Round} (hpoll : round.poll = .ready false) :
      Stops firstChunk data (round :: left) data (.aborted .pollin)
  /-- the array cannot grow, and loses what it held -/
  | memory {round : Round} {left : List Round} (hchunk : round.chunk ≠ [])
      (hfails : (Push.buffer round.chunk round.heap).ReallocFails data) :
      Stops firstChunk data (round :: left) { data with items := none } (.returned .err)
  /-- the first chunk has no line -/
  | noLine {round : Round} {left : List Round} {after : DynamicArray} (hfirst : firstChunk = true)
      (hchunk : round.chunk ≠ []) (hline : ¬[cr, lf] <:+: round.chunk) (hafter : after.contents = round.chunk) :
      Stops firstChunk data (round :: left) after (.returned .err)

/-- What is printed of the rounds that were served: the first line of the first one. -/
def Prints : List Round → List Byte → Prop
  | [], stdout => stdout = []
  | first :: _, stdout => ∃ line, FirstLine first.chunk line ∧ stdout = line ++ [lf]

namespace HttpRequestAux

open DynamicArrayAux FailedGrowthAux ScannerAux

variable {layout : Layout}

/-! ## The bytes in memory -/

theorem bytes_items {block : List Byte} {n : Nat} (h : n ≤ block.length) :
    StrSlice.bytes (layout.memory block) ⟨layout.items, n⟩ = block.take n := by
  have hpos := layout.below
  rw [bytes_of_ne (by omega)]
  apply List.ext_getElem?
  intro i
  by_cases hi : i < n
  · rw [List.getElem?_take_of_lt hi, List.getElem?_map, List.getElem?_range hi, Option.map_some]
    unfold Layout.memory
    rw [if_neg (by omega), Nat.add_sub_cancel_left, List.getD_eq_getElem?_getD, List.getElem?_eq_getElem (by omega)]
    rfl
  · rw [List.getElem?_eq_none (by simpa using Nat.le_of_not_lt hi), List.getElem?_eq_none (by simp; omega)]

theorem bytes_pattern (block : List Byte) :
    StrSlice.bytes (layout.memory block) ⟨layout.pattern, 2⟩ = [cr, lf] := by
  have hpos := layout.pattern_pos
  have hbelow := layout.below
  rw [bytes_of_ne (by omega)]
  have hrange : List.range 2 = [0, 1] := rfl
  rw [hrange]
  unfold Layout.memory
  simp only [List.map_cons, List.map_nil]
  rw [if_pos (by omega), if_pos (by omega), Nat.add_sub_cancel_left, Nat.add_sub_cancel_left]
  rfl

/-! ## The first line -/

/-- A search that finds nothing leaves nothing to be found. -/
theorem not_occurs_of_none {memory : Memory} {p n : Nat} (pattern : StrSlice) (hp : p ≠ 0) (hpattern : pattern.ptr ≠ 0)
    (h : memmem memory p n pattern.ptr pattern.len = none) :
    ¬pattern.bytes memory <:+: StrSlice.bytes memory ⟨p, n⟩ := by
  rintro ⟨before, after, hbytes⟩
  have hlength := congrArg List.length hbytes
  have hlen : (pattern.bytes memory).length = pattern.len := by
    rw [StrSlice.bytes, if_neg hpattern, List.length_map, List.length_range]
  rw [bytes_of_ne hp, List.length_append, List.length_append, hlen, List.length_map, List.length_range] at hlength
  have hle : before.length ≤ n := by omega
  have hprefix : pattern.bytes memory <+: StrSlice.bytes memory ⟨p + before.length, n - before.length⟩ := by
    rw [← bytes_drop memory hp hle, ← hbytes, List.append_assoc, List.drop_left]
    exact List.prefix_append _ _
  rw [prefix_bytes_iff memory (by omega)] at hprefix
  unfold memmem at h
  rw [Option.map_eq_none_iff, List.find?_eq_none] at h
  refine h before.length (List.mem_range.mpr (by omega)) (decide_eq_true ⟨by omega, fun j hj => ?_⟩)
  have hbyte := hprefix.2 j (by omega)
  rw [← hbyte]
  simp only [StrSlice.bytes, if_neg hpattern, List.getElem_map, List.getElem_range]

/-- The line that is printed of the first chunk. -/
theorem firstLine_cases (layout : Layout) {data : DynamicArray} (h : ArrayInv data) (hne : data.contents ≠ []) :
    (∃ line, FirstLine data.contents line ∧ firstLine layout data = some (line ++ [lf])) ∨
    (¬[cr, lf] <:+: data.contents ∧ firstLine layout data = none) := by
  have hpattern : strSliceIsEmpty ⟨layout.pattern, 2⟩ = false := by
    have hpos := layout.pattern_pos
    simp [strSliceIsEmpty]
    omega
  have hitems : layout.items ≠ 0 := by
    have := layout.below
    omega
  obtain ⟨memory, hmemory⟩ : ∃ memory, layout.memory (data.items.getD []) = memory := ⟨_, rfl⟩
  have hbytes : StrSlice.bytes memory ⟨layout.items, data.length.toNat⟩ = data.contents :=
    hmemory ▸ bytes_items (h.room ▸ h.length_le)
  have hcrlf : StrSlice.bytes memory ⟨layout.pattern, 2⟩ = [cr, lf] := hmemory ▸ bytes_pattern _
  have hspec := perform_spec memory ⟨⟨layout.items, data.length.toNat⟩⟩ ⟨0, 0⟩ (.untilSlice ⟨layout.pattern, 2⟩ hpattern)
  obtain ⟨scanned, hscan⟩ : ∃ scanned, scannerNextUntilSlice memory ⟨⟨layout.items, data.length.toNat⟩⟩
      ⟨layout.pattern, 2⟩ ⟨0, 0⟩ = scanned := ⟨_, rfl⟩
  rw [ScanCall.perform, hscan] at hspec
  obtain ⟨hkeeps, hlaw⟩ := hspec
  cases hresult : scanned.result with
  | ok =>
    have hline : firstLine layout data = some (strSlicePrintln memory scanned.out) := by
      unfold firstLine strSliceFromBuffer
      simp only [hmemory, hscan, hresult]
    unfold Keeps at hkeeps
    rw [if_pos hresult, hbytes] at hkeeps
    have hstarts := hlaw.starts hresult _ rfl
    have hfirst := hlaw.first hresult _ rfl
    rw [hcrlf] at hstarts hfirst
    rw [hbytes] at hfirst
    refine Or.inl ⟨scanned.out.bytes memory, ⟨?_, fun i hi => hfirst i ?_⟩, hline⟩
    · rw [← hkeeps]
      exact (List.prefix_append_right_inj _).mpr hstarts
    · have hle : (scanned.out.bytes memory).length ≤ scanned.out.len := by
        unfold StrSlice.bytes
        split
        · exact Nat.zero_le _
        · simp
      exact Nat.lt_of_lt_of_le hi hle
  | err =>
    have hline : firstLine layout data = none := by
      unfold firstLine strSliceFromBuffer
      simp only [hmemory, hscan, hresult]
    refine Or.inr ⟨?_, hline⟩
    have hlength : data.length.toNat ≠ 0 := by
      intro hzero
      exact hne (by rw [DynamicArray.contents, hzero, List.take_zero])
    have hempty : strSliceIsEmpty ⟨layout.items, data.length.toNat⟩ ≠ true := by
      simp [strSliceIsEmpty, hitems, hlength]
    unfold scannerNextUntilSlice at hscan
    rw [if_neg hempty] at hscan
    cases hfound : memmem memory layout.items data.length.toNat layout.pattern 2 with
    | none =>
      have hnot := not_occurs_of_none ⟨layout.pattern, 2⟩ hitems (Nat.ne_of_gt layout.pattern_pos) hfound
      rwa [hcrlf, hbytes] at hnot
    | some q =>
      simp only [hfound, Scanner.cutAt] at hscan
      rw [← hscan] at hresult
      cases hresult

/-! ## One round -/

/-- A round without a chunk ends the call. -/
theorem pollLoop_no_chunk (layout : Layout) (firstChunk : Bool) (data : DynamicArray) {round : Round}
    (hchunk : round.chunk = []) (rounds : List Round) :
    ∃ ending, pollLoop layout false firstChunk data (round :: rounds) = ⟨data, [], ending⟩ ∧
      Stops firstChunk data (round :: rounds) data ending := by
  have hgone : round.poll ≠ .ready false → Stops firstChunk data (round :: rounds) data (.returned .err) :=
    fun hpoll => .gone hpoll hchunk
  rw [pollLoop]
  cases hpoll : round.poll with
  | failed => exact ⟨_, rfl, hgone (by rw [hpoll]; nofun)⟩
  | timedOut => exact ⟨_, rfl, hgone (by rw [hpoll]; nofun)⟩
  | ready pollin =>
    cases pollin with
    | false => exact ⟨_, rfl, .aborts hpoll⟩
    | true =>
      refine ⟨.returned .err, ?_, hgone (by rw [hpoll]; nofun)⟩
      simp only [Bool.true_eq_false, if_false]
      unfold recv
      cases hpayload : round.payload with
      | none => rfl
      | some payload =>
        unfold Round.chunk at hchunk
        rw [hpoll, hpayload] at hchunk
        simp only at hchunk ⊢
        rw [hchunk]
        rfl

/-- A round with a chunk pushes it. -/
theorem pollLoop_chunk (layout : Layout) (firstChunk : Bool) (data : DynamicArray) {round : Round}
    (hchunk : round.chunk ≠ []) (rounds : List Round) :
    pollLoop layout false firstChunk data (round :: rounds) =
      match dynamicArrayPushBack round.heap data round.chunk with
      | .error fault => ⟨data, [], .fault fault⟩
      | .ok (rc, data) =>
        if rc ≠ 0 then ⟨data, [], .returned .err⟩
        else if firstChunk then
          match firstLine layout data with
          | none => ⟨data, [], .returned .err⟩
          | some line =>
            let rest := pollLoop layout false false data rounds
            ⟨rest.data, line ++ rest.stdout, rest.ending⟩
        else pollLoop layout false false data rounds := by
  have hready : ∃ payload, round.poll = .ready true ∧ round.payload = some payload ∧
      round.chunk = payload.take bufferSize := by
    unfold Round.chunk at hchunk ⊢
    split at hchunk
    · next payload hpoll hpayload => exact ⟨payload, hpoll, hpayload, rfl⟩
    · exact absurd rfl hchunk
  obtain ⟨payload, hpoll, hpayload, htake⟩ := hready
  have hpos : 0 < round.chunk.length := List.length_pos_iff.mpr hchunk
  rw [pollLoop, hpoll]
  simp only [Bool.true_eq_false, if_false]
  unfold recv
  rw [hpayload]
  simp only
  rw [← htake, if_neg (by omega)]
  generalize hbytes : List.take _ (overwrite _ round.chunk) = bytes
  rw [overwrite, Int.toNat_natCast, List.take_left] at hbytes
  subst hbytes
  rfl

/-- A push of a chunk appends it, or loses the block. -/
theorem push_cases {data : DynamicArray} (h : ArrayInv data) {round : Round} (hchunk : round.chunk ≠ [])
    (hsmall : data.length.toNat + round.chunk.length < 2 ^ 62) :
    ((Push.buffer round.chunk round.heap).ReallocFails data ∧
      dynamicArrayPushBack round.heap data round.chunk = .ok (1, { data with items := none })) ∨
    ∃ data', dynamicArrayPushBack round.heap data round.chunk = .ok (0, data') ∧ ArrayInv data' ∧
      data'.contents = data.contents ++ round.chunk ∧ data'.length.toNat = data.length.toNat + round.chunk.length := by
  by_cases hfails : (Push.buffer round.chunk round.heap).ReallocFails data
  · exact Or.inl ⟨hfails, perform_fails hfails⟩
  · exact Or.inr (perform_appends h hfails hchunk hsmall)

/-- However it ends, the call does not succeed. -/
theorem stops_ending {firstChunk : Bool} {data after : DynamicArray} {left : List Round} {ending : ReadEnding}
    (h : Stops firstChunk data left after ending) : ending ≠ .returned .ok ∧ ∀ fault, ending ≠ .fault fault := by
  cases h <;> exact ⟨nofun, nofun⟩

/-! ## The rounds -/

theorem chunks_cons (round : Round) (rounds : List Round) : chunks (round :: rounds) = round.chunk ++ chunks rounds := rfl

/-- Behind the first chunk. -/
theorem pollLoop_rest (layout : Layout) {data : DynamicArray} (h : ArrayInv data) (rounds : List Round)
    (hsmall : data.length.toNat + (chunks rounds).length < 2 ^ 62) :
    ∃ served left before after ending, rounds = served ++ left ∧ (∀ round ∈ served, round.chunk ≠ []) ∧
      before.contents = data.contents ++ chunks served ∧ Stops false before left after ending ∧
      pollLoop layout false false data rounds = ⟨after, [], ending⟩ := by
  induction rounds generalizing data with
  | nil => exact ⟨[], [], data, _, _, rfl, nofun, (List.append_nil _).symm, .polls, rfl⟩
  | cons round rounds ih =>
    by_cases hchunk : round.chunk = []
    · obtain ⟨ending, hloop, hstops⟩ := pollLoop_no_chunk layout false data hchunk rounds
      exact ⟨[], _, data, _, ending, rfl, nofun, (List.append_nil _).symm, hstops, hloop⟩
    · rw [chunks_cons, List.length_append] at hsmall
      have hloop := pollLoop_chunk layout false data hchunk rounds
      rcases push_cases h hchunk (by omega) with ⟨hfails, hpush⟩ | ⟨data', hpush, hinv, hcontents, hlength⟩
      · rw [hpush] at hloop
        exact ⟨[], _, data, _, _, rfl, nofun, (List.append_nil _).symm, .memory hchunk hfails, hloop⟩
      · rw [hpush] at hloop
        obtain ⟨served, left, before, after, ending, rfl, hserved, hbefore, hstops, hrest⟩ := ih hinv (by omega)
        refine ⟨round :: served, left, before, after, ending, rfl, List.forall_mem_cons.mpr ⟨hchunk, hserved⟩, ?_, hstops,
          ?_⟩
        · rw [hbefore, hcontents, chunks_cons, List.append_assoc]
        · rw [hloop]
          exact hrest

/-- The whole call. -/
theorem pollLoop_first (layout : Layout) {data : DynamicArray} (h : ArrayInv data) (hempty : data.contents = [])
    (hzero : data.length.toNat = 0) (rounds : List Round) (hsmall : (chunks rounds).length < 2 ^ 62) :
    ∃ served left before, rounds = served ++ left ∧ (∀ round ∈ served, round.chunk ≠ []) ∧
      before.contents = chunks served ∧
      Stops served.isEmpty before left (pollLoop layout false true data rounds).data
        (pollLoop layout false true data rounds).ending ∧
      Prints served (pollLoop layout false true data rounds).stdout := by
  cases rounds with
  | nil => exact ⟨[], [], data, rfl, nofun, hempty, .polls, rfl⟩
  | cons round rounds =>
    by_cases hchunk : round.chunk = []
    · obtain ⟨ending, hloop, hstops⟩ := pollLoop_no_chunk layout true data hchunk rounds
      rw [hloop]
      exact ⟨[], _, data, rfl, nofun, hempty, hstops, rfl⟩
    · rw [chunks_cons, List.length_append] at hsmall
      have hloop := pollLoop_chunk layout true data hchunk rounds
      rcases push_cases h hchunk (by omega) with ⟨hfails, hpush⟩ | ⟨data', hpush, hinv, hcontents, hlength⟩
      · rw [hloop, hpush]
        exact ⟨[], _, data, rfl, nofun, hempty, .memory hchunk hfails, rfl⟩
      · rw [hempty, List.nil_append] at hcontents
        rw [hloop, hpush]
        rcases firstLine_cases layout hinv (hcontents ▸ hchunk) with ⟨line, hline, hfirst⟩ | ⟨hnone, hfirst⟩
        · obtain ⟨served, left, before, after, ending, rfl, hserved, hbefore, hstops, hrest⟩ :=
            pollLoop_rest layout hinv rounds (by omega)
          simp only [ne_eq, not_true_eq_false, if_false, if_true]
          rw [hfirst]
          simp only
          rw [hrest]
          refine ⟨round :: served, left, before, rfl, List.forall_mem_cons.mpr ⟨hchunk, hserved⟩, ?_, hstops, ?_⟩
          · rw [hbefore, hcontents, chunks_cons]
          · exact ⟨line, hcontents ▸ hline, List.append_nil _⟩
        · simp only [ne_eq, not_true_eq_false, if_false, if_true]
          rw [hfirst]
          exact ⟨[], _, data, rfl, nofun, hempty, .noLine rfl hchunk (hcontents ▸ hnone) hcontents, rfl⟩

end HttpRequestAux

open DynamicArrayAux HttpRequestAux

/-- The call never succeeds and never leaves defined behaviour. When it ends, the array holds the chunks that it received,
one after the other, unless the array could not grow, and the first line of the first chunk has been printed, if it has
one. -/
theorem request_never_completes (layout : Layout) {data : DynamicArray} (h : Initialised data) (rounds : List Round)
    (hsmall : (chunks rounds).length < 2 ^ 62) :
    let run := httpRequestPollAndRead layout data rounds
    run.ending ≠ .returned .ok ∧ (∀ fault, run.ending ≠ .fault fault) ∧
    ∃ served left before, rounds = served ++ left ∧ (∀ round ∈ served, round.chunk ≠ []) ∧
      before.contents = chunks served ∧ Stops served.isEmpty before left run.data run.ending ∧
      Prints served run.stdout := by
  obtain ⟨hinv, hzero, hempty⟩ := arrayInv_initialised h
  obtain ⟨served, left, before, hrounds, hserved, hbefore, hstops, hprints⟩ :=
    pollLoop_first layout hinv hempty hzero rounds hsmall
  obtain ⟨hok, hfault⟩ := stops_ending hstops
  exact ⟨hok, hfault, served, left, before, hrounds, hserved, hbefore, hstops, hprints⟩

/-- A client that sends a line and is late with the next one: the bytes are there, and the call fails. -/
theorem request_never_completes_late :
    let layout : Layout := ⟨16, 8, by decide, by decide⟩
    let rounds : List Round := [⟨.ready true, some [0x47#8, cr, lf], some fun _ => 0#8⟩, ⟨.timedOut, none, none⟩]
    (httpRequestPollAndRead layout dynamicArrayInit rounds).ending ≠ .returned .ok ∧ (chunks rounds).length = 3 :=
  ⟨(request_never_completes ⟨16, 8, by decide, by decide⟩ (Or.inl rfl)
    [⟨.ready true, some [0x47#8, cr, lf], some fun _ => 0#8⟩, ⟨.timedOut, none, none⟩] (by decide)).1, by decide⟩

end CLangExamples.Http
