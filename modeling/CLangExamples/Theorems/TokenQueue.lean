import CLangExamples.Lemmas.AqlsLexer
import CLangExamples.Lib.Simulation

/-!
# The token queue is a FIFO list

`aqls_token_queue_append`, `aqls_token_queue_pop` and `aqls_token_queue_peek` in any order, on a queue of any capacity,
beside the same calls on a list of at most that many tokens. An assertion of the source fails exactly where the list has no
room or nothing to give.
-/

namespace CLangExamples.Aqls

open Ring Transition

/-- A call on a queue. -/
inductive QueueCall where
  | append (item : Token)
  | pop
  | peek

section

variable {capacity : Nat} [NeZero capacity]

/-- The token that a call returns, if it returns one, and the queue after it. -/
def queueCall : QueueCall → TokenQueue capacity → Except Exit (Option Token × TokenQueue capacity)
  | .append item, queue => do
    let queue ← aqlsTokenQueueAppend queue item
    return (none, queue)
  | .pop, queue => do
    let (token, queue) ← aqlsTokenQueuePop queue
    return (some token, queue)
  | .peek, queue => do
    let token ← aqlsTokenQueuePeek queue
    return (some token, queue)

/-- The same call on the list of the tokens, oldest first. -/
def fifoCall (capacity : Nat) : QueueCall → List Token → Except Exit (Option Token × List Token)
  | .append item, list => if list.length < capacity then .ok (none, list ++ [item]) else .error .assertion
  | .pop, [] => .error .assertion
  | .pop, oldest :: list => .ok (some oldest, list)
  | .peek, [] => .error .assertion
  | .peek, oldest :: list => .ok (some oldest, oldest :: list)

/-- The queue is in the state of the list. -/
structure IsFifo (queue : TokenQueue capacity) (list : List Token) : Prop where
  isEmpty_iff : aqlsTokenQueueIsEmpty queue = true ↔ list = []
  isFull_iff : aqlsTokenQueueIsFull queue = true ↔ list.length = capacity
  start_lt : queue.start.val < capacity
  end_eq : queue.end_.val = (queue.start.val + queue.len) % capacity
  len_le : queue.len ≤ capacity
  len_eq : queue.len = list.length

namespace TokenQueueAux

/-- The queue holds the tokens of the list. -/
def Holds (queue : TokenQueue capacity) (list : List Token) : Prop := QueueInv queue ∧ queue.toList = list

variable {queue : TokenQueue capacity} {list : List Token}

theorem holds_len (h : Holds queue list) : queue.len = list.length := by
  rw [← h.2, length_toList]

theorem holds_isFifo (h : Holds queue list) : IsFifo queue list := by
  have hlen := holds_len h
  refine ⟨?_, ?_, queue.start.isLt, ?_, h.1.len_le, hlen⟩
  · rw [isEmpty_iff, h.2]
  · unfold aqlsTokenQueueIsFull
    rw [beq_iff_eq, hlen]
  · rw [h.1.end_eq]
    rfl

/-- An assertion that fails ends the call. -/
theorem assert_false {c : Prop} [Decidable c] (h : ¬c) : assert c = .error .assertion := by
  unfold assert
  rw [if_neg h]

/-- A list with nothing in it leaves the assertions of `pop` and `peek` failing. -/
theorem holds_nil (h : Holds queue []) :
    aqlsTokenQueuePop queue = .error .assertion ∧ aqlsTokenQueuePeek queue = .error .assertion := by
  have hempty : ¬aqlsTokenQueueIsEmpty queue = false := by
    rw [Bool.not_eq_false, isEmpty_iff]
    exact h.2
  unfold aqlsTokenQueuePop aqlsTokenQueuePeek
  rw [assert_false hempty]
  exact ⟨rfl, rfl⟩

/-- One call on a queue and on its list. -/
theorem queueCall_agree (call : QueueCall) (queue : TokenQueue capacity) (list : List Token) (h : Holds queue list) :
    Agree Holds (queueCall call queue) (fifoCall capacity call list) := by
  have hlen := holds_len h
  cases call with
  | append item =>
    rw [queueCall, fifoCall]
    by_cases hroom : list.length < capacity
    · obtain ⟨queue', happend, hinv, hlist⟩ := queueAppend_spec h.1 (by omega) item
      rw [if_pos hroom, happend]
      exact .ok ⟨hinv, by rw [hlist, h.2]⟩
    · have hle := h.1.len_le
      have hfull : ¬aqlsTokenQueueIsFull queue = false := by
        unfold aqlsTokenQueueIsFull
        rw [Bool.not_eq_false, beq_iff_eq]
        omega
      rw [if_neg hroom, aqlsTokenQueueAppend, assert_false hfull]
      exact .error _
  | pop =>
    cases list with
    | nil =>
      rw [queueCall, (holds_nil h).1]
      exact .error _
    | cons oldest list =>
      obtain ⟨-, queue', hpop, hinv, hlist⟩ := queuePop_spec h.1 h.2
      rw [queueCall, hpop]
      exact .ok ⟨hinv, hlist⟩
  | peek =>
    cases list with
    | nil =>
      rw [queueCall, (holds_nil h).2]
      exact .error _
    | cons oldest list =>
      rw [queueCall, (queuePop_spec h.1 h.2).1]
      exact .ok h

omit [NeZero capacity] in
/-- On the list, too, a call stops only with a failed assertion. -/
theorem fifoCall_error {call : QueueCall} {list : List Token} {e : Exit} (h : fifoCall capacity call list = .error e) :
    e = .assertion := by
  cases call with
  | append item =>
    rw [fifoCall] at h
    split at h
    · cases h
    · exact (Except.error.inj h).symm
  | pop =>
    cases list with
    | nil => exact (Except.error.inj h).symm
    | cons oldest list => cases h
  | peek =>
    cases list with
    | nil => exact (Except.error.inj h).symm
    | cons oldest list => cases h

end TokenQueueAux

end

open TokenQueueAux

/-- From an empty queue of any capacity, any row of calls returns what it returns on a list and leaves the queue in the
state of the list; the rows that the assertions end are those that the list cannot do. -/
theorem token_queue_refines_fifo (capacity : Nat) [NeZero capacity] (calls : List QueueCall) :
    (∃ returned list queue, runCalls (fifoCall capacity) calls [] = .ok (returned, list) ∧
      runCalls queueCall calls (aqlsTokenQueueInit : TokenQueue capacity) = .ok (returned, queue) ∧ IsFifo queue list) ∨
    (runCalls (fifoCall capacity) calls [] = .error .assertion ∧
      runCalls queueCall calls (aqlsTokenQueueInit : TokenQueue capacity) = .error .assertion) := by
  have hstart : Holds (aqlsTokenQueueInit : TokenQueue capacity) [] :=
    ⟨queueInv_init, List.eq_nil_of_length_eq_zero (length_toList _)⟩
  have hagree := runCalls_agree queueCall_agree calls hstart
  cases hfifo : runCalls (fifoCall capacity) calls [] with
  | error e =>
    obtain rfl : e = .assertion := runCalls_error (fun _ _ _ => fifoCall_error) hfifo
    rw [hfifo] at hagree
    exact Or.inr ⟨rfl, hagree.of_error⟩
  | ok result =>
    obtain ⟨returned, list⟩ := result
    rw [hfifo] at hagree
    obtain ⟨queue, hqueue, hholds⟩ := hagree.of_ok
    exact Or.inl ⟨returned, list, queue, rfl, hqueue, holds_isFifo hholds⟩

/-- Around a queue of two: three appends and two pops, with the third token in the first slot. -/
theorem token_queue_wraps :
    ∃ queue : TokenQueue 2, runCalls queueCall
        [.append aqlsTokenStringLiteral, .append aqlsTokenEof, .pop, .append aqlsTokenStringLiteral, .pop, .peek]
        aqlsTokenQueueInit =
      .ok ([none, none, some aqlsTokenStringLiteral, none, some aqlsTokenEof, some aqlsTokenStringLiteral], queue) ∧
      IsFifo queue [aqlsTokenStringLiteral] := by
  rcases token_queue_refines_fifo 2
    [.append aqlsTokenStringLiteral, .append aqlsTokenEof, .pop, .append aqlsTokenStringLiteral, .pop, .peek] with
    ⟨returned, list, queue, hfifo, hqueue, hholds⟩ | ⟨hfifo, -⟩
  · obtain ⟨rfl, rfl⟩ := Prod.mk.inj (Except.ok.inj hfifo)
    exact ⟨queue, hqueue, hholds⟩
  · cases hfifo

end CLangExamples.Aqls
