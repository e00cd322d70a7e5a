import CLangExamples.Emulator.Machine
import Mathlib.Algebra.GroupWithZero.Nat
import Mathlib.Algebra.Order.BigOperators.Group.List
import Mathlib.Algebra.Order.Group.Nat

/-!
# The rate of a timer

A timer counts down once every `CLOCK_TIMEUP_DURATION_MS`. `timer_update` charges the ticks since `timer_start` each time it
is called, and neither it nor `timer_set_value` moves `last_tick_timestamp_ms`; `timer_rate_iff` says when the count is right
nonetheless.
-/

namespace CLangExamples.Emulator

/-- The whole ticks between two readings of the clock. -/
def ticksBetween (since now : BitVec 64) : Nat := (now.toNat - since.toNat) / clockTimeupDurationMs.toNat

/-- The ticks since the start, added up over the readings of the clock. -/
def ticksCharged (started : BitVec 64) (times : List (BitVec 64)) : Nat := (times.map (ticksBetween started)).sum

/-- A timer started, updated at the times of `earlier`, set to `value`, and updated at `times`. -/
def timerRun (t : Timer) (started : BitVec 64) (earlier : List (BitVec 64)) (value : Byte) (times : List (BitVec 64)) :
    Timer :=
  times.foldl timerUpdate (timerSetValue (earlier.foldl timerUpdate (timerStart t started)) value)

/-- A timer set to `value` has counted down one for each tick between two readings of the clock, give or take one. -/
def CountsDown (value : Byte) (since now : BitVec 64) (t : Timer) : Prop :=
  ∃ k : Int, (ticksBetween since now : Int) - 1 ≤ k ∧ k ≤ ticksBetween since now + 1 ∧
    ((timerGetValue t).toNat : Int) = max 0 (value.toNat - k)

namespace TimerAux

theorem timerTick_value (t : Timer) : (timerTick t).value.toNat = t.value.toNat - 1 := by
  unfold timerTick
  split
  · simp only
    bv_omega
  · omega

theorem timerTick_started (t : Timer) : (timerTick t).lastTickTimestampMs = t.lastTickTimestampMs := by
  unfold timerTick
  split <;> rfl

theorem timerTicks_value (n : Nat) (t : Timer) : (timerTicks n t).value.toNat = t.value.toNat - n := by
  induction n generalizing t with
  | zero => rfl
  | succ n ih =>
    rw [timerTicks, ih, timerTick_value]
    omega

theorem timerTicks_started (n : Nat) (t : Timer) : (timerTicks n t).lastTickTimestampMs = t.lastTickTimestampMs := by
  induction n generalizing t with
  | zero => rfl
  | succ n ih => rw [timerTicks, ih, timerTick_started]

theorem timerUpdate_started (t : Timer) (now : BitVec 64) :
    (timerUpdate t now).lastTickTimestampMs = t.lastTickTimestampMs := by
  unfold timerUpdate
  split
  · rfl
  · simp only
    split
    · rfl
    · exact timerTicks_started _ t

/-- An update charges the ticks since the start of the timer, whatever was charged before. -/
theorem timerUpdate_value (t : Timer) (now : BitVec 64) (h : t.lastTickTimestampMs ≤ now) :
    (timerUpdate t now).value.toNat = t.value.toNat - ticksBetween t.lastTickTimestampMs now := by
  have helapsed : (now - t.lastTickTimestampMs).toNat = now.toNat - t.lastTickTimestampMs.toNat :=
    BitVec.toNat_sub_of_le h
  unfold timerUpdate
  split
  · rename_i hactive
    simp only [timerIsActive, Bool.not_eq_eq_eq_not, Bool.not_true, decide_eq_false_iff_not] at hactive
    omega
  · simp only
    split
    · rename_i hshort
      rw [helapsed] at hshort
      rw [ticksBetween, Nat.div_eq_of_lt hshort, Nat.sub_zero]
    · rw [timerTicks_value, BitVec.toNat_udiv, helapsed]
      rfl

theorem updates_started (times : List (BitVec 64)) (t : Timer) :
    (times.foldl timerUpdate t).lastTickTimestampMs = t.lastTickTimestampMs := by
  induction times generalizing t with
  | nil => rfl
  | cons now times ih => rw [List.foldl_cons, ih, timerUpdate_started]

/-- Updates charge the ticks since the start once each. -/
theorem updates_value (times : List (BitVec 64)) (t : Timer) (h : ∀ now ∈ times, t.lastTickTimestampMs ≤ now) :
    (times.foldl timerUpdate t).value.toNat = t.value.toNat - ticksCharged t.lastTickTimestampMs times := by
  induction times generalizing t with
  | nil => rfl
  | cons now times ih =>
    have hrest : ∀ later ∈ times, (timerUpdate t now).lastTickTimestampMs ≤ later := by
      intro later hlater
      rw [timerUpdate_started]
      exact h later (List.mem_cons_of_mem now hlater)
    rw [List.foldl_cons, ih _ hrest, timerUpdate_started, timerUpdate_value t now (h now List.mem_cons_self)]
    rw [ticksCharged, ticksCharged, List.map_cons, List.sum_cons]
    omega

/-- The value that a run leaves. -/
theorem timerRun_value (t : Timer) (started : BitVec 64) (earlier : List (BitVec 64)) (value : Byte)
    (times : List (BitVec 64)) (h : ∀ now ∈ times, started ≤ now) :
    (timerGetValue (timerRun t started earlier value times)).toNat = value.toNat - ticksCharged started times := by
  have hstarted : (timerSetValue (earlier.foldl timerUpdate (timerStart t started)) value).lastTickTimestampMs = started :=
    updates_started earlier (timerStart t started)
  have hvalue := updates_value times (timerSetValue (earlier.foldl timerUpdate (timerStart t started)) value)
    (by rw [hstarted]; exact h)
  rw [hstarted] at hvalue
  exact hvalue

/-- The last reading alone charges the ticks since the timer was set, or more. -/
theorem ticks_le_charged {started set : BitVec 64} {times : List (BitVec 64)} (hne : times ≠ []) (hset : started ≤ set) :
    ticksBetween set (times.getLast hne) ≤ ticksCharged started times := by
  have hle : ticksBetween set (times.getLast hne) ≤ ticksBetween started (times.getLast hne) := by
    have hset' : started.toNat ≤ set.toNat := hset
    exact Nat.div_le_div_right (by omega)
  exact Nat.le_trans hle (List.le_sum_of_mem (List.mem_map_of_mem (List.getLast_mem hne)))

end TimerAux

open TimerAux

/-- A timer counts down at its rate exactly when it runs out in that time anyway, or the ticks charged, one whole count since
the start for each update, are no more than the ticks since it was set and one. -/
theorem timer_rate_iff (t : Timer) (started set : BitVec 64) (earlier : List (BitVec 64)) (value : Byte)
    (times : List (BitVec 64)) (hne : times ≠ []) (hclock : (started :: earlier ++ set :: times).Pairwise (· ≤ ·)) :
    CountsDown value set (times.getLast hne) (timerRun t started earlier value times) ↔
      value.toNat ≤ ticksBetween set (times.getLast hne) + 1 ∨
        ticksCharged started times ≤ ticksBetween set (times.getLast hne) + 1 := by
  have hfirst : ∀ now ∈ earlier ++ set :: times, started ≤ now := (List.pairwise_cons.mp hclock).1
  have hvalue := timerRun_value t started earlier value times fun now hnow => hfirst now (by simp [hnow])
  have hcharged := ticks_le_charged hne (hfirst set (by simp))
  unfold CountsDown
  rw [hvalue]
  constructor
  · rintro ⟨k, -, hk, hcount⟩
    omega
  · intro h
    by_cases hfew : ticksCharged started times ≤ ticksBetween set (times.getLast hne) + 1
    · exact ⟨ticksCharged started times, by omega, by omega, by omega⟩
    · exact ⟨ticksBetween set (times.getLast hne) + 1, by omega, by omega, by omega⟩

/-- One update, 48 ms after the start. -/
theorem timer_rate_iff_once :
    List.Pairwise (· ≤ ·) [0#64, 0#64, 48#64] ∧ CountsDown 10 0 48 (timerRun timerInit 0 [] 10 [48]) := by
  have hclock : List.Pairwise (· ≤ ·) [0#64, 0#64, 48#64] := by decide
  exact ⟨hclock, (timer_rate_iff timerInit 0 0 [] 10 [48] (by simp) hclock).mpr (Or.inr (by decide))⟩

/-- Three updates, 16 ms apart, take six of the ten. -/
theorem timer_polled_too_fast :
    List.Pairwise (· ≤ ·) [0#64, 0#64, 16#64, 32#64, 48#64] ∧
      ¬CountsDown 10 0 48 (timerRun timerInit 0 [] 10 [16, 32, 48]) := by
  refine ⟨by decide, ?_⟩
  rintro ⟨k, -, hk, hcount⟩
  have hvalue : (timerGetValue (timerRun timerInit 0 [] 10 [16, 32, 48])).toNat = 4 := by decide
  have hticks : ticksBetween 0 48 = 3 := by decide
  rw [hvalue, show (10 : Byte).toNat = 10 from rfl] at hcount
  omega

end CLangExamples.Emulator
