import Mathlib.Algebra.GroupWithZero.Nat

/-!
# The stopwatch

`stopwatch.c`. The fields of a `struct timespec` are signed, and their differences are taken as integers; a `size_t` is a
`BitVec 64`, so that storing a difference in one takes it modulo 2^64.
-/

namespace CLangExamples.Http

/-- `struct timespec`, as `clock_gettime` gives it: the nanoseconds are less than a second. -/
structure Timespec where
  tvSec : Int
  tvNsec : Nat
  tvNsec_lt : tvNsec < 1000000000

/-- `struct stopwatch` -/
structure Stopwatch where
  startTs : Timespec
  endTs : Timespec

/-- `stopwatch_start`, with the reading of the clock. -/
def stopwatchStart (sw : Stopwatch) (now : Timespec) : Stopwatch := { sw with startTs := now }

/-- `stopwatch_stop`, with the reading of the clock. -/
def stopwatchStop (sw : Stopwatch) (now : Timespec) : Stopwatch := { sw with endTs := now }

/-- `diff_s` -/
def diffS (sw : Stopwatch) : BitVec 64 := BitVec.ofInt 64 (sw.endTs.tvSec - sw.startTs.tvSec)

/-- `diff_ns` -/
def diffNs (sw : Stopwatch) : BitVec 64 := BitVec.ofInt 64 (sw.endTs.tvNsec - sw.startTs.tvNsec)

/-- `stopwatch_get_ns` -/
def stopwatchGetNs (sw : Stopwatch) : BitVec 64 := diffS sw * 1000 * 1000 * 1000 + diffNs sw

/-- `stopwatch_get_us` -/
def stopwatchGetUs (sw : Stopwatch) : BitVec 64 := diffS sw * 1000 * 1000 + diffNs sw / 1000

end CLangExamples.Http
