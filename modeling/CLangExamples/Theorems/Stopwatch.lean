import CLangExamples.Http.Stopwatch
import Mathlib.Algebra.Ring.Int.Defs

/-!
# What a stopwatch shows

The difference of the nanoseconds is negative when the interval crosses more second boundaries than it has seconds, and is
kept modulo 2^64. `stopwatch_get_ns` only adds to it, and the sum is right again; `stopwatch_get_us` divides it first.
-/

namespace CLangExamples.Http

/-- A time in nanoseconds. -/
def Timespec.ns (ts : Timespec) : Int := ts.tvSec * 1000000000 + ts.tvNsec

/-- The time that a stopwatch has measured, in nanoseconds. -/
def Stopwatch.elapsed (sw : Stopwatch) : Int := sw.endTs.ns - sw.startTs.ns

/-- What `stopwatch_get_ns` and `stopwatch_get_us` are to return: the time in nanoseconds, and a number of microseconds less
than one away from it. -/
structure ShowsElapsed (sw : Stopwatch) : Prop where
  ns : ((stopwatchGetNs sw).toNat : Int) = sw.elapsed
  us_lower : sw.elapsed - 1000 < (stopwatchGetUs sw).toNat * 1000
  us_upper : ((stopwatchGetUs sw).toNat : Int) * 1000 < sw.elapsed + 1000

namespace StopwatchAux

variable {sw : Stopwatch}

/-- An integer that fits a `size_t` is kept. -/
theorem toNat_ofInt_of_fits {i : Int} (h₀ : 0 ≤ i) (h : i < 2 ^ 64) : ((BitVec.ofInt 64 i).toNat : Int) = i := by
  rw [BitVec.toNat_ofInt]
  omega

/-- Taking integers modulo 2^64 commutes with the sums and products of `stopwatch_get_ns`. -/
theorem getNs_eq (sw : Stopwatch) : stopwatchGetNs sw = BitVec.ofInt 64 sw.elapsed := by
  have helapsed : sw.elapsed = (sw.endTs.tvSec - sw.startTs.tvSec) * 1000 * 1000 * 1000 +
      (sw.endTs.tvNsec - sw.startTs.tvNsec) := by
    unfold Stopwatch.elapsed Timespec.ns
    omega
  rw [helapsed, BitVec.ofInt_add, BitVec.ofInt_mul, BitVec.ofInt_mul, BitVec.ofInt_mul]
  rfl

theorem getNs_exact (h₀ : 0 ≤ sw.elapsed) (h : sw.elapsed < 2 ^ 63) : ((stopwatchGetNs sw).toNat : Int) = sw.elapsed := by
  rw [getNs_eq]
  exact toNat_ofInt_of_fits h₀ (by omega)

/-- `stopwatch_get_us` in integers: the seconds, and the difference of the nanoseconds modulo 2^64 divided. -/
theorem getUs_eq (h₀ : 0 ≤ sw.elapsed) (h : sw.elapsed < 2 ^ 63) :
    ((stopwatchGetUs sw).toNat : Int) = (sw.endTs.tvSec - sw.startTs.tvSec) * 1000000 +
      ((sw.endTs.tvNsec : Int) - sw.startTs.tvNsec) % 2 ^ 64 / 1000 := by
  have hstart := sw.startTs.tvNsec_lt
  have hend := sw.endTs.tvNsec_lt
  unfold Stopwatch.elapsed Timespec.ns at h₀ h
  have hseconds : diffS sw * 1000 * 1000 = BitVec.ofInt 64 ((sw.endTs.tvSec - sw.startTs.tvSec) * 1000 * 1000) := by
    rw [BitVec.ofInt_mul, BitVec.ofInt_mul]
    rfl
  have hs : ((diffS sw * 1000 * 1000).toNat : Int) = (sw.endTs.tvSec - sw.startTs.tvSec) * 1000 * 1000 := by
    rw [hseconds]
    exact toNat_ofInt_of_fits (by omega) (by omega)
  have hn : ((diffNs sw / 1000).toNat : Int) = ((sw.endTs.tvNsec : Int) - sw.startTs.tvNsec) % 2 ^ 64 / 1000 := by
    rw [BitVec.toNat_udiv, diffNs, BitVec.toNat_ofInt, show BitVec.toNat (1000 : BitVec 64) = 1000 from rfl]
    omega
  unfold stopwatchGetUs
  rw [BitVec.toNat_add]
  omega

end StopwatchAux

open StopwatchAux

/-- For every interval of less than 2^63 nanoseconds `stopwatch_get_ns` is exact, and both functions return what they are to
exactly when the nanoseconds of the start are not more than those of the end. -/
theorem stopwatch_shows_elapsed_iff (sw : Stopwatch) (h₀ : 0 ≤ sw.elapsed) (h : sw.elapsed < 2 ^ 63) :
    ((stopwatchGetNs sw).toNat : Int) = sw.elapsed ∧ (ShowsElapsed sw ↔ sw.startTs.tvNsec ≤ sw.endTs.tvNsec) := by
  have hns := getNs_exact h₀ h
  have hus := getUs_eq h₀ h
  have hstart := sw.startTs.tvNsec_lt
  have hend := sw.endTs.tvNsec_lt
  refine ⟨hns, ?_⟩
  constructor
  · intro hshows
    have hupper := hshows.us_upper
    rw [hus] at hupper
    unfold Stopwatch.elapsed Timespec.ns at hupper
    omega
  · intro hle
    refine ⟨hns, ?_, ?_⟩
    · rw [hus]
      unfold Stopwatch.elapsed Timespec.ns
      omega
    · rw [hus]
      unfold Stopwatch.elapsed Timespec.ns
      omega

/-- Half a second, all of it in one second of the clock. -/
theorem stopwatch_half_second :
    (stopwatchGetNs ⟨⟨7, 100, by decide⟩, ⟨7, 500000100, by decide⟩⟩).toNat = 500000000 ∧
      ShowsElapsed ⟨⟨7, 100, by decide⟩, ⟨7, 500000100, by decide⟩⟩ := by
  have hboth := stopwatch_shows_elapsed_iff ⟨⟨7, 100, by decide⟩, ⟨7, 500000100, by decide⟩⟩ (by decide) (by decide)
  exact ⟨by decide, hboth.2.2 (by decide)⟩

/-- One nanosecond across the boundary of a second is shown as more than half a million years. -/
theorem stopwatch_us_wraps :
    stopwatchGetNs ⟨⟨0, 999999999, by decide⟩, ⟨1, 0, by decide⟩⟩ = 1 ∧
      stopwatchGetUs ⟨⟨0, 999999999, by decide⟩, ⟨1, 0, by decide⟩⟩ = 18446744073709551 ∧
      ¬ShowsElapsed ⟨⟨0, 999999999, by decide⟩, ⟨1, 0, by decide⟩⟩ := by
  refine ⟨rfl, rfl, ?_⟩
  intro hshows
  exact absurd hshows.us_upper (by decide)

end CLangExamples.Http
