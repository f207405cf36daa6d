import Mathlib.Data.UInt
import Mathlib.Data.Rat.Floor
import MultiPlayerGame.Library.Bytes
import MultiPlayerGame.Library.OrderStatistics

/-!
# The metrics of the simulator

`MetricsCollector` collects one metric for each request of each bot and makes a summary of them.
Every method holds the mutex, so the bots' calls come one after another, in some order.

The percentiles are entries of the ordered latencies, at an index that is a product with the
percentage.  This product is taken exactly.  The other `double`s are of any type that has what
`computeSummary` uses of `double` (`DoubleArithmetic`).

## What is asked of the doubles

Rounding makes a sum of doubles depend on the order of the summands.  Here the sum is one of 64-bit
integers, and is converted at the end, so nothing of the kind is needed.  What is needed is that
conversion and division are monotone: then a percentile of the latencies in milliseconds is the
conversion of a percentile of the latencies, and a higher percentile is not lower.  IEEE doubles
have both.  The index of a percentile is the product of a percentage and a count, rounded down; it
is taken over the rationals, for the counts at which the rounding of the product could matter are
far beyond any number of requests.
-/

namespace MultiPlayerGame

open OrderStatistics (sorted length_sorted ofRank rank rank_lt)

instance linearOrderUInt64 : LinearOrder UInt64 where
  le_refl _ := UInt64.le_refl _
  le_trans _ _ _ := UInt64.le_trans
  le_antisymm _ _ := UInt64.le_antisymm
  le_total _ _ := UInt64.le_total _ _
  lt_iff_le_not_ge a b := by
    rw [UInt64.lt_iff_toNat_lt, UInt64.le_iff_toNat_le, UInt64.le_iff_toNat_le]
    omega
  toDecidableLE := inferInstance

structure RequestMetric where
  action : Bytes
  latencyMicros : UInt64
  success : Bool
  deriving DecidableEq, Repr

structure PerformanceSummary (D : Type) where
  totalRequests : ℕ
  successfulRequests : ℕ
  failedRequests : ℕ
  durationSeconds : D
  requestsPerSec : D
  avgLatencyMs : D
  p50LatencyMs : D
  p95LatencyMs : D
  p99LatencyMs : D
  maxLatencyMs : D
  errorRatePercent : D
  deriving DecidableEq, Repr

/-- What `computeSummary` uses of `double`: the conversion from an unsigned integer, two operations
and the literals 0.0, 0.001, 100.0 and 1000.0.  Conversion and division round, but not so that a
larger number of microseconds becomes a smaller number of milliseconds. -/
structure DoubleArithmetic (D : Type) [LinearOrder D] where
  ofNat : ℕ → D
  mul : D → D → D
  div : D → D → D
  zero : D
  thousandth : D
  hundred : D
  thousand : D
  monotone : Monotone fun micros => div (ofNat micros) thousand

structure MetricsCollector where
  metrics : List RequestMetric := []
  deriving DecidableEq, Repr

namespace MetricsCollector

def record (action : Bytes) (latencyMicros : UInt64) (success : Bool) (c : MetricsCollector) :
    MetricsCollector :=
  { c with metrics := c.metrics ++ [⟨action, latencyMicros, success⟩] }

def recordBatch (batch : List RequestMetric) (c : MetricsCollector) : MetricsCollector :=
  { c with metrics := c.metrics ++ batch }

/-- What the loop of `computeSummary` adds up. -/
structure Totals where
  successfulRequests : ℕ := 0
  failedRequests : ℕ := 0
  latencies : List UInt64 := []
  totalMicros : UInt64 := 0

/-- The body of the loop. -/
def Totals.add (t : Totals) (m : RequestMetric) : Totals :=
  let t := if m.success then { t with successfulRequests := t.successfulRequests + 1 }
    else { t with failedRequests := t.failedRequests + 1 }
  { t with
    latencies := t.latencies ++ [m.latencyMicros]
    totalMicros := t.totalMicros + m.latencyMicros }

/-- The index of a percentile among `n` latencies. -/
def percentileIndex (pct : ℚ) (n : ℕ) : ℕ :=
  let idx := ⌊pct / 100 * n⌋₊
  if n ≤ idx then n - 1 else idx

variable {D : Type} [LinearOrder D] (fp : DoubleArithmetic D)

/-- Microseconds in milliseconds. -/
def toMs (latencyMicros : UInt64) : D := fp.div (fp.ofNat latencyMicros.toNat) fp.thousand

def getPercentileMs (latencies : List UInt64) (pct : ℚ) : D :=
  let n := latencies.length
  if n = 0 then fp.zero else toMs fp (latencies.getD (percentileIndex pct n) 0)

def computeSummary (durationSec : D) (c : MetricsCollector) : PerformanceSummary D :=
  let totalRequests := c.metrics.length
  let durationSeconds := if fp.zero < durationSec then durationSec else fp.thousandth
  if c.metrics = [] then
    { totalRequests, successfulRequests := 0, failedRequests := 0, durationSeconds,
      requestsPerSec := fp.zero, avgLatencyMs := fp.zero, p50LatencyMs := fp.zero,
      p95LatencyMs := fp.zero, p99LatencyMs := fp.zero, maxLatencyMs := fp.zero,
      errorRatePercent := fp.zero }
  else
    let t := c.metrics.foldl Totals.add {}
    let latencies := sorted t.latencies
    { totalRequests
      successfulRequests := t.successfulRequests
      failedRequests := t.failedRequests
      durationSeconds
      requestsPerSec := fp.div (fp.ofNat totalRequests) durationSeconds
      avgLatencyMs := fp.div (fp.div (fp.ofNat t.totalMicros.toNat) (fp.ofNat c.metrics.length))
        fp.thousand
      p50LatencyMs := getPercentileMs fp latencies 50
      p95LatencyMs := getPercentileMs fp latencies 95
      p99LatencyMs := getPercentileMs fp latencies 99
      maxLatencyMs := toMs fp (latencies.getLastD 0)
      errorRatePercent :=
        if 0 < totalRequests then
          fp.div (fp.mul fp.hundred (fp.ofNat t.failedRequests)) (fp.ofNat totalRequests)
        else fp.zero }

/-! ## What the loop adds up -/

/-- **The loop counts, lists and sums.**  What it has counted does not depend on the order of the
metrics, and what it has listed is put in order afterwards. -/
theorem foldl_add (ms : List RequestMetric) (t : Totals) :
    ms.foldl Totals.add t =
      { successfulRequests := t.successfulRequests + ms.countP (·.success)
        failedRequests := t.failedRequests + ms.countP (!·.success)
        latencies := t.latencies ++ ms.map (·.latencyMicros)
        totalMicros := t.totalMicros + (ms.map (·.latencyMicros)).sum } := by
  induction ms generalizing t with
  | nil => simp
  | cons m ms ih =>
    rw [List.foldl_cons, ih, Totals.add]
    cases hm : m.success with
    | false => simp [hm, Nat.add_comm, add_assoc]
    | true => simp [hm, Nat.add_comm, add_assoc]

/-! ## The percentiles -/

theorem percentileIndex_eq (pct : ℚ) (n : ℕ) : percentileIndex pct n = rank (pct / 100) n := by
  rw [percentileIndex, rank]
  split
  · rw [min_eq_right (by omega)]
  · rw [min_eq_left (by omega)]

section Percentiles

variable {l : List UInt64}

theorem getPercentileMs_sorted (hl : l ≠ []) (pct : ℚ) :
    getPercentileMs fp (sorted l) pct = toMs fp (ofRank l (rank (pct / 100) l.length)
      (rank_lt _ (mt List.length_eq_zero_iff.mp hl))) := by
  have hn : l.length ≠ 0 := mt List.length_eq_zero_iff.mp hl
  have hrank : rank (pct / 100) l.length < (sorted l).length := by
    rw [length_sorted]
    exact rank_lt _ hn
  rw [getPercentileMs, length_sorted, if_neg hn, percentileIndex_eq, List.getD_eq_getElem _ _ hrank]
  rfl

theorem getLastD_sorted (hl : l ≠ []) :
    (sorted l).getLastD 0 = ofRank l (l.length - 1)
      (Nat.sub_one_lt (mt List.length_eq_zero_iff.mp hl)) := by
  have hne : sorted l ≠ [] := by
    rw [ne_eq, ← List.length_eq_zero_iff, length_sorted]
    exact mt List.length_eq_zero_iff.mp hl
  rw [List.getLastD_eq_getLast?, List.getLast?_eq_some_getLast hne, Option.getD_some,
    List.getLast_eq_getElem]
  simp only [length_sorted]
  rfl

end Percentiles

end MetricsCollector
end MultiPlayerGame
