import MultiPlayerGame.Simulator.MetricsCollector

/-!
# What the summary says of the metrics

Every bot hands its metrics to the collector in one batch, and a bot that cannot connect hands in a
single one.  In which order these calls come is left to the scheduler.  `summary` says that it does
not matter to the summary, and that the summary is right about the metrics: its counts add up, and
each of its percentiles is a quantile, in the sense of `OrderStatistics.IsQuantile`, of all
latencies in milliseconds.

Nothing is asked of the number or the sum of the latencies: a sum beyond 64 bits wraps, in whatever
order it is made.
-/

namespace MultiPlayerGame
namespace Summary

open OrderStatistics (IsQuantile sorted ofRank rank sorted_congr isQuantile_ofRank ofRank_mono
  rank_mono rank_lt)
open MetricsCollector (toMs computeSummary getPercentileMs getPercentileMs_sorted getLastD_sorted)

/-- A call of a bot. -/
inductive Recording where
  | record (action : Bytes) (latencyMicros : UInt64) (success : Bool)
  | recordBatch (batch : List RequestMetric)

/-- The metrics it brings. -/
def Recording.metrics : Recording → List RequestMetric
  | .record action latencyMicros success => [⟨action, latencyMicros, success⟩]
  | .recordBatch batch => batch

def Recording.perform : Recording → MetricsCollector → MetricsCollector
  | .record action latencyMicros success => MetricsCollector.record action latencyMicros success
  | .recordBatch batch => MetricsCollector.recordBatch batch

/-- The collector after some calls. -/
def after (recordings : List Recording) : MetricsCollector :=
  recordings.foldl (fun c r => r.perform c) {}

/-- All metrics that the calls bring.  In the order in which the calls come, which may be any. -/
def collected (recordings : List Recording) : List RequestMetric :=
  recordings.flatMap Recording.metrics

theorem metrics_perform (r : Recording) (c : MetricsCollector) :
    (r.perform c).metrics = c.metrics ++ r.metrics := by
  cases r with
  | record => rfl
  | recordBatch => rfl

/-- **Nothing is lost or made up.**  Each call appends what it brings. -/
theorem metrics_after (recordings : List Recording) :
    (after recordings).metrics = collected recordings := by
  induction recordings using List.reverseRecOn with
  | nil => rfl
  | append_singleton recordings r ih =>
    rw [after, List.foldl_append]
    show (r.perform (after recordings)).metrics = _
    rw [metrics_perform, ih, collected, collected, List.flatMap_append, List.flatMap_singleton]

section Summary

variable {D : Type} [LinearOrder D] (fp : DoubleArithmetic D)

/-- The latencies of some metrics, in milliseconds. -/
def latenciesMs (ms : List RequestMetric) : List D := ms.map fun m => toMs fp m.latencyMicros

/-- A summary of these metrics.  Its counts are those of the metrics, and its percentiles quantiles
of their latencies. -/
structure Sums (ms : List RequestMetric) (s : PerformanceSummary D) : Prop where
  total : s.totalRequests = ms.length
  successful : s.successfulRequests = ms.countP (·.success)
  counts : s.successfulRequests + s.failedRequests = s.totalRequests
  p50_le_p95 : s.p50LatencyMs ≤ s.p95LatencyMs
  p95_le_p99 : s.p95LatencyMs ≤ s.p99LatencyMs
  p99_le_max : s.p99LatencyMs ≤ s.maxLatencyMs
  p50 : IsQuantile (50 / 100 : ℚ) (latenciesMs fp ms) s.p50LatencyMs
  p95 : IsQuantile (95 / 100 : ℚ) (latenciesMs fp ms) s.p95LatencyMs
  p99 : IsQuantile (99 / 100 : ℚ) (latenciesMs fp ms) s.p99LatencyMs

theorem toMs_mono : Monotone (toMs fp) := fun _ _ h => fp.monotone (UInt64.le_iff_toNat_le.mp h)

section Percentiles

variable {l : List UInt64} (hl : l ≠ []) {pct pct' : ℚ}

include hl

/-- **A percentile is a quantile.**  The conversion to milliseconds is monotone, so it takes an
order statistic to an order statistic. -/
theorem isQuantile_getPercentileMs (hpct : 0 ≤ pct) (hpct' : pct ≤ 100) :
    IsQuantile (pct / 100) (l.map (toMs fp)) (getPercentileMs fp (sorted l) pct) := by
  rw [getPercentileMs_sorted fp hl]
  refine (isQuantile_ofRank ?_ ?_ _).map (toMs_mono fp)
  · positivity
  · linarith

theorem getPercentileMs_mono (h : pct ≤ pct') :
    getPercentileMs fp (sorted l) pct ≤ getPercentileMs fp (sorted l) pct' := by
  rw [getPercentileMs_sorted fp hl, getPercentileMs_sorted fp hl]
  refine toMs_mono fp (ofRank_mono (rank_mono ?_ _))
  gcongr

theorem getPercentileMs_le_max (pct : ℚ) :
    getPercentileMs fp (sorted l) pct ≤ toMs fp ((sorted l).getLastD 0) := by
  rw [getPercentileMs_sorted fp hl, getLastD_sorted hl]
  exact toMs_mono fp (ofRank_mono (min_le_right _ _))

end Percentiles

/-- **The summary of some metrics.**  The counts are those of the loop, and the percentiles entries
of the ordered latencies. -/
theorem sums_computeSummary {c : MetricsCollector} (hc : c.metrics ≠ []) (durationSec : D) :
    Sums fp c.metrics (computeSummary fp durationSec c) := by
  have hl : c.metrics.map (·.latencyMicros) ≠ [] := mt List.map_eq_nil_iff.mp hc
  have hms : latenciesMs fp c.metrics = (c.metrics.map (·.latencyMicros)).map (toMs fp) := by
    rw [List.map_map]
    rfl
  simp only [computeSummary, if_neg hc, MetricsCollector.foldl_add, List.nil_append, zero_add]
  exact
    { total := rfl
      successful := rfl
      counts := by
        show c.metrics.countP (·.success) + c.metrics.countP (!·.success) = c.metrics.length
        rw [List.length_eq_countP_add_countP (·.success)]
        simp
      p50_le_p95 := getPercentileMs_mono fp hl (by norm_num)
      p95_le_p99 := getPercentileMs_mono fp hl (by norm_num)
      p99_le_max := getPercentileMs_le_max fp hl 99
      p50 := hms ▸ isQuantile_getPercentileMs fp hl (by norm_num) (by norm_num)
      p95 := hms ▸ isQuantile_getPercentileMs fp hl (by norm_num) (by norm_num)
      p99 := hms ▸ isQuantile_getPercentileMs fp hl (by norm_num) (by norm_num) }

/-- **The order of the metrics does not matter.**  The counts and the sum are the same in any order,
and the latencies are put in order anyway. -/
theorem computeSummary_congr {c c' : MetricsCollector} (h : c.metrics.Perm c'.metrics)
    (durationSec : D) : computeSummary fp durationSec c = computeSummary fp durationSec c' := by
  have hempty : (c.metrics = []) = (c'.metrics = []) := by
    rw [← List.length_eq_zero_iff, h.length_eq, List.length_eq_zero_iff]
  simp only [computeSummary, MetricsCollector.foldl_add, List.nil_append, zero_add, h.length_eq,
    h.countP_eq, (h.map _).sum_eq, sorted_congr (h.map _), hempty]

/-- **However the metrics come to the collector, the summary is the same, and it is right.** -/
theorem summary (durationSec : D) {recordings : List Recording} (h : collected recordings ≠ []) :
    (∀ recordings', (collected recordings').Perm (collected recordings) →
      computeSummary fp durationSec (after recordings') =
        computeSummary fp durationSec (after recordings)) ∧
    Sums fp (collected recordings) (computeSummary fp durationSec (after recordings)) := by
  rw [← metrics_after] at h ⊢
  refine ⟨fun recordings' hperm => ?_, sums_computeSummary fp h durationSec⟩
  rw [← metrics_after] at hperm
  exact computeSummary_congr fp hperm durationSec

end Summary

/-- Exact arithmetic. -/
def exact : DoubleArithmetic ℚ where
  ofNat := Nat.cast
  mul := (· * ·)
  div := (· / ·)
  zero := 0
  thousandth := 1 / 1000
  hundred := 100
  thousand := 1000
  monotone m n h := by
    simp only
    gcongr

/-- A bot that could not connect, and one with two requests. -/
def sample : List Recording :=
  [.record (Bytes.ascii "CONNECT") 0 false,
    .recordBatch [⟨Bytes.ascii "JOIN", 700, true⟩, ⟨Bytes.ascii "LEAVE", 300, true⟩]]

theorem summary_sample :
    Sums exact (collected sample) (computeSummary exact 10 (after sample)) :=
  (summary exact 10 (by decide)).2

end Summary
end MultiPlayerGame
