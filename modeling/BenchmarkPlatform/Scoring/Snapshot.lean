import BenchmarkPlatform.Scoring.Scorer
import Mathlib.Data.Multiset.MapFold

/-!
# Snapshots, and what they depend on

`get_snapshot` and `get_histogram` read the metrics of a run, as `FinalizeRun` does. The metrics are
a function of the intervals of the run: the events of the run before the first flush, and those
after each flush, as multisets. Events of other runs are not in them, nor is the order of events.
-/

namespace BenchmarkPlatform.Scoring

/-! ## The two queries -/

/-- `MetricsSnapshot`, without the time that has passed. -/
structure MetricsSnapshot where
  runId : String
  latencyP50Us : ℤ
  latencyP90Us : ℤ
  latencyP99Us : ℤ
  latencyAvgUs : ℤ
  latencyMaxUs : ℤ
  currentTps : ℕ
  maxTps : ℕ
  totalOrders : ℕ
  successfulOrders : ℕ
  failedOrders : ℕ
  successRate : ℚ
  deriving DecidableEq

structure HistogramBucket where
  fromUs : ℤ
  toUs : ℤ
  count : ℕ
  deriving DecidableEq

structure HistogramData where
  buckets : List HistogramBucket
  p50Us : ℤ
  p90Us : ℤ
  p99Us : ℤ
  p999Us : ℤ
  minUs : ℤ
  maxUs : ℤ
  meanUs : ℤ
  stdDevUs : ℚ
  count : ℕ
  deriving DecidableEq

def HistogramData.empty : HistogramData := ⟨[], 0, 0, 0, 0, 0, 0, 0, 0, 0⟩

/-- `static_cast<int64_t>` of a ratio. -/
def truncate (q : ℚ) : ℤ := q.num.tdiv q.den

def RunMetrics.snapshot (m : RunMetrics) (runId : String) : MetricsSnapshot where
  runId := runId
  latencyP50Us := m.latencyUs 50
  latencyP90Us := m.latencyUs 90
  latencyP99Us := m.latencyUs 99
  latencyAvgUs :=
    if m.histogram.totalCount > 0 then (truncate m.histogram.mean).tdiv 1000 else 0
  latencyMaxUs := if m.histogram.totalCount > 0 then m.histogram.max.tdiv 1000 else 0
  currentTps := m.tpsWindow.getLastD 0
  maxTps := m.maxTps
  totalOrders := m.totalOrders
  successfulOrders := m.successfulOrders
  failedOrders := m.failedOrders
  successRate := m.correctness

/-- The histogram of a run in microseconds. -/
def Histogram.data (sqrt : ℚ → ℚ) (h : Histogram) : HistogramData :=
  if h.totalCount = 0 then .empty
  else
    { buckets := h.recorded.map fun (lowest, highest, count) ↦
        ⟨lowest.tdiv 1000, highest.tdiv 1000, count⟩
      p50Us := (h.valueAtPercentile 50).tdiv 1000
      p90Us := (h.valueAtPercentile 90).tdiv 1000
      p99Us := (h.valueAtPercentile 99).tdiv 1000
      p999Us := (h.valueAtPercentile (999 / 10)).tdiv 1000
      minUs := h.minValue.tdiv 1000
      maxUs := h.max.tdiv 1000
      meanUs := (truncate h.mean).tdiv 1000
      stdDevUs := h.stddev sqrt / 1000
      count := h.totalCount }

def Runs.getSnapshot (runs : Runs) (runId : String) : Option MetricsSnapshot :=
  (runs runId).map fun m ↦ m.snapshot runId

def Runs.getHistogram (sqrt : ℚ → ℚ) (runs : Runs) (runId : String) : Option HistogramData :=
  (runs runId).map fun m ↦ m.histogram.data sqrt

/-- The counts of the buckets add up to the count that is reported beside them. -/
theorem Histogram.Balanced.sum_buckets {h : Histogram} (hb : h.Balanced) (sqrt : ℚ → ℚ) :
    ((h.data sqrt).buckets.map HistogramBucket.count).sum = (h.data sqrt).count := by
  rw [Histogram.data]
  split_ifs with hzero
  · rfl
  · rw [List.map_map]
    exact h.sum_recorded.trans hb.symm

/-! ## The intervals of a run -/

/-- The events of the run before the first flush, and those after each flush. -/
def ScorerCall.intervals (id : String) :
    List ScorerCall → Multiset TelemetryEvent × List (Multiset TelemetryEvent)
  | [] => (0, [])
  | .ingest event :: calls =>
    if event.benchmarkRunId = id then
      (event ::ₘ (intervals id calls).1, (intervals id calls).2)
    else intervals id calls
  | .flushTps :: calls => (0, (intervals id calls).1 :: (intervals id calls).2)

/-- `Ingest` of an event of the run, whose entry its first event creates. -/
def RunMetrics.ingestInto (id : String) (m : Option RunMetrics) (event : TelemetryEvent) :
    Option RunMetrics :=
  some ((m.getD (.new id)).ingest event)

theorem RunMetrics.ingest_comm (event event' : TelemetryEvent) (m : RunMetrics) :
    (m.ingest event).ingest event' = (m.ingest event').ingest event := by
  have hhistogram : ((m.ingest event).ingest event').histogram =
      ((m.ingest event').ingest event).histogram := by
    simp only [ingest]
    split_ifs
    · exact m.histogram.recordValue_comm _ _
    all_goals rfl
  have hsuccessful : ((m.ingest event).ingest event').successfulOrders =
      ((m.ingest event').ingest event).successfulOrders := by
    simp only [ingest]
    split_ifs <;> rfl
  have hfailed : ((m.ingest event).ingest event').failedOrders =
      ((m.ingest event').ingest event).failedOrders := by
    simp only [ingest]
    split_ifs <;> rfl
  exact RunMetrics.ext rfl hhistogram rfl rfl rfl rfl hsuccessful hfailed

instance (id : String) : RightCommutative (RunMetrics.ingestInto id) where
  right_comm m event event' := congrArg some ((m.getD (.new id)).ingest_comm event event')

/-- The metrics of a run after these intervals, a flush between any two of them. -/
def RunMetrics.afterIntervals (id : String) (m : Option RunMetrics)
    (intervals : Multiset TelemetryEvent × List (Multiset TelemetryEvent)) : Option RunMetrics :=
  intervals.2.foldl (fun m events ↦ events.foldl (ingestInto id) (m.map flushTps))
    (intervals.1.foldl (ingestInto id) m)

/-- What is known of a run depends on its intervals. -/
theorem Runs.foldl_apply_eq_afterIntervals (runs : Runs) (id : String) (calls : List ScorerCall) :
    calls.foldl apply runs id =
      RunMetrics.afterIntervals id (runs id) (ScorerCall.intervals id calls) := by
  induction calls generalizing runs with
  | nil => rfl
  | cons call calls ih =>
    rw [List.foldl_cons, ih]
    cases call with
    | ingest event =>
      rcases eq_or_ne event.benchmarkRunId id with rfl | hne
      · simp [RunMetrics.afterIntervals, ScorerCall.intervals, apply, RunMetrics.ingestInto]
      · rw [ScorerCall.intervals, if_neg hne, apply, Function.update_of_ne hne.symm]
    | flushTps => rfl

theorem Runs.replay_eq_afterIntervals (calls : List ScorerCall) (id : String) :
    replay calls id = RunMetrics.afterIntervals id none (ScorerCall.intervals id calls) :=
  foldl_apply_eq_afterIntervals _ id calls

/-- **A team's score depends only on its own telemetry**: two histories with the same intervals of a
run give the same snapshot, the same histogram and the same final score of it. -/
theorem Runs.replay_noninterference {calls calls' : List ScorerCall} {runId : String}
    (h : ScorerCall.intervals runId calls = ScorerCall.intervals runId calls') :
    (replay calls).getSnapshot runId = (replay calls').getSnapshot runId ∧
      (∀ sqrt, (replay calls).getHistogram sqrt runId = (replay calls').getHistogram sqrt runId) ∧
      ∀ teamId,
        (replay calls).finalizeRun runId teamId = (replay calls').finalizeRun runId teamId := by
  have hmetrics : replay calls runId = replay calls' runId := by
    rw [replay_eq_afterIntervals, replay_eq_afterIntervals, h]
  refine ⟨?_, fun sqrt ↦ ?_, fun teamId ↦ ?_⟩
  · rw [getSnapshot, getSnapshot, hmetrics]
  · rw [getHistogram, getHistogram, hmetrics]
  · rw [finalizeRun, finalizeRun, hmetrics]

/-- Two events of a run in the other order, between events of another run. -/
theorem Runs.replay_noninterference_swap :
    let event (id : String) (latencyNs : ℤ) (success : Bool) : TelemetryEvent :=
      ⟨id, "", "", "", "", 0, 0, latencyNs, success, ""⟩
    let calls : List ScorerCall :=
      [.flushTps, .ingest (event "a" 5 true), .ingest (event "a" 3 false), .flushTps]
    let calls' : List ScorerCall :=
      [.ingest (event "b" 7 true), .flushTps, .ingest (event "a" 3 false),
        .ingest (event "b" 1 false), .ingest (event "a" 5 true), .flushTps]
    (replay calls).getSnapshot "a" = (replay calls').getSnapshot "a" ∧
      (∀ sqrt, (replay calls).getHistogram sqrt "a" = (replay calls').getHistogram sqrt "a") ∧
      ∀ teamId, (replay calls).finalizeRun "a" teamId = (replay calls').finalizeRun "a" teamId :=
  replay_noninterference (by decide)

end BenchmarkPlatform.Scoring
