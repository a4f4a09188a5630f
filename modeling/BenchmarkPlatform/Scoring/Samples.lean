import BenchmarkPlatform.Scoring.Buckets
import BenchmarkPlatform.Scoring.Scorer

/-!
# The samples behind a histogram

A histogram is built by recording one value after the other, so each of its fields is a statistic
of the list of values: a counter counts those of its bucket, the extremes bound them, the sum is
theirs. `Runs.replay_histogram` connects this with the scorer: the histogram of a run is that of the
positive latencies of its events.
-/

namespace BenchmarkPlatform.Scoring

namespace Histogram

/-- The histogram after these values have been recorded. -/
def ofSamples (values : List ℤ) : Histogram := values.foldl recordValue empty

theorem ofSamples_concat (values : List ℤ) (value : ℤ) :
    ofSamples (values ++ [value]) = (ofSamples values).recordValue value := by
  rw [ofSamples, List.foldl_append]
  rfl

theorem totalCount_ofSamples (values : List ℤ) : (ofSamples values).totalCount = values.length := by
  induction values using List.reverseRecOn with
  | nil => rfl
  | append_singleton values value ih =>
    rw [ofSamples_concat, recordValue_totalCount, ih, List.length_append, List.length_singleton]

/-- A counter counts the values of its bucket. -/
theorem counts_ofSamples (values : List ℤ) (i : Fin 12000) :
    (ofSamples values).counts i = values.countP fun v ↦ getBucket v = i := by
  induction values using List.reverseRecOn with
  | nil => rfl
  | append_singleton values value ih =>
    rw [ofSamples_concat, recordValue, List.countP_append, List.countP_singleton]
    dsimp only
    rcases eq_or_ne (getBucket value) i with rfl | hne
    · rw [Function.update_self, ih, if_pos (decide_eq_true rfl)]
    · rw [Function.update_of_ne hne.symm, ih, if_neg (by simpa using hne), add_zero]

theorem sum_ofSamples (values : List ℤ) : (ofSamples values).sum = values.sum := by
  induction values using List.reverseRecOn with
  | nil => rfl
  | append_singleton values value ih =>
    rw [ofSamples_concat, List.sum_append, List.sum_singleton, ← ih]
    rfl

theorem le_max_ofSamples {values : List ℤ} {v : ℤ} (hv : v ∈ values) :
    v ≤ (ofSamples values).max := by
  induction values using List.reverseRecOn with
  | nil => simp at hv
  | append_singleton values value ih =>
    rw [ofSamples_concat, recordValue]
    dsimp only
    rcases List.mem_append.mp hv with hv | hv
    · have hmax := ih hv
      split_ifs <;> omega
    · obtain rfl := List.mem_singleton.mp hv
      split_ifs <;> omega

theorem min_ofSamples_le {values : List ℤ} {v : ℤ} (hv : v ∈ values) :
    (ofSamples values).min ≤ v := by
  induction values using List.reverseRecOn with
  | nil => simp at hv
  | append_singleton values value ih =>
    rw [ofSamples_concat, recordValue]
    dsimp only
    rcases List.mem_append.mp hv with hv | hv
    · have hmin := ih hv
      split_ifs <;> omega
    · obtain rfl := List.mem_singleton.mp hv
      split_ifs <;> omega

end Histogram

/-! ## The samples of a run -/

/-- What `Ingest` records of the events of a run. -/
def ScorerCall.latencies (id : String) (calls : List ScorerCall) : List ℤ :=
  calls.filterMap fun
    | .ingest event =>
      if event.benchmarkRunId = id ∧ 0 < event.latencyNs then some event.latencyNs else none
    | .flushTps => none

/-- An event of the run `r` with this latency. -/
def latencyEvent (latencyNs : ℤ) : TelemetryEvent :=
  ⟨"r", "", "", "", "", 0, 0, latencyNs, true, ""⟩

theorem ScorerCall.pos_of_mem_latencies {id : String} {calls : List ScorerCall} {v : ℤ}
    (hv : v ∈ latencies id calls) : 0 < v := by
  obtain ⟨call, -, hcall⟩ := List.mem_filterMap.mp hv
  cases call with
  | ingest event =>
    dsimp only at hcall
    split_ifs at hcall with hrecord
    exact Option.some_inj.mp hcall ▸ hrecord.2
  | flushTps => cases hcall

/-- **The histogram of a run** is that of the positive latencies of its events. -/
theorem Runs.replay_histogram (calls : List ScorerCall) (id : String) :
    ((replay calls id).map RunMetrics.histogram).getD .empty
      = .ofSamples (ScorerCall.latencies id calls) := by
  induction calls using List.reverseRecOn with
  | nil => rfl
  | append_singleton calls call ih =>
    rw [replay_concat, ScorerCall.latencies, List.filterMap_append, ← ScorerCall.latencies]
    cases call with
    | ingest event =>
      rcases eq_or_ne id event.benchmarkRunId with rfl | hne
      · have hbefore : ((replay calls event.benchmarkRunId).getD
            (.new event.benchmarkRunId)).histogram
              = .ofSamples (ScorerCall.latencies event.benchmarkRunId calls) := by
          rw [← ih]
          cases replay calls event.benchmarkRunId <;> rfl
        rw [apply, Function.update_self, Option.map_some, Option.getD_some, RunMetrics.ingest]
        dsimp only
        rw [hbefore]
        by_cases hlatency : 0 < event.latencyNs
        · rw [if_pos hlatency, ← Histogram.ofSamples_concat]
          simp [hlatency]
        · simp [hlatency]
      · rw [apply, Function.update_of_ne hne, ih]
        simp [hne.symm]
    | flushTps =>
      have hflush : (replay calls id).map (RunMetrics.histogram ∘ RunMetrics.flushTps)
          = (replay calls id).map RunMetrics.histogram := rfl
      rw [apply, Option.map_map, hflush, ih]
      simp

/-- The histogram of a known run. -/
theorem Runs.histogram_of_replay {calls : List ScorerCall} {id : String} {m : RunMetrics}
    (h : replay calls id = some m) :
    m.histogram = .ofSamples (ScorerCall.latencies id calls) := by
  rw [← replay_histogram, h]
  rfl

/-- A run with a recorded latency is known. -/
theorem Runs.exists_of_latencies {calls : List ScorerCall} {id : String}
    (h : ScorerCall.latencies id calls ≠ []) : ∃ m, replay calls id = some m := by
  cases hm : replay calls id with
  | some m => exact ⟨m, rfl⟩
  | none =>
    have hcount := congrArg Histogram.totalCount (replay_histogram calls id)
    rw [hm, Histogram.totalCount_ofSamples] at hcount
    exact absurd (List.length_eq_zero_iff.mp hcount.symm) h

end BenchmarkPlatform.Scoring
