import BenchmarkPlatform.Scoring.Percentile

/-!
# Good orders never hurt

The composite score is the mean of a latency and a throughput score, weighted by the correctness;
each of the three is between 0 and 1. An order that succeeds raises the correctness. If its latency
falls in a bucket up to that of the 99th percentile, the percentile does not rise: the rank it is
looked for at grows by at most one, and so does the cumulative count up to its bucket.
-/

namespace BenchmarkPlatform.Scoring

open Lib

/-! ## The scores -/

theorem latencyScore_nonneg (latencyP99Us : ℤ) : 0 ≤ latencyScore latencyP99Us := by
  refine le_min zero_le_one (div_nonneg (by norm_num) ?_)
  split_ifs <;> linarith

theorem latencyScore_le_one (latencyP99Us : ℤ) : latencyScore latencyP99Us ≤ 1 := min_le_left _ _

/-- A lower percentile scores no less. -/
theorem latencyScore_antitone {a b : ℤ} (h : a ≤ b) : latencyScore b ≤ latencyScore a := by
  have hms : (a / 1000 : ℚ) ≤ b / 1000 := by gcongr
  refine min_le_min_left 1 (div_le_div_of_nonneg_left (by norm_num) ?_ ?_)
  · split_ifs <;> linarith
  · split_ifs <;> linarith

theorem throughputScore_nonneg (maxTps : ℕ) : 0 ≤ throughputScore maxTps :=
  le_min zero_le_one (by positivity)

theorem throughputScore_le_one (maxTps : ℕ) : throughputScore maxTps ≤ 1 := min_le_left _ _

namespace RunMetrics

variable {m m' : RunMetrics}

theorem correctness_nonneg (m : RunMetrics) : 0 ≤ m.correctness := by
  rw [correctness]
  split_ifs
  · positivity
  · exact le_rfl

theorem correctness_le_one (h : m.successfulOrders ≤ m.totalOrders) : m.correctness ≤ 1 := by
  rw [correctness]
  split_ifs
  · exact div_le_one_of_le₀ (by exact_mod_cast h) (Nat.cast_nonneg _)
  · exact zero_le_one

/-- A further success does not lower the correctness. -/
theorem correctness_le_ingest (h : m.successfulOrders ≤ m.totalOrders) {event : TelemetryEvent}
    (hsuccess : event.success = true) : m.correctness ≤ (m.ingest event).correctness := by
  have hafter : (m.ingest event).correctness
      = ((m.successfulOrders + 1 : ℕ) : ℚ) / (m.totalOrders + 1 : ℕ) := by
    rw [correctness, ingest]
    simp [hsuccess]
  rw [hafter, correctness]
  split_ifs with hpos
  · have hle : (m.successfulOrders : ℚ) ≤ m.totalOrders := by exact_mod_cast h
    rw [div_le_div_iff₀ (by positivity) (by positivity)]
    push_cast
    nlinarith
  · positivity

/-- The composite score is between 0 and 1. -/
theorem compositeScore_mem (h : m.successfulOrders ≤ m.totalOrders) (runId teamId : String) :
    0 ≤ (m.finalScore runId teamId).compositeScore ∧
      (m.finalScore runId teamId).compositeScore ≤ 1 := by
  have hlatency := latencyScore_nonneg (m.latencyUs 99)
  have hlatency' := latencyScore_le_one (m.latencyUs 99)
  have hthroughput := throughputScore_nonneg m.maxTps
  have hthroughput' := throughputScore_le_one m.maxTps
  have hcorrectness := m.correctness_nonneg
  constructor
  · exact mul_nonneg (by linarith) hcorrectness
  · exact mul_le_one₀ (by linarith) hcorrectness (correctness_le_one h)

/-- It is monotone in each of the three. -/
theorem compositeScore_mono (hlatency : m'.latencyUs 99 ≤ m.latencyUs 99)
    (hmaxTps : m.maxTps = m'.maxTps) (hcorrectness : m.correctness ≤ m'.correctness)
    (runId teamId : String) :
    (m.finalScore runId teamId).compositeScore ≤ (m'.finalScore runId teamId).compositeScore := by
  have hscore := latencyScore_antitone hlatency
  have hnonneg := latencyScore_nonneg (m.latencyUs 99)
  have hnonneg' := throughputScore_nonneg m.maxTps
  refine mul_le_mul ?_ hcorrectness m.correctness_nonneg ?_
  · rw [← hmaxTps]
    linarith
  · rw [← hmaxTps]
    linarith

end RunMetrics

/-! ## The percentile -/

/-- A value of a bucket up to that of a percentile does not raise the percentile. -/
theorem Histogram.stopBucket_concat_le {values : List ℤ} {percentile : ℚ} (hpos : 0 < percentile)
    (hle : percentile ≤ 100) {i j : Fin 12000} {v : ℤ}
    (hi : (ofSamples values).stopBucket percentile = some i) (hv : getBucket v ≤ i)
    (hj : (ofSamples (values ++ [v])).stopBucket percentile = some j) : j ≤ i := by
  have hne : values ≠ [] := by
    rintro rfl
    cases hi
  have hne' : values ++ [v] ≠ [] := List.append_ne_nil_of_right_ne_nil _ (List.cons_ne_nil _ _)
  obtain ⟨u, hu, hstop⟩ := exists_stopBucket hne hpos hle
  obtain ⟨w, hw, hstop'⟩ := exists_stopBucket hne' hpos hle
  rw [hi, Option.some_inj] at hstop
  rw [hj, Option.some_inj] at hstop'
  have hrank := ceil_rank_pos hne hpos
  have hrank' := ceil_rank_pos hne' hpos
  -- the rank grows by at most one
  have hranks : ⌈percentile / 100 * (values ++ [v]).length⌉
      ≤ ⌈percentile / 100 * values.length⌉ + 1 := by
    rw [← Int.ceil_add_one, List.length_append, List.length_singleton]
    refine Int.ceil_le_ceil ?_
    push_cast
    linarith
  rw [hstop']
  exact of_decide_eq_true (of_kthSmallest_concat (getBucket_le_closed i) (by omega) (by omega)
    (by omega) hu hw (decide_eq_true hv) (decide_eq_true hstop.ge))

theorem RunMetrics.latencyUs_of_stopBucket {m : RunMetrics} {percentile : ℚ} {i : Fin 12000}
    (hi : m.histogram.stopBucket percentile = some i) :
    m.latencyUs percentile = (getBucketValue i).tdiv 1000 := by
  have hcount : m.histogram.totalCount > 0 := by
    by_contra hzero
    rw [Histogram.stopBucket, if_pos (by omega)] at hi
    cases hi
  rw [latencyUs, if_pos hcount, Histogram.valueAtPercentile_of_stopBucket hi]

/-- **A good order does not raise a percentile**: one without a latency, or with one in a bucket up
to that of the percentile. -/
theorem RunMetrics.latencyUs_ingest_le {m : RunMetrics} {values : List ℤ}
    (hm : m.histogram = .ofSamples values) {percentile : ℚ} (hpos : 0 < percentile)
    (hle : percentile ≤ 100) {event : TelemetryEvent}
    (hgood : event.latencyNs ≤ 0 ∨ ∃ i, m.histogram.stopBucket percentile = some i ∧
      getBucket event.latencyNs ≤ i) :
    (m.ingest event).latencyUs percentile ≤ m.latencyUs percentile := by
  by_cases hlatency : 0 < event.latencyNs
  · obtain ⟨i, hi, hbucket⟩ := hgood.resolve_left (not_le.mpr hlatency)
    have hafter : (m.ingest event).histogram = .ofSamples (values ++ [event.latencyNs]) := by
      rw [Histogram.ofSamples_concat, ← hm]
      exact if_pos hlatency
    have hne : values ++ [event.latencyNs] ≠ [] :=
      List.append_ne_nil_of_right_ne_nil _ (List.cons_ne_nil _ _)
    obtain ⟨w, -, hstop⟩ := Histogram.exists_stopBucket hne hpos hle
    have hbuckets := Histogram.stopBucket_concat_le hpos hle (hm ▸ hi) hbucket hstop
    rw [← hafter] at hstop
    rw [latencyUs_of_stopBucket hi, latencyUs_of_stopBucket hstop]
    exact Int.tdiv_le_tdiv (by decide) (getBucketValue_mono (Fin.le_def.mp hbuckets))
  · have hsame : (m.ingest event).histogram = m.histogram := if_neg hlatency
    rw [latencyUs, latencyUs, hsame]

/-! ## Runs -/

theorem Runs.successfulOrders_le {calls : List ScorerCall} {id : String} {m : RunMetrics}
    (hm : replay calls id = some m) : m.successfulOrders ≤ m.totalOrders := by
  have htotal := replay_totalOrders calls id
  have hsuccessful := replay_successfulOrders calls id
  rw [hm, Option.map_some, Option.getD_some] at htotal hsuccessful
  rw [hsuccessful, htotal, ScorerCall.countP_outcomes]
  exact Nat.le_add_right _ _

/-- **Good orders never hurt.** A score is between 0 and 1, and after a further event that succeeds,
without a latency or with one in a bucket up to that of the 99th percentile, none of its parts is
lower. -/
theorem Runs.finalizeRun_mono {calls : List ScorerCall} {id : String} {m : RunMetrics}
    (hm : replay calls id = some m) (teamId : String) :
    ∃ score, (replay calls).finalizeRun id teamId = some score ∧
      0 ≤ score.compositeScore ∧ score.compositeScore ≤ 1 ∧
      ∀ event : TelemetryEvent, event.benchmarkRunId = id → event.success = true →
        (event.latencyNs ≤ 0 ∨ ∃ i, m.histogram.stopBucket 99 = some i ∧
          getBucket event.latencyNs ≤ i) →
        ∃ score', (replay (calls ++ [.ingest event])).finalizeRun id teamId = some score' ∧
          score.latencyScore ≤ score'.latencyScore ∧
          score.throughputScore ≤ score'.throughputScore ∧
          score.correctnessScore ≤ score'.correctnessScore ∧
          score.compositeScore ≤ score'.compositeScore := by
  have horders := successfulOrders_le hm
  have hscore : (replay calls).finalizeRun id teamId = some (m.finalScore id teamId) := by
    rw [finalizeRun, hm]
    rfl
  obtain ⟨hnonneg, hone⟩ := RunMetrics.compositeScore_mem horders id teamId
  refine ⟨m.finalScore id teamId, hscore, hnonneg, hone, ?_⟩
  intro event hid hsuccess hgood
  have hafter : (replay (calls ++ [.ingest event])).finalizeRun id teamId
      = some ((m.ingest event).finalScore id teamId) := by
    rw [finalizeRun, replay_concat, apply, hid, Function.update_self, hm]
    rfl
  have hlatency := RunMetrics.latencyUs_ingest_le (histogram_of_replay hm)
    (by norm_num : (0 : ℚ) < 99) (by norm_num) hgood
  have hcorrectness := RunMetrics.correctness_le_ingest horders hsuccess
  exact ⟨(m.ingest event).finalScore id teamId, hafter, latencyScore_antitone hlatency, le_rfl,
    hcorrectness, RunMetrics.compositeScore_mono hlatency rfl hcorrectness id teamId⟩

/-- Two orders of the same latency, one after the other. -/
theorem Runs.finalizeRun_mono_twice : ∃ score score',
    (replay [.ingest (latencyEvent 2000)]).finalizeRun "r" "t" = some score ∧
      (replay [.ingest (latencyEvent 2000), .ingest (latencyEvent 2000)]).finalizeRun "r" "t"
        = some score' ∧ score.compositeScore ≤ score'.compositeScore := by
  have hm : replay [.ingest (latencyEvent 2000)] "r"
      = some ((RunMetrics.new "r").ingest (latencyEvent 2000)) := rfl
  have hrank : ⌈(99 : ℚ) / 100 * ([2000] : List ℤ).length⌉.toNat = 1 := by norm_num
  have hfirst : kthSmallest ⌈(99 : ℚ) / 100 * ([2000] : List ℤ).length⌉.toNat [2000]
      = some (2000 : ℤ) := by
    rw [hrank]
    rfl
  have hstop := Histogram.stopBucket_ofSamples (by norm_num) hfirst
  have hbucket : getBucket (latencyEvent 2000).latencyNs ≤ getBucket 2000 := by
    rw [latencyEvent]
  obtain ⟨score, hscore, -, -, hmono⟩ := finalizeRun_mono hm "t"
  obtain ⟨score', hscore', -, -, -, hcomposite⟩ := hmono (latencyEvent 2000) rfl rfl
    (Or.inr ⟨getBucket 2000, hstop, hbucket⟩)
  exact ⟨score, score', hscore, hscore', hcomposite⟩

end BenchmarkPlatform.Scoring
