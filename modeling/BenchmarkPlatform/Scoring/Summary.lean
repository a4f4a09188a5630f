import Mathlib.Algebra.Order.BigOperators.Group.List
import BenchmarkPlatform.Scoring.Percentile
import BenchmarkPlatform.Scoring.Snapshot

/-!
# The latency summary

`get_histogram` takes the extremes and the mean from exact counters and the percentiles from the
lower ends of buckets. The percentiles are ordered, and the maximum is above and the mean between
the extremes. Only the minimum need not be below the median: when the median falls in the bucket of
the minimum, it is shown as the lower end of that bucket, which a minimum well inside the bucket
exceeds by a microsecond or more.
-/

namespace BenchmarkPlatform.Scoring

open Lib

/-! ## Truncation -/

theorem truncate_of_nonneg {q : ℚ} (hq : 0 ≤ q) : truncate q = ⌊q⌋ := by
  rw [truncate, Int.tdiv_eq_ediv_of_nonneg (Rat.num_nonneg.mpr hq)]
  exact (Rat.floor_def q).symm

theorem tdiv_thousand_mono {a b : ℤ} (h : a ≤ b) : a.tdiv 1000 ≤ b.tdiv 1000 :=
  Int.tdiv_le_tdiv (by decide) h

/-! ## Extremes and mean -/

namespace Histogram

variable {values : List ℤ} (hpos : ∀ v ∈ values, 0 < v)

include hpos

/-- `hdr_min` is at most every value. -/
theorem minValue_ofSamples_le {v : ℤ} (hv : v ∈ values) : (ofSamples values).minValue ≤ v := by
  rw [minValue]
  split_ifs
  · exact (hpos v hv).le
  · exact min_ofSamples_le hv

theorem truncate_mean (hne : values ≠ []) :
    truncate (ofSamples values).mean = ⌊(values.sum : ℚ) / values.length⌋ := by
  have hsum : 0 ≤ values.sum := List.sum_nonneg fun v hv ↦ (hpos v hv).le
  have hmean : (ofSamples values).mean = values.sum / values.length := by
    rw [mean, totalCount_ofSamples, if_neg (List.length_pos_of_ne_nil hne).ne', sum_ofSamples]
  rw [hmean, truncate_of_nonneg (div_nonneg (by exact_mod_cast hsum) (Nat.cast_nonneg _))]

theorem minValue_le_mean (hne : values ≠ []) :
    (ofSamples values).minValue ≤ truncate (ofSamples values).mean := by
  have hlength : (0 : ℚ) < values.length := by exact_mod_cast List.length_pos_of_ne_nil hne
  have hmin : (ofSamples values).minValue * values.length ≤ values.sum := by
    have hsum := List.card_nsmul_le_sum values _ fun v hv ↦ minValue_ofSamples_le hpos hv
    rwa [nsmul_eq_mul, mul_comm] at hsum
  rw [truncate_mean hpos hne, Int.le_floor, le_div_iff₀ hlength]
  exact_mod_cast hmin

theorem mean_le_max (hne : values ≠ []) :
    truncate (ofSamples values).mean ≤ (ofSamples values).max := by
  have hlength : (0 : ℚ) < values.length := by exact_mod_cast List.length_pos_of_ne_nil hne
  have hmax : values.sum ≤ (ofSamples values).max * values.length := by
    have hsum := List.sum_le_card_nsmul values _ fun v hv ↦ le_max_ofSamples hv
    rwa [nsmul_eq_mul, mul_comm] at hsum
  have hle : (values.sum / values.length : ℚ) ≤ (ofSamples values).max := by
    rw [div_le_iff₀ hlength]
    exact_mod_cast hmax
  rw [truncate_mean hpos hne]
  exact_mod_cast (Int.floor_le _).trans hle

/-! ## Median and minimum -/

/-- The median stops at the bucket of the minimum or at a later one. -/
theorem getBucket_minValue_le (hne : values ≠ []) {i : Fin 12000}
    (hi : (ofSamples values).stopBucket 50 = some i) :
    getBucket (ofSamples values).minValue ≤ i := by
  obtain ⟨v, hv, hstop⟩ := exists_stopBucket hne (by norm_num) (by norm_num : (50 : ℚ) ≤ 100)
  rw [hi, Option.some_inj] at hstop
  rw [hstop]
  exact getBucket_mono (minValue_ofSamples_le hpos (mem_of_kthSmallest hv))

theorem getBucketValue_minValue_le (hne : values ≠ []) :
    getBucketValue (getBucket (ofSamples values).minValue)
      ≤ (ofSamples values).valueAtPercentile 50 := by
  obtain ⟨v, -, hstop⟩ := exists_stopBucket hne (by norm_num) (by norm_num : (50 : ℚ) ≤ 100)
  rw [valueAtPercentile_of_stopBucket hstop]
  exact getBucketValue_mono (Fin.le_def.mp (getBucket_minValue_le hpos hne hstop))

/-- When it stops at a later one, the median is not below the minimum. -/
theorem minValue_le_median (hne : values ≠ [])
    (hother : (ofSamples values).stopBucket 50
      ≠ some (getBucket (ofSamples values).minValue)) :
    (ofSamples values).minValue ≤ (ofSamples values).valueAtPercentile 50 := by
  obtain ⟨v, -, hstop⟩ := exists_stopBucket hne (by norm_num) (by norm_num : (50 : ℚ) ≤ 100)
  have hlt := lt_of_le_of_ne (getBucket_minValue_le hpos hne hstop) fun heq ↦
    hother (heq ▸ hstop)
  rw [valueAtPercentile_of_stopBucket hstop]
  exact le_getBucketValue_of_lt hlt

theorem valueAtPercentile_le_max (hne : values ≠ []) {percentile : ℚ} (hp : 0 < percentile)
    (hle : percentile ≤ 100) :
    (ofSamples values).valueAtPercentile percentile ≤ (ofSamples values).max := by
  obtain ⟨v, hv, hstop⟩ := exists_stopBucket hne hp hle
  have hmem := mem_of_kthSmallest hv
  rw [valueAtPercentile_of_stopBucket hstop]
  exact (getBucketValue_getBucket_le (hpos v hmem).le).trans (le_max_ofSamples hmem)

end Histogram

/-! ## The summary of a run -/

/-- **The latency summary is ordered**, but for the minimum. For every run with a recorded latency:
the percentiles are ordered and at most the maximum, and the mean is between the extremes. The
median is at least the lower end of the minimum's bucket; it is at least the minimum unless it falls
in that bucket and the lower end, in microseconds, is less than the minimum. -/
theorem Runs.summary_ordered {calls : List ScorerCall} {id : String}
    (hne : ScorerCall.latencies id calls ≠ []) (sqrt : ℚ → ℚ) : ∃ m data,
      replay calls id = some m ∧ (replay calls).getHistogram sqrt id = some data ∧
      (getBucketValue (getBucket m.histogram.minValue)).tdiv 1000 ≤ data.p50Us ∧
      data.p50Us ≤ data.p90Us ∧ data.p90Us ≤ data.p99Us ∧ data.p99Us ≤ data.p999Us ∧
      data.p999Us ≤ data.maxUs ∧
      (data.minUs ≤ data.p50Us ↔
        m.histogram.stopBucket 50 ≠ some (getBucket m.histogram.minValue) ∨
        data.minUs ≤ (getBucketValue (getBucket m.histogram.minValue)).tdiv 1000) ∧
      data.minUs ≤ data.meanUs ∧ data.meanUs ≤ data.maxUs := by
  obtain ⟨m, hm⟩ := exists_of_latencies hne
  have hpos : ∀ v ∈ ScorerCall.latencies id calls, 0 < v := fun _ hv ↦
    ScorerCall.pos_of_mem_latencies hv
  have hhistogram := histogram_of_replay hm
  have hdata : (replay calls).getHistogram sqrt id = some (m.histogram.data sqrt) := by
    rw [getHistogram, hm]
    rfl
  refine ⟨m, m.histogram.data sqrt, hm, hdata, ?_⟩
  generalize ScorerCall.latencies id calls = values at hne hpos hhistogram
  have hcount : ¬(Histogram.ofSamples values).totalCount = 0 := by
    rw [Histogram.totalCount_ofSamples]
    exact (List.length_pos_of_ne_nil hne).ne'
  rw [hhistogram, Histogram.data, if_neg hcount]
  have hordered : ∀ p q : ℚ, 0 < p → p ≤ q → q ≤ 100 →
      ((Histogram.ofSamples values).valueAtPercentile p).tdiv 1000
        ≤ ((Histogram.ofSamples values).valueAtPercentile q).tdiv 1000 := fun p q hp hpq hq ↦
    tdiv_thousand_mono (Histogram.valueAtPercentile_mono hne hp hpq hq)
  refine ⟨tdiv_thousand_mono (Histogram.getBucketValue_minValue_le hpos hne),
    hordered _ _ (by norm_num) (by norm_num) (by norm_num),
    hordered _ _ (by norm_num) (by norm_num) (by norm_num),
    hordered _ _ (by norm_num) (by norm_num) (by norm_num),
    tdiv_thousand_mono (Histogram.valueAtPercentile_le_max hpos hne (by norm_num) (by norm_num)),
    ⟨fun hle ↦ ?_, ?_⟩, tdiv_thousand_mono (Histogram.minValue_le_mean hpos hne),
    tdiv_thousand_mono (Histogram.mean_le_max hpos hne)⟩
  · by_cases hstop : (Histogram.ofSamples values).stopBucket 50
        = some (getBucket (Histogram.ofSamples values).minValue)
    · rw [Histogram.valueAtPercentile_of_stopBucket hstop] at hle
      exact Or.inr hle
    · exact Or.inl hstop
  · rintro (hother | hle)
    · exact tdiv_thousand_mono (Histogram.minValue_le_median hpos hne hother)
    · exact hle.trans (tdiv_thousand_mono (Histogram.getBucketValue_minValue_le hpos hne))

/-- A run of a single value has an ordered summary, apart from the minimum. -/
theorem Runs.summary_ordered_single : ∃ m data,
    replay [.ingest (latencyEvent 2000)] "r" = some m ∧
    (replay [.ingest (latencyEvent 2000)]).getHistogram (fun _ ↦ 0) "r" = some data ∧
    (getBucketValue (getBucket m.histogram.minValue)).tdiv 1000 ≤ data.p50Us ∧
    data.p50Us ≤ data.p90Us ∧ data.p90Us ≤ data.p99Us ∧ data.p99Us ≤ data.p999Us ∧
    data.p999Us ≤ data.maxUs ∧
    (data.minUs ≤ data.p50Us ↔
      m.histogram.stopBucket 50 ≠ some (getBucket m.histogram.minValue) ∨
      data.minUs ≤ (getBucketValue (getBucket m.histogram.minValue)).tdiv 1000) ∧
    data.minUs ≤ data.meanUs ∧ data.meanUs ≤ data.maxUs :=
  have hne : ScorerCall.latencies "r" [.ingest (latencyEvent 2000)] ≠ [] := by decide
  summary_ordered hne fun _ ↦ 0

/-- Its minimum is two microseconds, and its median one. -/
theorem Runs.summary_single_not_ordered : ∃ data,
    (replay [.ingest (latencyEvent 2000)]).getHistogram (fun _ ↦ 0) "r" = some data ∧
      ¬data.minUs ≤ data.p50Us := by
  have hstop : (Histogram.ofSamples [2000]).stopBucket 50 = some 3301 := by
    have hrank : ⌈(50 : ℚ) / 100 * ([2000] : List ℤ).length⌉.toNat = 1 := by norm_num
    have hv : kthSmallest ⌈(50 : ℚ) / 100 * ([2000] : List ℤ).length⌉.toNat [2000]
        = some (2000 : ℤ) := by
      rw [hrank]
      rfl
    rw [Histogram.stopBucket_ofSamples (by norm_num) hv, getBucket_two_thousand]
  have hmedian : getBucketValue (3301 : Fin 12000) ≤ 1999 := by
    rw [show ((3301 : Fin 12000) : ℕ) = 3301 from rfl]
    have hlt : ¬2000 ≤ getBucketValue 3301 := by
      rw [le_getBucketValue_iff (by decide) (by decide)]
      decide +kernel
    omega
  have hminValue : (Histogram.ofSamples [2000]).minValue = 2000 := by decide
  have hcount : (Histogram.ofSamples [2000]).totalCount ≠ 0 := by decide
  refine ⟨(Histogram.ofSamples [2000]).data fun _ ↦ 0, rfl, ?_⟩
  generalize Histogram.ofSamples [2000] = h at hstop hminValue hcount ⊢
  rw [Histogram.data, if_neg hcount, hminValue, Histogram.valueAtPercentile_of_stopBucket hstop]
  exact not_le.mpr ((tdiv_thousand_mono hmedian).trans_lt
    (by decide : Int.tdiv 1999 1000 < Int.tdiv 2000 1000))

end BenchmarkPlatform.Scoring
