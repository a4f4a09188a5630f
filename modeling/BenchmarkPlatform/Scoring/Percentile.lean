import BenchmarkPlatform.Lib.OrderStatistic
import BenchmarkPlatform.Scoring.Samples

/-!
# Percentiles

`hdr_value_at_percentile` scans the counters until their running sum reaches the target rank. `stop`
follows the scan and keeps the bucket at which it stops, which is the bucket of an order statistic
of the recorded values (`stopBucket_ofSamples`).
-/

namespace BenchmarkPlatform.Scoring

open Lib

namespace Histogram

/-! ## The scan -/

/-- The bucket at which the loop of `hdr_value_at_percentile` stops. -/
def stop (h : Histogram) (target : ℤ) : ℕ → List (Fin 12000) → Option (Fin 12000)
  | _, [] => none
  | sum, i :: is =>
    if sum + h.counts i ≥ target then some i else h.stop target (sum + h.counts i) is

/-- The bucket at which a percentile stops; an empty histogram has none. -/
def stopBucket (h : Histogram) (percentile : ℚ) : Option (Fin 12000) :=
  if h.totalCount = 0 then none
  else h.stop ⌈percentile / 100 * h.totalCount⌉ 0 (List.finRange 12000)

theorem search_eq_stop (h : Histogram) (target : ℤ) (sum : ℕ) (is : List (Fin 12000)) :
    h.search target sum is = (h.stop target sum is).elim h.max fun i ↦ getBucketValue i := by
  induction is generalizing sum with
  | nil => rfl
  | cons i is ih =>
    rw [search, stop]
    split_ifs
    · rfl
    · exact ih _

/-- The value of a percentile is the lower end of the bucket it stops at. -/
theorem valueAtPercentile_of_stopBucket {h : Histogram} {percentile : ℚ} {i : Fin 12000}
    (hi : h.stopBucket percentile = some i) :
    h.valueAtPercentile percentile = getBucketValue i := by
  rw [stopBucket] at hi
  rw [valueAtPercentile]
  split_ifs at hi ⊢
  rw [search_eq_stop, hi]
  rfl

/-- The scan stops where the cumulative count reaches the target. -/
theorem stop_of_split {h : Histogram} {target : ℤ} {sum : ℕ} {l r : List (Fin 12000)}
    {i : Fin 12000} (hbefore : ((sum + (l.map h.counts).sum : ℕ) : ℤ) < target)
    (hreach : target ≤ (sum + (l.map h.counts).sum + h.counts i : ℕ)) :
    h.stop target sum (l ++ i :: r) = some i := by
  induction l generalizing sum with
  | nil =>
    rw [List.nil_append, stop, if_pos]
    simpa using hreach
  | cons j l ih =>
    rw [List.map_cons, List.sum_cons] at hbefore hreach
    have hnot : ¬((sum : ℤ) + h.counts j ≥ target) := by omega
    rw [← add_assoc] at hbefore hreach
    rw [List.cons_append, stop, if_neg hnot]
    exact ih hbefore hreach

/-- Counters of different buckets add up to a count. -/
theorem sum_counts_ofSamples (values : List ℤ) {l : List (Fin 12000)} (hl : l.Nodup) :
    (l.map (ofSamples values).counts).sum = values.countP fun v ↦ getBucket v ∈ l := by
  induction l with
  | nil => simp
  | cons i l ih =>
    rw [List.nodup_cons] at hl
    rw [List.map_cons, List.sum_cons, ih hl.2, counts_ofSamples]
    refine (countP_eq_add ?_ ?_ values).symm
    · intro v
      rw [← Bool.decide_or]
      exact decide_eq_decide.mpr List.mem_cons
    · intro v hv
      rw [of_decide_eq_true hv]
      exact decide_eq_false hl.1

/-- The rank of a percentile counts from one. -/
theorem ceil_rank_pos {values : List ℤ} (hne : values ≠ []) {percentile : ℚ}
    (hpos : 0 < percentile) : 0 < ⌈percentile / 100 * values.length⌉ := by
  have hlength : (0 : ℚ) < values.length := by exact_mod_cast List.length_pos_of_ne_nil hne
  exact Int.ceil_pos.mpr (by positivity)

/-- Being in a bucket up to some bucket is closed downward. -/
theorem getBucket_le_closed (i : Fin 12000) (a b : ℤ) (hab : a ≤ b)
    (hb : decide (getBucket b ≤ i) = true) : decide (getBucket a ≤ i) = true :=
  decide_eq_true ((getBucket_mono hab).trans (of_decide_eq_true hb))

/-- **Where a percentile stops**: at the bucket of the order statistic of that rank. -/
theorem stopBucket_ofSamples {values : List ℤ} {percentile : ℚ} {v : ℤ} (hpos : 0 < percentile)
    (hv : kthSmallest ⌈percentile / 100 * values.length⌉.toNat values = some v) :
    (ofSamples values).stopBucket percentile = some (getBucket v) := by
  have hmem := mem_of_kthSmallest hv
  have hlength : 0 < values.length := List.length_pos_of_mem hmem
  have htarget := ceil_rank_pos (List.ne_nil_of_mem hmem) hpos
  set target := ⌈percentile / 100 * values.length⌉ with htargetdef
  obtain ⟨l, r, hsplit⟩ := List.append_of_mem (List.mem_finRange (getBucket v))
  have hsorted := List.pairwise_lt_finRange 12000
  rw [hsplit, List.pairwise_append, List.pairwise_cons] at hsorted
  have hl : l.Nodup := hsorted.1.imp fun h ↦ h.ne
  -- the buckets before that of `v` are those of the smaller numbers
  have hbelow : ∀ u, getBucket u ∈ l ↔ getBucket u < getBucket v := by
    intro u
    constructor
    · intro hu
      exact hsorted.2.2 _ hu _ List.mem_cons_self
    · intro hlt
      have hu := List.mem_finRange (getBucket u)
      rw [hsplit, List.mem_append, List.mem_cons] at hu
      rcases hu with hu | heq | hu
      · exact hu
      · exact absurd heq hlt.ne
      · exact absurd (hsorted.2.1.1 _ hu) hlt.not_gt
  have hcount : (l.map (ofSamples values).counts).sum
      = values.countP fun u ↦ getBucket u < getBucket v := by
    rw [sum_counts_ofSamples values hl]
    simp only [hbelow]
  have hcount' : (l.map (ofSamples values).counts).sum + (ofSamples values).counts (getBucket v)
      = values.countP fun u ↦ getBucket u ≤ getBucket v := by
    rw [hcount, counts_ofSamples]
    refine (countP_eq_add ?_ ?_ values).symm
    · intro u
      rw [← Bool.decide_or]
      exact decide_eq_decide.mpr le_iff_lt_or_eq
    · intro u hu
      exact decide_eq_false (of_decide_eq_true hu).ne
  have hlt : ¬target.toNat ≤ values.countP fun u ↦ getBucket u < getBucket v := by
    rw [le_countP_iff ?_ (by omega) hv]
    · simp
    · intro a b hab hb
      exact decide_eq_true ((getBucket_mono hab).trans_lt (of_decide_eq_true hb))
  have hle : target.toNat ≤ values.countP fun u ↦ getBucket u ≤ getBucket v := by
    rw [le_countP_iff (getBucket_le_closed _) (by omega) hv]
    exact decide_eq_true le_rfl
  rw [stopBucket, totalCount_ofSamples, if_neg hlength.ne', ← htargetdef, hsplit]
  refine stop_of_split ?_ ?_
  · rw [hcount]
    omega
  · rw [zero_add, hcount']
    omega

/-! ## Percentiles of samples -/

theorem exists_stopBucket {values : List ℤ} (hne : values ≠ []) {percentile : ℚ}
    (hpos : 0 < percentile) (hle : percentile ≤ 100) : ∃ v,
      kthSmallest ⌈percentile / 100 * values.length⌉.toNat values = some v ∧
        (ofSamples values).stopBucket percentile = some (getBucket v) := by
  have hlength : (0 : ℚ) < values.length := by exact_mod_cast List.length_pos_of_ne_nil hne
  have hrank := ceil_rank_pos hne hpos
  have hrank' : ⌈percentile / 100 * values.length⌉ ≤ values.length := by
    refine Int.ceil_le.mpr ?_
    have hshare : percentile / 100 ≤ 1 := by linarith
    exact_mod_cast mul_le_of_le_one_left hlength.le hshare
  have hbounds : 0 < ⌈percentile / 100 * values.length⌉.toNat ∧
      ⌈percentile / 100 * values.length⌉.toNat ≤ values.length := by omega
  obtain ⟨v, hv⟩ := exists_kthSmallest hbounds.1 hbounds.2
  exact ⟨v, hv, stopBucket_ofSamples hpos hv⟩

/-- A higher percentile stops at a bucket that is not lower. -/
theorem stopBucket_mono {values : List ℤ} (hne : values ≠ []) {p q : ℚ} (hp : 0 < p) (hpq : p ≤ q)
    (hq : q ≤ 100) {i j : Fin 12000} (hi : (ofSamples values).stopBucket p = some i)
    (hj : (ofSamples values).stopBucket q = some j) : i ≤ j := by
  obtain ⟨v, hv, hvi⟩ := exists_stopBucket hne hp (hpq.trans hq)
  obtain ⟨w, hw, hwj⟩ := exists_stopBucket hne (hp.trans_le hpq) hq
  rw [hi, Option.some_inj] at hvi
  rw [hj, Option.some_inj] at hwj
  have hrank := ceil_rank_pos hne hp
  have hranks : ⌈p / 100 * values.length⌉ ≤ ⌈q / 100 * values.length⌉ := by
    refine Int.ceil_le_ceil ?_
    gcongr
  rw [hvi, hwj]
  exact getBucket_mono (kthSmallest_mono (by omega) (Int.toNat_le_toNat hranks) hv hw)

theorem valueAtPercentile_mono {values : List ℤ} (hne : values ≠ []) {p q : ℚ} (hp : 0 < p)
    (hpq : p ≤ q) (hq : q ≤ 100) :
    (ofSamples values).valueAtPercentile p ≤ (ofSamples values).valueAtPercentile q := by
  obtain ⟨v, -, hv⟩ := exists_stopBucket hne hp (hpq.trans hq)
  obtain ⟨w, -, hw⟩ := exists_stopBucket hne (hp.trans_le hpq) hq
  rw [valueAtPercentile_of_stopBucket hv, valueAtPercentile_of_stopBucket hw]
  exact getBucketValue_mono (Fin.le_def.mp (stopBucket_mono hne hp hpq hq hv hw))

/-- **Percentiles are bucketed order statistics.** Of any recorded values, a percentile is the lower
end of the bucket of the order statistic of its rank; so a higher percentile is not smaller, and for
an order statistic between a microsecond and `10 ^ 12` it is at most that value, and less than it by
at most the width of its bucket. -/
theorem percentile_orderStatistic {values : List ℤ} (hne : values ≠ []) :
    (∀ percentile : ℚ, 0 < percentile → percentile ≤ 100 → ∃ v,
      kthSmallest ⌈percentile / 100 * values.length⌉.toNat values = some v ∧
      (ofSamples values).valueAtPercentile percentile = getBucketValue (getBucket v) ∧
      (1000 ≤ v → v < 10 ^ 12 →
        (ofSamples values).valueAtPercentile percentile ≤ v ∧
        v - (ofSamples values).valueAtPercentile percentile
          ≤ getBucketValue (getBucket v + 1) - getBucketValue (getBucket v))) ∧
    ∀ p q : ℚ, 0 < p → p ≤ q → q ≤ 100 →
      (ofSamples values).valueAtPercentile p ≤ (ofSamples values).valueAtPercentile q := by
  constructor
  · intro percentile hpos hle
    obtain ⟨v, hv, hstop⟩ := exists_stopBucket hne hpos hle
    have hvalue := valueAtPercentile_of_stopBucket hstop
    refine ⟨v, hv, hvalue, ?_⟩
    intro hlarge hsmall
    rw [hvalue]
    exact ⟨getBucketValue_getBucket_le (by omega),
      sub_le_sub_right ((le_bucket_end_iff hlarge).mpr hsmall.le) _⟩
  · intro p q hp hpq hq
    exact valueAtPercentile_mono hne hp hpq hq

/-- The median of three values is filed under the second smallest. -/
theorem percentile_orderStatistic_median :
    (ofSamples [5000, 7, 2000]).valueAtPercentile 50 = getBucketValue (getBucket 2000) := by
  obtain ⟨v, hv, hvalue, -⟩ := (percentile_orderStatistic
    (by decide : ([5000, 7, 2000] : List ℤ) ≠ [])).1 50 (by norm_num) (by norm_num)
  have hrank : ⌈(50 : ℚ) / 100 * ([5000, 7, 2000] : List ℤ).length⌉.toNat = 2 := by
    norm_num
    rfl
  have hsecond : kthSmallest 2 [5000, 7, 2000] = some (2000 : ℤ) := by decide
  rw [hrank, hsecond, Option.some_inj] at hv
  rw [hvalue, ← hv]

end Histogram

end BenchmarkPlatform.Scoring
