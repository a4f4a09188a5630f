import BenchmarkPlatform.Lib.Loop
import BenchmarkPlatform.Scoring.Samples

/-!
# The histogram iterator

`hdr_iter_next` skips empty counters and loads the next bucket; `get_histogram` and `FinalizeRun`
call it until it returns `false`. The loop ends, and yields `Histogram.recorded`
(`returns_iterate`). What it yields accounts for every sample, with one exception: the last bucket
also counts what was clamped into it, and its upper end is not moved for that, as that of the first
bucket is.
-/

namespace BenchmarkPlatform.Scoring

open Lib

/-! ## The iterator -/

/-- `hdr_iter`, without the pointer to the histogram. -/
structure HdrIter where
  idx : ℕ
  lowestEquivalentValue : ℤ
  highestEquivalentValue : ℤ
  countAtIndex : ℕ

/-- `hdr_iter_recorded_init`, which leaves the other fields as they are. -/
def hdrIterRecordedInit (iter : HdrIter) : HdrIter := { iter with idx := 0 }

namespace Histogram

/-- The `while` loop of `hdr_iter_next`. -/
def skipEmpty (h : Histogram) (idx : ℕ) : ℕ :=
  if hlt : idx < 12000 then
    if h.counts ⟨idx, hlt⟩ = 0 then h.skipEmpty (idx + 1) else idx
  else idx
termination_by 12000 - idx

/-- `hdr_iter_next`. -/
def hdrIterNext (h : Histogram) (iter : HdrIter) : HdrIter × Bool :=
  let idx := h.skipEmpty iter.idx
  if hlt : idx < 12000 then
    (⟨idx + 1, getBucketValue idx, if idx = 0 then 1000 else getBucketValue (idx + 1),
      h.counts ⟨idx, hlt⟩⟩, true)
  else ({ iter with idx := idx }, false)

/-- The loop around `hdr_iter_next`: what has been yielded so far, lowest and highest value and
count of each bucket. -/
def iterate (h : Histogram) :
    HdrIter × List (ℤ × ℤ × ℕ) → HdrIter × List (ℤ × ℤ × ℕ) ⊕ List (ℤ × ℤ × ℕ)
  | (iter, yielded) =>
    match h.hdrIterNext iter with
    | (next, true) => .inl (next, yielded
        ++ [(next.lowestEquivalentValue, next.highestEquivalentValue, next.countAtIndex)])
    | (_, false) => .inr yielded

/-! ## What it yields -/

/-- A bucket as it is yielded. -/
def bucket (h : Histogram) (i : Fin 12000) : ℤ × ℤ × ℕ :=
  (getBucketValue i, if (i : ℕ) = 0 then 1000 else getBucketValue (i + 1), h.counts i)

/-- The buckets that are not empty, from an index on. -/
def recordedFrom (h : Histogram) (idx : ℕ) : List (ℤ × ℤ × ℕ) :=
  (((List.finRange 12000).drop idx).filter fun i ↦ h.counts i ≠ 0).map h.bucket

theorem recorded_eq (h : Histogram) :
    h.recorded = ((List.finRange 12000).filter fun i ↦ h.counts i ≠ 0).map h.bucket := by
  rw [recorded]
  apply List.map_congr_left
  intro i _
  rw [bucket]
  simp only [Fin.ext_iff, Fin.val_zero]

theorem recordedFrom_zero (h : Histogram) : h.recordedFrom 0 = h.recorded := by
  rw [recordedFrom, List.drop_zero, recorded_eq]

theorem drop_finRange {n idx : ℕ} (hlt : idx < n) :
    (List.finRange n).drop idx = ⟨idx, hlt⟩ :: (List.finRange n).drop (idx + 1) := by
  rw [List.drop_eq_getElem_cons (by rwa [List.length_finRange]), List.getElem_finRange]
  rfl

theorem recordedFrom_of_empty (h : Histogram) {idx : ℕ} {hlt : idx < 12000}
    (hzero : h.counts ⟨idx, hlt⟩ = 0) : h.recordedFrom idx = h.recordedFrom (idx + 1) := by
  rw [recordedFrom, drop_finRange hlt, List.filter_cons_of_neg (by simpa using hzero),
    recordedFrom]

theorem recordedFrom_of_ne_zero (h : Histogram) {idx : ℕ} {hlt : idx < 12000}
    (hne : h.counts ⟨idx, hlt⟩ ≠ 0) :
    h.recordedFrom idx = h.bucket ⟨idx, hlt⟩ :: h.recordedFrom (idx + 1) := by
  rw [recordedFrom, drop_finRange hlt, List.filter_cons_of_pos (by simpa using hne), List.map_cons,
    recordedFrom]

theorem recordedFrom_of_le (h : Histogram) {idx : ℕ} (hle : 12000 ≤ idx) :
    h.recordedFrom idx = [] := by
  rw [recordedFrom, List.drop_eq_nil_of_le (by rwa [List.length_finRange]), List.filter_nil,
    List.map_nil]

/-- Skipping goes on to the next bucket that is not empty. -/
theorem skipEmpty_spec (h : Histogram) (idx : ℕ) : idx ≤ h.skipEmpty idx ∧
    h.recordedFrom (h.skipEmpty idx) = h.recordedFrom idx ∧
    ∀ hlt : h.skipEmpty idx < 12000, h.counts ⟨h.skipEmpty idx, hlt⟩ ≠ 0 := by
  fun_induction skipEmpty h idx with
  | case1 idx hlt hzero ih =>
    obtain ⟨hle, heq, hne⟩ := ih
    exact ⟨by omega, heq.trans (h.recordedFrom_of_empty hzero).symm, hne⟩
  | case2 idx hlt hne => exact ⟨le_rfl, rfl, fun _ ↦ hne⟩
  | case3 idx hge => exact ⟨le_rfl, rfl, fun hlt ↦ absurd hlt hge⟩

/-- The iterator after it has been moved to a bucket that is not empty. -/
def iterAt (h : Histogram) (i : Fin 12000) : HdrIter :=
  ⟨i + 1, (h.bucket i).1, (h.bucket i).2.1, (h.bucket i).2.2⟩

@[simp] theorem iterAt_idx (h : Histogram) (i : Fin 12000) : (h.iterAt i).idx = i + 1 := rfl

theorem iterate_of_lt (h : Histogram) {iter : HdrIter} (yielded : List (ℤ × ℤ × ℕ))
    (hlt : h.skipEmpty iter.idx < 12000) : h.iterate (iter, yielded)
      = .inl (h.iterAt ⟨h.skipEmpty iter.idx, hlt⟩, yielded ++ [h.bucket ⟨_, hlt⟩]) := by
  have hnext : h.hdrIterNext iter = (h.iterAt ⟨h.skipEmpty iter.idx, hlt⟩, true) := by
    rw [hdrIterNext, dif_pos hlt]
    rfl
  rw [iterate, hnext]
  rfl

/-- **The loop ends**, having yielded the buckets that are not empty. -/
theorem returns_iterate (h : Histogram) (iter : HdrIter) (yielded : List (ℤ × ℤ × ℕ)) :
    Returns h.iterate (iter, yielded) (yielded ++ h.recordedFrom iter.idx) := by
  induction hm : 12000 - iter.idx using Nat.strong_induction_on generalizing iter yielded with
  | h m ih =>
    obtain ⟨hle, hskip, hne⟩ := h.skipEmpty_spec iter.idx
    rw [← hskip]
    by_cases hlt : h.skipEmpty iter.idx < 12000
    · have hrest := ih (12000 - (h.skipEmpty iter.idx + 1)) (by omega)
        (h.iterAt ⟨h.skipEmpty iter.idx, hlt⟩) (yielded ++ [h.bucket ⟨_, hlt⟩]) rfl
      rw [iterAt_idx, List.append_assoc, List.singleton_append] at hrest
      rw [returns_iff_of_inl (h.iterate_of_lt yielded hlt), h.recordedFrom_of_ne_zero (hne hlt)]
      exact hrest
    · have hbody : h.iterate (iter, yielded) = .inr yielded := by
        rw [iterate, hdrIterNext, dif_neg hlt]
      rw [returns_iff_of_inr hbody, h.recordedFrom_of_le (not_lt.mp hlt), List.append_nil]

/-! ## Accounting for every sample -/

/-- What was yielded accounts for the values the histogram was made of. -/
structure Accounts (h : Histogram) (values : List ℤ) (yielded : List (ℤ × ℤ × ℕ)) : Prop where
  increasing : yielded.Pairwise fun b c ↦ b.1 < c.1
  apart : yielded.Pairwise fun b c ↦ b.2.1 ≤ c.1
  pos : ∀ b ∈ yielded, 0 < b.2.2
  total : (yielded.map fun b ↦ b.2.2).sum = h.totalCount
  encloses : ∀ v ∈ values, h.bucket (getBucket v) ∈ yielded ∧
    (h.bucket (getBucket v)).1 ≤ v ∧ v ≤ (h.bucket (getBucket v)).2.1

/-- A value is enclosed by its bucket unless it was clamped into it. -/
theorem enclosed_iff (h : Histogram) {v : ℤ} (hpos : 0 < v) :
    ((h.bucket (getBucket v)).1 ≤ v ∧ v ≤ (h.bucket (getBucket v)).2.1) ↔ v ≤ 10 ^ 12 := by
  rw [bucket, and_iff_right (getBucketValue_getBucket_le hpos.le)]
  by_cases hsmall : v < 1000
  · rw [getBucket_of_lt hsmall]
    exact iff_of_true hsmall.le (hsmall.le.trans (by decide))
  · have hbucket := le_getBucket (not_lt.mp hsmall)
    rw [if_neg (by omega)]
    exact le_bucket_end_iff (not_lt.mp hsmall)

/-- The buckets between the first and that of a microsecond stay empty. -/
theorem eq_zero_or_le_of_counts {values : List ℤ} {i : Fin 12000}
    (hi : (ofSamples values).counts i ≠ 0) : (i : ℕ) = 0 ∨ 3000 ≤ (i : ℕ) := by
  rw [counts_ofSamples, ← Nat.pos_iff_ne_zero, List.countP_pos_iff] at hi
  obtain ⟨v, -, hv⟩ := hi
  rw [← of_decide_eq_true hv]
  by_cases hsmall : v < 1000
  · rw [getBucket_of_lt hsmall]
    exact Or.inl rfl
  · exact Or.inr (le_getBucket (not_lt.mp hsmall))

theorem balanced_ofSamples (values : List ℤ) : (ofSamples values).Balanced := by
  induction values using List.reverseRecOn with
  | nil => exact empty_balanced
  | append_singleton values value ih =>
    rw [ofSamples_concat]
    exact ih.recordValue value

/-- What holds of any two buckets in use holds of what is yielded. -/
theorem pairwise_recorded {values : List ℤ} {r : ℤ × ℤ × ℕ → ℤ × ℤ × ℕ → Prop}
    (hr : ∀ i j : Fin 12000, i < j → ((i : ℕ) = 0 ∨ 3000 ≤ (i : ℕ)) → 3000 ≤ (j : ℕ) →
      r ((ofSamples values).bucket i) ((ofSamples values).bucket j)) :
    (ofSamples values).recorded.Pairwise r := by
  rw [recorded_eq, List.pairwise_map, List.pairwise_filter]
  apply (List.pairwise_lt_finRange 12000).imp
  intro i j hlt hi hj
  have hlow := eq_zero_or_le_of_counts (of_decide_eq_true hi)
  have hhigh := eq_zero_or_le_of_counts (of_decide_eq_true hj)
  have hltnat := Fin.lt_def.mp hlt
  exact hr i j hlt hlow (by omega)

/-- What is yielded accounts for the values when, and only when, none of them is beyond the last
bucket. -/
theorem accounts_recorded_iff {values : List ℤ} (hpos : ∀ v ∈ values, 0 < v) :
    (ofSamples values).Accounts values (ofSamples values).recorded ↔
      ∀ v ∈ values, v ≤ 10 ^ 12 := by
  constructor
  · intro haccounts v hv
    exact (enclosed_iff _ (hpos v hv)).mp (haccounts.encloses v hv).2
  · intro hmax
    refine ⟨?_, ?_, ?_, ?_, ?_⟩
    · apply pairwise_recorded
      intro i j hlt hi hj
      exact getBucketValue_lt hi hj hlt
    · apply pairwise_recorded
      intro i j hlt hi hj
      rw [bucket]
      split_ifs with hzero
      · exact thousand_le_getBucketValue hj
      · exact getBucketValue_mono hlt
    · intro b hb
      obtain ⟨i, hi, rfl⟩ := List.mem_map.mp hb
      exact Nat.pos_of_ne_zero (of_decide_eq_true (List.mem_filter.mp hi).2)
    · rw [sum_recorded, balanced_ofSamples]
    · intro v hv
      have hne : (ofSamples values).counts (getBucket v) ≠ 0 := by
        rw [counts_ofSamples, ← Nat.pos_iff_ne_zero, List.countP_pos_iff]
        exact ⟨v, hv, decide_eq_true rfl⟩
      refine ⟨?_, (enclosed_iff _ (hpos v hv)).mpr (hmax v hv)⟩
      rw [recorded_eq]
      exact List.mem_map_of_mem (List.mem_filter.mpr ⟨List.mem_finRange _, decide_eq_true hne⟩)

/-- The result of the loop is what is recorded, however the iterator looked before. -/
theorem returns_iterate_iff (h : Histogram) (iter : HdrIter) {yielded : List (ℤ × ℤ × ℕ)} :
    Returns h.iterate (hdrIterRecordedInit iter, []) yielded ↔ yielded = h.recorded := by
  have hreturns := h.returns_iterate (hdrIterRecordedInit iter) []
  rw [List.nil_append, hdrIterRecordedInit, recordedFrom_zero] at hreturns
  exact ⟨fun hyielded ↦ hyielded.unique hreturns, fun heq ↦ heq ▸ hreturns⟩

end Histogram

/-- **The iterator accounts for every sample** of a run, unless a latency is beyond the last bucket:
it was clamped into that bucket, whose upper end is a thousand seconds. -/
theorem Runs.iterate_accounts_iff {calls : List ScorerCall} {id : String} {m : RunMetrics}
    (hm : replay calls id = some m) (iter : HdrIter) :
    (∃ yielded, Returns m.histogram.iterate (hdrIterRecordedInit iter, []) yielded ∧
      m.histogram.Accounts (ScorerCall.latencies id calls) yielded) ↔
      ∀ v ∈ ScorerCall.latencies id calls, v ≤ 10 ^ 12 := by
  have hpos : ∀ v ∈ ScorerCall.latencies id calls, 0 < v := fun _ hv ↦
    ScorerCall.pos_of_mem_latencies hv
  rw [histogram_of_replay hm, ← Histogram.accounts_recorded_iff hpos]
  simp only [Histogram.returns_iterate_iff, exists_eq_left]

/-- A single event of less than a thousand seconds. -/
theorem Runs.iterate_accounts_iff_single :
    (∃ yielded, Returns (RunMetrics.ingest (latencyEvent 2000) (.new "r")).histogram.iterate
      (hdrIterRecordedInit ⟨7, 0, 0, 0⟩, []) yielded ∧
      (RunMetrics.ingest (latencyEvent 2000) (.new "r")).histogram.Accounts
        (ScorerCall.latencies "r" [.ingest (latencyEvent 2000)]) yielded) ↔
      ∀ v ∈ ScorerCall.latencies "r" [.ingest (latencyEvent 2000)], v ≤ 10 ^ 12 :=
  iterate_accounts_iff rfl ⟨7, 0, 0, 0⟩

/-- An event of a thousand seconds and a nanosecond. -/
theorem Runs.iterate_not_accounts : ∃ m,
    replay [.ingest (latencyEvent (10 ^ 12 + 1))] "r" = some m ∧
      ¬∃ yielded, Returns m.histogram.iterate (hdrIterRecordedInit ⟨0, 0, 0, 0⟩, []) yielded ∧
        m.histogram.Accounts
          (ScorerCall.latencies "r" [.ingest (latencyEvent (10 ^ 12 + 1))]) yielded := by
  have hvalues : ScorerCall.latencies "r" [.ingest (latencyEvent (10 ^ 12 + 1))]
      = [10 ^ 12 + 1] := by decide
  refine ⟨_, rfl, ?_⟩
  rw [hvalues]
  rintro ⟨yielded, -, haccounts⟩
  have hencloses := (haccounts.encloses _ (List.mem_singleton_self _)).2
  rw [Histogram.enclosed_iff _ (by decide)] at hencloses
  exact absurd hencloses (by decide)

end BenchmarkPlatform.Scoring
