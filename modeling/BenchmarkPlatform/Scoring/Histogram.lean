import Mathlib.Algebra.BigOperators.Fin
import Mathlib.Data.Nat.Log
import Mathlib.Data.Nat.NthRoot.Defs
import Mathlib.Data.Rat.Floor

/-!
# The latency histogram

The scoring engine brings its own `hdr_histogram`: 12000 buckets of logarithmic width, one thousand
to a decade, and the sums it needs for the mean. Logarithms, powers and sums of floating-point
numbers are read exactly: `log10 (v) * 1000` is the logarithm of `v ^ 1000`, and `10 ^ (i / 1000)`
is the thousandth root of `10 ^ i`.
-/

namespace BenchmarkPlatform.Scoring

/-- `hdr_histogram`. -/
structure Histogram where
  counts : Fin 12000 → ℕ
  totalCount : ℕ
  max : ℤ
  min : ℤ
  sum : ℤ
  sumSq : ℤ

/-- `hdr_init`: the two bounds and the number of digits it is given are not used. -/
def Histogram.empty : Histogram := ⟨fun _ ↦ 0, 0, 0, 2 ^ 63 - 1, 0, 0⟩

def getBucket (val : ℤ) : Fin 12000 :=
  if val < 1000 then 0 else Fin.ofNat 12000 (min (Nat.log 10 (val.toNat ^ 1000)) 11999)

/-- The lower end of a bucket. -/
def getBucketValue (idx : ℕ) : ℤ := if idx = 0 then 0 else Nat.nthRoot 1000 (10 ^ idx)

/-- `hdr_record_value`, which always succeeds. -/
def Histogram.recordValue (h : Histogram) (value : ℤ) : Histogram where
  counts := Function.update h.counts (getBucket value) (h.counts (getBucket value) + 1)
  totalCount := h.totalCount + 1
  max := if value > h.max then value else h.max
  min := if value < h.min then value else h.min
  sum := h.sum + value
  sumSq := h.sumSq + value * value

/-- The loop of `hdr_value_at_percentile` over the buckets that are left. -/
def Histogram.search (h : Histogram) (target : ℤ) : ℕ → List (Fin 12000) → ℤ
  | _, [] => h.max
  | sum, i :: is =>
    if sum + h.counts i ≥ target then getBucketValue i else h.search target (sum + h.counts i) is

def Histogram.valueAtPercentile (h : Histogram) (percentile : ℚ) : ℤ :=
  if h.totalCount = 0 then 0
  else h.search ⌈percentile / 100 * h.totalCount⌉ 0 (List.finRange 12000)

def Histogram.mean (h : Histogram) : ℚ := if h.totalCount = 0 then 0 else h.sum / h.totalCount

/-- `hdr_min`. -/
def Histogram.minValue (h : Histogram) : ℤ := if h.min = 2 ^ 63 - 1 then 0 else h.min

/-- `hdr_stddev`; of the square root nothing is used. -/
def Histogram.stddev (sqrt : ℚ → ℚ) (h : Histogram) : ℚ :=
  if h.totalCount < 2 then 0
  else
    let var := h.sumSq / h.totalCount - h.mean * h.mean
    sqrt (if var < 0 then 0 else var)

/-- What `hdr_iter_next` gives one after the other: the two ends and the count of each bucket that
is not empty. -/
def Histogram.recorded (h : Histogram) : List (ℤ × ℤ × ℕ) :=
  ((List.finRange 12000).filter fun i ↦ h.counts i ≠ 0).map fun i : Fin 12000 ↦
    (getBucketValue i, if i = 0 then 1000 else getBucketValue ((i : ℕ) + 1), h.counts i)

/-- Every sample is in one bucket. -/
def Histogram.Balanced (h : Histogram) : Prop := h.totalCount = ∑ i, h.counts i

theorem Histogram.empty_balanced : Histogram.empty.Balanced := by
  simp [Balanced, empty]

theorem Histogram.Balanced.recordValue {h : Histogram} (hb : h.Balanced) (value : ℤ) :
    (h.recordValue value).Balanced := by
  have hmem := Finset.mem_univ (getBucket value)
  have hsum : (h.recordValue value).totalCount =
      ∑ i, Function.update h.counts (getBucket value) (h.counts (getBucket value) + 1) i := by
    rw [Finset.sum_update_of_mem hmem, Finset.sdiff_singleton_eq_erase, add_right_comm,
      Finset.add_sum_erase _ _ hmem, ← hb]
    rfl
  exact hsum

/-- No sample is lost on the way through the iterator. -/
theorem Histogram.sum_recorded (h : Histogram) :
    (h.recorded.map fun bucket ↦ bucket.2.2).sum = ∑ i, h.counts i := by
  have hskip : ∀ is : List (Fin 12000),
      ((is.filter fun i ↦ h.counts i ≠ 0).map h.counts).sum = (is.map h.counts).sum := by
    intro is
    induction is with
    | nil => rfl
    | cons i is ih => by_cases hi : h.counts i = 0 <;> simpa [hi] using ih
  rw [recorded, List.map_map, Fin.sum_univ_def]
  exact hskip _

/-- Samples can be recorded in any order. -/
theorem Histogram.recordValue_comm (h : Histogram) (value value' : ℤ) :
    (h.recordValue value).recordValue value' = (h.recordValue value').recordValue value := by
  have hcounts : ((h.recordValue value).recordValue value').counts =
      ((h.recordValue value').recordValue value).counts := by
    rcases eq_or_ne (getBucket value) (getBucket value') with heq | hne
    · simp only [recordValue, heq]
    · simp only [recordValue, Function.update_of_ne hne, Function.update_of_ne hne.symm]
      exact Function.update_comm hne _ _ _
  simp only [recordValue, mk.injEq]
  refine ⟨hcounts, trivial, ?_, ?_, add_right_comm _ _ _, add_right_comm _ _ _⟩
  · split_ifs <;> omega
  · split_ifs <;> omega

@[simp] theorem Histogram.recordValue_totalCount (h : Histogram) (value : ℤ) :
    (h.recordValue value).totalCount = h.totalCount + 1 := rfl

end BenchmarkPlatform.Scoring
