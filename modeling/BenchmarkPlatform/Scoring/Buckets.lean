import Mathlib.Analysis.SpecialFunctions.Pow.NthRootLemmas
import BenchmarkPlatform.Scoring.Histogram

/-!
# Where a value falls

A value of at least a microsecond falls in the bucket whose number is the thousandth part of a
decade its logarithm reaches; smaller ones share the first bucket, and whatever is beyond the last
bucket is counted in it. The ends of a bucket are truncated powers: they enclose its values all the
same, except that the last bucket's upper end does not enclose what was only clamped into it
(`le_bucket_end_iff`).
-/

namespace BenchmarkPlatform.Scoring

/-! ## Bucket numbers -/

theorem getBucket_of_lt {val : ℤ} (h : val < 1000) : getBucket val = 0 := if_pos h

theorem getBucket_val {val : ℤ} (h : 1000 ≤ val) :
    (getBucket val : ℕ) = min (Nat.log 10 (val.toNat ^ 1000)) 11999 := by
  have hlt : min (Nat.log 10 (val.toNat ^ 1000)) 11999 < 12000 :=
    (min_le_right _ _).trans_lt (by decide)
  rw [getBucket, if_neg (not_lt.mpr h)]
  exact Nat.mod_eq_of_lt hlt

theorem getBucket_mono {val val' : ℤ} (h : val ≤ val') : getBucket val ≤ getBucket val' := by
  by_cases hsmall : val < 1000
  · rw [getBucket_of_lt hsmall]
    exact Fin.zero_le _
  · have hlog : Nat.log 10 (val.toNat ^ 1000) ≤ Nat.log 10 (val'.toNat ^ 1000) :=
      Nat.log_mono_right (pow_le_pow_left' (Int.toNat_le_toNat h) 1000)
    rw [Fin.le_def, getBucket_val (not_lt.mp hsmall), getBucket_val ((not_lt.mp hsmall).trans h)]
    exact min_le_min_right 11999 hlog

/-- A bucket number is the greatest `k` with `10 ^ k ≤ val ^ 1000`, up to the last bucket. -/
theorem le_log_iff {val : ℤ} (h : 1000 ≤ val) (k : ℕ) :
    k ≤ Nat.log 10 (val.toNat ^ 1000) ↔ 10 ^ k ≤ val.toNat ^ 1000 :=
  Nat.le_log_iff_pow_le (by decide) (pow_ne_zero _ (by omega))

/-- No value falls between the first bucket and that of a microsecond. -/
theorem le_getBucket {val : ℤ} (h : 1000 ≤ val) : 3000 ≤ (getBucket val : ℕ) := by
  have hval : 10 ^ 3 ≤ val.toNat := by omega
  have hlog : 3 * 1000 ≤ Nat.log 10 (val.toNat ^ 1000) := by
    rw [le_log_iff h, pow_mul]
    exact pow_le_pow_left' hval 1000
  rw [getBucket_val h]
  exact le_min hlog (by decide)

/-- Two microseconds are some way into their bucket. -/
theorem getBucket_two_thousand : getBucket 2000 = 3301 := by
  have hlog : Nat.log 10 ((2000 : ℤ).toNat ^ 1000) = 3301 :=
    (Nat.log_eq_iff (Or.inl (by decide))).mpr ⟨by decide +kernel, by decide +kernel⟩
  refine Fin.ext ?_
  rw [getBucket_val (by decide), hlog]
  rfl

/-! ## Bucket ends -/

theorem getBucketValue_zero : getBucketValue 0 = 0 := if_pos rfl

theorem getBucketValue_of_ne_zero {idx : ℕ} (h : idx ≠ 0) :
    getBucketValue idx = Nat.nthRoot 1000 (10 ^ idx) := if_neg h

/-- A truncated power is at most a value just when the power is. -/
theorem le_getBucketValue_iff {idx : ℕ} (h : idx ≠ 0) {val : ℤ} (hval : 0 ≤ val) :
    val ≤ getBucketValue idx ↔ val.toNat ^ 1000 ≤ 10 ^ idx := by
  rw [getBucketValue_of_ne_zero h, ← Nat.le_nthRoot_iff (by decide)]
  omega

theorem getBucketValue_mono {i j : ℕ} (h : i ≤ j) : getBucketValue i ≤ getBucketValue j := by
  rcases eq_or_ne i 0 with rfl | hi
  · rw [getBucketValue_zero, getBucketValue]
    split_ifs
    · exact le_rfl
    · exact Int.natCast_nonneg _
  · have hroot : Nat.nthRoot 1000 (10 ^ i) ^ 1000 ≤ 10 ^ j :=
      (Nat.pow_nthRoot_le (Or.inl (by decide))).trans (Nat.pow_le_pow_right (by decide) h)
    rw [getBucketValue_of_ne_zero hi, getBucketValue_of_ne_zero (by omega)]
    exact_mod_cast (Nat.le_nthRoot_iff (by decide)).mpr hroot

theorem getBucketValue_nonneg (idx : ℕ) : 0 ≤ getBucketValue idx :=
  getBucketValue_zero ▸ getBucketValue_mono (Nat.zero_le idx)

/-- **No value lies below its bucket.** -/
theorem getBucketValue_getBucket_le {val : ℤ} (h : 0 ≤ val) :
    getBucketValue (getBucket val) ≤ val := by
  by_cases hsmall : val < 1000
  · rw [getBucket_of_lt hsmall]
    exact getBucketValue_zero.le.trans h
  · have hlarge := not_lt.mp hsmall
    have hbucket := le_getBucket hlarge
    have hpow : 10 ^ (getBucket val : ℕ) ≤ val.toNat ^ 1000 := by
      rw [← le_log_iff hlarge, getBucket_val hlarge]
      exact min_le_left _ _
    have hroot : Nat.nthRoot 1000 (10 ^ (getBucket val : ℕ)) ≤ val.toNat := by
      have hle := (Nat.pow_nthRoot_le (n := 1000) (Or.inl (by decide))).trans hpow
      exact (pow_le_pow_iff_left₀ (Nat.zero_le _) (Nat.zero_le _) (by decide)).mp hle
    rw [getBucketValue_of_ne_zero (by omega)]
    omega

/-- No value of a bucket before the last lies above it. -/
theorem le_getBucketValue_succ_of_lt {val : ℤ} (h : 1000 ≤ val)
    (hbucket : (getBucket val : ℕ) < 11999) : val ≤ getBucketValue (getBucket val + 1) := by
  rw [getBucket_val h] at hbucket
  have hlog : Nat.log 10 (val.toNat ^ 1000) < 11999 := by
    by_contra hge
    rw [min_eq_right (not_lt.mp hge)] at hbucket
    exact lt_irrefl _ hbucket
  rw [le_getBucketValue_iff (Nat.succ_ne_zero _) (le_trans (by decide) h), getBucket_val h,
    min_eq_left hlog.le]
  exact (Nat.lt_pow_succ_log_self (by decide) _).le

/-- The buckets from that of a microsecond on begin at a microsecond or later. -/
theorem thousand_le_getBucketValue {idx : ℕ} (h : 3000 ≤ idx) : 1000 ≤ getBucketValue idx := by
  have hval : (1000 : ℤ).toNat = 10 ^ 3 := by decide
  have hexp : 3 * 1000 ≤ idx := h
  rw [le_getBucketValue_iff (by omega) (by decide), hval, ← pow_mul]
  exact pow_le_pow_right₀ (by decide) hexp

/-- From some number on, a power grows by a factor of at most `c`. -/
theorem succ_pow_le {n c k x : ℕ} (hk : 0 < k) (hratio : (k + 1) ^ n ≤ c * k ^ n) (hx : k ≤ x) :
    (x + 1) ^ n ≤ c * x ^ n := by
  have hbase : k * (x + 1) ≤ (k + 1) * x := by
    rw [mul_add_one, add_one_mul]
    exact Nat.add_le_add_left hx _
  have hmul : (k * (x + 1)) ^ n ≤ ((k + 1) * x) ^ n := pow_le_pow_left' hbase n
  rw [mul_pow, mul_pow] at hmul
  refine le_of_mul_le_mul_left ?_ (pow_pos hk n)
  calc k ^ n * (x + 1) ^ n ≤ (k + 1) ^ n * x ^ n := hmul
    _ ≤ c * k ^ n * x ^ n := Nat.mul_le_mul_right _ hratio
    _ = k ^ n * (c * x ^ n) := by ring

/-- From the bucket of a microsecond on, every bucket ends beyond its beginning. -/
theorem getBucketValue_lt_succ {idx : ℕ} (h : 3000 ≤ idx) :
    getBucketValue idx < getBucketValue (idx + 1) := by
  have hlow := thousand_le_getBucketValue h
  have hroot : (getBucketValue idx).toNat ^ 1000 ≤ 10 ^ idx :=
    (le_getBucketValue_iff (by omega) (getBucketValue_nonneg idx)).mp le_rfl
  have hx : 1000 ≤ (getBucketValue idx).toNat := by omega
  have hnext : (getBucketValue idx + 1).toNat = (getBucketValue idx).toNat + 1 := by omega
  rw [← Int.add_one_le_iff, le_getBucketValue_iff (by omega) (by omega), hnext, pow_succ' 10 idx]
  exact (succ_pow_le (by decide) (by decide +kernel) hx).trans (Nat.mul_le_mul_left 10 hroot)

theorem getBucketValue_lt {i j : ℕ} (hi : i = 0 ∨ 3000 ≤ i) (hj : 3000 ≤ j) (hlt : i < j) :
    getBucketValue i < getBucketValue j := by
  rcases hi with rfl | hi
  · rw [getBucketValue_zero]
    exact lt_of_lt_of_le (by decide) (thousand_le_getBucketValue hj)
  · exact (getBucketValue_lt_succ hi).trans_le (getBucketValue_mono hlt)

/-- A value is at most the lower end of every later bucket. -/
theorem le_getBucketValue_of_lt {a b : ℤ} (h : getBucket a < getBucket b) :
    a ≤ getBucketValue (getBucket b) := by
  by_cases hsmall : a < 1000
  · have hlarge : 1000 ≤ b := by
      by_contra hlt
      rw [getBucket_of_lt (not_le.mp hlt)] at h
      exact absurd h (Fin.not_lt_zero _)
    exact hsmall.le.trans (thousand_le_getBucketValue (le_getBucket hlarge))
  · have hlt := Fin.lt_def.mp h
    have hle := le_getBucketValue_succ_of_lt (not_lt.mp hsmall) (by omega)
    exact hle.trans (getBucketValue_mono hlt)

/-- The upper end of the last bucket. -/
theorem getBucketValue_last : getBucketValue 12000 = 10 ^ 12 := by
  have hroot : Nat.nthRoot 1000 (10 ^ (12 * 1000)) = 10 ^ 12 := by
    rw [pow_mul, Nat.nthRoot_pow (by decide)]
  rw [show (12000 : ℕ) = 12 * 1000 from rfl, getBucketValue_of_ne_zero (by decide), hroot]
  rfl

/-- **What a bucket encloses from above**: all of its values, but for those beyond the last bucket
that were clamped into it. -/
theorem le_bucket_end_iff {val : ℤ} (h : 1000 ≤ val) :
    val ≤ getBucketValue (getBucket val + 1) ↔ val ≤ 10 ^ 12 := by
  constructor
  · intro hle
    refine hle.trans ?_
    rw [← getBucketValue_last]
    exact getBucketValue_mono (by omega)
  · intro hmax
    by_cases hbucket : (getBucket val : ℕ) < 11999
    · exact le_getBucketValue_succ_of_lt h hbucket
    · have hlast : (getBucket val : ℕ) + 1 = 12000 := by omega
      rw [hlast, getBucketValue_last]
      exact hmax

end BenchmarkPlatform.Scoring
