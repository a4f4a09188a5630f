import Mathlib.Data.List.Sort

/-!
# Order statistics

The `k`-th smallest element of a list, counting from one and with repetitions. It is tied to the
list by counting: a downward-closed property holds of it exactly when the property holds of at
least `k` elements, which is how a scan over cumulative counts finds it.
-/

namespace BenchmarkPlatform.Lib

variable {α : Type*} [LinearOrder α]

/-- The `k`-th smallest element of a list. -/
def kthSmallest (k : ℕ) (l : List α) : Option α := (l.insertionSort (· ≤ ·))[k - 1]?

theorem exists_kthSmallest {k : ℕ} {l : List α} (hk : 0 < k) (hle : k ≤ l.length) :
    ∃ a, kthSmallest k l = some a := by
  have hlt : k - 1 < (l.insertionSort (· ≤ ·)).length := by
    rw [List.length_insertionSort]
    omega
  exact ⟨_, List.getElem?_eq_getElem hlt⟩

theorem mem_of_kthSmallest {k : ℕ} {l : List α} {a : α} (h : kthSmallest k l = some a) : a ∈ l :=
  (List.mem_insertionSort (· ≤ ·)).mp (List.mem_of_getElem? h)

omit [LinearOrder α] in
/-- The elements of one of two kinds are those of the one and those of the other. -/
theorem countP_eq_add {p q r : α → Bool} (hr : ∀ a, r a = (p a || q a))
    (hdisjoint : ∀ a, p a = true → q a = false) (l : List α) :
    l.countP r = l.countP p + l.countP q := by
  induction l with
  | nil => rfl
  | cons a l ih =>
    rw [List.countP_cons, List.countP_cons, List.countP_cons, ih, hr]
    cases hp : p a with
    | true =>
      rw [hdisjoint a hp]
      simp
      omega
    | false =>
      simp
      omega

/-- On a sorted list, a downward-closed property holds of the first elements. -/
theorem lt_countP_iff_of_sorted {p : α → Bool} (hp : ∀ a b, a ≤ b → p b = true → p a = true)
    {l : List α} (hl : l.Pairwise (· ≤ ·)) {i : ℕ} {a : α} (ha : l[i]? = some a) :
    i < l.countP p ↔ p a = true := by
  induction l generalizing i with
  | nil => simp at ha
  | cons b l ih =>
    rw [List.pairwise_cons] at hl
    by_cases hb : p b = true
    · rw [List.countP_cons_of_pos hb]
      cases i with
      | zero =>
        obtain rfl : b = a := by simpa using ha
        exact iff_of_true (Nat.succ_pos _) hb
      | succ i =>
        rw [List.getElem?_cons_succ] at ha
        rw [Nat.succ_lt_succ_iff, ih hl.2 ha]
    · -- past the first element of which it fails, it fails
      have hnone : l.countP p = 0 :=
        List.countP_eq_zero.mpr fun c hc hpc ↦ hb (hp b c (hl.1 c hc) hpc)
      have hfails : ¬p a = true := by
        rcases List.mem_cons.mp (List.mem_of_getElem? ha) with rfl | hmem
        · exact hb
        · exact fun hpa ↦ hb (hp b a (hl.1 a hmem) hpa)
      rw [List.countP_cons_of_neg hb, hnone]
      exact iff_of_false (Nat.not_lt_zero i) hfails

/-- **Ranks are counts**: a downward-closed property holds of the `k`-th smallest element just when
it holds of `k` elements. -/
theorem le_countP_iff {p : α → Bool} (hp : ∀ a b, a ≤ b → p b = true → p a = true) {k : ℕ}
    (hk : 0 < k) {l : List α} {a : α} (ha : kthSmallest k l = some a) :
    k ≤ l.countP p ↔ p a = true := by
  have hsorted := List.pairwise_insertionSort (· ≤ ·) l
  rw [← lt_countP_iff_of_sorted hp hsorted ha, (List.perm_insertionSort (· ≤ ·) l).countP_eq]
  omega

/-- A higher rank has a larger element. -/
theorem kthSmallest_mono {j k : ℕ} {l : List α} {a b : α} (hj : 0 < j) (hle : j ≤ k)
    (ha : kthSmallest j l = some a) (hb : kthSmallest k l = some b) : a ≤ b := by
  have hp : ∀ c d, c ≤ d → decide (d ≤ b) = true → decide (c ≤ b) = true := fun c d hcd hdb ↦
    decide_eq_true (hcd.trans (of_decide_eq_true hdb))
  have hcount := (le_countP_iff hp (hj.trans_le hle) hb).mpr (decide_eq_true le_rfl)
  exact of_decide_eq_true ((le_countP_iff hp hj ha).mp (hle.trans hcount))

/-- A downward-closed property passes from the `k`-th smallest element and a new one to the `j`-th
smallest of them all, for ranks `j` up to the next. -/
theorem of_kthSmallest_concat {p : α → Bool} (hp : ∀ a b, a ≤ b → p b = true → p a = true)
    {j k : ℕ} (hj : 0 < j) (hk : 0 < k) (hle : j ≤ k + 1) {l : List α} {a b c : α}
    (hb : kthSmallest k l = some b) (hc : kthSmallest j (l ++ [a]) = some c) (hpa : p a = true)
    (hpb : p b = true) : p c = true := by
  have hcount : k ≤ l.countP p := (le_countP_iff hp hk hb).mpr hpb
  have hconcat : (l ++ [a]).countP p = l.countP p + 1 := by
    rw [List.countP_append, List.countP_singleton, if_pos hpa]
  rw [← le_countP_iff hp hj hc, hconcat]
  omega

end BenchmarkPlatform.Lib
