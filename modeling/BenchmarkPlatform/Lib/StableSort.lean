import Mathlib.Data.List.MinMax
import BenchmarkPlatform.Lib.Sweep

/-!
# A list and its stable sort

A priority queue can be specified by the list of its items in order of arrival, serving the first
item of least rank; or it can be kept sorted by rank, later arrivals behind earlier ones of the same
rank. `StableSort f n l` says that `l` is the second form of `n`. It is stated without a sorting
function, as what an implementation that never sorts anything can maintain: the ranks increase along
`l`, and `l` agrees with `n` on the items of each rank.
-/

namespace BenchmarkPlatform.Lib

open Weighted

variable {α β : Type*} [LinearOrder β] {f : α → β} {n l r : List α}

/-- `l` is `n` sorted by `f`, items of equal rank in their old order. -/
structure StableSort (f : α → β) (n l : List α) : Prop where
  sorted : l.Pairwise fun a b ↦ f a ≤ f b
  classes : ∀ v, l.filter (fun a ↦ f a = v) = n.filter fun a ↦ f a = v

namespace StableSort

theorem nil : StableSort f ([] : List α) [] := ⟨List.Pairwise.nil, fun _ ↦ rfl⟩

theorem perm (h : StableSort f n l) : l.Perm n := by
  classical
  refine List.perm_iff_count.mpr fun a ↦ ?_
  have hcount : ∀ l : List α, (l.filter fun b ↦ f b = f a).count a = l.count a := fun l ↦
    List.count_filter (by simp)
  rw [← hcount l, h.classes, hcount n]

/-- Items can be selected before sorting or after. -/
theorem filter (h : StableSort f n l) (p : α → Bool) : StableSort f (n.filter p) (l.filter p) := by
  refine ⟨h.sorted.filter p, fun v ↦ ?_⟩
  rw [List.filter_comm, h.classes, List.filter_comm]

/-- A new arrival goes behind the items of its rank. -/
theorem insert {x : α} (h : StableSort f n (l ++ r))
    (hsorted : (l ++ x :: r).Pairwise fun a b ↦ f a ≤ f b) (hr : ∀ a ∈ r, f a ≠ f x) :
    StableSort f (n ++ [x]) (l ++ x :: r) := by
  refine ⟨hsorted, fun v ↦ ?_⟩
  have hclass := h.classes v
  rw [List.filter_append] at hclass
  rw [List.filter_append, List.filter_append, ← hclass]
  by_cases hv : f x = v
  · have hnone : r.filter (fun a ↦ f a = v) = [] :=
      List.filter_eq_nil_iff.mpr fun a ha ↦ by simpa [← hv] using hr a ha
    rw [List.filter_cons_of_pos (by simpa using hv), hnone, List.append_nil,
      List.filter_cons_of_pos (by simpa using hv), List.filter_nil]
  · rw [List.filter_cons_of_neg (by simpa using hv), List.filter_cons_of_neg (by simpa using hv),
      List.filter_nil, List.append_nil]

/-- Settling an item moves no other. -/
theorem settle {ι : Type*} [Weighted α ι] [DecidableEq ι] (hf : ∀ a w, f (withWeight a w) = f a)
    (h : StableSort f n l) (k : ι) (w : ℤ) : StableSort f (settle k w n) (settle k w l) := by
  refine ⟨?_, fun v ↦ ?_⟩
  · have hsub := map_settle_sublist hf k w (l := l)
    have hsorted : (l.map f).Pairwise (· ≤ ·) := by
      rw [List.pairwise_map]
      exact h.sorted
    have hsettled := hsorted.sublist hsub
    rwa [List.pairwise_map] at hsettled
  · have hp : ∀ a w, decide (f (withWeight a w) = v) = decide (f a = v) := fun a w ↦ by rw [hf]
    rw [filter_settle hp, filter_settle hp, h.classes]

/-- The items at the head of their class have the least index there. -/
private theorem idxOf_le_of_filter_eq_cons [DecidableEq α] {p : α → Bool} {m a : α} {t : List α}
    (h : n.filter p = m :: t) (ha : p a = true) : n.idxOf m ≤ n.idxOf a := by
  obtain ⟨l₁, l₂, rfl, hl₁, -, -⟩ := List.filter_eq_cons_iff.mp h
  have hnot : a ∉ l₁ := fun hmem ↦ hl₁ a hmem ha
  have hm : (l₁ ++ m :: l₂).idxOf m ≤ l₁.length := by
    by_cases hmem : m ∈ l₁
    · rw [List.idxOf_append_of_mem hmem]
      exact (List.idxOf_lt_length_iff.mpr hmem).le
    · rw [List.idxOf_append_of_notMem hmem, List.idxOf_cons_self, Nat.add_zero]
  have hle : l₁.length ≤ (l₁ ++ m :: l₂).idxOf a := by
    rw [List.idxOf_append_of_notMem hnot]
    exact Nat.le_add_right _ _
  exact hm.trans hle

/-- **Serving from the front.** The first eligible item of the sorted list is the earliest eligible
item of least rank. -/
theorem argmin_filter_eq_find? (h : StableSort f n l) (ok : α → Bool) :
    (n.filter ok).argmin f = l.find? ok := by
  classical
  cases hfind : l.find? ok with
  | none =>
    rw [List.argmin_eq_none, List.filter_eq_nil_iff]
    exact fun a ha ↦ List.find?_eq_none.mp hfind a (h.perm.mem_iff.mpr ha)
  | some m =>
    obtain ⟨hm, pre, post, hsplit, hpre⟩ := List.find?_eq_some_iff_append.mp hfind
    have hmem : m ∈ l := List.mem_of_find?_eq_some hfind
    have hle : ∀ a ∈ n.filter ok, f m ≤ f a := by
      intro a ha
      obtain ⟨ha, hok⟩ := List.mem_filter.mp ha
      have hal := h.perm.mem_iff.mpr ha
      have hsorted := h.sorted
      rw [hsplit] at hal hsorted
      rcases List.mem_append.mp hal with hal | hal
      · have hnot := hpre a hal
        rw [hok] at hnot
        simp at hnot
      · rcases List.mem_cons.mp hal with rfl | hal
        · exact le_rfl
        · exact (List.pairwise_cons.mp (List.pairwise_append.mp hsorted).2.1).1 a hal
    -- `m` leads the eligible items of its own rank, in `l` and so in `n`
    have hclass : (n.filter ok).filter (fun a ↦ f a = f m)
        = m :: (post.filter ok).filter fun a ↦ f a = f m := by
      have hok : l.filter ok = m :: post.filter ok := by
        rw [hsplit, List.filter_append, List.filter_cons_of_pos hm,
          List.filter_eq_nil_iff.mpr fun a ha ↦ by simpa using hpre a ha, List.nil_append]
      rw [← (h.filter ok).classes, hok, List.filter_cons_of_pos (by simp)]
    refine List.argmin_eq_some_iff.mpr
      ⟨List.mem_filter.mpr ⟨h.perm.mem_iff.mp hmem, hm⟩, hle, fun a ha hfa ↦ ?_⟩
    exact idxOf_le_of_filter_eq_cons hclass (by simpa using le_antisymm hfa (hle a ha))

end StableSort

end BenchmarkPlatform.Lib
