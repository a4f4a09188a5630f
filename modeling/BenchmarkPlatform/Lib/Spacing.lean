import Mathlib.Data.List.Basic
import Mathlib.Data.Nat.Basic

/-!
# Numbers that keep a distance

A list of natural numbers, here the times of events, in which each number is at least `gap` more
than every one before it. How many of them a window of the line can hold is then a matter of its
length alone.
-/

namespace BenchmarkPlatform.Lib

/-- Each number is at least `gap` more than those before it. -/
def Spaced (gap : ℕ) (l : List ℕ) : Prop := l.Pairwise fun a b ↦ a + gap ≤ b

variable {gap lo hi : ℕ} {l : List ℕ}

theorem Spaced.concat {b : ℕ} (h : Spaced gap l) (hlast : ∀ a ∈ l, a + gap ≤ b) :
    Spaced gap (l ++ [b]) := by
  refine List.pairwise_append.mpr ⟨h, List.pairwise_singleton _ _, fun a ha c hc ↦ ?_⟩
  obtain rfl := List.mem_singleton.mp hc
  exact hlast a ha

theorem Spaced.filter {p : ℕ → Bool} (h : Spaced gap l) : Spaced gap (l.filter p) :=
  List.Pairwise.filter p h

/-- Between the bounds of a nonempty list there is room for all its distances. -/
theorem Spaced.add_mul_lt (h : Spaced gap l) (hne : l ≠ []) (hmem : ∀ a ∈ l, lo ≤ a ∧ a < hi) :
    lo + l.length * gap < hi + gap := by
  induction l generalizing lo with
  | nil => exact absurd rfl hne
  | cons a l ih =>
    obtain ⟨hlo, hhi⟩ := hmem a List.mem_cons_self
    obtain ⟨hhead, htail⟩ := List.pairwise_cons.mp h
    rw [List.length_cons, Nat.succ_mul]
    by_cases hnil : l = []
    · rw [hnil, List.length_nil]
      omega
    · have hrest := ih htail hnil fun b hb ↦
        ⟨hhead b hb, (hmem b (List.mem_cons_of_mem a hb)).2⟩
      omega

/-- **Room in a window.** -/
theorem Spaced.length_le (lo window : ℕ) (h : Spaced gap l) (hgap : 0 < gap)
    (hmem : ∀ a ∈ l, lo ≤ a ∧ a < lo + window) : l.length ≤ (window + gap - 1) / gap := by
  by_cases hnil : l = []
  · rw [hnil]
    exact Nat.zero_le _
  · have hroom := h.add_mul_lt hnil hmem
    rw [Nat.le_div_iff_mul_le hgap]
    omega

end BenchmarkPlatform.Lib
