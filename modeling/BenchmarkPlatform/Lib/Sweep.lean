import Mathlib.Algebra.Order.BigOperators.Group.List
import Mathlib.Data.List.Basic
import Mathlib.Data.List.Nodup
import Mathlib.Algebra.BigOperators.Group.List.Basic
import Mathlib.Tactic.Ring

/-!
# Greedy consumption of a weighted list

A demand `q` is served by walking once along a list of weighted items: an item that is not
eligible is passed over, an eligible one gives up `min q weight` and is dropped from the list when
that exhausts it. The walk stops when nothing is demanded any more.

The second half proves that the single pass is the same as the naive procedure that keeps looking
for the *first* eligible item of the list and takes from it (`sweep_eq_of_find?_eq_some`), which is
how a specification would state it.
-/

namespace BenchmarkPlatform.Lib

/-- Items that carry a key and an adjustable weight. -/
class Weighted (α : Type*) (ι : outParam Type*) where
  key : α → ι
  weight : α → ℤ
  withWeight : α → ℤ → α
  weight_withWeight : ∀ a w, weight (withWeight a w) = w
  key_withWeight : ∀ a w, key (withWeight a w) = key a

open Weighted

attribute [simp] weight_withWeight key_withWeight

/-- What a sweep leaves behind: the remaining items, what was taken from whom, and the part of the
demand that was not served. -/
structure Sweep (α : Type*) where
  kept : List α
  taken : List (α × ℤ)
  left : ℤ

variable {α ι : Type*} [Weighted α ι]

/-- Serve the demand `q` from the eligible items of a list, in order. -/
def sweep (ok : α → Bool) : ℤ → List α → Sweep α
  | q, [] => ⟨[], [], q⟩
  | q, a :: l =>
    if 0 < q then
      if ok a then
        let w := min q (weight a)
        let r := sweep ok (q - w) l
        ⟨if weight a - w = 0 then r.kept else withWeight a (weight a - w) :: r.kept,
          (a, w) :: r.taken, r.left⟩
      else
        let r := sweep ok q l
        ⟨a :: r.kept, r.taken, r.left⟩
    else ⟨a :: l, [], q⟩

variable {ok : α → Bool} {q : ℤ} {l : List α}

/-! ## Equations -/

@[simp] theorem sweep_nil : sweep ok q ([] : List α) = ⟨[], [], q⟩ := rfl

theorem sweep_of_nonpos (hq : q ≤ 0) : sweep ok q l = ⟨l, [], q⟩ := by
  cases l with
  | nil => rfl
  | cons a l => rw [sweep, if_neg (not_lt.mpr hq)]

theorem sweep_cons_of_not_ok {a : α} (ha : ok a = false) : sweep ok q (a :: l)
    = ⟨a :: (sweep ok q l).kept, (sweep ok q l).taken, (sweep ok q l).left⟩ := by
  by_cases hq : 0 < q
  · rw [sweep, if_pos hq, if_neg (by simp [ha])]
  · rw [sweep_of_nonpos (not_lt.mp hq), sweep_of_nonpos (not_lt.mp hq)]

theorem sweep_cons_of_ok {a : α} (hq : 0 < q) (ha : ok a = true) : sweep ok q (a :: l)
    = ⟨(if weight a - min q (weight a) = 0 then [] else
          [withWeight a (weight a - min q (weight a))])
          ++ (sweep ok (q - min q (weight a)) l).kept,
        (a, min q (weight a)) :: (sweep ok (q - min q (weight a)) l).taken,
        (sweep ok (q - min q (weight a)) l).left⟩ := by
  rw [sweep, if_pos hq, if_pos ha]
  dsimp only
  split_ifs <;> rfl

theorem sweep_of_forall_not_ok (h : ∀ a ∈ l, ok a = false) : sweep ok q l = ⟨l, [], q⟩ := by
  induction l with
  | nil => rfl
  | cons a l ih =>
    rw [sweep_cons_of_not_ok (h a List.mem_cons_self),
      ih fun b hb ↦ h b (List.mem_cons_of_mem a hb)]

theorem sweep_eq_of_find?_eq_none (hm : l.find? ok = none) : sweep ok q l = ⟨l, [], q⟩ :=
  sweep_of_forall_not_ok fun a ha ↦ by simpa using List.find?_eq_none.mp hm a ha

theorem sweep_congr {ok' : α → Bool} (h : ∀ a ∈ l, ok a = ok' a) :
    sweep ok q l = sweep ok' q l := by
  induction l generalizing q with
  | nil => rfl
  | cons a l ih =>
    have hrest : ∀ q', sweep ok q' l = sweep ok' q' l := fun q' ↦
      ih fun b hb ↦ h b (List.mem_cons_of_mem a hb)
    rw [sweep, sweep, h a List.mem_cons_self]
    simp only [hrest]

/-- A map that respects weights carries sweeps over. -/
theorem sweep_map {β κ : Type*} [Weighted β κ] {f : α → β} {ok' : β → Bool}
    (hweight : ∀ a, weight (f a) = weight a) (hset : ∀ a w, f (withWeight a w) = withWeight (f a) w)
    (hok : ∀ a ∈ l, ok' (f a) = ok a) : sweep ok' q (l.map f)
      = ⟨(sweep ok q l).kept.map f, (sweep ok q l).taken.map fun t ↦ (f t.1, t.2),
          (sweep ok q l).left⟩ := by
  induction l generalizing q with
  | nil => rfl
  | cons a l ih =>
    have ih' : ∀ q', _ := fun q' ↦ ih (q := q') fun b hb ↦ hok b (List.mem_cons_of_mem a hb)
    have ha : ok' (f a) = ok a := hok a List.mem_cons_self
    rw [List.map_cons]
    by_cases hq : 0 < q
    · by_cases hok' : ok a = true
      · rw [sweep_cons_of_ok hq (ha.trans hok'), sweep_cons_of_ok hq hok', hweight, ih']
        simp only [List.map_append, List.map_cons]
        split_ifs <;> simp [hset]
      · have hfalse : ok a = false := by simpa using hok'
        rw [sweep_cons_of_not_ok (ha.trans hfalse), sweep_cons_of_not_ok hfalse, ih']
        rfl
    · rw [sweep_of_nonpos (not_lt.mp hq), sweep_of_nonpos (not_lt.mp hq)]
      rfl

/-- A sweep of a concatenation sweeps the first list and then, with what is still demanded, the
second. -/
theorem sweep_append (l m : List α) : sweep ok q (l ++ m)
    = ⟨(sweep ok q l).kept ++ (sweep ok (sweep ok q l).left m).kept,
        (sweep ok q l).taken ++ (sweep ok (sweep ok q l).left m).taken,
        (sweep ok (sweep ok q l).left m).left⟩ := by
  induction l generalizing q with
  | nil => rfl
  | cons a l ih =>
    rw [List.cons_append]
    by_cases hq : 0 < q
    · by_cases ha : ok a = true
      · rw [sweep_cons_of_ok hq ha, sweep_cons_of_ok hq ha, ih]
        simp only [List.append_assoc, List.cons_append]
      · rw [sweep_cons_of_not_ok (by simpa using ha), sweep_cons_of_not_ok (by simpa using ha), ih]
        rfl
    · have hnil : ∀ m' : List α, sweep ok q m' = ⟨m', [], q⟩ := fun m' ↦
        sweep_of_nonpos (not_lt.mp hq)
      rw [hnil, hnil, hnil]
      rfl

/-! ## Accounting -/

/-- What was taken and what is still demanded add up to the demand. -/
theorem left_add_sum_taken :
    (sweep ok q l).left + ((sweep ok q l).taken.map Prod.snd).sum = q := by
  induction l generalizing q with
  | nil => simp
  | cons a l ih =>
    by_cases hq : 0 < q
    · by_cases ha : ok a = true
      · rw [sweep_cons_of_ok hq ha]
        have h := ih (q := q - min q (weight a))
        simp only [List.map_cons, List.sum_cons]
        omega
      · rw [sweep_cons_of_not_ok (by simpa using ha)]
        exact ih
    · rw [sweep_of_nonpos (not_lt.mp hq)]
      simp

theorem left_nonneg (hq : 0 ≤ q) : 0 ≤ (sweep ok q l).left := by
  induction l generalizing q with
  | nil => exact hq
  | cons a l ih =>
    by_cases hpos : 0 < q
    · by_cases ha : ok a = true
      · rw [sweep_cons_of_ok hpos ha]
        exact ih (by omega)
      · rw [sweep_cons_of_not_ok (by simpa using ha)]
        exact ih hq
    · rw [sweep_of_nonpos (not_lt.mp hpos)]
      exact hq

/-- The demand is served as far as the weights of the eligible items go. -/
theorem left_eq_max_filter (hl : ∀ a ∈ l, 0 < weight a) (hq : 0 ≤ q) :
    (sweep ok q l).left = max 0 (q - ((l.filter ok).map weight).sum) := by
  induction l generalizing q with
  | nil => simpa using hq
  | cons a l ih =>
    have hrest : ∀ b ∈ l, 0 < weight b := fun b hb ↦ hl b (List.mem_cons_of_mem a hb)
    have hweight := hl a List.mem_cons_self
    have hsum : 0 ≤ ((l.filter ok).map weight).sum := List.sum_nonneg fun w hw ↦ by
      obtain ⟨b, hb, rfl⟩ := List.mem_map.mp hw
      exact (hrest b (List.mem_filter.mp hb).1).le
    by_cases hpos : 0 < q
    · by_cases ha : ok a = true
      · rw [sweep_cons_of_ok hpos ha, List.filter_cons_of_pos ha, List.map_cons, List.sum_cons]
        dsimp only
        rw [ih hrest (by omega)]
        omega
      · rw [sweep_cons_of_not_ok (by simpa using ha), List.filter_cons_of_neg ha]
        exact ih hrest hq
    · have hsum' : 0 ≤ (((a :: l).filter ok).map weight).sum := List.sum_nonneg fun w hw ↦ by
        obtain ⟨b, hb, rfl⟩ := List.mem_map.mp hw
        exact (hl b (List.mem_filter.mp hb).1).le
      rw [sweep_of_nonpos (not_lt.mp hpos)]
      dsimp only
      omega

theorem left_eq_max (hok : ∀ a ∈ l, ok a = true) (hl : ∀ a ∈ l, 0 < weight a) (hq : 0 ≤ q) :
    (sweep ok q l).left = max 0 (q - (l.map weight).sum) := by
  rw [left_eq_max_filter hl hq, List.filter_eq_self.mpr hok]

/-- The items taken from are eligible items of the list, in list order. -/
theorem taken_sublist : ((sweep ok q l).taken.map Prod.fst).Sublist (l.filter ok) := by
  induction l generalizing q with
  | nil => simp
  | cons a l ih =>
    by_cases hq : 0 < q
    · by_cases ha : ok a = true
      · rw [sweep_cons_of_ok hq ha, List.filter_cons_of_pos ha, List.map_cons]
        exact ih.cons_cons a
      · rw [sweep_cons_of_not_ok (by simpa using ha), List.filter_cons_of_neg ha]
        exact ih
    · rw [sweep_of_nonpos (not_lt.mp hq)]
      exact List.nil_sublist _

theorem mem_and_ok_of_mem_taken {t : α × ℤ} (ht : t ∈ (sweep ok q l).taken) :
    t.1 ∈ l ∧ ok t.1 = true :=
  List.mem_filter.mp (taken_sublist.subset (List.mem_map_of_mem ht))

/-- Every amount taken is positive and at most the weight of the item. -/
theorem taken_bounds (hl : ∀ a ∈ l, 0 < weight a) :
    ∀ t ∈ (sweep ok q l).taken, 0 < t.2 ∧ t.2 ≤ weight t.1 := by
  induction l generalizing q with
  | nil => simp
  | cons a l ih =>
    have hrest : ∀ b ∈ l, 0 < weight b := fun b hb ↦ hl b (List.mem_cons_of_mem a hb)
    intro t ht
    by_cases hq : 0 < q
    · by_cases ha : ok a = true
      · rw [sweep_cons_of_ok hq ha] at ht
        rcases List.mem_cons.mp ht with rfl | ht
        · exact ⟨lt_min hq (hl a List.mem_cons_self), min_le_right _ _⟩
        · exact ih hrest t ht
      · rw [sweep_cons_of_not_ok (by simpa using ha)] at ht
        exact ih hrest t ht
    · rw [sweep_of_nonpos (not_lt.mp hq)] at ht
      simp at ht

/-- Anything about an item that its weight does not decide survives the sweep, in order. -/
theorem map_kept_sublist {γ : Type*} {g : α → γ} (hg : ∀ a w, g (withWeight a w) = g a) :
    ((sweep ok q l).kept.map g).Sublist (l.map g) := by
  induction l generalizing q with
  | nil => simp
  | cons a l ih =>
    by_cases hq : 0 < q
    · by_cases ha : ok a = true
      · rw [sweep_cons_of_ok hq ha, List.map_append, List.map_cons]
        split_ifs
        · exact (ih.cons (g a))
        · simpa [hg] using ih
      · rw [sweep_cons_of_not_ok (by simpa using ha), List.map_cons, List.map_cons]
        exact ih.cons_cons (g a)
    · rw [sweep_of_nonpos (not_lt.mp hq)]

theorem exists_mem_of_mem_kept {γ : Type*} {g : α → γ} (hg : ∀ a w, g (withWeight a w) = g a)
    {a : α} (ha : a ∈ (sweep ok q l).kept) : ∃ b ∈ l, g b = g a :=
  List.mem_map.mp ((map_kept_sublist hg).subset (List.mem_map_of_mem ha))

theorem weight_pos_of_mem_kept (hl : ∀ a ∈ l, 0 < weight a) :
    ∀ a ∈ (sweep ok q l).kept, 0 < weight a := by
  induction l generalizing q with
  | nil => simp
  | cons a l ih =>
    have hrest : ∀ b ∈ l, 0 < weight b := fun b hb ↦ hl b (List.mem_cons_of_mem a hb)
    have ha₀ : 0 < weight a := hl a List.mem_cons_self
    intro b hb
    by_cases hq : 0 < q
    · by_cases ha : ok a = true
      · rw [sweep_cons_of_ok hq ha] at hb
        rcases List.mem_append.mp hb with hb | hb
        · split_ifs at hb with h0
          · simp at hb
          · rw [List.mem_singleton.mp hb, weight_withWeight]
            omega
        · exact ih hrest b hb
      · rw [sweep_cons_of_not_ok (by simpa using ha)] at hb
        rcases List.mem_cons.mp hb with rfl | hb
        · exact ha₀
        · exact ih hrest b hb
    · rw [sweep_of_nonpos (not_lt.mp hq)] at hb
      exact hl b hb

/-- **Exhaustiveness.** When part of the demand is left over, no eligible item is. -/
theorem not_ok_of_left_pos (hleft : 0 < (sweep ok q l).left) :
    ∀ a ∈ (sweep ok q l).kept, ok a = false := by
  induction l generalizing q with
  | nil => simp
  | cons a l ih =>
    by_cases hq : 0 < q
    · by_cases ha : ok a = true
      · rw [sweep_cons_of_ok hq ha] at hleft ⊢
        intro b hb
        rcases List.mem_append.mp hb with hb | hb
        · split_ifs at hb with h0
          · simp at hb
          · -- the item is only kept when it covered the whole demand, so nothing was left
            have hzero : q - min q (weight a) = 0 := by omega
            have hnonpos : (sweep ok (q - min q (weight a)) l).left = 0 := by
              rw [hzero, sweep_of_nonpos le_rfl]
            exact absurd hleft (by dsimp only; omega)
        · exact ih hleft b hb
      · have hfalse : ok a = false := by simpa using ha
        rw [sweep_cons_of_not_ok hfalse] at hleft ⊢
        intro b hb
        rcases List.mem_cons.mp hb with rfl | hb
        · exact hfalse
        · exact ih hleft b hb
    · rw [sweep_of_nonpos (not_lt.mp hq)] at hleft
      exact absurd hleft hq

/-- Among the items of a kind that weights do not decide, the total weight drops by the total
taken. -/
theorem sum_filter_kept {p : α → Bool} (hp : ∀ a w, p (withWeight a w) = p a) (ok : α → Bool)
    (q : ℤ) (l : List α) : (((sweep ok q l).kept.filter p).map weight).sum
      = ((l.filter p).map weight).sum
        - (((sweep ok q l).taken.filter fun t ↦ p t.1).map Prod.snd).sum := by
  induction l generalizing q with
  | nil => simp
  | cons a l ih =>
    by_cases hq : 0 < q
    · by_cases ha : ok a = true
      · rw [sweep_cons_of_ok hq ha, List.filter_append, List.map_append, List.sum_append, ih,
          List.filter_cons, List.filter_cons]
        by_cases hpa : p a = true
        · rw [if_pos hpa, if_pos hpa, List.map_cons, List.map_cons, List.sum_cons, List.sum_cons]
          split_ifs with h0
          · simp only [List.filter_nil, List.map_nil, List.sum_nil]
            omega
          · rw [List.filter_cons_of_pos (by rw [hp, hpa])]
            simp only [List.filter_nil, List.map_cons, List.map_nil, List.sum_cons, List.sum_nil,
              weight_withWeight]
            omega
        · rw [if_neg hpa, if_neg hpa]
          split_ifs with h0
          · simp
          · rw [List.filter_cons_of_neg (by rw [hp]; exact hpa)]
            simp
      · rw [sweep_cons_of_not_ok (by simpa using ha), List.filter_cons, List.filter_cons]
        have hih := ih q
        split_ifs
        · simp only [List.map_cons, List.sum_cons, hih]
          omega
        · exact hih
    · rw [sweep_of_nonpos (not_lt.mp hq)]
      simp

/-- The total weight drops by the total taken. -/
theorem sum_weight_kept (ok : α → Bool) (q : ℤ) (l : List α) :
    ((sweep ok q l).kept.map weight).sum
    = (l.map weight).sum - ((sweep ok q l).taken.map Prod.snd).sum := by
  have h := sum_filter_kept (p := fun _ : α ↦ true) (fun _ _ ↦ rfl) ok q l
  simpa only [List.filter_true] using h

/-! ## Two sweeps in a row

A second sweep of what a first one left restarts from the front, yet ends where a single sweep for
both demands does. -/

section Twice

variable {q' : ℤ}

/-- **A demand can be served in two parts.** -/
theorem kept_add (hset : ∀ (a : α) w w', withWeight (withWeight a w) w' = withWeight a w')
    (hok : ∀ a w, ok (withWeight a w) = ok a) (hl : ∀ a ∈ l, 0 < weight a) (hq : 0 ≤ q)
    (hq' : 0 ≤ q') :
    (sweep ok (q + q') l).kept = (sweep ok q' (sweep ok q l).kept).kept := by
  induction l generalizing q with
  | nil => rfl
  | cons a l ih =>
    have hrest : ∀ b ∈ l, 0 < weight b := fun b hb ↦ hl b (List.mem_cons_of_mem a hb)
    have hweight := hl a List.mem_cons_self
    by_cases hpos : 0 < q
    · by_cases ha : ok a = true
      · by_cases hlt : q < weight a
        · -- the first demand stops inside this item, and the second resumes there
          have hmin : min q (weight a) = q := min_eq_left hlt.le
          have hfirst : (sweep ok q (a :: l)).kept = withWeight a (weight a - q) :: l := by
            rw [sweep_cons_of_ok hpos ha, hmin, if_neg (by omega), sub_self,
              sweep_of_nonpos le_rfl]
            rfl
          rw [hfirst]
          by_cases hpos' : 0 < q'
          · have hamount : min (q + q') (weight a) = q + min q' (weight a - q) := by omega
            rw [sweep_cons_of_ok (by omega : 0 < q + q') ha,
              sweep_cons_of_ok hpos' (by rw [hok, ha])]
            dsimp only
            rw [weight_withWeight, hset, hamount, sub_add_eq_sub_sub, add_sub_add_left_eq_sub]
          · obtain rfl : q' = 0 := by omega
            rw [add_zero, hfirst, sweep_of_nonpos le_rfl]
        · -- the first demand empties this item
          have hmin : min q (weight a) = weight a := min_eq_right (not_lt.mp hlt)
          have hmin' : min (q + q') (weight a) = weight a := min_eq_right (by omega)
          rw [sweep_cons_of_ok hpos ha, sweep_cons_of_ok (by omega : 0 < q + q') ha]
          dsimp only
          rw [hmin, hmin', sub_self, if_pos rfl, List.nil_append, List.nil_append,
            ← ih hrest (by omega), sub_add_eq_add_sub]
      · have hfalse : ok a = false := by simpa using ha
        rw [sweep_cons_of_not_ok hfalse, sweep_cons_of_not_ok hfalse, sweep_cons_of_not_ok hfalse]
        exact congrArg (List.cons a) (ih hrest hq)
    · obtain rfl : q = 0 := by omega
      rw [zero_add, sweep_of_nonpos (le_refl (0 : ℤ))]

/-- What the two parts take from the items of a kind adds up. -/
theorem sum_filter_taken_add {p : α → Bool} (hp : ∀ a w, p (withWeight a w) = p a)
    (ok : α → Bool) (hset : ∀ (a : α) w w', withWeight (withWeight a w) w' = withWeight a w')
    (hok : ∀ a w, ok (withWeight a w) = ok a) (hl : ∀ a ∈ l, 0 < weight a) (hq : 0 ≤ q)
    (hq' : 0 ≤ q') :
    (((sweep ok (q + q') l).taken.filter fun t ↦ p t.1).map Prod.snd).sum
      = (((sweep ok q l).taken.filter fun t ↦ p t.1).map Prod.snd).sum
        + (((sweep ok q' (sweep ok q l).kept).taken.filter fun t ↦ p t.1).map Prod.snd).sum := by
  have hboth := sum_filter_kept hp ok (q + q') l
  have hfirst := sum_filter_kept hp ok q l
  have hsecond := sum_filter_kept hp ok q' (sweep ok q l).kept
  rw [kept_add hset hok hl hq hq'] at hboth
  omega

/-- What the two parts leave unserved adds up. -/
theorem left_add (hset : ∀ (a : α) w w', withWeight (withWeight a w) w' = withWeight a w')
    (hok : ∀ a w, ok (withWeight a w) = ok a) (hl : ∀ a ∈ l, 0 < weight a) (hq : 0 ≤ q)
    (hq' : 0 ≤ q') : (sweep ok (q + q') l).left
      = (sweep ok q l).left + (sweep ok q' (sweep ok q l).kept).left := by
  have hboth : (sweep ok (q + q') l).left + _ = q + q' := left_add_sum_taken
  have hfirst : (sweep ok q l).left + _ = q := left_add_sum_taken
  have hsecond : (sweep ok q' (sweep ok q l).kept).left + _ = q' := left_add_sum_taken
  have htaken := sum_filter_taken_add (p := fun _ ↦ true) (fun _ _ ↦ rfl) ok hset hok hl hq hq'
  simp only [List.filter_true] at htaken
  omega

end Twice

/-! ## Items a sweep does not touch -/

/-- A sweep that takes nothing changes nothing. -/
theorem sweep_of_taken_eq_nil (h : (sweep ok q l).taken = []) : sweep ok q l = ⟨l, [], q⟩ := by
  induction l with
  | nil => rfl
  | cons a l ih =>
    by_cases hq : 0 < q
    · by_cases ha : ok a = true
      · rw [sweep_cons_of_ok hq ha] at h
        simp at h
      · have hfalse : ok a = false := by simpa using ha
        rw [sweep_cons_of_not_ok hfalse] at h ⊢
        rw [ih h]
    · exact sweep_of_nonpos (not_lt.mp hq)

/-- **Items from which nothing is taken might as well not be there**: leaving some of them out
beforehand or afterwards is the same. -/
theorem sweep_filter {p : α → Bool} (hp : ∀ a w, p (withWeight a w) = p a)
    (h : ∀ t ∈ (sweep ok q l).taken, p t.1 = true) : sweep ok q (l.filter p)
      = ⟨(sweep ok q l).kept.filter p, (sweep ok q l).taken, (sweep ok q l).left⟩ := by
  induction l generalizing q with
  | nil => rfl
  | cons a l ih =>
    by_cases hq : 0 < q
    · by_cases ha : ok a = true
      · rw [sweep_cons_of_ok hq ha] at h ⊢
        have hpa : p a = true := h _ List.mem_cons_self
        rw [List.filter_cons_of_pos hpa, sweep_cons_of_ok hq ha,
          ih fun t ht ↦ h t (List.mem_cons_of_mem _ ht), List.filter_append]
        dsimp only
        split_ifs
        · rfl
        · rw [List.filter_cons_of_pos (by rw [hp, hpa]), List.filter_nil]
      · have hfalse : ok a = false := by simpa using ha
        rw [sweep_cons_of_not_ok hfalse] at h ⊢
        dsimp only
        by_cases hpa : p a = true
        · rw [List.filter_cons_of_pos hpa, List.filter_cons_of_pos hpa,
            sweep_cons_of_not_ok hfalse, ih h]
        · rw [List.filter_cons_of_neg hpa, List.filter_cons_of_neg hpa, ih h]
    · rw [sweep_of_nonpos (not_lt.mp hq), sweep_of_nonpos (not_lt.mp hq)]

/-! ## Emptied items -/

/-- The keys of the items a sweep emptied. -/
def exhausted (t : List (α × ℤ)) : List ι :=
  (t.filter fun p ↦ weight p.1 - p.2 = 0).map fun p ↦ key p.1

theorem exhausted_cons (p : α × ℤ) (t : List (α × ℤ)) : exhausted (p :: t)
    = (if weight p.1 - p.2 = 0 then [key p.1] else []) ++ exhausted t := by
  rw [exhausted, exhausted, List.filter_cons]
  by_cases h : weight p.1 - p.2 = 0 <;> simp [h]

theorem exhausted_append (t u : List (α × ℤ)) :
    exhausted (t ++ u) = exhausted t ++ exhausted u := by
  simp [exhausted]

theorem mem_map_key_of_mem_exhausted {k : ι} (h : k ∈ exhausted (sweep ok q l).taken) :
    k ∈ l.map key := by
  obtain ⟨p, hp, rfl⟩ := List.mem_map.mp h
  exact List.mem_map_of_mem (mem_and_ok_of_mem_taken (List.mem_filter.mp hp).1).1

/-! ## Per-key weights -/

section Keys

variable [DecidableEq ι]

/-- The total weight filed under a key. -/
def weightOf (k : ι) (l : List α) : ℤ := ((l.filter fun a ↦ key a = k).map weight).sum

/-- The total amount taken under a key. -/
def takenOf (k : ι) (t : List (α × ℤ)) : ℤ := ((t.filter fun p ↦ key p.1 = k).map Prod.snd).sum

@[simp] theorem weightOf_nil (k : ι) : weightOf k ([] : List α) = 0 := rfl

theorem weightOf_cons (k : ι) (a : α) (l : List α) :
    weightOf k (a :: l) = (if key a = k then weight a else 0) + weightOf k l := by
  rw [weightOf, weightOf, List.filter_cons]
  by_cases h : key a = k <;> simp [h]

theorem weightOf_append (k : ι) (l m : List α) :
    weightOf k (l ++ m) = weightOf k l + weightOf k m := by
  simp [weightOf]

theorem weightOf_perm {l m : List α} (h : l.Perm m) (k : ι) : weightOf k l = weightOf k m :=
  ((h.filter _).map weight).sum_eq

theorem takenOf_cons (k : ι) (p : α × ℤ) (t : List (α × ℤ)) :
    takenOf k (p :: t) = (if key p.1 = k then p.2 else 0) + takenOf k t := by
  rw [takenOf, takenOf, List.filter_cons]
  by_cases h : key p.1 = k <;> simp [h]

/-- What a key keeps is what it had, less what was taken from it. -/
theorem weightOf_kept (k : ι) :
    weightOf k (sweep ok q l).kept = weightOf k l - takenOf k (sweep ok q l).taken :=
  sum_filter_kept (p := fun a ↦ decide (key a = k)) (fun a w ↦ by rw [key_withWeight]) ok q l

/-- **What stays is what was not emptied**, with everything but its weight as it was. -/
theorem map_kept_eq_filter {γ : Type*} {g : α → γ} (hg : ∀ a w, g (withWeight a w) = g a)
    (hnd : (l.map key).Nodup) : (sweep ok q l).kept.map g
      = (l.filter fun a ↦ decide (key a ∉ exhausted (sweep ok q l).taken)).map g := by
  induction l generalizing q with
  | nil => simp
  | cons a l ih =>
    rw [List.map_cons, List.nodup_cons] at hnd
    by_cases hq : 0 < q
    · by_cases ha : ok a = true
      · rw [sweep_cons_of_ok hq ha]
        dsimp only
        have hnot : key a ∉ exhausted (sweep ok (q - min q (weight a)) l).taken := fun h ↦
          hnd.1 (mem_map_key_of_mem_exhausted h)
        have hrest : (l.filter fun b ↦ decide (key b ∉ exhausted
              ((a, min q (weight a)) :: (sweep ok (q - min q (weight a)) l).taken)))
            = l.filter fun b ↦ decide
                (key b ∉ exhausted (sweep ok (q - min q (weight a)) l).taken) := by
          refine List.filter_congr fun b hb ↦ ?_
          have hne : key b ≠ key a := fun heq ↦ hnd.1 (heq ▸ List.mem_map_of_mem hb)
          rw [exhausted_cons]
          split_ifs <;> simp [hne]
        rw [List.map_append, ih hnd.2, List.filter_cons, hrest, exhausted_cons]
        dsimp only
        split_ifs with h0 h1 h1
        · simp at h1
        · simp
        · simp [hg]
        · simp [hnot] at h1
      · rw [sweep_cons_of_not_ok (by simpa using ha), List.map_cons, ih hnd.2]
        have hnot : key a ∉ exhausted (sweep ok q l).taken := fun h ↦
          hnd.1 (mem_map_key_of_mem_exhausted h)
        rw [List.filter_cons_of_pos (by simpa using hnot), List.map_cons]
    · rw [sweep_of_nonpos (not_lt.mp hq)]
      simp [exhausted]

end Keys

/-! ## The naive procedure

Take from the first eligible item, update the list, start again from the front. -/

section Naive

variable [DecidableEq ι]

/-- Take `w` from the item filed under `k`, dropping it when that exhausts it. -/
def settle (k : ι) (w : ℤ) (l : List α) : List α :=
  l.filterMap fun a ↦
    if key a = k then
      if weight a - w = 0 then none else some (withWeight a (weight a - w))
    else some a

@[simp] theorem settle_nil (k : ι) (w : ℤ) : settle k w ([] : List α) = [] := rfl

theorem settle_cons (k : ι) (w : ℤ) (a : α) (l : List α) : settle k w (a :: l)
    = (if key a = k then if weight a - w = 0 then [] else [withWeight a (weight a - w)]
        else [a]) ++ settle k w l := by
  rw [settle, settle, List.filterMap_cons]
  split_ifs <;> rfl

theorem length_settle_le (k : ι) (w : ℤ) (l : List α) : (settle k w l).length ≤ l.length :=
  List.length_filterMap_le _ _

theorem length_settle_lt {a : α} {w : ℤ} (ha : a ∈ l) (hw : weight a - w = 0) :
    (settle (key a) w l).length < l.length := by
  refine List.length_filterMap_lt_length_iff_exists.mpr ⟨a, ha, ?_⟩
  rw [if_pos rfl, if_pos hw]

theorem settle_append (k : ι) (w : ℤ) (l m : List α) :
    settle k w (l ++ m) = settle k w l ++ settle k w m := List.filterMap_append

theorem settle_of_notMem {k : ι} {w : ℤ} (h : k ∉ l.map key) : settle k w l = l := by
  induction l with
  | nil => rfl
  | cons a l ih =>
    rw [List.map_cons, List.mem_cons, not_or] at h
    rw [settle_cons, if_neg fun heq ↦ h.1 heq.symm, ih h.2]
    rfl

theorem map_settle_sublist {γ : Type*} {g : α → γ} (hg : ∀ a w, g (withWeight a w) = g a)
    (k : ι) (w : ℤ) : ((settle k w l).map g).Sublist (l.map g) := by
  induction l with
  | nil => simp
  | cons a l ih =>
    rw [settle_cons, List.map_append, List.map_cons]
    split_ifs
    · exact ih.cons (g a)
    · simpa [hg] using ih
    · simpa using ih

/-- Settling commutes with keeping only the items that satisfy a test their weight does not
decide. -/
theorem filter_settle {p : α → Bool} (hp : ∀ a w, p (withWeight a w) = p a) (k : ι) (w : ℤ) :
    (settle k w l).filter p = settle k w (l.filter p) := by
  induction l with
  | nil => rfl
  | cons a l ih =>
    rw [settle_cons, List.filter_append, ih]
    by_cases ha : p a = true
    · rw [List.filter_cons_of_pos ha, settle_cons]
      congr 1
      split_ifs <;> simp [hp, ha]
    · rw [List.filter_cons_of_neg ha]
      split_ifs <;> simp [hp, ha]

/-- **The single pass is the naive procedure.** Sweeping takes from the first eligible item and
then does what a sweep of the updated list would do. -/
theorem sweep_eq_of_find?_eq_some (hnd : (l.map key).Nodup) (hq : 0 < q) {m : α}
    (hm : l.find? ok = some m) :
    sweep ok q l =
      ⟨(sweep ok (q - min q (weight m)) (settle (key m) (min q (weight m)) l)).kept,
        (m, min q (weight m)) ::
          (sweep ok (q - min q (weight m)) (settle (key m) (min q (weight m)) l)).taken,
        (sweep ok (q - min q (weight m)) (settle (key m) (min q (weight m)) l)).left⟩ := by
  obtain ⟨hmok, pre, post, rfl, hpre⟩ := List.find?_eq_some_iff_append.mp hm
  have hpre' : ∀ a ∈ pre, ok a = false := fun a ha ↦ by simpa using hpre a ha
  rw [List.map_append, List.map_cons, List.nodup_append, List.nodup_cons] at hnd
  have hnpre : key m ∉ pre.map key := fun h ↦ hnd.2.2 _ h _ List.mem_cons_self rfl
  have hpassed : ∀ (q' : ℤ) (rest : List α), sweep ok q' (pre ++ rest)
      = ⟨pre ++ (sweep ok q' rest).kept, (sweep ok q' rest).taken, (sweep ok q' rest).left⟩ := by
    intro q' rest
    rw [sweep_append, sweep_of_forall_not_ok hpre']
    rfl
  rw [settle_append, settle_cons, if_pos rfl, settle_of_notMem hnpre,
    settle_of_notMem hnd.2.1.1, hpassed, hpassed, sweep_cons_of_ok hq hmok]
  split_ifs with h0
  · rfl
  · -- the item outlasts the demand, so nothing else is touched
    have hzero : q - min q (weight m) = 0 := by omega
    rw [hzero, sweep_of_nonpos le_rfl, sweep_of_nonpos le_rfl]

end Naive

end BenchmarkPlatform.Lib
