import BenchmarkPlatform.Lib.Sweep

/-!
# Ladders

A list of weighted items whose keys come in groups, seen from a distance: only the total weight of
each group is shown. Such a list of rungs is again a list of weighted items, and a sweep does not
notice the difference. Sweeping the items of the groups and then adding up what was taken from each
group is sweeping the rungs (`sweep_groups`), as long as eligibility is decided group by group.

A ladder in priority order is determined by its weights (`ladder_ext`), so what an operation does
to it can be said one key at a time.
-/

namespace BenchmarkPlatform.Lib

open Weighted

variable {κ : Type*}

/-- A rung: a key with the total weight that stands there. -/
instance : Weighted (κ × ℤ) κ where
  key := Prod.fst
  weight := Prod.snd
  withWeight r w := (r.1, w)
  weight_withWeight _ _ := rfl
  key_withWeight _ _ := rfl

@[simp] theorem key_rung (r : κ × ℤ) : key r = r.1 := rfl

@[simp] theorem weight_rung (r : κ × ℤ) : weight r = r.2 := rfl

variable [DecidableEq κ]

/-! ## Merging neighbours -/

/-- Add up neighbouring amounts of one key. -/
def mergeRuns : List (κ × ℤ) → List (κ × ℤ)
  | [] => []
  | r :: l =>
    match mergeRuns l with
    | [] => [r]
    | r' :: m => if r.1 = r'.1 then (r.1, r.2 + r'.2) :: m else r :: r' :: m

@[simp] theorem mergeRuns_nil : mergeRuns ([] : List (κ × ℤ)) = [] := rfl

theorem mergeRuns_cons_of_eq {r r' : κ × ℤ} {l m : List (κ × ℤ)} (hl : mergeRuns l = r' :: m)
    (h : r.1 = r'.1) : mergeRuns (r :: l) = (r.1, r.2 + r'.2) :: m := by
  rw [mergeRuns, hl]
  exact if_pos h

theorem mergeRuns_cons_of_ne {r : κ × ℤ} {l : List (κ × ℤ)}
    (h : ∀ r' ∈ mergeRuns l, r'.1 ≠ r.1) : mergeRuns (r :: l) = r :: mergeRuns l := by
  rw [mergeRuns]
  cases hl : mergeRuns l with
  | nil => rfl
  | cons r' m => exact if_neg fun heq ↦ h r' (by rw [hl]; exact List.mem_cons_self) heq.symm

/-- A run of one key, before a list where that key does not come again, is merged into one. -/
theorem mergeRuns_append_of_key {k : κ} {l m : List (κ × ℤ)} (hne : l ≠ [])
    (hl : ∀ r ∈ l, r.1 = k) (hm : ∀ r ∈ mergeRuns m, r.1 ≠ k) :
    mergeRuns (l ++ m) = (k, (l.map Prod.snd).sum) :: mergeRuns m := by
  induction l with
  | nil => exact absurd rfl hne
  | cons r l ih =>
    have hr : r.1 = k := hl r List.mem_cons_self
    by_cases hnil : l = []
    · subst hnil
      rw [List.cons_append, List.nil_append, mergeRuns_cons_of_ne (by rwa [hr])]
      simp [← hr]
    · have hrest := ih hnil fun r' hr' ↦ hl r' (List.mem_cons_of_mem r hr')
      rw [List.cons_append, mergeRuns_cons_of_eq hrest hr, hr, List.map_cons, List.sum_cons]

/-! ## Groups and their rungs -/

section Groups

variable {γ α ι : Type*} [Weighted α ι] {items : γ → List α} {group : γ → κ}

/-- The rung of a group. -/
def rung (group : γ → κ) (items : γ → List α) (g : γ) : κ × ℤ :=
  (group g, ((items g).map weight).sum)

omit [DecidableEq κ] in
theorem rung_pos {g : γ} (hne : items g ≠ []) (hpos : ∀ a ∈ items g, 0 < weight a) :
    0 < weight (rung group items g) := by
  apply List.sum_pos
  · intro w hw
    obtain ⟨a, ha, rfl⟩ := List.mem_map.mp hw
    exact hpos a ha
  · simpa using hne

variable {f : α → κ} {ok : α → Bool} {okKey : κ → Bool}

/-- **Sweeping groups.** What is left of the demand, and what was taken from each group, can be read
off the rungs. -/
theorem sweep_groups {gs : List γ} (hdistinct : gs.Pairwise fun g g' ↦ group g ≠ group g')
    (hne : ∀ g ∈ gs, items g ≠ []) (hpos : ∀ g ∈ gs, ∀ a ∈ items g, 0 < weight a)
    (hkey : ∀ g ∈ gs, ∀ a ∈ items g, f a = group g)
    (hok : ∀ g ∈ gs, ∀ a ∈ items g, ok a = okKey (group g)) (q : ℤ) :
    (sweep ok q (gs.flatMap items)).left
        = (sweep (fun r ↦ okKey r.1) q (gs.map (rung group items))).left ∧
      mergeRuns ((sweep ok q (gs.flatMap items)).taken.map fun t ↦ (f t.1, t.2))
        = (sweep (fun r ↦ okKey r.1) q (gs.map (rung group items))).taken.map
            fun t ↦ (t.1.1, t.2) := by
  induction gs generalizing q with
  | nil => exact ⟨rfl, rfl⟩
  | cons g gs ih =>
    rw [List.pairwise_cons] at hdistinct
    have hrest := ih hdistinct.2 (fun g' hg' ↦ hne g' (List.mem_cons_of_mem g hg'))
      (fun g' hg' ↦ hpos g' (List.mem_cons_of_mem g hg'))
      (fun g' hg' ↦ hkey g' (List.mem_cons_of_mem g hg'))
      fun g' hg' ↦ hok g' (List.mem_cons_of_mem g hg')
    have hok := hok g List.mem_cons_self
    have hkey := hkey g List.mem_cons_self
    have hpos := hpos g List.mem_cons_self
    rw [List.flatMap_cons, List.map_cons]
    by_cases hq : 0 < q
    · by_cases hg : okKey (group g) = true
      · -- the group gives what it has, or all that is still demanded
        have hall : ∀ a ∈ items g, ok a = true := fun a ha ↦ (hok a ha).trans hg
        have hleft : (sweep ok q (items g)).left = q - min q (rung group items g).2 := by
          rw [left_eq_max hall hpos hq.le, rung]
          omega
        have hsum : ((sweep ok q (items g)).taken.map Prod.snd).sum
            = min q (rung group items g).2 := by
          have hboth : (sweep ok q (items g)).left
              + ((sweep ok q (items g)).taken.map Prod.snd).sum = q := left_add_sum_taken
          omega
        have htaken : (sweep ok q (items g)).taken ≠ [] := by
          intro hnil
          have hweight : 0 < (rung group items g).2 :=
            rung_pos (hne g List.mem_cons_self) hpos
          rw [hnil, List.map_nil, List.sum_nil] at hsum
          omega
        have hrung : sweep (fun r ↦ okKey r.1) q
            (rung group items g :: gs.map (rung group items)) = _ := sweep_cons_of_ok hq hg
        rw [sweep_append, hrung, hleft, weight_rung]
        refine ⟨(hrest _).1, ?_⟩
        rw [List.map_append, List.map_cons, ← (hrest _).2]
        have hmerged := mergeRuns_append_of_key (k := group g)
          (l := (sweep ok q (items g)).taken.map fun t ↦ (f t.1, t.2))
          (m := (sweep ok (q - min q (rung group items g).2) (gs.flatMap items)).taken.map
            fun t ↦ (f t.1, t.2)) (by simpa using htaken) ?_ ?_
        · rw [hmerged, List.map_map]
          exact congrArg (fun w ↦ (group g, w) :: _) hsum
        · intro r hr
          obtain ⟨t, ht, rfl⟩ := List.mem_map.mp hr
          have hmem : t.1 ∈ items g := (mem_and_ok_of_mem_taken ht).1
          exact hkey t.1 hmem
        · rw [(hrest _).2]
          intro r hr
          obtain ⟨t, ht, rfl⟩ := List.mem_map.mp hr
          have hmem : t.1 ∈ gs.map (rung group items) := (mem_and_ok_of_mem_taken ht).1
          obtain ⟨g', hg', heq⟩ := List.mem_map.mp hmem
          rw [← heq]
          exact (hdistinct.1 g' hg').symm
      · -- the group is passed over
        have hfalse : okKey (group g) = false := by simpa using hg
        have hrung : sweep (fun r ↦ okKey r.1) q
            (rung group items g :: gs.map (rung group items)) = _ := sweep_cons_of_not_ok hfalse
        rw [sweep_append, hrung, sweep_of_forall_not_ok fun a ha ↦ (hok a ha).trans hfalse]
        exact hrest q
    · rw [sweep_of_nonpos (not_lt.mp hq), sweep_of_nonpos (not_lt.mp hq)]
      exact ⟨rfl, rfl⟩

end Groups

/-! ## Ladders in priority order -/

theorem weightOf_merge (k : κ) (l : List (κ × ℤ)) : weightOf k (mergeRuns l) = weightOf k l := by
  induction l with
  | nil => rfl
  | cons r l ih =>
    rw [weightOf_cons, ← ih, mergeRuns]
    cases hl : mergeRuns l with
    | nil => rw [weightOf_cons]
    | cons r' m =>
      dsimp only
      by_cases heq : r.1 = r'.1
      · rw [if_pos heq, weightOf_cons, weightOf_cons]
        simp only [key_rung, weight_rung, heq]
        split_ifs
        · ring
        · ring
      · rw [if_neg heq, weightOf_cons]

/-- What was taken, listed by a key of the items, weighs under each key what was taken there. -/
theorem weightOf_map_taken {α : Type*} (f : α → κ) (k : κ) (t : List (α × ℤ)) :
    weightOf k (t.map fun p ↦ (f p.1, p.2)) = ((t.filter fun p ↦ f p.1 = k).map Prod.snd).sum := by
  rw [weightOf, List.filter_map, List.map_map]
  rfl

/-- Settling a key that is there lowers its weight, and no other. -/
theorem weightOf_settle {k : κ} {l : List (κ × ℤ)} (hnd : (l.map key).Nodup)
    (hk : k ∈ l.map key) (w : ℤ) (k' : κ) :
    weightOf k' (settle k w l) = weightOf k' l - if k = k' then w else 0 := by
  induction l with
  | nil => simp at hk
  | cons r l ih =>
    rw [List.map_cons, List.nodup_cons] at hnd
    rw [settle_cons, weightOf_append, weightOf_cons]
    by_cases hr : key r = k
    · subst hr
      rw [if_pos rfl, settle_of_notMem hnd.1]
      split_ifs with hzero heq heq
      · rw [weightOf_nil]
        omega
      · rw [weightOf_nil]
        omega
      · rw [weightOf_cons, weightOf_nil, key_withWeight, weight_withWeight, if_pos heq]
        ring
      · rw [weightOf_cons, weightOf_nil, key_withWeight, if_neg heq]
        ring
    · have hmem : k ∈ l.map key := (List.mem_cons.mp hk).resolve_left fun h ↦ hr h.symm
      rw [if_neg hr, ih hnd.2 hmem, weightOf_cons, weightOf_nil]
      ring

theorem ne_zero_of_mem_settle {k : κ} {w : ℤ} {l : List (κ × ℤ)} (hpos : ∀ r ∈ l, 0 < r.2) :
    ∀ r ∈ settle k w l, r.2 ≠ 0 := by
  intro r hr
  obtain ⟨r', hr', hsome⟩ := List.mem_filterMap.mp hr
  split_ifs at hsome with hkey hzero
  · rw [← Option.some_inj.mp hsome]
    exact hzero
  · rw [← Option.some_inj.mp hsome]
    exact (hpos r' hr').ne'

variable {lt : κ → κ → Prop} [Std.Irrefl lt]

theorem weightOf_of_mem {l : List (κ × ℤ)} (hsorted : l.Pairwise fun r r' ↦ lt r.1 r'.1)
    {r : κ × ℤ} (hr : r ∈ l) : weightOf r.1 l = r.2 := by
  induction l with
  | nil => simp at hr
  | cons r' l ih =>
    rw [List.pairwise_cons] at hsorted
    rw [weightOf_cons]
    rcases List.mem_cons.mp hr with rfl | hr
    · have hnone : l.filter (fun r' ↦ key r' = r.1) = [] := by
        apply List.filter_eq_nil_iff.mpr
        intro r' hr' heq
        have hlt := hsorted.1 r' hr'
        rw [show r'.1 = r.1 from of_decide_eq_true heq] at hlt
        exact Std.Irrefl.irrefl r.1 hlt
      rw [if_pos (key_rung r), weightOf, hnone]
      exact add_zero r.2
    · have hne : r'.1 ≠ r.1 := by
        intro heq
        have hlt := hsorted.1 r hr
        rw [heq] at hlt
        exact Std.Irrefl.irrefl r.1 hlt
      rw [key_rung, if_neg hne, zero_add]
      exact ih hsorted.2 hr

theorem mem_iff_weightOf {l : List (κ × ℤ)} (hsorted : l.Pairwise fun r r' ↦ lt r.1 r'.1)
    (hpos : ∀ r ∈ l, 0 < r.2) (r : κ × ℤ) : r ∈ l ↔ 0 < r.2 ∧ weightOf r.1 l = r.2 := by
  constructor
  · intro hr
    exact ⟨hpos r hr, weightOf_of_mem hsorted hr⟩
  · rintro ⟨hr, hweight⟩
    have hne : l.filter (fun r' ↦ key r' = r.1) ≠ [] := by
      intro hnil
      rw [weightOf, hnil, List.map_nil, List.sum_nil] at hweight
      omega
    obtain ⟨r', hr'⟩ := List.exists_mem_of_ne_nil _ hne
    obtain ⟨hmem, hkey⟩ := List.mem_filter.mp hr'
    have hfst : r'.1 = r.1 := of_decide_eq_true hkey
    have heq : r' = r := by
      refine Prod.ext hfst ?_
      rw [← hweight, ← hfst]
      exact (weightOf_of_mem hsorted hmem).symm
    rwa [← heq]

/-- **A ladder is its weights**: in priority order, with a positive weight on every rung. -/
theorem ladder_ext [Std.Asymm lt] {l l' : List (κ × ℤ)}
    (hsorted : l.Pairwise fun r r' ↦ lt r.1 r'.1) (hpos : ∀ r ∈ l, 0 < r.2)
    (hsorted' : l'.Pairwise fun r r' ↦ lt r.1 r'.1) (hpos' : ∀ r ∈ l', 0 < r.2)
    (h : ∀ k, weightOf k l = weightOf k l') : l = l' := by
  have hnodup : ∀ {m : List (κ × ℤ)}, m.Pairwise (fun r r' ↦ lt r.1 r'.1) → m.Nodup := by
    intro m hm
    refine hm.imp ?_
    rintro r r' hlt rfl
    exact Std.Irrefl.irrefl r.1 hlt
  have hperm : l.Perm l' := by
    rw [List.perm_ext_iff_of_nodup (hnodup hsorted) (hnodup hsorted')]
    intro r
    rw [mem_iff_weightOf hsorted hpos, mem_iff_weightOf hsorted' hpos', h]
  exact hperm.eq_of_pairwise (fun r r' _ _ hlt hgt ↦ absurd hgt (Std.Asymm.asymm _ _ hlt))
    hsorted hsorted'

/-! ## Depositing on a rung -/

variable (lt) [DecidableRel lt]

/-- Add a weight under a key, on a rung of its own if there is none. -/
def deposit (k : κ) (w : ℤ) : List (κ × ℤ) → List (κ × ℤ)
  | [] => [(k, w)]
  | r :: l =>
    if k = r.1 then (r.1, r.2 + w) :: l
    else if lt k r.1 then (k, w) :: r :: l
    else r :: deposit k w l

variable {lt}

/-- Between the rungs of higher and of lower priority a deposit finds its place. -/
theorem deposit_split {k : κ} {w : ℤ} {l r : List (κ × ℤ)} {v : Option ℤ}
    (hl : ∀ e ∈ l, k ≠ e.1 ∧ ¬lt k e.1) (hr : ∀ e ∈ r, lt k e.1) :
    deposit lt k w (l ++ (v.map (Prod.mk k)).toList ++ r) = l ++ (k, v.getD 0 + w) :: r := by
  induction l with
  | nil =>
    cases v with
    | some v => exact if_pos rfl
    | none =>
      cases r with
      | nil => simp [deposit]
      | cons e r =>
        have hlt := hr e List.mem_cons_self
        have hne : k ≠ e.1 := by
          intro heq
          rw [← heq] at hlt
          exact Std.Irrefl.irrefl k hlt
        simp [deposit, hne, hlt]
  | cons e l ih =>
    have he := hl e List.mem_cons_self
    rw [List.cons_append, List.cons_append, deposit, if_neg he.1, if_neg he.2,
      ih fun e' he' ↦ hl e' (List.mem_cons_of_mem e he')]
    rfl

end BenchmarkPlatform.Lib
