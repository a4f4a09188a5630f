import BenchmarkPlatform.Lib.Sweep
import BenchmarkPlatform.OrderBook.Book

/-!
# The matching loops as one sweep

The two nested loops of `match` walk the opposite side level by level and each level order by
order. Read as one list in priority order, the side is swept once: `matchLevels_eq` says that the
loops leave what `Lib.sweep` keeps, and that the taker, the index and the fills end as its account
of the trades says. The `break` on a price that is too far is absorbed by the order of the levels:
past the first unacceptable price no order is eligible, so the sweep does nothing there either.

The later modules reason about sweeps and never unfold the loops again.
-/

namespace BenchmarkPlatform

open Lib

variable {τ : Type}

/-! ## Vocabulary -/

instance : Weighted Node String where
  key n := n.order.id
  weight n := n.order.quantity
  withWeight n w := { n with order := { n.order with quantity := w } }
  weight_withWeight _ _ := rfl
  key_withWeight _ _ := rfl

/-- The side a taker trades with. -/
def Side.opposite : Side → Side
  | .buy => .sell
  | .sell => .buy

@[simp] theorem Side.opposite_opposite (s : Side) : s.opposite.opposite = s := by cases s <;> rfl

theorem Side.eq_opposite_of_ne {s s' : Side} (h : s ≠ s') : s = s'.opposite := by
  cases s <;> cases s' <;> first | rfl | exact absurd rfl h

theorem Side.opposite_ne (s : Side) : s.opposite ≠ s := by cases s <;> decide

/-- The `break` test of the loop for a taker of side `s`. -/
def tooFar : Side → ℤ → ℤ → Bool
  | .buy => tooExpensive
  | .sell => tooCheap

/-- A maker the taker may trade with. -/
def eligible (taker maker : Order) : Bool :=
  !(taker.type = .limit && tooFar taker.side maker.price taker.price) && !sameAccount taker maker

/-- A side in priority order: best level first, first in first out within a level. -/
def flat (es : List (ℤ × LevelData τ)) : List Node := es.flatMap fun e ↦ e.2.orders

@[simp] theorem flat_nil : flat ([] : List (ℤ × LevelData τ)) = [] := rfl

@[simp] theorem flat_cons (e : ℤ × LevelData τ) (es : List (ℤ × LevelData τ)) :
    flat (e :: es) = e.2.orders ++ flat es := rfl

@[simp] theorem flat_append (es es' : List (ℤ × LevelData τ)) :
    flat (es ++ es') = flat es ++ flat es' := List.flatMap_append

theorem mem_flat {es : List (ℤ × LevelData τ)} {n : Node} :
    n ∈ flat es ↔ ∃ e ∈ es, n ∈ e.2.orders := List.mem_flatMap

theorem sublist_flat {es : List (ℤ × LevelData τ)} {e : ℤ × LevelData τ} (he : e ∈ es) :
    e.2.orders.Sublist (flat es) := by
  obtain ⟨l, r, rfl⟩ := List.append_of_mem he
  rw [flat_append, flat_cons]
  exact (List.sublist_append_left _ _).trans (List.sublist_append_right _ _)

/-- The fills of a run of trades, the clock having been read `i` times. -/
def fillsOf (env : CallEnv) (takerId : String) : ℕ → List (Node × ℤ) → List Fill
  | _, [] => []
  | i, (n, w) :: t =>
    ⟨n.order.id, takerId, n.order.price, w, env.now (i + 1)⟩ :: fillsOf env takerId (i + 1) t

@[simp] theorem fillsOf_nil (env : CallEnv) (takerId : String) (i : ℕ) :
    fillsOf env takerId i [] = [] := rfl

@[simp] theorem length_fillsOf (env : CallEnv) (takerId : String) (i : ℕ)
    (t : List (Node × ℤ)) : (fillsOf env takerId i t).length = t.length := by
  induction t generalizing i with
  | nil => rfl
  | cons p t ih => rw [fillsOf, List.length_cons, List.length_cons, ih]

theorem fillsOf_append (env : CallEnv) (takerId : String) (i : ℕ) (t u : List (Node × ℤ)) :
    fillsOf env takerId i (t ++ u)
      = fillsOf env takerId i t ++ fillsOf env takerId (i + t.length) u := by
  induction t generalizing i with
  | nil => rfl
  | cons p t ih =>
    rw [List.cons_append, fillsOf, fillsOf, ih, List.cons_append, List.length_cons,
      show i + 1 + t.length = i + (t.length + 1) from by omega]

/-- Whatever a function reads off a fill other than its time, it could read off the trade. -/
theorem map_fillsOf {γ : Type*} (f : Fill → γ) (g : Node × ℤ → γ) (env : CallEnv)
    (takerId : String) (h : ∀ n w t, f ⟨n.order.id, takerId, n.order.price, w, t⟩ = g (n, w))
    (i : ℕ) (t : List (Node × ℤ)) : (fillsOf env takerId i t).map f = t.map g := by
  induction t generalizing i with
  | nil => rfl
  | cons p t ih => rw [fillsOf, List.map_cons, List.map_cons, ih, h]

/-- A fill comes from a trade, and the fills before it from the trades before it. -/
theorem exists_of_fillsOf_eq {env : CallEnv} {takerId : String} {i : ℕ} {t : List (Node × ℤ)}
    {fs gs : List Fill} {f : Fill} (h : fillsOf env takerId i t = fs ++ f :: gs) :
    ∃ t₁ p t₂, t = t₁ ++ p :: t₂ ∧ fs = fillsOf env takerId i t₁ ∧
      f.makerOrderId = p.1.order.id ∧ f.takerOrderId = takerId ∧ f.quantity = p.2 := by
  induction fs generalizing i t with
  | nil =>
    cases t with
    | nil => simp at h
    | cons p t =>
      rw [fillsOf, List.nil_append, List.cons.injEq] at h
      exact ⟨[], p, t, rfl, rfl, by rw [← h.1], by rw [← h.1], by rw [← h.1]⟩
  | cons g fs ih =>
    cases t with
    | nil => simp at h
    | cons p t =>
      rw [fillsOf, List.cons_append, List.cons.injEq] at h
      obtain ⟨t₁, q, t₂, rfl, hfs, hf⟩ := ih h.2
      exact ⟨p :: t₁, q, t₂, rfl, by rw [fillsOf, h.1, hfs], hf⟩

/-- The index without the orders of the given ids. -/
def eraseAll (ids : List String) (index : OrderIndex) : OrderIndex :=
  ids.foldl (fun i id ↦ i.erase id) index

theorem lookup_eraseAll (ids : List String) (index : OrderIndex) (id : String) :
    (eraseAll ids index).lookup id = if id ∈ ids then none else index.lookup id := by
  induction ids generalizing index with
  | nil => simp [eraseAll]
  | cons id' ids ih =>
    rw [eraseAll, List.foldl_cons, ← eraseAll, ih]
    by_cases hmem : id ∈ ids
    · simp [hmem]
    · by_cases hid : id = id'
      · subst hid
        simp [hmem]
      · simp [hmem, hid, Finmap.lookup_erase_ne hid]

/-- The loop state after the given trades have left `left` of the taker. -/
def MatchState.after (env : CallEnv) (st : MatchState) (taken : List (Node × ℤ)) (left : ℤ) :
    MatchState where
  taker := { st.taker with quantity := left }
  orders := eraseAll (exhausted taken) st.orders
  fills := st.fills ++ fillsOf env st.taker.id st.fills.length taken

theorem MatchState.after_nil (env : CallEnv) (st : MatchState) :
    st.after env [] st.taker.quantity = st := by
  simp [MatchState.after, exhausted, eraseAll]

theorem MatchState.after_trade (env : CallEnv) (st : MatchState) (n : Node) (w left : ℤ)
    (taken : List (Node × ℤ)) :
    (st.trade env n.order w).after env taken left = st.after env ((n, w) :: taken) left := by
  have hfills : st.fills ++ [⟨n.order.id, st.taker.id, n.order.price, w,
        env.now (st.fills.length + 1)⟩] ++ fillsOf env st.taker.id (st.fills.length + 1) taken
      = st.fills ++ fillsOf env st.taker.id st.fills.length ((n, w) :: taken) := by
    rw [fillsOf, List.append_assoc, List.singleton_append]
  have horders : eraseAll (exhausted taken)
        (if n.order.quantity - w = 0 then st.orders.erase n.order.id else st.orders)
      = eraseAll (exhausted ((n, w) :: taken)) st.orders := by
    rw [exhausted_cons]
    by_cases h : n.order.quantity - w = 0
    · rw [if_pos h, if_pos (show Weighted.weight (n, w).1 - (n, w).2 = 0 from h)]
      rfl
    · rw [if_neg h, if_neg (show ¬Weighted.weight (n, w).1 - (n, w).2 = 0 from h)]
      rfl
  rw [MatchState.after, MatchState.after, ← hfills, ← horders]
  simp [MatchState.trade]

theorem MatchState.after_after (env : CallEnv) (st : MatchState) (t u : List (Node × ℤ))
    (q q' : ℤ) : (st.after env t q).after env u q' = st.after env (t ++ u) q' := by
  simp [MatchState.after, exhausted_append, eraseAll, fillsOf_append, List.append_assoc]

/-! ## The inner loop -/

variable [AddGroupWithOne τ]

/-- The inner loop sweeps one level, where only self-trade prevention refuses an order. -/
theorem matchLevel_eq (env : CallEnv) (st : MatchState) (total : τ) (l : List Node) :
    matchLevel env st total l
      = (⟨(sweep (fun n ↦ !sameAccount st.taker n.order) st.taker.quantity l).kept,
          total - (((sweep (fun n ↦ !sameAccount st.taker n.order) st.taker.quantity l).taken.map
            Prod.snd).sum : ℤ)⟩,
        st.after env (sweep (fun n ↦ !sameAccount st.taker n.order) st.taker.quantity l).taken
          (sweep (fun n ↦ !sameAccount st.taker n.order) st.taker.quantity l).left) := by
  induction l generalizing st total with
  | nil =>
    rw [matchLevel, sweep_nil, MatchState.after_nil]
    simp
  | cons n l ih =>
    rw [matchLevel]
    by_cases hq : 0 < st.taker.quantity
    · rw [if_pos hq]
      by_cases hsame : sameAccount st.taker n.order = true
      · rw [if_pos hsame, sweep_cons_of_not_ok (by simp [hsame]), ih]
      · rw [if_neg hsame, sweep_cons_of_ok hq (by simpa using hsame)]
        dsimp only
        rw [ih]
        -- the taker's account is what it was, so the rest of the level is swept alike
        have hst : (st.trade env n.order (min st.taker.quantity n.order.quantity)).taker
            = { st.taker with
                quantity := st.taker.quantity - min st.taker.quantity n.order.quantity } := rfl
        rw [hst, MatchState.after_trade]
        have hsub : ∀ (a b : ℤ) (t : τ), t - (a : τ) - (b : τ) = t - ((a + b : ℤ) : τ) := by
          intro a b t
          rw [add_comm, Int.cast_add, sub_add_eq_sub_sub_swap]
        simp only [List.map_cons, List.sum_cons, hsub]
        split_ifs with h0 h1 h1
        · rfl
        · exact absurd h0 h1
        · exact absurd h1 h0
        · rfl
    · rw [if_neg hq, sweep_of_nonpos (not_lt.mp hq), MatchState.after_nil]
      simp

/-! ## The outer loop -/

theorem tooFar_of_before {s : Side} {p p' limit : ℤ} (h : s.opposite.before p p')
    (hp : tooFar s p limit = true) : tooFar s p' limit = true := by
  cases s with
  | buy =>
    have hlt : p < p' := h
    have hlim : limit < p := by simpa [tooFar, tooExpensive] using hp
    simpa [tooFar, tooExpensive] using hlim.trans hlt
  | sell =>
    have hlt : p' < p := h
    have hlim : p < limit := by simpa [tooFar, tooCheap] using hp
    simpa [tooFar, tooCheap] using hlt.trans hlim

/-- Out of reach of a limit taker: the loop would break here. -/
theorem eligible_of_tooFar {taker maker : Order} (htype : taker.type = .limit)
    (hfar : tooFar taker.side maker.price taker.price = true) : eligible taker maker = false := by
  rw [eligible, htype, hfar]
  rfl

/-- Within reach, only self-trade prevention refuses a maker. -/
theorem eligible_of_not_tooFar {taker maker : Order}
    (hnear : ¬(taker.type = .limit ∧ tooFar taker.side maker.price taker.price = true)) :
    eligible taker maker = !sameAccount taker maker := by
  have hfalse : (decide (taker.type = .limit) && tooFar taker.side maker.price taker.price)
      = false := by
    by_contra h
    exact hnear (by simpa using h)
  rw [eligible, hfalse]
  rfl

omit [AddGroupWithOne τ] in
/-- A level that was emptied is erased, which the flat list does not show. -/
theorem flat_erased (price : ℤ) (level : LevelData τ) (r : List (ℤ × LevelData τ) × MatchState) :
    flat (if level.orders.isEmpty then r else ((price, level) :: r.1, r.2)).1
        = level.orders ++ flat r.1 ∧
      (if level.orders.isEmpty then r else ((price, level) :: r.1, r.2)).2 = r.2 := by
  split_ifs with hempty
  · rw [List.isEmpty_iff.mp hempty]
    exact ⟨rfl, rfl⟩
  · exact ⟨rfl, rfl⟩

/-- **The loops sweep the opposite side.** -/
theorem matchLevels_eq (env : CallEnv) {s : Side} {es : List (ℤ × LevelData τ)}
    (hsorted : es.Pairwise fun e e' ↦ s.opposite.before e.1 e'.1)
    (hprice : ∀ e ∈ es, ∀ n ∈ e.2.orders, n.order.price = e.1) (st : MatchState)
    (hside : st.taker.side = s) :
    flat (matchLevels env (tooFar s) st es).1
        = (sweep (fun n ↦ eligible st.taker n.order) st.taker.quantity (flat es)).kept ∧
      (matchLevels env (tooFar s) st es).2
        = st.after env
            (sweep (fun n ↦ eligible st.taker n.order) st.taker.quantity (flat es)).taken
            (sweep (fun n ↦ eligible st.taker n.order) st.taker.quantity (flat es)).left := by
  induction es generalizing st with
  | nil =>
    refine ⟨rfl, ?_⟩
    rw [flat_nil, sweep_nil, MatchState.after_nil]
    rfl
  | cons e es ih =>
    obtain ⟨price, level⟩ := e
    rw [List.pairwise_cons] at hsorted
    have hrest : ∀ e ∈ es, ∀ n ∈ e.2.orders, n.order.price = e.1 := fun e he ↦
      hprice e (List.mem_cons_of_mem _ he)
    have hlevel : ∀ n ∈ level.orders, n.order.price = price := fun n hn ↦
      hprice (price, level) List.mem_cons_self n hn
    rw [matchLevels]
    by_cases hq : 0 < st.taker.quantity
    · rw [if_pos hq]
      by_cases hfar : st.taker.type = .limit ∧ tooFar s price st.taker.price = true
      · -- the loop breaks here: this level and all behind it are out of reach
        have hnone : ∀ n ∈ flat ((price, level) :: es), eligible st.taker n.order = false := by
          intro n hn
          obtain ⟨e, he, hne⟩ := mem_flat.mp hn
          have hte : tooFar s e.1 st.taker.price = true := by
            rcases List.mem_cons.mp he with rfl | he
            · exact hfar.2
            · exact tooFar_of_before (hsorted.1 e he) hfar.2
          exact eligible_of_tooFar hfar.1 (by rw [hside, hprice e he n hne]; exact hte)
        rw [if_pos hfar, sweep_of_forall_not_ok hnone, MatchState.after_nil]
        exact ⟨rfl, rfl⟩
      · rw [if_neg hfar]
        have hok : ∀ n ∈ level.orders,
            eligible st.taker n.order = !sameAccount st.taker n.order := fun n hn ↦
          eligible_of_not_tooFar (by rw [hside, hlevel n hn]; exact hfar)
        have hsweep : sweep (fun n ↦ eligible st.taker n.order) st.taker.quantity level.orders
            = sweep (fun n ↦ !sameAccount st.taker n.order) st.taker.quantity level.orders :=
          sweep_congr hok
        -- the level is swept, and the rest is swept with what is left of the taker
        obtain ⟨ihflat, ihst⟩ := ih hsorted.2 hrest
          (st.after env
            (sweep (fun n ↦ eligible st.taker n.order) st.taker.quantity level.orders).taken
            (sweep (fun n ↦ eligible st.taker n.order) st.taker.quantity level.orders).left) hside
        rw [matchLevel_eq, ← hsweep]
        refine ⟨(flat_erased price ⟨_, _⟩ _).1.trans ?_, (flat_erased price ⟨_, _⟩ _).2.trans ?_⟩
        · rw [ihflat, flat_cons, sweep_append]
          rfl
        · rw [ihst, flat_cons, sweep_append, MatchState.after_after]
          rfl
    · rw [if_neg hq, sweep_of_nonpos (not_lt.mp hq), MatchState.after_nil]
      exact ⟨rfl, rfl⟩

/-- A level that comes from one of the given levels of the same price: swept, with its total reduced
by what was taken from it, and not left empty. -/
def SweptFrom (es : List (ℤ × LevelData τ)) (e : ℤ × LevelData τ) : Prop :=
  ∃ e₀ ∈ es, ∃ (ok : Node → Bool) (q : ℤ), e.1 = e₀.1 ∧ e.2.orders ≠ [] ∧
    e.2.orders = (sweep ok q e₀.2.orders).kept ∧ e.2.totalQuantity
      = e₀.2.totalQuantity - (((sweep ok q e₀.2.orders).taken.map Prod.snd).sum : ℤ)

/-- A level that was not reached. -/
theorem SweptFrom.of_mem {es : List (ℤ × LevelData τ)} {e : ℤ × LevelData τ} (he : e ∈ es)
    (hne : e.2.orders ≠ []) : SweptFrom es e := by
  refine ⟨e, he, fun _ ↦ false, 0, rfl, hne, ?_⟩
  rw [sweep_of_nonpos le_rfl]
  simp

theorem SweptFrom.cons {es : List (ℤ × LevelData τ)} {e : ℤ × LevelData τ} (h : SweptFrom es e)
    (e' : ℤ × LevelData τ) : SweptFrom (e' :: es) e := by
  obtain ⟨e₀, he₀, h⟩ := h
  exact ⟨e₀, List.mem_cons_of_mem _ he₀, h⟩

/-- Each level the loops leave was there before, and has been swept. -/
theorem mem_matchLevels (env : CallEnv) (far : ℤ → ℤ → Bool)
    {es : List (ℤ × LevelData τ)} (hne : ∀ e ∈ es, e.2.orders ≠ []) (st : MatchState)
    {e : ℤ × LevelData τ} (he : e ∈ (matchLevels env far st es).1) : SweptFrom es e := by
  induction es generalizing st with
  | nil => simp [matchLevels] at he
  | cons e' es ih =>
    obtain ⟨price, level⟩ := e'
    have hrest := fun e he ↦ hne e (List.mem_cons_of_mem (price, level) he)
    rw [matchLevels] at he
    split_ifs at he with hq hfar
    · exact .of_mem he (hne e he)
    · dsimp only at he
      split_ifs at he with hempty
      · exact (ih hrest _ he).cons _
      · rcases List.mem_cons.mp he with rfl | he
        · rw [matchLevel_eq] at hempty ⊢
          exact ⟨(price, level), List.mem_cons_self, _, _, rfl,
            fun h ↦ hempty (List.isEmpty_iff.mpr h), rfl, rfl⟩
        · exact (ih hrest _ he).cons _
    · exact .of_mem he (hne e he)

end BenchmarkPlatform
