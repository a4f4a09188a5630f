import Mathlib.Algebra.BigOperators.Ring.List
import Mathlib.Algebra.Order.Floor.Ring
import Mathlib.Data.Rat.Floor
import BenchmarkPlatform.Exchange.Report

/-!
# The price of a report

The POST handler adds up what its fills cost in 64 bits and divides by the quantity filled. The
wrapped total is the exact one reduced once, whatever the number of fills, so the quotient is the
floor of the exact mean if and only if the exact total is below `2 ^ 63`; from there on the two
differ by at least one, and the reported price need not even be positive. The exact total can be
read off the book before the order: it is the cost of the first units on the other side, as far
as the order reaches.
-/

namespace BenchmarkPlatform

open Lib

/-! ## Wrapped sums -/

/-- Reducing at every turn is reducing once. -/
theorem foldl_bmod {α : Type*} (f : α → ℤ) (m : ℕ) (v : ℤ) (l : List α) :
    l.foldl (fun v a ↦ (v + f a).bmod m) (v.bmod m) = (v + (l.map f).sum).bmod m := by
  induction l generalizing v with
  | nil => rw [List.foldl_nil, List.map_nil, List.sum_nil, add_zero]
  | cons a l ih =>
    rw [List.foldl_cons, Int.bmod_add_bmod, ih, List.map_cons, List.sum_cons, add_assoc]

theorem toInt64_of_lt {v : ℤ} (hv : 0 ≤ v) (hlt : v < 2 ^ 63) : toInt64 v = v := by
  change v.bmod (2 ^ 64) = v
  exact Int.bmod_eq_of_le_mul_two (by omega) (by omega)

/-- A total that does not fit loses at least one full turn. -/
theorem toInt64_le_sub {v : ℤ} (hge : 2 ^ 63 ≤ v) : toInt64 v ≤ v - 2 ^ 64 := by
  have hlt : toInt64 v < 2 ^ 63 := by
    have h : v.bmod (2 ^ 64) < ((2 ^ 64 : ℕ) + 1) / 2 := Int.bmod_lt (by decide)
    change v.bmod (2 ^ 64) < 2 ^ 63
    omega
  have hdvd : (2 ^ 64 : ℤ) ∣ v - toInt64 v := by
    have h : ((2 ^ 64 : ℕ) : ℤ) ∣ v - v.bmod (2 ^ 64) := Int.dvd_self_sub_bmod
    exact h
  obtain ⟨k, hk⟩ := hdvd
  omega

/-- **The wrapped quotient** is the floor of the exact one as long as the total fits. -/
theorem tdiv_toInt64_eq_iff {v q : ℤ} (hv : 0 ≤ v) (hq : 0 < q) (hint : q < 2 ^ 63) :
    (toInt64 v).tdiv q = v / q ↔ v < 2 ^ 63 := by
  constructor
  · intro heq
    by_contra hlt
    have hge : 2 ^ 63 ≤ v := not_lt.mp hlt
    have hturn := toInt64_le_sub hge
    rcases le_or_gt 0 (toInt64 v) with hpos | hneg
    · -- a full turn is more than the divisor
      have hsub : toInt64 v / q ≤ (v - 1 * q) / q := Int.ediv_le_ediv hq (by omega)
      rw [Int.sub_mul_ediv_right v 1 hq.ne', ← Int.tdiv_eq_ediv_of_nonneg hpos] at hsub
      omega
    · have hnonneg : 0 ≤ (-toInt64 v).tdiv q := Int.tdiv_nonneg (by omega) hq.le
      rw [Int.neg_tdiv] at hnonneg
      have hone : 1 ≤ v / q := (Int.le_ediv_iff_mul_le hq).mpr (by omega)
      omega
  · intro hlt
    rw [toInt64_of_lt hv hlt, Int.tdiv_eq_ediv_of_nonneg hv]

/-! ## The cost of the fills -/

/-- What the fills cost, exactly. -/
def cost (fills : List Fill) : ℤ := (fills.map fun f ↦ f.quantity * f.price).sum

/-- `filled_qty`, accumulated in 64 bits. -/
def accumulatedQty (fills : List Fill) : ℤ :=
  fills.foldl (fun v fill ↦ toInt64 (v + fill.quantity)) 0

theorem totalVal_eq (fills : List Fill) : totalVal fills = toInt64 (cost fills) := by
  have h := foldl_bmod (fun f : Fill ↦ f.quantity * f.price) (2 ^ 64) 0 fills
  rw [Int.zero_bmod, zero_add] at h
  -- reducing the product first makes no difference
  refine Eq.trans ?_ h
  exact congrArg (fun g ↦ fills.foldl g 0)
    (funext fun v ↦ funext fun f ↦ Int.add_bmod_bmod (x := v) (y := f.quantity * f.price))

theorem accumulatedQty_eq {fills : List Fill} (hnonneg : 0 ≤ filledQty fills)
    (hint : filledQty fills < 2 ^ 63) : accumulatedQty fills = filledQty fills := by
  have h := foldl_bmod Fill.quantity (2 ^ 64) 0 fills
  rw [Int.zero_bmod, zero_add] at h
  exact h.trans (toInt64_of_lt hnonneg hint)

/-- What all fills cost at least, at a price none of them is below. -/
theorem mul_filledQty_le_cost {fills : List Fill} (hpos : ∀ f ∈ fills, 0 < f.quantity) {p : ℤ}
    (hp : ∀ f ∈ fills, p ≤ f.price) : p * filledQty fills ≤ cost fills := by
  rw [filledQty, cost, ← List.sum_map_mul_left]
  refine List.sum_le_sum fun f hf ↦ ?_
  rw [mul_comm]
  exact mul_le_mul_of_nonneg_left (hp f hf) (hpos f hf).le

/-- What they cost at most, at a price none of them is above. -/
theorem cost_le_mul_filledQty {fills : List Fill} (hpos : ∀ f ∈ fills, 0 < f.quantity) {p : ℤ}
    (hp : ∀ f ∈ fills, f.price ≤ p) : cost fills ≤ p * filledQty fills := by
  rw [filledQty, cost, ← List.sum_map_mul_left]
  refine List.sum_le_sum fun f hf ↦ ?_
  rw [mul_comm p]
  exact mul_le_mul_of_nonneg_left (hp f hf) (hpos f hf).le

/-! ## What the order can take from the book -/

/-- What the first `q` units of a queue cost exactly, as far as the order reaches. -/
def NewOrder.costOf (o : NewOrder) : ℤ → List Node → ℤ
  | _, [] => 0
  | q, n :: l =>
    if o.reaches n.order.price then
      min q n.order.quantity * n.order.price + o.costOf (q - min q n.order.quantity) l
    else o.costOf q l

/-- The exact cost of what the book has for the order. -/
def Exchange.costFor {τ : Type} (x : Exchange τ) (o : NewOrder) : ℤ :=
  o.costOf o.quantity ((x.book o.symbol).nodes o.side.opposite)

theorem NewOrder.costOf_zero (o : NewOrder) {l : List Node} (hl : ∀ n ∈ l, 0 < n.order.quantity) :
    o.costOf 0 l = 0 := by
  induction l with
  | nil => rfl
  | cons n l ih =>
    have hmin : min 0 n.order.quantity = 0 := min_eq_left (hl n List.mem_cons_self).le
    rw [costOf, hmin, zero_mul, zero_add, sub_zero, ite_self]
    exact ih fun m hm ↦ hl m (List.mem_cons_of_mem n hm)

/-- It is the cost of what a sweep takes. -/
theorem NewOrder.costOf_eq (o : NewOrder) {l : List Node} (hl : ∀ n ∈ l, 0 < n.order.quantity)
    {q : ℤ} (hq : 0 ≤ q) : o.costOf q l
      = ((sweep (fun n ↦ o.reaches n.order.price) q l).taken.map
          fun t ↦ t.2 * t.1.order.price).sum := by
  induction l generalizing q with
  | nil => rfl
  | cons n l ih =>
    have hrest : ∀ m ∈ l, 0 < m.order.quantity := fun m hm ↦ hl m (List.mem_cons_of_mem n hm)
    have hweight : Weighted.weight n = n.order.quantity := rfl
    by_cases hreach : o.reaches n.order.price = true
    · rcases hq.eq_or_lt with rfl | hpos
      · rw [o.costOf_zero hl, sweep_of_nonpos le_rfl]
        rfl
      · rw [sweep_cons_of_ok (a := n) hpos hreach, List.map_cons, List.sum_cons, costOf,
          if_pos hreach, hweight, ih hrest (by omega)]
    · rw [sweep_cons_of_not_ok (by simpa using hreach), costOf, if_neg hreach, ih hrest hq]

variable {τ : Type} [AddGroupWithOne τ] {x : Exchange τ} {o : NewOrder}

theorem Exchange.Sound.cost_postFills (h : x.Sound) (hcheck : o.check = .ok ()) (env : CallEnv) :
    cost (x.postFills env o) = x.costFor o := by
  rw [cost, (h.addOrder_drawnId hcheck env).1, map_fillsOf (fun f ↦ f.quantity * f.price)
    (fun t ↦ t.2 * t.1.order.price) env _ (fun _ _ _ ↦ rfl), Exchange.costFor,
    o.costOf_eq (h.wf o.symbol).weight_pos (NewOrder.quantity_pos hcheck).le]
  rfl

/-- The price of a fill is that of an order within reach of the taker. -/
theorem Exchange.Sound.price_of_mem_postFills (h : x.Sound) (hcheck : o.check = .ok ())
    (env : CallEnv) {f : Fill} (hf : f ∈ x.postFills env o) :
    0 < f.price ∧ o.reaches f.price = true := by
  have hprices : (x.postFills env o).map Fill.price
      = (x.sweptBy o).taken.map fun t ↦ t.1.order.price := by
    rw [(h.addOrder_drawnId hcheck env).1]
    exact map_fillsOf _ _ env _ (fun _ _ _ ↦ rfl) 0 _
  have hmem := List.mem_map_of_mem (f := Fill.price) hf
  rw [hprices] at hmem
  obtain ⟨t, ht, heq⟩ := List.mem_map.mp hmem
  obtain ⟨hnode, hreach⟩ := mem_and_ok_of_mem_taken ht
  rw [← heq]
  exact ⟨((h.wf o.symbol).of_mem_nodes hnode).2.2.1, hreach⟩

/-! ## The mean -/

/-- The price reported for the fills is the floor of their quantity-weighted mean price, lies
between their lowest and their highest price, and is a price the order reaches. -/
structure ExecutionReport.Averages (r : ExecutionReport) (o : NewOrder) (fills : List Fill) :
    Prop where
  mean : r.filledPrice = ⌊(cost fills / BenchmarkPlatform.filledQty fills : ℚ)⌋
  lowest : ∃ f ∈ fills, f.price ≤ r.filledPrice
  highest : ∃ f ∈ fills, r.filledPrice ≤ f.price
  limit : o.reaches r.filledPrice = true

theorem floor_mean {v q : ℤ} (hq : 0 < q) : ⌊(v / q : ℚ)⌋ = v / q := by
  lift q to ℕ using hq.le
  exact Rat.floor_intCast_div_natCast v q

section Mean

variable {fills : List Fill} (hpos : ∀ f ∈ fills, 0 < f.quantity) (hfilled : 0 < filledQty fills)

include hpos hfilled

theorem exists_price_le_mean : ∃ f ∈ fills, f.price ≤ cost fills / filledQty fills := by
  by_contra hall
  push Not at hall
  have hle := mul_filledQty_le_cost hpos (p := cost fills / filledQty fills + 1)
    fun f hf ↦ hall f hf
  have hdiv := (Int.le_ediv_iff_mul_le hfilled).mpr hle
  omega

theorem exists_mean_le_price : ∃ f ∈ fills, cost fills / filledQty fills ≤ f.price := by
  by_contra hall
  push Not at hall
  have hle := cost_le_mul_filledQty hpos (p := cost fills / filledQty fills - 1)
    fun f hf ↦ Int.le_sub_one_of_lt (hall f hf)
  have hdiv := Int.ediv_le_ediv hfilled hle
  rw [Int.mul_ediv_cancel _ hfilled.ne'] at hdiv
  omega

end Mean

/-- A price between two prices within reach is within reach. -/
theorem NewOrder.reaches_of_between (o : NewOrder) {p₁ p p₂ : ℤ} (h₁ : o.reaches p₁ = true)
    (h₂ : o.reaches p₂ = true) (hle : p₁ ≤ p) (hle' : p ≤ p₂) : o.reaches p = true := by
  rw [reaches, Bool.not_eq_true', Bool.and_eq_false_iff] at h₁ h₂ ⊢
  rcases h₁ with htype | h₁
  · exact Or.inl htype
  rcases h₂ with htype | h₂
  · exact Or.inl htype
  refine Or.inr ?_
  cases hside : o.side with
  | buy =>
    rw [hside] at h₂
    have h : ¬o.price < p₂ := of_decide_eq_false h₂
    exact decide_eq_false (by omega)
  | sell =>
    rw [hside] at h₁
    have h : ¬p₁ < o.price := of_decide_eq_false h₁
    exact decide_eq_false (by omega)

/-- **The reported price is a mean** exactly when what the order can take from the book costs less
than `2 ^ 63`. -/
theorem Exchange.Sound.averages_iff (h : x.Sound) (hcheck : o.check = .ok ())
    (hint : o.quantity < 2 ^ 63) (env : CallEnv) (id : String) (reply : TimePoint) :
    accumulatedQty (x.postFills env o) = filledQty (x.postFills env o) ∧
      ((0 < filledQty (x.postFills env o) →
          (o.report id (x.postFills env o) reply).Averages o (x.postFills env o)) ↔
        x.costFor o < 2 ^ 63) := by
  have hpos : ∀ f ∈ x.postFills env o, 0 < f.quantity := fun f hf ↦
    (h.of_mem_postFills hcheck env hf).1
  have hnonneg : 0 ≤ filledQty (x.postFills env o) := List.sum_nonneg fun q hq ↦ by
    obtain ⟨f, hf, rfl⟩ := List.mem_map.mp hq
    exact (hpos f hf).le
  have hle : filledQty (x.postFills env o) ≤ o.quantity := by
    have hleaves := h.leavesQty_postFills hcheck env
    have hleft : 0 ≤ (x.sweptBy o).left := left_nonneg (NewOrder.quantity_pos hcheck).le
    rw [leavesQty] at hleaves
    omega
  refine ⟨accumulatedQty_eq hnonneg (hle.trans_lt hint), ?_⟩
  rw [← h.cost_postFills hcheck env]
  have hcost : 0 ≤ cost (x.postFills env o) := by
    have hle := mul_filledQty_le_cost hpos (p := 0) fun f hf ↦
      (h.price_of_mem_postFills hcheck env hf).1.le
    rwa [zero_mul] at hle
  constructor
  · intro hmean
    rcases hnonneg.eq_or_lt with hzero | hfilled
    · -- nothing was filled, so nothing was paid
      have hnil : x.postFills env o = [] := by
        by_contra hne
        obtain ⟨f, hf⟩ := List.exists_mem_of_ne_nil _ hne
        have hsingle : f.quantity ≤ filledQty (x.postFills env o) :=
          List.single_le_sum (fun q hq ↦ by
            obtain ⟨g, hg, rfl⟩ := List.mem_map.mp hq
            exact (hpos g hg).le) _ (List.mem_map_of_mem hf)
        have hfpos := hpos f hf
        omega
      rw [hnil]
      decide
    · have heq := (hmean hfilled).mean
      rw [floor_mean hfilled] at heq
      change filledPrice (x.postFills env o) = _ at heq
      rw [filledPrice, if_pos hfilled, totalVal_eq] at heq
      exact (tdiv_toInt64_eq_iff hcost hfilled (hle.trans_lt hint)).mp heq
  · intro hlt hfilled
    have heq : filledPrice (x.postFills env o)
        = cost (x.postFills env o) / filledQty (x.postFills env o) := by
      rw [filledPrice, if_pos hfilled, totalVal_eq]
      exact (tdiv_toInt64_eq_iff hcost hfilled (hle.trans_lt hint)).mpr hlt
    obtain ⟨f, hf, hfle⟩ := exists_price_le_mean hpos hfilled
    obtain ⟨g, hg, hgle⟩ := exists_mean_le_price hpos hfilled
    rw [← heq] at hfle hgle
    exact ⟨heq.trans (floor_mean hfilled).symm, ⟨f, hf, hfle⟩, ⟨g, hg, hgle⟩,
      o.reaches_of_between (h.price_of_mem_postFills hcheck env hf).2
        (h.price_of_mem_postFills hcheck env hg).2 hfle hgle⟩

/-- **Prices reported by reachable exchanges.** In every state that an interleaving of requests
leads to, the report of a POST of an `int64_t` quantity gives the 64-bit total of its fills'
quantities, and its price is their mean price if and only if what the book has for the order costs
less than `2 ^ 63`. -/
theorem report_averages_iff {es : List ServerEvent} {s : Server τ}
    (hexec : exec Server.step Server.initial es = some s) {body : OrderBody} {env : CallEnv}
    {reply : TimePoint} {r : ExecutionReport}
    (hserve : (s.shared.serve env reply (.post (.ok body))).2 = ⟨200, .report r⟩)
    (hint : body.parse.quantity < 2 ^ 63) :
    r.filledQty = accumulatedQty (s.shared.postFills env body.parse) ∧
      ((0 < r.filledQty → r.Averages body.parse (s.shared.postFills env body.parse)) ↔
        s.shared.costFor body.parse < 2 ^ 63) := by
  obtain ⟨hcheck, hpost⟩ := check_of_serve hserve
  have hsound := (Server.sound_of_exec hexec).shared
  rw [hpost, hsound.response_servePost hcheck env reply] at hserve
  obtain rfl : _ = r := ResponseBody.report.inj (congrArg Response.body hserve)
  obtain ⟨hqty, hmean⟩ := hsound.averages_iff hcheck hint env _ reply
  exact ⟨hqty.symm, hmean⟩

/-- A limit order to sell 2 at `2 ^ 62`. -/
def dearBody : OrderBody := ⟨none, some "sell", some "limit", some 2, some (2 ^ 62), none⟩

/-- The order of `dearBody`, served. -/
def dearServed : List ServerEvent :=
  .start (.post (.ok dearBody)) :: List.replicate 4 (.run 0 default)

theorem report_averages_sampleBody : ∃ (s : Server ℤ) (r : ExecutionReport),
    exec Server.step Server.initial (servedInTurn.take 5) = some s ∧
      (s.shared.serve default 0 (.post (.ok (sampleBody "buy")))).2 = ⟨200, .report r⟩ ∧
      0 < r.filledQty ∧
      r.Averages (sampleBody "buy").parse
        (s.shared.postFills default (sampleBody "buy").parse) := by
  have hrun : ((exec Server.step (Server.initial : Server ℤ) (servedInTurn.take 5)).any fun s ↦
      decide ((s.shared.serve default 0 (.post (.ok (sampleBody "buy")))).2 = ⟨200, .report
          ⟨"ORD-AAPL-2", "", "AAPL", "filled", "buy", 10, 100, 0, 10, 0⟩⟩ ∧
        s.shared.costFor (sampleBody "buy").parse < 2 ^ 63)) = true := by decide +kernel
  obtain ⟨s, hs, h⟩ := (Option.any_eq_true _ _).mp hrun
  obtain ⟨hserve, hcost⟩ := of_decide_eq_true h
  exact ⟨s, _, hs, hserve, by decide,
    (report_averages_iff hs hserve (by decide)).2.mpr hcost (by decide)⟩

/-- Two units at `2 ^ 62` cost `2 ^ 63`, which wraps around: the price reported is negative. -/
theorem dearServed_not_averages : ∃ (s : Server ℤ) (r : ExecutionReport),
    exec Server.step Server.initial dearServed = some s ∧
      (s.shared.serve default 0 (.post (.ok marketBody))).2 = ⟨200, .report r⟩ ∧
      0 < r.filledQty ∧ r.filledPrice = -2 ^ 62 ∧
      ¬r.Averages marketBody.parse (s.shared.postFills default marketBody.parse) := by
  have hrun : ((exec Server.step (Server.initial : Server ℤ) dearServed).any fun s ↦
      decide ((s.shared.serve default 0 (.post (.ok marketBody))).2 = ⟨200, .report
          ⟨"ORD-AAPL-2", "", "AAPL", "partial", "buy", 2, -2 ^ 62, 13, 2, 0⟩⟩ ∧
        s.shared.postFills default marketBody.parse
          = [⟨"ORD-AAPL-1", "ORD-AAPL-2", 2 ^ 62, 2, 0⟩])) = true := by decide +kernel
  obtain ⟨s, hs, h⟩ := (Option.any_eq_true _ _).mp hrun
  obtain ⟨hserve, hfills⟩ := of_decide_eq_true h
  refine ⟨s, _, hs, hserve, by decide, rfl, fun hmean ↦ ?_⟩
  obtain ⟨f, hf, hle⟩ := hmean.lowest
  rw [hfills, List.mem_singleton] at hf
  subst hf
  exact absurd hle (by decide)

end BenchmarkPlatform
