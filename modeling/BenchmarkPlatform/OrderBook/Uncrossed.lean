import BenchmarkPlatform.OrderBook.Invariant

/-!
# The book is crossed only by one account against itself

A taker stops with quantity left only when nothing it may trade with is left, so its remainder can
rest across the book from an acceptable price only where self-trade prevention skipped the order
there. Nothing else ever brings two resting orders together, and so the clamp of `spread` hides
exactly the accounts that stand on both sides of the market.
-/

namespace BenchmarkPlatform

open Lib

variable {τ : Type}

/-! ## Where resting orders come from -/

/-- All of a resting order but what it has left to trade. -/
def Node.fixed (n : Node) : Order := { n.order with quantity := 0 }

/-- A bid and an ask that could trade at each other's price belong to one named account. -/
def OrderBook.Uncrossed (b : OrderBook τ) : Prop :=
  ∀ bid ∈ b.nodes .buy, ∀ ask ∈ b.nodes .sell, ask.order.price ≤ bid.order.price →
    bid.order.accountId = ask.order.accountId ∧ bid.order.accountId ≠ ""

theorem sameAccount_comm (ord ord' : Order) : sameAccount ord ord' = sameAccount ord' ord := by
  rw [sameAccount, sameAccount, Bool.eq_iff_iff]
  simp only [ne_eq, decide_not, Bool.and_eq_true, Bool.not_eq_true', decide_eq_false_iff_not,
    beq_iff_eq]
  exact ⟨fun ⟨hne, heq⟩ ↦ ⟨heq ▸ hne, heq.symm⟩, fun ⟨hne, heq⟩ ↦ ⟨heq ▸ hne, heq.symm⟩⟩

/-- The same, seen from either side. -/
theorem OrderBook.uncrossed_iff (b : OrderBook τ) (s : Side) : b.Uncrossed ↔
    ∀ n ∈ b.nodes s, ∀ m ∈ b.nodes s.opposite,
      tooFar s m.order.price n.order.price = false → sameAccount n.order m.order = true := by
  have hbuy : b.Uncrossed ↔ ∀ bid ∈ b.nodes .buy, ∀ ask ∈ b.nodes .sell,
      ask.order.price ≤ bid.order.price → sameAccount bid.order ask.order = true := by
    refine forall₄_congr fun bid _ ask _ ↦ imp_congr Iff.rfl ?_
    simp [sameAccount, and_comm]
  rw [hbuy]
  cases s with
  | buy => simp only [tooFar, tooExpensive, Side.opposite, decide_eq_false_iff_not, not_lt]
  | sell =>
    simp only [tooFar, tooCheap, Side.opposite, decide_eq_false_iff_not, not_lt]
    exact ⟨fun h ask hask bid hbid hp ↦ sameAccount_comm _ _ ▸ h bid hbid ask hask hp,
      fun h bid hbid ask hask hp ↦ sameAccount_comm _ _ ▸ h ask hask bid hbid hp⟩

/-- Fewer orders, or less left of them, cross no more. -/
theorem OrderBook.Uncrossed.mono {b b' : OrderBook τ} (h : b.Uncrossed)
    (hsub : ∀ s, ∀ n ∈ b'.nodes s, n.fixed ∈ (b.nodes s).map Node.fixed) : b'.Uncrossed := by
  intro bid hbid ask hask hp
  obtain ⟨bid₀, hbid₀, hb⟩ := List.mem_map.mp (hsub _ bid hbid)
  obtain ⟨ask₀, hask₀, ha⟩ := List.mem_map.mp (hsub _ ask hask)
  simp only [Node.fixed, Order.mk.injEq] at hb ha
  have hcrossed := h bid₀ hbid₀ ask₀ hask₀
  rw [hb.2.1, ha.2.1, hb.2.2.2.2.1, ha.2.2.2.2.1] at hcrossed
  exact hcrossed hp

variable [AddGroupWithOne τ]

/-! ## Preservation -/

theorem MatchSpec.fixed_mem {env : CallEnv} {b : OrderBook τ} {taker : Order}
    {r : OrderBook τ × MatchState} (spec : MatchSpec env b taker r) (s : Side) {n : Node}
    (hn : n ∈ r.1.nodes s) : n.fixed ∈ (b.nodes s).map Node.fixed := by
  by_cases hs : s = taker.side
  · subst hs
    rw [spec.nodes_own] at hn
    exact List.mem_map_of_mem hn
  · obtain rfl := Side.eq_opposite_of_ne hs
    rw [spec.opposite] at hn
    obtain ⟨m, hm, heq⟩ := exists_mem_of_mem_kept (g := Node.fixed) (fun _ _ ↦ rfl) hn
    exact List.mem_map.mpr ⟨m, hm, heq⟩

/-- The remainder of a limit order that has been matched joins the book without crossing it, its
own account aside. -/
theorem uncrossed_rest {b b' : OrderBook τ} {ord : Order} (h : b.Uncrossed)
    (spec : RestSpec b ord b') (hmatched : ∀ m ∈ b.nodes ord.side.opposite,
      tooFar ord.side m.order.price ord.price = false → sameAccount ord m.order = true) :
    b'.Uncrossed := by
  rw [OrderBook.uncrossed_iff _ ord.side] at h ⊢
  obtain ⟨l, m, r, hbefore, hafter, -, -⟩ := spec.nodes_own
  intro n hn n' hn'
  rw [spec.nodes_opposite] at hn'
  rw [hafter, List.mem_append, List.mem_cons] at hn
  rcases hn with hn | rfl | hn
  · exact h n (by rw [hbefore]; exact List.mem_append_left _ hn) n' hn'
  · exact hmatched n' hn'
  · exact h n (by rw [hbefore]; exact List.mem_append_right _ hn) n' hn'

theorem accept_uncrossed {b : OrderBook τ} (hwf : b.WF) (h : b.Uncrossed) (env : CallEnv)
    (ord : Order) : (b.accept env ord).Uncrossed := by
  have spec := matchTaker_spec hwf env ord
  have hmatch : (b.matchTaker env ord).1.Uncrossed := h.mono fun s n hn ↦ spec.fixed_mem s hn
  rw [OrderBook.accept]
  split_ifs with hrest
  · rw [spec.taker] at hrest ⊢
    refine uncrossed_rest hmatch (rest_spec _ _) fun m hm hnear ↦ ?_
    rw [spec.opposite] at hm
    -- quantity is left, so no eligible maker is: this one was skipped
    have hskipped : eligible ord m.order = false := not_ok_of_left_pos hrest.1 m hm
    have hnear : tooFar ord.side m.order.price ord.price = false := hnear
    rw [eligible, hnear, Bool.and_false, Bool.not_false, Bool.true_and, Bool.not_eq_false']
      at hskipped
    exact hskipped
  · exact hmatch

theorem call_uncrossed {b : OrderBook τ} (hwf : b.WF) (h : b.Uncrossed) (c : Call) :
    (b.call c).1.Uncrossed := by
  cases c with
  | addOrder env ord =>
    rw [OrderBook.call]
    rcases b.addOrder_cases env ord with ⟨message, hthrow, -⟩ | ⟨-, hok⟩
    · rw [hthrow]
      exact h
    · rw [hok]
      exact accept_uncrossed hwf h env _
  | cancelOrder id =>
    rw [OrderBook.call]
    rcases cancelOrder_spec hwf id with ⟨-, hnone⟩ | ⟨n, -, -, -, spec⟩
    · rw [hnone]
      exact h
    · refine h.mono fun s m hm ↦ ?_
      rw [spec.nodes s] at hm
      exact List.mem_map_of_mem (List.mem_filter.mp hm).1

theorem run_uncrossed (symbol : String) (calls : List Call) :
    (OrderBook.run symbol calls : OrderBook τ).Uncrossed := by
  refine (mealyRun_invariant (P := fun b : OrderBook τ ↦ b.WF ∧ b.Uncrossed)
    (fun b c _ h ↦ ⟨call_wf h.1 c, call_uncrossed h.1 h.2 c⟩)
    ⟨OrderBook.wf_new symbol, fun bid hbid ↦ ?_⟩).2
  simp [OrderBook.new, OrderBook.nodes, OrderBook.side] at hbid

/-! ## Books without account ids -/

/-- A call leaves resting orders that rested before, and at most the order it adds. -/
theorem call_fixed {b : OrderBook τ} (hwf : b.WF) (c : Call) {n : Node}
    (hn : n ∈ (b.call c).1.resting) : n.fixed ∈ b.resting.map Node.fixed ∨
      ∃ env ord, c = .addOrder env ord ∧
        n.fixed = { ord.resolve env with quantity := 0 } := by
  have hmatch : ∀ {env taker n}, n ∈ (b.matchTaker env taker).1.resting →
      n.fixed ∈ b.resting.map Node.fixed := by
    intro env taker n hn
    obtain ⟨s, hs⟩ := OrderBook.mem_resting.mp hn
    obtain ⟨m, hm, heq⟩ := List.mem_map.mp ((matchTaker_spec hwf env taker).fixed_mem s hs)
    exact List.mem_map.mpr ⟨m, OrderBook.mem_resting.mpr ⟨s, hm⟩, heq⟩
  cases c with
  | addOrder env ord =>
    rw [OrderBook.call] at hn
    rcases b.addOrder_cases env ord with ⟨message, hthrow, -⟩ | ⟨-, hok⟩
    · rw [hthrow] at hn
      exact Or.inl (List.mem_map_of_mem hn)
    · rw [hok] at hn
      dsimp only at hn
      rw [OrderBook.accept] at hn
      split_ifs at hn
      · rcases List.mem_cons.mp ((rest_spec _ _).perm_resting.subset hn) with rfl | hn
        · refine Or.inr ⟨env, ord, rfl, ?_⟩
          rw [Node.fixed, (matchTaker_spec hwf env _).taker]
        · exact Or.inl (hmatch hn)
      · exact Or.inl (hmatch hn)
  | cancelOrder id =>
    rw [OrderBook.call] at hn
    rcases cancelOrder_spec hwf id with ⟨-, hnone⟩ | ⟨m, -, -, -, spec⟩
    · rw [hnone] at hn
      exact Or.inl (List.mem_map_of_mem hn)
    · rw [OrderBook.resting_filter spec.nodes] at hn
      exact Or.inl (List.mem_map_of_mem (List.mem_filter.mp hn).1)

/-- What holds of every order added, whatever its id, time and quantity, holds of every resting
order. -/
theorem run_forall_resting {P : Order → Prop} (symbol : String) {calls : List Call}
    (hP : ∀ env ord, Call.addOrder env ord ∈ calls →
      P { ord.resolve env with quantity := 0 }) :
    ∀ n ∈ (OrderBook.run symbol calls : OrderBook τ).resting, P n.fixed := by
  refine (mealyRun_invariant (P := fun b : OrderBook τ ↦ b.WF ∧ ∀ n ∈ b.resting, P n.fixed)
    (fun b c hc h ↦ ⟨call_wf h.1 c, fun n hn ↦ ?_⟩) ⟨OrderBook.wf_new symbol, fun n hn ↦ ?_⟩).2
  · rcases call_fixed h.1 c hn with hmem | ⟨env, ord, rfl, heq⟩
    · obtain ⟨m, hm, heq⟩ := List.mem_map.mp hmem
      rw [← heq]
      exact h.2 m hm
    · rw [heq]
      exact hP env ord hc
  · simp [OrderBook.new, OrderBook.resting, OrderBook.nodes, OrderBook.side] at hn

/-! ## The spread -/

/-- Where the best bid and the best ask do not cross, `spread` is their difference. -/
theorem spread_of_uncrossed {b : OrderBook τ} (hwf : b.WF)
    (h : ∀ bid ∈ b.nodes .buy, ∀ ask ∈ b.nodes .sell, bid.order.price < ask.order.price)
    {p q : ℤ} (hp : b.bestBid = (p, true)) (hq : b.bestAsk = (q, true)) :
    p < q ∧ b.spread = (q - p, true) := by
  rw [OrderBook.bestBid] at hp
  rw [OrderBook.bestAsk] at hq
  rw [OrderBook.spread]
  cases hbids : b.bids.entries with
  | nil => simp [hbids] at hp
  | cons bid bids =>
    cases hasks : b.asks.entries with
    | nil => simp [hasks] at hq
    | cons ask asks =>
      have hbid : bid ∈ b.side .buy := by simp [OrderBook.side, hbids]
      have hask : ask ∈ b.side .sell := by simp [OrderBook.side, hasks]
      obtain ⟨n, hn⟩ := List.exists_mem_of_ne_nil _ (hwf.levels _ _ hbid).nonempty
      obtain ⟨m, hm⟩ := List.exists_mem_of_ne_nil _ (hwf.levels _ _ hask).nonempty
      have hlt := h n (mem_flat.mpr ⟨bid, hbid, hn⟩) m (mem_flat.mpr ⟨ask, hask, hm⟩)
      rw [hwf.price_eq hbid n hn, hwf.price_eq hask m hm] at hlt
      simp only [hbids, hasks, Prod.mk.injEq, and_true] at hp hq
      rw [hp, hq] at hlt
      dsimp only
      rw [hp, hq, if_neg (by omega)]
      exact ⟨hlt, rfl⟩

/-- **No crossing but of one account with itself**, in every reachable state; and so, when no
account stands on both sides at crossing prices, or when no order names an account at all, the best
bid is below the best ask and `spread` is their exact difference. -/
theorem run_crossed_only_by_self (symbol : String) (calls : List Call) :
    let b : OrderBook τ := OrderBook.run symbol calls
    (∀ bid ∈ b.nodes .buy, ∀ ask ∈ b.nodes .sell, ask.order.price ≤ bid.order.price →
      bid.order.accountId = ask.order.accountId ∧ bid.order.accountId ≠ "") ∧
    ((∀ bid ∈ b.nodes .buy, ∀ ask ∈ b.nodes .sell, bid.order.accountId ≠ "" →
        bid.order.accountId = ask.order.accountId → bid.order.price < ask.order.price) →
      ∀ p q, b.bestBid = (p, true) → b.bestAsk = (q, true) →
        p < q ∧ b.spread = (q - p, true)) ∧
    ((∀ env ord, Call.addOrder env ord ∈ calls → ord.accountId = "") →
      ∀ p q, b.bestBid = (p, true) → b.bestAsk = (q, true) →
        p < q ∧ b.spread = (q - p, true)) := by
  intro b
  have hwf : b.WF := run_wf symbol calls
  have hcross : b.Uncrossed := run_uncrossed symbol calls
  refine ⟨hcross, fun hself p q ↦ ?_, fun hnone p q ↦ ?_⟩
  · refine spread_of_uncrossed hwf fun bid hbid ask hask ↦ ?_
    by_contra hle
    obtain ⟨hsame, hne⟩ := hcross bid hbid ask hask (not_lt.mp hle)
    exact hle (hself bid hbid ask hask hne hsame)
  · refine spread_of_uncrossed hwf fun bid hbid ask hask ↦ ?_
    by_contra hle
    obtain ⟨-, hne⟩ := hcross bid hbid ask hask (not_lt.mp hle)
    refine hne (run_forall_resting (P := fun ord ↦ ord.accountId = "") symbol
      (fun env ord hmem ↦ ?_) bid (OrderBook.mem_resting.mpr ⟨_, hbid⟩))
    rw [ord.resolve_eq env]
    exact hnone env ord hmem

/-- The exception is real: one account can cross itself, and then `spread` shows `0`. -/
example : (OrderBook.run "X" [.addOrder default ⟨"b1", "acc", .buy, .limit, 10, 5, 0⟩,
      .addOrder default ⟨"a1", "acc", .sell, .limit, 8, 3, 0⟩] : OrderBook ℤ).spread
    = (0, true) := by decide

end BenchmarkPlatform
