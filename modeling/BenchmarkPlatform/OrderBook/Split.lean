import BenchmarkPlatform.OrderBook.Levels

/-!
# Splitting an order

Submitting an order in two parts gives the same execution as submitting it whole. The second part
restarts the matching loops from the top of the book the first one left; on the flat side this is
the library's `kept_add`: a second sweep of what a first one left ends where a single sweep of both
demands does. The first part may already rest on the own side, which the second does not look at.
-/

namespace BenchmarkPlatform

open Lib

variable {τ : Type}

/-- What fills took from a maker at a price. -/
def filledAt (maker : String) (price : ℤ) (fills : List Fill) : ℤ :=
  ((fills.filter fun f ↦ f.makerOrderId = maker ∧ f.price = price).map Fill.quantity).sum

/-- An order for another quantity, under an id and a time of its own. -/
def Order.part (ord : Order) (id : String) (quantity : ℤ) (timestamp : TimePoint) : Order :=
  { ord with id := id, quantity := quantity, timestamp := timestamp }

theorem filledAt_fillsOf (env : CallEnv) (takerId : String) (i : ℕ) (maker : String) (price : ℤ)
    (t : List (Node × ℤ)) : filledAt maker price (fillsOf env takerId i t)
      = ((t.filter fun p ↦ p.1.order.id = maker ∧ p.1.order.price = price).map Prod.snd).sum := by
  induction t generalizing i with
  | nil => rfl
  | cons p t ih =>
    have hih := ih (i + 1)
    rw [filledAt] at hih
    rw [filledAt, fillsOf, List.filter_cons, List.filter_cons]
    by_cases hp : p.1.order.id = maker ∧ p.1.order.price = price
    · rw [if_pos (decide_eq_true hp), if_pos (decide_eq_true hp), List.map_cons, List.map_cons,
        List.sum_cons, List.sum_cons, hih]
    · rw [if_neg (by simpa using hp), if_neg (by simpa using hp), hih]

theorem filledAt_append (maker : String) (price : ℤ) (fs gs : List Fill) :
    filledAt maker price (fs ++ gs) = filledAt maker price fs + filledAt maker price gs := by
  simp [filledAt]

variable [AddGroupWithOne τ]

theorem Order.resolve_part (env : CallEnv) (ord : Order) (id : String) (quantity : ℤ)
    (t : TimePoint) : (ord.part id quantity t).resolve env
      = ord.part ((ord.part id quantity t).resolve env).id quantity
          ((ord.part id quantity t).resolve env).timestamp :=
  Order.resolve_eq env _

/-! ## The two executions -/

section TwoParts

variable {book : OrderBook τ} (h : book.WF) (ord : Order) (id id₁ id₂ : String)
  (t t₁ t₂ : TimePoint) (env env₁ env₂ : CallEnv) {a b : ℤ}

include h

/-- The second part sweeps what the first one kept, with the same makers eligible. -/
theorem swept_second : (book.accept env₁ (ord.part id₁ a t₁)).swept (ord.part id₂ b t₂)
    = sweep (fun n ↦ eligible ord n.order) b (book.swept (ord.part id₁ a t₁)).kept := by
  rw [← accept_nodes_opposite h env₁ (ord.part id₁ a t₁)]
  rfl

variable (ha : 0 < a) (hb : 0 < b)

include ha hb

theorem kept_split : (book.swept (ord.part id (a + b) t)).kept
    = ((book.accept env₁ (ord.part id₁ a t₁)).swept (ord.part id₂ b t₂)).kept := by
  rw [swept_second h]
  exact kept_add (fun _ _ _ ↦ rfl) (fun _ _ ↦ rfl) h.weight_pos ha.le hb.le

theorem left_split : (book.swept (ord.part id (a + b) t)).left
    = (book.swept (ord.part id₁ a t₁)).left
      + ((book.accept env₁ (ord.part id₁ a t₁)).swept (ord.part id₂ b t₂)).left := by
  rw [swept_second h]
  exact left_add (fun _ _ _ ↦ rfl) (fun _ _ ↦ rfl) h.weight_pos ha.le hb.le

theorem filledAt_split (hfirst : (book.accept env₁ (ord.part id₁ a t₁)).WF) (maker : String)
    (price : ℤ) : filledAt maker price (book.matchTaker env (ord.part id (a + b) t)).2.fills
      = filledAt maker price (book.matchTaker env₁ (ord.part id₁ a t₁)).2.fills
        + filledAt maker price ((book.accept env₁ (ord.part id₁ a t₁)).matchTaker env₂
            (ord.part id₂ b t₂)).2.fills := by
  rw [(matchTaker_spec h env _).fills, (matchTaker_spec h env₁ _).fills,
    (matchTaker_spec hfirst env₂ _).fills, filledAt_fillsOf, filledAt_fillsOf, filledAt_fillsOf,
    swept_second h]
  exact sum_filter_taken_add (p := fun n ↦ n.order.id = maker ∧ n.order.price = price)
    (fun _ _ ↦ rfl) (fun n ↦ eligible ord n.order) (fun _ _ _ ↦ rfl) (fun _ _ ↦ rfl) h.weight_pos
    ha.le hb.le

theorem side_opposite_split (hwhole : (book.accept env (ord.part id (a + b) t)).WF)
    (hfirst : (book.accept env₁ (ord.part id₁ a t₁)).WF)
    (hsecond : ((book.accept env₁ (ord.part id₁ a t₁)).accept env₂ (ord.part id₂ b t₂)).WF) :
    (book.accept env (ord.part id (a + b) t)).side ord.side.opposite
      = ((book.accept env₁ (ord.part id₁ a t₁)).accept env₂ (ord.part id₂ b t₂)).side
          ord.side.opposite := by
  refine hwhole.side_ext hsecond ?_
  have hkept := kept_split h ord id id₁ id₂ t t₁ t₂ env₁ ha hb
  exact (accept_nodes_opposite h env (ord.part id (a + b) t)).trans
    (hkept.trans (accept_nodes_opposite hfirst env₂ (ord.part id₂ b t₂)).symm)

theorem restingAt_split (hfirst : (book.accept env₁ (ord.part id₁ a t₁)).WF) (price : ℤ) :
    (book.accept env (ord.part id (a + b) t)).restingAt ord.side price
      = ((book.accept env₁ (ord.part id₁ a t₁)).accept env₂ (ord.part id₂ b t₂)).restingAt
          ord.side price := by
  have hsum : 0 ≤ a + b := by omega
  have hwhole : (book.accept env (ord.part id (a + b) t)).restingAt ord.side price
      = book.restingAt ord.side price + if ord.type = .limit ∧ ord.price = price
          then (book.swept (ord.part id (a + b) t)).left else 0 :=
    accept_restingAt_own h env hsum price
  have hone : (book.accept env₁ (ord.part id₁ a t₁)).restingAt ord.side price
      = book.restingAt ord.side price + if ord.type = .limit ∧ ord.price = price
          then (book.swept (ord.part id₁ a t₁)).left else 0 :=
    accept_restingAt_own h env₁ ha.le price
  have htwo : ((book.accept env₁ (ord.part id₁ a t₁)).accept env₂ (ord.part id₂ b t₂)).restingAt
        ord.side price
      = (book.accept env₁ (ord.part id₁ a t₁)).restingAt ord.side price
        + if ord.type = .limit ∧ ord.price = price
          then ((book.accept env₁ (ord.part id₁ a t₁)).swept (ord.part id₂ b t₂)).left else 0 :=
    accept_restingAt_own hfirst env₂ hb.le price
  rw [hwhole, htwo, hone, left_split h ord id id₁ id₂ t t₁ t₂ env₁ ha hb]
  split_ifs
  · rw [add_assoc]
  · rw [add_zero, add_zero]

end TwoParts

/-- **Splitting an order does not change its execution.** On every reachable book, an order for
`a + b` and two orders for `a` and then `b`, alike but for their ids and times, are all accepted;
they take the same from each maker at each price, and leave the same opposite levels and the same
quantity resting at the order's own price. -/
theorem split_same_execution (symbol : String) (calls : List Call) (ord : Order) {a b : ℤ}
    (ha : 0 < a) (hb : 0 < b) (hprice : ord.type = .limit → 0 < ord.price)
    (id id₁ id₂ : String) (t t₁ t₂ : TimePoint) (env env₁ env₂ : CallEnv)
    (hid : (OrderBook.run symbol calls : OrderBook τ).orders.lookup
      ((ord.part id (a + b) t).resolve env).id = none)
    (hid₁ : (OrderBook.run symbol calls : OrderBook τ).orders.lookup
      ((ord.part id₁ a t₁).resolve env₁).id = none)
    (hid₂ : (OrderBook.run symbol calls : OrderBook τ).orders.lookup
      ((ord.part id₂ b t₂).resolve env₂).id = none)
    (hdistinct : ((ord.part id₂ b t₂).resolve env₂).id ≠ ((ord.part id₁ a t₁).resolve env₁).id) :
    ∃ (fills fills₁ fills₂ : List Fill) (whole first second : OrderBook τ),
      (OrderBook.run symbol calls : OrderBook τ).addOrder env (ord.part id (a + b) t)
        = .ok (fills, whole) ∧
      (OrderBook.run symbol calls : OrderBook τ).addOrder env₁ (ord.part id₁ a t₁)
        = .ok (fills₁, first) ∧
      first.addOrder env₂ (ord.part id₂ b t₂) = .ok (fills₂, second) ∧
      (∀ maker price, filledAt maker price fills = filledAt maker price (fills₁ ++ fills₂)) ∧
      whole.side ord.side.opposite = second.side ord.side.opposite ∧
      whole.restingAt ord.side ord.price = second.restingAt ord.side ord.price := by
  have h : (OrderBook.run symbol calls : OrderBook τ).WF := run_wf symbol calls
  generalize (OrderBook.run symbol calls : OrderBook τ) = book at h hid hid₁ hid₂ ⊢
  -- the defaults `add_order` fills in do not matter
  have hwhole : book.Admits ((ord.part id (a + b) t).resolve env) := by
    rw [Order.resolve_part] at hid ⊢
    exact ⟨show 0 < a + b by omega, hprice, hid⟩
  have hfirst : book.Admits ((ord.part id₁ a t₁).resolve env₁) := by
    rw [Order.resolve_part] at hid₁ ⊢
    exact ⟨ha, hprice, hid₁⟩
  have hsecond : (book.accept env₁ ((ord.part id₁ a t₁).resolve env₁)).Admits
      ((ord.part id₂ b t₂).resolve env₂) := by
    have hnew := accept_lookup_of_ne h env₁ hdistinct
    rw [hid₂, ite_self] at hnew
    rw [Order.resolve_part env₂] at hnew ⊢
    exact ⟨hb, hprice, hnew⟩
  refine ⟨_, _, _, _, _, _, OrderBook.addOrder_of_admits hwhole,
    OrderBook.addOrder_of_admits hfirst, OrderBook.addOrder_of_admits hsecond, ?_⟩
  have hwf : (book.accept env ((ord.part id (a + b) t).resolve env)).WF := accept_wf h hwhole
  have hwf₁ : (book.accept env₁ ((ord.part id₁ a t₁).resolve env₁)).WF := accept_wf h hfirst
  have hwf₂ : ((book.accept env₁ ((ord.part id₁ a t₁).resolve env₁)).accept env₂
      ((ord.part id₂ b t₂).resolve env₂)).WF := accept_wf hwf₁ hsecond
  rw [Order.resolve_part] at hwf
  rw [Order.resolve_part env₁] at hwf₁ hwf₂
  rw [Order.resolve_part env₂] at hwf₂
  rw [Order.resolve_part env, Order.resolve_part env₁, Order.resolve_part env₂]
  refine ⟨fun maker price ↦ ?_, side_opposite_split h ord _ _ _ _ _ _ env env₁ env₂ ha hb hwf hwf₁
    hwf₂, restingAt_split h ord _ _ _ _ _ _ env env₁ env₂ ha hb hwf₁ ord.price⟩
  rw [filledAt_append]
  exact filledAt_split h ord _ _ _ _ _ _ env env₁ env₂ ha hb hwf₁ maker price

/-- Two sellers, and a buyer who reaches both. -/
def twoAsks : List Call :=
  [.addOrder default ⟨"a1", "ann", .sell, .limit, 10, 3, 1⟩,
    .addOrder default ⟨"a2", "abe", .sell, .limit, 11, 3, 1⟩]

def reachingBuy : Order := ⟨"", "bob", .buy, .limit, 11, 0, 1⟩

/-- Seven units at once, or two and then five: the first part stops inside the better ask. -/
theorem split_same_execution_twoAsks :
    ∃ (fills fills₁ fills₂ : List Fill) (whole first second : OrderBook ℤ),
      (OrderBook.run "ACME" twoAsks : OrderBook ℤ).addOrder default (reachingBuy.part "b" (2 + 5) 1)
        = .ok (fills, whole) ∧
      (OrderBook.run "ACME" twoAsks : OrderBook ℤ).addOrder default (reachingBuy.part "b1" 2 1)
        = .ok (fills₁, first) ∧
      first.addOrder default (reachingBuy.part "b2" 5 1) = .ok (fills₂, second) ∧
      (∀ maker price, filledAt maker price fills = filledAt maker price (fills₁ ++ fills₂)) ∧
      whole.side .sell = second.side .sell ∧ whole.restingAt .buy 11 = second.restingAt .buy 11 :=
  split_same_execution "ACME" twoAsks reachingBuy (by decide) (by decide) (by decide) "b" "b1" "b2"
    1 1 1 default default default (by decide) (by decide) (by decide) (by decide)

end BenchmarkPlatform
