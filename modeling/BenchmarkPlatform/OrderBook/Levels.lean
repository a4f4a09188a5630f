import BenchmarkPlatform.OrderBook.Invariant

/-!
# Levels from resting orders

The levels of a well-formed book hold nothing that its resting orders do not: a level is the orders
of one price, and its total is their sum. So two well-formed books with the same resting orders are
the same book (`OrderBook.WF.ext`), and a statement about what an operation leaves can be proved on
the flat lists of orders, where matching is a sweep and cancelling a filter.

For that, the place a remainder takes has to be said on the flat lists too: behind every order of
its price or a better one, before every order of a worse one (`insertNode`).
-/

namespace BenchmarkPlatform

open Lib

variable {τ : Type}

@[ext] theorem OrderBook.ext_sides {b b' : OrderBook τ} (hside : ∀ s, b.side s = b'.side s)
    (hsymbol : b.symbol = b'.symbol) (horders : b.orders = b'.orders)
    (hnext : b.nextNode = b'.nextNode) : b = b' := by
  obtain ⟨symbol, bids, asks, orders, nextNode⟩ := b
  obtain ⟨symbol', bids', asks', orders', nextNode'⟩ := b'
  obtain rfl : symbol = symbol' := hsymbol
  obtain rfl : orders = orders' := horders
  obtain rfl : nextNode = nextNode' := hnext
  obtain rfl : bids = bids' := SortedMap.ext (hside .buy)
  obtain rfl : asks = asks' := SortedMap.ext (hside .sell)
  rfl

/-- What rests at a price, in exact arithmetic. -/
def OrderBook.restingAt (b : OrderBook τ) (s : Side) (price : ℤ) : ℤ :=
  (((b.nodes s).filter fun n ↦ n.order.price = price).map fun n ↦ n.order.quantity).sum

/-! ## A level is the orders of its price -/

/-- The orders of one price are those of its level. -/
theorem filter_flat {s : Side} {es : List (ℤ × LevelData τ)}
    (hsorted : es.Pairwise fun e e' ↦ s.before e.1 e'.1)
    (hprice : ∀ e ∈ es, ∀ n ∈ e.2.orders, n.order.price = e.1) {e : ℤ × LevelData τ}
    (he : e ∈ es) : (flat es).filter (fun m ↦ m.order.price = e.1) = e.2.orders := by
  obtain ⟨l, r, rfl⟩ := List.append_of_mem he
  rw [List.pairwise_append, List.pairwise_cons] at hsorted
  have hother : ∀ es' : List (ℤ × LevelData τ), (∀ e' ∈ es', e' ∈ l ++ e :: r ∧ e'.1 ≠ e.1) →
      (flat es').filter (fun m ↦ m.order.price = e.1) = [] := by
    intro es' hes'
    apply List.filter_eq_nil_iff.mpr
    intro m hm
    obtain ⟨e', he', hme'⟩ := mem_flat.mp hm
    rw [hprice e' (hes' e' he').1 m hme']
    simpa using (hes' e' he').2
  have hl : (flat l).filter (fun m ↦ m.order.price = e.1) = [] := by
    refine hother l fun e' he' ↦ ⟨List.mem_append_left _ he', fun heq ↦ ?_⟩
    have hlt := hsorted.2.2 e' he' e List.mem_cons_self
    rw [heq] at hlt
    exact Std.Irrefl.irrefl e.1 hlt
  have hr : (flat r).filter (fun m ↦ m.order.price = e.1) = [] := by
    refine hother r fun e' he' ↦
      ⟨List.mem_append_right _ (List.mem_cons_of_mem _ he'), fun heq ↦ ?_⟩
    have hlt := hsorted.2.1.1 e' he'
    rw [heq] at hlt
    exact Std.Irrefl.irrefl e.1 hlt
  have hself : e.2.orders.filter (fun m ↦ m.order.price = e.1) = e.2.orders :=
    List.filter_eq_self.mpr fun m hm ↦ decide_eq_true (hprice e he m hm)
  rw [flat_append, flat_cons, List.filter_append, List.filter_append, hl, hr, hself,
    List.nil_append, List.append_nil]

variable [AddGroupWithOne τ]

/-- At the price of a level, a side holds that level. -/
theorem OrderBook.WF.filter_nodes {b : OrderBook τ} (h : b.WF) {s : Side} {e : ℤ × LevelData τ}
    (he : e ∈ b.side s) : (b.nodes s).filter (fun m ↦ m.order.price = e.1) = e.2.orders :=
  filter_flat (b.sorted_side s) (fun _ he ↦ h.price_eq he) he

/-- At any other price, it holds nothing. -/
theorem OrderBook.WF.restingAt_of_notMem {b : OrderBook τ} (h : b.WF) {s : Side} {price : ℤ}
    (hnot : price ∉ (b.side s).map Prod.fst) : b.restingAt s price = 0 := by
  have hnone : (b.nodes s).filter (fun n ↦ n.order.price = price) = [] := by
    refine List.filter_eq_nil_iff.mpr fun n hn heq ↦ hnot ?_
    obtain ⟨e, he, hne⟩ := mem_flat.mp hn
    exact List.mem_map.mpr ⟨e, he, (h.price_eq he n hne).symm.trans (of_decide_eq_true heq)⟩
  rw [OrderBook.restingAt, hnone]
  rfl

/-- A level's cached total is what rests at its price, read in the arithmetic of the totals. -/
theorem OrderBook.WF.total_eq {b : OrderBook τ} (h : b.WF) {s : Side} {e : ℤ × LevelData τ}
    (he : e ∈ b.side s) : e.2.totalQuantity = (b.restingAt s e.1 : τ) := by
  rw [(h.levels s e he).total, OrderBook.restingAt, h.filter_nodes he]

theorem OrderBook.WF.restingAt_nonneg {b : OrderBook τ} (h : b.WF) (s : Side) (price : ℤ) :
    0 ≤ b.restingAt s price := by
  apply List.sum_nonneg
  intro w hw
  obtain ⟨n, hn, rfl⟩ := List.mem_map.mp hw
  exact (h.weight_pos n (List.mem_filter.mp hn).1).le

theorem OrderBook.WF.restingAt_pos {b : OrderBook τ} (h : b.WF) {s : Side} {e : ℤ × LevelData τ}
    (he : e ∈ b.side s) : 0 < b.restingAt s e.1 := by
  rw [OrderBook.restingAt, h.filter_nodes he]
  refine List.sum_pos _ (fun w hw ↦ ?_) fun hnil ↦ (h.levels s e he).nonempty (by simpa using hnil)
  obtain ⟨n, hn, rfl⟩ := List.mem_map.mp hw
  exact ((h.levels s e he).resting n hn).2.1

/-! ## Equal orders, equal books -/

/-- Well-formed levels are determined by the orders in them. -/
theorem levels_ext {s : Side} {es es' : List (ℤ × LevelData τ)}
    (hsorted : es.Pairwise fun e e' ↦ s.before e.1 e'.1) (hwf : ∀ e ∈ es, LevelWF s e)
    (hsorted' : es'.Pairwise fun e e' ↦ s.before e.1 e'.1) (hwf' : ∀ e ∈ es', LevelWF s e)
    (hflat : flat es = flat es') : es = es' := by
  have hprice : ∀ {es : List (ℤ × LevelData τ)}, (∀ e ∈ es, LevelWF s e) →
      ∀ e ∈ es, ∀ n ∈ e.2.orders, n.order.price = e.1 := fun hwf e he n hn ↦
    ((hwf e he).resting n hn).2.2.2.1
  induction es generalizing es' with
  | nil =>
    cases es' with
    | nil => rfl
    | cons e' es' =>
      rw [flat_nil, flat_cons] at hflat
      exact absurd (List.append_eq_nil_iff.mp hflat.symm).1 (hwf' e' List.mem_cons_self).nonempty
  | cons e es ih =>
    cases es' with
    | nil =>
      rw [flat_nil, flat_cons] at hflat
      exact absurd (List.append_eq_nil_iff.mp hflat).1 (hwf e List.mem_cons_self).nonempty
    | cons e' es' =>
      -- the first order of the side tells the price of the first level, hence the level
      have hfirst : e.1 = e'.1 := by
        obtain ⟨n, ns, hn⟩ := List.exists_cons_of_ne_nil (hwf e List.mem_cons_self).nonempty
        obtain ⟨n', ns', hn'⟩ := List.exists_cons_of_ne_nil (hwf' e' List.mem_cons_self).nonempty
        have heq : n = n' := by
          rw [flat_cons, flat_cons, hn, hn', List.cons_append, List.cons_append,
            List.cons.injEq] at hflat
          exact hflat.1
        have hpn := hprice hwf e List.mem_cons_self n (by rw [hn]; exact List.mem_cons_self)
        have hpn' := hprice hwf' e' List.mem_cons_self n' (by rw [hn']; exact List.mem_cons_self)
        rw [← hpn, ← hpn', heq]
      have horders : e.2.orders = e'.2.orders := by
        rw [← filter_flat hsorted (hprice hwf) List.mem_cons_self,
          ← filter_flat hsorted' (hprice hwf') List.mem_cons_self, hflat, hfirst]
      have hlevel : e = e' := by
        have htotal : e.2.totalQuantity = e'.2.totalQuantity := by
          rw [(hwf e List.mem_cons_self).total, (hwf' e' List.mem_cons_self).total, horders]
        obtain ⟨price, orders, total⟩ := e
        obtain ⟨price', orders', total'⟩ := e'
        simp_all
      subst hlevel
      rw [flat_cons, flat_cons, List.append_cancel_left_eq] at hflat
      rw [List.pairwise_cons] at hsorted hsorted'
      rw [ih hsorted.2 (fun e he ↦ hwf e (List.mem_cons_of_mem _ he)) hsorted'.2
        (fun e he ↦ hwf' e (List.mem_cons_of_mem _ he)) hflat]

theorem OrderBook.WF.side_ext {b b' : OrderBook τ} (h : b.WF) (h' : b'.WF) {s : Side}
    (hnodes : b.nodes s = b'.nodes s) : b.side s = b'.side s :=
  levels_ext (b.sorted_side s) (h.levels s) (b'.sorted_side s) (h'.levels s) hnodes

/-- **A well-formed book is its resting orders**, up to the symbol and the address counter. -/
theorem OrderBook.WF.ext {b b' : OrderBook τ} (h : b.WF) (h' : b'.WF)
    (hnodes : ∀ s, b.nodes s = b'.nodes s) (hsymbol : b.symbol = b'.symbol)
    (hnext : b.nextNode = b'.nextNode) : b = b' := by
  have hresting : b.resting = b'.resting := by
    rw [OrderBook.resting, OrderBook.resting, hnodes, hnodes]
  have horders : b.orders = b'.orders := by
    refine Finmap.ext_lookup fun id ↦ Option.ext fun loc ↦ ?_
    rw [h.index, h'.index, hresting]
  exact OrderBook.ext_sides (fun s ↦ h.side_ext h' (hnodes s)) hsymbol horders hnext

/-! ## Where a remainder goes -/

/-- A node in its place in price-time priority: behind all orders of its price or a better one. -/
def insertNode (node : Node) (l : List Node) : List Node :=
  l.filter (fun n ↦ ¬node.order.side.before node.order.price n.order.price)
    ++ node :: l.filter fun n ↦ node.order.side.before node.order.price n.order.price

/-- Leaving orders out beforehand or afterwards is the same. -/
theorem filter_insertNode {p : Node → Bool} {node : Node} (hp : p node = true) (l : List Node) :
    (insertNode node l).filter p = insertNode node (l.filter p) := by
  rw [insertNode, insertNode, List.filter_append, List.filter_cons_of_pos hp,
    List.filter_filter, List.filter_filter, List.filter_filter, List.filter_filter]
  simp only [Bool.and_comm]

/-- **A remainder goes behind its price.** -/
theorem RestSpec.nodes_own_eq {b b' : OrderBook τ} {ord : Order} (spec : RestSpec b ord b')
    (h : b.WF) : b'.nodes ord.side = insertNode ⟨b.nextNode, ord⟩ (b.nodes ord.side) := by
  obtain ⟨l, r, v, hes, hup, -⟩ := spec.own
  have hsorted := b'.sorted_side ord.side
  rw [hup, List.pairwise_append, List.pairwise_cons] at hsorted
  have hmem : ∀ e ∈ l ++ (v.map (Prod.mk ord.price)).toList ++ r,
      ∀ n ∈ e.2.orders, n.order.price = e.1 := fun e he ↦ h.price_eq (hes ▸ he)
  have hl : ∀ n ∈ flat l, ¬ord.side.before ord.price n.order.price := by
    intro n hn hlt
    obtain ⟨e, he, hne⟩ := mem_flat.mp hn
    rw [hmem e (List.mem_append_left _ (List.mem_append_left _ he)) n hne] at hlt
    have hbefore := hsorted.2.2 e he _ List.mem_cons_self
    exact Std.Irrefl.irrefl e.1 (IsTrans.trans _ _ _ hbefore hlt)
  have hv : ∀ n ∈ v.elim [] LevelData.orders, ¬ord.side.before ord.price n.order.price := by
    intro n hn
    cases v with
    | none => simp at hn
    | some level =>
      rw [hmem (ord.price, level) (by simp) n hn]
      exact Std.Irrefl.irrefl _
  have hr : ∀ n ∈ flat r, ord.side.before ord.price n.order.price := by
    intro n hn
    obtain ⟨e, he, hne⟩ := mem_flat.mp hn
    rw [hmem e (List.mem_append_right _ he) n hne]
    exact hsorted.2.1.1 e he
  have hnodes : b.nodes ord.side = flat l ++ v.elim [] LevelData.orders ++ flat r := by
    rw [OrderBook.nodes, hes, flat_append, flat_append, flat_toList]
  have hnodes' : b'.nodes ord.side
      = flat l ++ v.elim [] LevelData.orders ++ ⟨b.nextNode, ord⟩ :: flat r := by
    rw [OrderBook.nodes, hup, flat_append, flat_cons, LevelData.orders_push]
    simp
  have hfront : (flat l ++ v.elim [] LevelData.orders).filter
      (fun n ↦ ¬ord.side.before ord.price n.order.price)
        = flat l ++ v.elim [] LevelData.orders :=
    List.filter_eq_self.mpr fun n hn ↦ decide_eq_true
      ((List.mem_append.mp hn).elim (hl n) (hv n))
  have hback : (flat l ++ v.elim [] LevelData.orders).filter
      (fun n ↦ ord.side.before ord.price n.order.price) = [] :=
    List.filter_eq_nil_iff.mpr fun n hn hlt ↦
      (List.mem_append.mp hn).elim (hl n) (hv n) (of_decide_eq_true hlt)
  have hfront' : (flat r).filter (fun n ↦ ¬ord.side.before ord.price n.order.price) = [] :=
    List.filter_eq_nil_iff.mpr fun n hn hnot ↦ (of_decide_eq_true hnot) (hr n hn)
  have hback' : (flat r).filter (fun n ↦ ord.side.before ord.price n.order.price) = flat r :=
    List.filter_eq_self.mpr fun n hn ↦ decide_eq_true (hr n hn)
  rw [hnodes', hnodes, insertNode, List.filter_append, hfront, hfront', List.filter_append, hback,
    hback', List.append_nil, List.nil_append]

/-! ## What an accepted order leaves -/

theorem accept_nodes_opposite {b : OrderBook τ} (h : b.WF) (env : CallEnv) (ord : Order) :
    (b.accept env ord).nodes ord.side.opposite = (b.swept ord).kept := by
  have spec := matchTaker_spec h env ord
  rw [OrderBook.accept]
  split_ifs
  · have hrest := rest_spec (b.matchTaker env ord).1 (b.matchTaker env ord).2.taker
    have hside : (b.matchTaker env ord).2.taker.side = ord.side := by rw [spec.taker]
    rw [← hside, hrest.nodes_opposite, hside, spec.opposite]
  · exact spec.opposite

theorem accept_nodes_own {b : OrderBook τ} (h : b.WF) (env : CallEnv) (ord : Order) :
    (b.accept env ord).nodes ord.side = if 0 < (b.swept ord).left ∧ ord.type = .limit
      then insertNode ⟨b.nextNode, { ord with quantity := (b.swept ord).left }⟩ (b.nodes ord.side)
      else b.nodes ord.side := by
  have spec := matchTaker_spec h env ord
  rw [OrderBook.accept, spec.taker]
  dsimp only
  split_ifs
  · rw [(rest_spec _ { ord with quantity := (b.swept ord).left }).nodes_own_eq
      (matchTaker_wf h env ord), spec.nodes_own, spec.nextNode]
  · exact spec.nodes_own

theorem accept_symbol {b : OrderBook τ} (h : b.WF) (env : CallEnv) (ord : Order) :
    (b.accept env ord).symbol = b.symbol := by
  have spec := matchTaker_spec h env ord
  rw [OrderBook.accept]
  split_ifs
  · rw [(rest_spec _ _).symbol, spec.symbol]
  · exact spec.symbol

theorem accept_nextNode {b : OrderBook τ} (h : b.WF) (env : CallEnv) (ord : Order) :
    (b.accept env ord).nextNode
      = if 0 < (b.swept ord).left ∧ ord.type = .limit then b.nextNode + 1 else b.nextNode := by
  have spec := matchTaker_spec h env ord
  rw [OrderBook.accept, spec.taker]
  split_ifs
  · rw [(rest_spec _ _).nextNode, spec.nextNode]
  · exact spec.nextNode

/-- Under any other id the index only loses the orders that were emptied. -/
theorem accept_lookup_of_ne {b : OrderBook τ} (h : b.WF) (env : CallEnv) {ord : Order} {id : String}
    (hne : id ≠ ord.id) : (b.accept env ord).orders.lookup id
      = if id ∈ exhausted (b.swept ord).taken then none else b.orders.lookup id := by
  have spec := matchTaker_spec h env ord
  have hmatched : (b.matchTaker env ord).1.orders.lookup id
      = if id ∈ exhausted (b.swept ord).taken then none else b.orders.lookup id := by
    rw [spec.orders, lookup_eraseAll]
  rw [OrderBook.accept, spec.taker]
  dsimp only
  by_cases hrest : 0 < (b.swept ord).left ∧ ord.type = .limit
  · rw [if_pos hrest, (rest_spec _ _).orders, Finmap.lookup_insert_of_ne _ hne, hmatched]
  · rw [if_neg hrest, hmatched]

/-! ## What rests at a price -/

/-- What the opposite side has for a taker. -/
def OrderBook.available (b : OrderBook τ) (taker : Order) : ℤ :=
  (((b.nodes taker.side.opposite).filter fun n ↦ eligible taker n.order).map
    fun n ↦ n.order.quantity).sum

/-- A taker is served as far as the opposite side goes. -/
theorem OrderBook.WF.left_swept {b : OrderBook τ} (h : b.WF) {taker : Order}
    (hq : 0 ≤ taker.quantity) :
    (b.swept taker).left = max 0 (taker.quantity - b.available taker) :=
  left_eq_max_filter h.weight_pos hq

theorem RestSpec.restingAt_own {b b' : OrderBook τ} {ord : Order} (spec : RestSpec b ord b')
    (price : ℤ) : b'.restingAt ord.side price
      = b.restingAt ord.side price + if ord.price = price then ord.quantity else 0 := by
  obtain ⟨l, m, r, hb, hb', -, -⟩ := spec.nodes_own
  rw [OrderBook.restingAt, OrderBook.restingAt, hb, hb', List.filter_append,
    List.filter_append _ r, List.filter_cons]
  split_ifs with hat hprice hprice
  · simp only [List.map_append, List.map_cons, List.sum_append, List.sum_cons]
    omega
  · exact absurd (of_decide_eq_true hat) hprice
  · exact absurd (decide_eq_true hprice) hat
  · rw [add_zero]

/-- On its own side an accepted limit order adds its remainder to its price. -/
theorem accept_restingAt_own {b : OrderBook τ} (h : b.WF) (env : CallEnv) {ord : Order}
    (hq : 0 ≤ ord.quantity) (price : ℤ) : (b.accept env ord).restingAt ord.side price
      = b.restingAt ord.side price
        + if ord.type = .limit ∧ ord.price = price then (b.swept ord).left else 0 := by
  have spec := matchTaker_spec h env ord
  have hleft : 0 ≤ (b.swept ord).left := left_nonneg hq
  have hown : (b.matchTaker env ord).1.restingAt ord.side price = b.restingAt ord.side price := by
    rw [OrderBook.restingAt, spec.nodes_own, OrderBook.restingAt]
  rw [OrderBook.accept, spec.taker]
  dsimp only
  split_ifs with hrest hat hat
  · rw [(rest_spec _ { ord with quantity := (b.swept ord).left }).restingAt_own, hown,
      if_pos hat.2]
  · rw [(rest_spec _ { ord with quantity := (b.swept ord).left }).restingAt_own, hown,
      if_neg fun hprice ↦ hat ⟨hrest.2, hprice⟩]
  · rw [hown]
    have hnone : ¬0 < (b.swept ord).left := fun hpos ↦ hrest ⟨hpos, hat.1⟩
    omega
  · rw [hown, add_zero]

/-- On the opposite side, matching only takes. -/
theorem accept_restingAt_opposite_le {b : OrderBook τ} (h : b.WF) (env : CallEnv) (ord : Order)
    (price : ℤ) : (b.accept env ord).restingAt ord.side.opposite price
      ≤ b.restingAt ord.side.opposite price := by
  have hkept : (((b.swept ord).kept.filter fun n ↦ n.order.price = price).map
      fun n ↦ n.order.quantity).sum = _ :=
    sum_filter_kept (p := fun n : Node ↦ n.order.price = price) (fun _ _ ↦ rfl) _ _ _
  have htaken : 0 ≤ (((b.swept ord).taken.filter fun t ↦ decide (t.1.order.price = price)).map
      Prod.snd).sum := by
    refine List.sum_nonneg fun w hw ↦ ?_
    obtain ⟨t, ht, rfl⟩ := List.mem_map.mp hw
    exact (taken_bounds h.weight_pos t (List.mem_filter.mp ht).1).1.le
  rw [OrderBook.restingAt, accept_nodes_opposite h, hkept]
  exact sub_le_self _ htaken

theorem CancelSpec.restingAt_le {b b' : OrderBook τ} {n : Node} (spec : CancelSpec b n b')
    (h : b.WF) (s : Side) (price : ℤ) : b'.restingAt s price ≤ b.restingAt s price := by
  rw [OrderBook.restingAt, spec.nodes, OrderBook.restingAt]
  refine List.Sublist.sum_le_sum (((List.filter_sublist.filter _).map _)) fun w hw ↦ ?_
  obtain ⟨m, hm, rfl⟩ := List.mem_map.mp hw
  exact (h.weight_pos m (List.mem_filter.mp hm).1).le

end BenchmarkPlatform
