import BenchmarkPlatform.OrderBook.Levels

/-!
# Cancels commute with orders they do not touch

Cancelling removes one order from the flat sides, wherever it is. An incoming order that takes
nothing from it trades and rests the same with that order in the book or without
(`swept_cancelled`), whether it is skipped for its account, lies behind the point where matching
stops, or rests on the incoming order's own side. What the two orders of events leave is then the
same list of resting orders on each side, hence the same book.
-/

namespace BenchmarkPlatform

open Lib

variable {τ : Type} [AddGroupWithOne τ]

/-! ## Matching without an order -/

section Untouched

variable {b c : OrderBook τ} {n : Node} (h : b.WF) (hcancel : CancelSpec b n c) {taker : Order}
  (huntouched : ∀ p ∈ (b.swept taker).taken, p.1.order.id ≠ n.order.id)

include hcancel huntouched

/-- Without an order it takes nothing from, a taker is served just the same. -/
theorem swept_cancelled : c.swept taker
    = ⟨(b.swept taker).kept.filter fun m ↦ m.order.id ≠ n.order.id, (b.swept taker).taken,
        (b.swept taker).left⟩ := by
  rw [OrderBook.swept, hcancel.nodes]
  exact sweep_filter (fun _ _ ↦ rfl) fun p hp ↦ by simpa using huntouched p hp

include h

theorem fills_cancelled (env : CallEnv) :
    (c.matchTaker env taker).2.fills = (b.matchTaker env taker).2.fills := by
  rw [(matchTaker_spec (hcancel.wf h) env taker).fills, (matchTaker_spec h env taker).fills,
    swept_cancelled hcancel huntouched]

/-- The sides after both, in either order of events. -/
theorem nodes_accept_cancelled (env : CallEnv) (hne : taker.id ≠ n.order.id) (s : Side) :
    (c.accept env taker).nodes s
      = ((b.accept env taker).nodes s).filter fun m ↦ m.order.id ≠ n.order.id := by
  have hwf := hcancel.wf h
  have hswept := swept_cancelled hcancel huntouched
  by_cases hs : s = taker.side
  · subst hs
    rw [accept_nodes_own hwf, accept_nodes_own h, hswept, hcancel.nodes, hcancel.nextNode]
    dsimp only
    split_ifs
    · rw [filter_insertNode (by simpa using hne)]
    · rfl
  · obtain rfl := Side.eq_opposite_of_ne hs
    rw [accept_nodes_opposite hwf, accept_nodes_opposite h, hswept]

omit hcancel in
/-- An order that is not touched still rests. -/
theorem lookup_accept_isSome (env : CallEnv) (hn : n ∈ b.resting) (hne : taker.id ≠ n.order.id) :
    ((b.accept env taker).orders.lookup n.order.id).isSome := by
  have hnot : n.order.id ∉ exhausted (b.swept taker).taken := by
    intro hmem
    obtain ⟨p, hp, hid⟩ := List.mem_map.mp hmem
    exact huntouched p (List.mem_filter.mp hp).1 hid
  rw [accept_lookup_of_ne h env hne.symm, if_neg hnot, h.lookup_isSome_iff]
  exact List.mem_map_of_mem hn

/-- **Both orders of events end in the same book.** -/
theorem cancel_accept (env : CallEnv) (hadm : b.Admits taker) (hn : n ∈ b.resting)
    (hne : taker.id ≠ n.order.id) :
    (b.accept env taker).cancelOrder n.order.id = (true, c.accept env taker) := by
  have hwf : (b.accept env taker).WF := accept_wf h hadm
  have hadm' : c.Admits taker := by
    refine ⟨hadm.1, hadm.2.1, ?_⟩
    rw [hcancel.orders, Finmap.lookup_erase_ne hne, hadm.2.2]
  rcases cancelOrder_spec hwf n.order.id with ⟨hnone, -⟩ | ⟨m, -, hid, htrue, hspec⟩
  · have hsome := lookup_accept_isSome h huntouched env hn hne
    exact absurd ((hwf.lookup_isSome_iff _).mp hsome) hnone
  · refine Prod.ext htrue ?_
    refine (hspec.wf hwf).ext (accept_wf (hcancel.wf h) hadm') (fun s ↦ ?_) ?_ ?_
    · rw [hspec.nodes, nodes_accept_cancelled h hcancel huntouched env hne, hid]
    · rw [hspec.symbol, accept_symbol h, accept_symbol (hcancel.wf h), hcancel.symbol]
    · rw [hspec.nextNode, accept_nextNode h, accept_nextNode (hcancel.wf h), hcancel.nextNode,
        swept_cancelled hcancel huntouched]

end Untouched

/-! ## Cancelling an order that just came to rest -/

theorem OrderBook.WF.later {b : OrderBook τ} (h : b.WF) {next : ℕ} (hnext : b.nextNode ≤ next) :
    OrderBook.WF { b with nextNode := next } :=
  ⟨h.levels, h.ids, h.addrs, h.index, fun n hn ↦ (h.fresh n hn).trans_le hnext⟩

/-- An id that is not resting is on no node. -/
theorem OrderBook.WF.filter_of_lookup_eq_none {b : OrderBook τ} (h : b.WF) {id : String}
    (hnew : b.orders.lookup id = none) (s : Side) :
    (b.nodes s).filter (fun n ↦ n.order.id ≠ id) = b.nodes s := by
  have hnot : id ∉ b.resting.map fun n ↦ n.order.id := by
    rw [← h.lookup_isSome_iff, hnew]
    simp
  refine List.filter_eq_self.mpr fun n hn ↦ decide_eq_true fun hid ↦ hnot ?_
  exact List.mem_map.mpr ⟨n, OrderBook.mem_resting.mpr ⟨s, hn⟩, hid⟩

/-- **A limit order that met nobody leaves no trace** once it is cancelled, but for the node address
it used. -/
theorem cancel_untraded {b : OrderBook τ} (h : b.WF) (env : CallEnv) {taker : Order}
    (hadm : b.Admits taker) (htype : taker.type = .limit) (hnone : (b.swept taker).taken = []) :
    (b.accept env taker).cancelOrder taker.id
      = (true, { b with nextNode := (b.accept env taker).nextNode }) := by
  have hwf : (b.accept env taker).WF := accept_wf h hadm
  have hswept : b.swept taker = ⟨b.nodes taker.side.opposite, [], taker.quantity⟩ :=
    sweep_of_taken_eq_nil hnone
  have hrests : 0 < (b.swept taker).left ∧ taker.type = .limit := by
    rw [hswept]
    exact ⟨hadm.1, htype⟩
  have haccept : b.accept env taker
      = (b.matchTaker env taker).1.rest { taker with quantity := (b.swept taker).left } := by
    rw [OrderBook.accept, (matchTaker_spec h env taker).taker, if_pos hrests]
  have hspec := rest_spec (b.matchTaker env taker).1
    { taker with quantity := (b.swept taker).left }
  rw [← haccept] at hspec
  have hfresh := h.filter_of_lookup_eq_none hadm.2.2
  have hnodes : ∀ s, ((b.accept env taker).nodes s).filter (fun n ↦ n.order.id ≠ taker.id)
      = b.nodes s := by
    intro s
    by_cases hs : s = taker.side
    · subst hs
      obtain ⟨l, m, r, hbefore, hafter, -, -⟩ := hspec.nodes_own
      dsimp only at hbefore hafter
      rw [(matchTaker_spec h env taker).nodes_own] at hbefore
      rw [hafter, ← hfresh, hbefore, List.filter_append, List.filter_append (l ++ m) r,
        List.filter_cons_of_neg (by simp)]
    · obtain rfl := Side.eq_opposite_of_ne hs
      rw [accept_nodes_opposite h, hswept, hfresh]
  have hnext : b.nextNode ≤ (b.accept env taker).nextNode := by
    rw [accept_nextNode h, if_pos hrests]
    exact Nat.le_succ _
  rcases cancelOrder_spec hwf taker.id with ⟨hnot, -⟩ | ⟨n, -, hid, htrue, hcancel⟩
  · refine absurd ((hwf.lookup_isSome_iff _).mp ?_) hnot
    rw [hspec.orders, Finmap.lookup_insert]
    rfl
  · refine Prod.ext htrue ((hcancel.wf hwf).ext (h.later hnext) (fun s ↦ ?_) ?_ hcancel.nextNode)
    · rw [hcancel.nodes, hid, hnodes]
      rfl
    · rw [hcancel.symbol, accept_symbol h]

/-! ## The commutation law -/

/-- **Cancels commute with orders they do not touch.** On every reachable book, a valid order with
an explicit fresh id is accepted. Any resting order that none of its fills names can be cancelled
before it or after it: both succeed, with the same fills and the same book at the end. And if it is
a limit order without fills, cancelling it right away restores the book. -/
theorem cancel_commutes (symbol : String) (calls : List Call) (env : CallEnv) (ord : Order)
    (hquantity : 0 < ord.quantity) (hprice : ord.type = .limit → 0 < ord.price)
    (hid : ord.id ≠ "")
    (hfresh : (OrderBook.run symbol calls : OrderBook τ).orders.lookup ord.id = none) :
    ∃ fills added,
      (OrderBook.run symbol calls : OrderBook τ).addOrder env ord = .ok (fills, added) ∧
      (∀ x, ((OrderBook.run symbol calls : OrderBook τ).orders.lookup x).isSome →
        (∀ f ∈ fills, f.makerOrderId ≠ x) →
          ∃ cancelled final, (OrderBook.run symbol calls).cancelOrder x = (true, cancelled) ∧
            cancelled.addOrder env ord = .ok (fills, final) ∧
            added.cancelOrder x = (true, final)) ∧
      (fills = [] → ord.type = .limit → added.cancelOrder ord.id
        = (true, { OrderBook.run symbol calls with nextNode := added.nextNode })) := by
  have h : (OrderBook.run symbol calls : OrderBook τ).WF := run_wf symbol calls
  generalize (OrderBook.run symbol calls : OrderBook τ) = b at h hfresh ⊢
  have hresolve : (ord.resolve env).id = ord.id := Order.resolve_of_id_ne hid
  have hadm : b.Admits (ord.resolve env) := by
    rw [OrderBook.Admits, hresolve, ord.resolve_eq env]
    exact ⟨hquantity, hprice, hfresh⟩
  have hmakers : (b.matchTaker env (ord.resolve env)).2.fills.map Fill.makerOrderId
      = (b.swept (ord.resolve env)).taken.map fun p ↦ p.1.order.id := by
    rw [(matchTaker_spec h env _).fills]
    exact map_fillsOf _ _ env _ (fun _ _ _ ↦ rfl) 0 _
  refine ⟨_, _, OrderBook.addOrder_of_admits hadm, fun x hx hnofill ↦ ?_, fun hnone htype ↦ ?_⟩
  · rcases cancelOrder_spec h x with ⟨hnot, -⟩ | ⟨n, hn, rfl, htrue, hcancel⟩
    · exact absurd ((h.lookup_isSome_iff x).mp hx) hnot
    · have huntouched : ∀ p ∈ (b.swept (ord.resolve env)).taken, p.1.order.id ≠ n.order.id := by
        intro p hp
        have hmem : p.1.order.id ∈ (b.matchTaker env (ord.resolve env)).2.fills.map
            Fill.makerOrderId := by
          rw [hmakers]
          exact List.mem_map.mpr ⟨p, hp, rfl⟩
        obtain ⟨f, hf, hfid⟩ := List.mem_map.mp hmem
        exact hfid ▸ hnofill f hf
      have hne : (ord.resolve env).id ≠ n.order.id := by
        rw [hresolve]
        rintro heq
        rw [← heq, hfresh] at hx
        simp at hx
      have hadm' : (b.cancelOrder n.order.id).2.Admits (ord.resolve env) := by
        refine ⟨hadm.1, hadm.2.1, ?_⟩
        rw [hcancel.orders, Finmap.lookup_erase_ne hne, hadm.2.2]
      refine ⟨(b.cancelOrder n.order.id).2, _, Prod.ext htrue rfl, ?_,
        cancel_accept h hcancel huntouched env hadm hn hne⟩
      rw [OrderBook.addOrder_of_admits hadm', fills_cancelled h hcancel huntouched]
  · rw [← hresolve]
    refine cancel_untraded h env hadm (by rw [ord.resolve_eq env]; exact htype) ?_
    have hnil : (b.swept (ord.resolve env)).taken.map (fun p ↦ p.1.order.id) = [] := by
      rw [← hmakers, hnone, List.map_nil]
    exact List.map_eq_nil_iff.mp hnil

/-- Two asks, of which a buyer only takes the better one. -/
def deepAsks : List Call :=
  [.addOrder default ⟨"a1", "ann", .sell, .limit, 10, 3, 1⟩,
    .addOrder default ⟨"a2", "abe", .sell, .limit, 11, 3, 1⟩]

def shallowBuy : Order := ⟨"b", "bob", .buy, .limit, 11, 2, 1⟩

/-- The deeper ask can be cancelled before or after. -/
theorem cancel_commutes_deepAsks : ∃ fills added cancelled final,
    (OrderBook.run "ACME" deepAsks : OrderBook ℤ).addOrder default shallowBuy
      = .ok (fills, added) ∧
    (OrderBook.run "ACME" deepAsks : OrderBook ℤ).cancelOrder "a2" = (true, cancelled) ∧
    cancelled.addOrder default shallowBuy = .ok (fills, final) ∧
    added.cancelOrder "a2" = (true, final) := by
  obtain ⟨fills, added, hok, hcommutes, -⟩ := cancel_commutes (τ := ℤ) "ACME" deepAsks default
    shallowBuy (by decide) (by decide) (by decide) (by decide)
  have hfills : ∀ f ∈ ((OrderBook.run "ACME" deepAsks : OrderBook ℤ).matchTaker default
      (shallowBuy.resolve default)).2.fills, f.makerOrderId ≠ "a2" := by decide
  have hadm : (OrderBook.run "ACME" deepAsks : OrderBook ℤ).Admits (shallowBuy.resolve default) :=
    ⟨by decide, by decide, by decide⟩
  obtain ⟨rfl, -⟩ : fills = _ ∧ added = _ := by
    rw [OrderBook.addOrder_of_admits hadm] at hok
    simpa [eq_comm] using hok
  obtain ⟨cancelled, final, hcancel, hadd, hafter⟩ := hcommutes "a2" (by decide) hfills
  exact ⟨_, added, cancelled, final, hok, hcancel, hadd, hafter⟩

end BenchmarkPlatform
