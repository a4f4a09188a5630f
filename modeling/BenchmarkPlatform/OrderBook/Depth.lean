import BenchmarkPlatform.Lib.Ladder
import BenchmarkPlatform.OrderBook.Ledger
import BenchmarkPlatform.OrderBook.Totals

/-!
# What the depth tells

A snapshot shows a price and a total for each level, and neither the orders behind a total nor who
placed them. For orders that carry no account, which is how the exchange's handler submits every
one, that is enough to foresee the book: self-trade prevention never applies, so what an order will
execute at each price and what the depth will be afterwards can be computed from the depth alone.

`Depth` is that abstract book, two ladders of prices with what rests there. The order book refines
it call by call (`record_depth`), whatever its totals are. A snapshot shows this ladder as long as
its 64-bit totals are exact, and they stay exact over every run whose calls fit (`history_depth`).
-/

namespace BenchmarkPlatform

open Lib

/-! ## The depth of a book -/

/-- Prices with what rests there, best first, for each side. -/
abbrev Depth := Side → List (ℤ × ℤ)

/-- The depth that a snapshot shows, its totals read as the `int64_t`s they are. -/
def OrderBookSnapshot.depth (snapshot : OrderBookSnapshot (BitVec 64)) : Depth
  | .buy => snapshot.bids.map fun level ↦ (level.price, level.quantity.toInt)
  | .sell => snapshot.asks.map fun level ↦ (level.price, level.quantity.toInt)

/-- What a client learns of a call besides its fills: the terms of an accepted order, or where a
cancelled one rested and how much of it. -/
inductive DepthEvent where
  | accepted (side : Side) (type : OrderType) (price quantity : ℤ)
  | cancelled (side : Side) (price quantity : ℤ)
  deriving DecidableEq, Repr

namespace Depth

/-- A rung that an order may trade on. -/
def reachable (side : Side) (type : OrderType) (limit price : ℤ) : Bool :=
  !(type = .limit && tooFar side price limit)

/-- An order takes from the opposite ladder and deposits what is left of it, if it has a limit, on
its own. The executions are per price. -/
def accept (d : Depth) (side : Side) (type : OrderType) (price quantity : ℤ) :
    Depth × List (ℤ × ℤ) :=
  let r := sweep (fun rung ↦ reachable side type price rung.1) quantity (d side.opposite)
  let taken := Function.update d side.opposite r.kept
  (if 0 < r.left ∧ type = .limit then
      Function.update taken side (deposit side.before price r.left (d side))
    else taken, r.taken.map fun t ↦ (t.1.1, t.2))

/-- What a client of the depth does with an event: the new depth and the executions it foresees. -/
def follow (d : Depth) : Option DepthEvent → Depth × List (ℤ × ℤ)
  | none => (d, [])
  | some (.accepted side type price quantity) => d.accept side type price quantity
  | some (.cancelled side price quantity) =>
    (Function.update d side (settle price quantity (d side)), [])

end Depth

/-- What a call tells a client that watches the depth. -/
def Event.published {τ : Type} (e : Event τ) : Option DepthEvent :=
  match e.call, e.result with
  | .addOrder _ ord, .fills _ => some (.accepted ord.side ord.type ord.price ord.quantity)
  | .cancelOrder orderId, .cancelled true =>
    (e.before.resting.find? fun n ↦ n.order.id = orderId).map fun n ↦
      .cancelled n.order.side n.order.price n.order.quantity
  | _, _ => none

/-- The executions of a call, in the order they were made, added up as long as the price stays. -/
def Event.executions {τ : Type} (e : Event τ) : List (ℤ × ℤ) :=
  mergeRuns (e.fills.map fun f ↦ (f.price, f.quantity))

/-- The depth of a book: each level with the sum of the quantities in it. -/
def OrderBook.depth {τ : Type} (b : OrderBook τ) : Depth := fun s ↦
  (b.side s).map (rung Prod.fst fun e ↦ e.2.orders)

variable {τ : Type}

theorem OrderBook.depth_sorted (b : OrderBook τ) (s : Side) :
    (b.depth s).Pairwise fun r r' ↦ s.before r.1 r'.1 := by
  rw [OrderBook.depth, List.pairwise_map]
  exact b.sorted_side s

theorem OrderBook.depth_congr {b b' : OrderBook τ} {s : Side} (hside : b'.side s = b.side s) :
    b'.depth s = b.depth s := by
  rw [OrderBook.depth, OrderBook.depth, hside]

variable [AddGroupWithOne τ] {b : OrderBook τ}

/-- A well-formed book shows all of its levels. -/
theorem OrderBook.WF.snapshotLevels_eq (h : b.WF) (s : Side) : snapshotLevels (b.side s)
    = (b.side s).map fun e ↦ ⟨e.1, e.2.totalQuantity, toInt32 e.2.orders.length⟩ := by
  have hfull : (b.side s).filter (fun e ↦ !e.2.orders.isEmpty) = b.side s :=
    List.filter_eq_self.mpr fun e he ↦ by simpa using (h.levels s e he).nonempty
  rw [snapshotLevels, hfull]

/-- While its totals are exact, a book shows its depth in every snapshot. -/
theorem OrderBook.WF.shown_depth {b : OrderBook64} (h : b.WF) (hexact : b.ExactTotals)
    (now : TimePoint) : (b.getSnapshot now).depth = b.depth := by
  have hside : ∀ s, (snapshotLevels (b.side s)).map
      (fun level ↦ (level.price, level.quantity.toInt)) = b.depth s := by
    intro s
    rw [h.snapshotLevels_eq, List.map_map]
    refine List.map_congr_left fun e he ↦ Prod.ext rfl ?_
    have hfits := h.exactTotals_iff.mp hexact s e.1
    have hpos := h.restingAt_pos he
    rw [Function.comp_apply, h.total_eq he, (toInt_intCast_eq_iff hpos.le).mpr hfits,
      OrderBook.restingAt, h.filter_nodes he]
    rfl
  funext s
  cases s
  · exact hside .buy
  · exact hside .sell

namespace OrderBook.WF

variable (h : b.WF)

include h

theorem depth_pos (s : Side) : ∀ r ∈ b.depth s, 0 < r.2 := by
  intro r hr
  obtain ⟨e, he, rfl⟩ := List.mem_map.mp hr
  exact rung_pos (h.levels s e he).nonempty fun n hn ↦ ((h.levels s e he).resting n hn).2.1

theorem weightOf_depth (s : Side) (price : ℤ) :
    weightOf price (b.depth s) = b.restingAt s price := by
  by_cases hmem : price ∈ (b.side s).map Prod.fst
  · obtain ⟨e, he, rfl⟩ := List.mem_map.mp hmem
    have hrung : rung Prod.fst (fun e : ℤ × LevelData τ ↦ e.2.orders) e ∈ b.depth s :=
      List.mem_map_of_mem he
    rw [OrderBook.restingAt, h.filter_nodes he]
    exact weightOf_of_mem (b.depth_sorted s) hrung
  · have hnone : (b.depth s).filter (fun r ↦ Weighted.key r = price) = [] := by
      apply List.filter_eq_nil_iff.mpr
      intro r hr heq
      obtain ⟨e, he, rfl⟩ := List.mem_map.mp hr
      exact hmem (List.mem_map.mpr ⟨e, he, of_decide_eq_true heq⟩)
    rw [h.restingAt_of_notMem hmem, weightOf, hnone]
    rfl

/-- The depth shows what rests at each price, and is determined by it. -/
theorem depth_eq_of_weights {s : Side} {l : List (ℤ × ℤ)}
    (hsorted : l.Pairwise fun r r' ↦ s.before r.1 r'.1) (hpos : ∀ r ∈ l, 0 < r.2)
    (hweights : ∀ price, b.restingAt s price = weightOf price l) : b.depth s = l := by
  have hasymm : Std.Asymm s.before := by
    constructor
    intro p p' hlt hgt
    exact Std.Irrefl.irrefl p (IsTrans.trans _ _ _ hlt hgt)
  refine ladder_ext (b.depth_sorted s) (h.depth_pos s) hsorted hpos fun price ↦ ?_
  rw [h.weightOf_depth, hweights]

end OrderBook.WF

/-! ## Matching without an account -/

section Anonymous

variable {taker : Order} (hanon : taker.accountId = "")

include hanon

theorem eligible_of_anonymous (maker : Order) :
    eligible taker maker = Depth.reachable taker.side taker.type taker.price maker.price := by
  rw [eligible, sameAccount, hanon, Depth.reachable]
  simp

variable (h : b.WF)

include h

/-- What an anonymous taker takes from the levels, and what is left of it. -/
theorem swept_depth (q : ℤ) (hq : taker.quantity = q) :
    let r := sweep (fun rung ↦ Depth.reachable taker.side taker.type taker.price rung.1) q
      (b.depth taker.side.opposite)
    (b.swept taker).left = r.left ∧
      mergeRuns ((b.swept taker).taken.map fun t ↦ (t.1.order.price, t.2))
        = r.taken.map fun t ↦ (t.1.1, t.2) := by
  rw [OrderBook.depth, OrderBook.swept, hq]
  refine sweep_groups (f := fun n : Node ↦ n.order.price) ?_ ?_ ?_ ?_ ?_ q
  · refine (b.sorted_side taker.side.opposite).imp ?_
    intro e e' hlt heq
    rw [heq] at hlt
    exact Std.Irrefl.irrefl e'.1 hlt
  · exact fun e he ↦ (h.levels _ e he).nonempty
  · exact fun e he n hn ↦ ((h.levels _ e he).resting n hn).2.1
  · exact fun e he ↦ h.price_eq he
  · intro e he n hn
    rw [eligible_of_anonymous hanon, h.price_eq he n hn]

/-- On the side it trades against, the book then shows the ladder with those amounts taken. -/
theorem accept_depth_opposite (env : CallEnv) (hadm : b.Admits taker) :
    (b.accept env taker).depth taker.side.opposite
      = (sweep (fun rung ↦ Depth.reachable taker.side taker.type taker.price rung.1)
          taker.quantity (b.depth taker.side.opposite)).kept := by
  apply (accept_wf h hadm).depth_eq_of_weights
  · have hkeys : ((sweep (fun rung ↦ Depth.reachable taker.side taker.type taker.price rung.1)
        taker.quantity (b.depth taker.side.opposite)).kept.map Prod.fst).Sublist
          ((b.depth taker.side.opposite).map Prod.fst) := map_kept_sublist fun _ _ ↦ rfl
    have hsorted := b.depth_sorted taker.side.opposite
    rw [← List.pairwise_map (f := Prod.fst)] at hsorted ⊢
    exact hsorted.sublist hkeys
  · exact weight_pos_of_mem_kept (h.depth_pos _)
  · intro price
    have hkept : (((b.swept taker).kept.filter fun n ↦ n.order.price = price).map
        fun n ↦ n.order.quantity).sum = _ :=
      sum_filter_kept (p := fun n : Node ↦ n.order.price = price) (fun _ _ ↦ rfl) _ _ _
    have htaken := congrArg (weightOf price) (swept_depth hanon h taker.quantity rfl).2
    rw [weightOf_merge, weightOf_map_taken (fun n : Node ↦ n.order.price),
      weightOf_map_taken (fun r : ℤ × ℤ ↦ r.1)] at htaken
    rw [weightOf_kept, OrderBook.restingAt, accept_nodes_opposite h, hkept, h.weightOf_depth]
    exact congrArg (fun w ↦ b.restingAt taker.side.opposite price - w) htaken

end Anonymous

/-- A remainder is deposited on the ladder of its side. -/
theorem rest_depth_own {b b' : OrderBook τ} {ord : Order} (spec : RestSpec b ord b') :
    b'.depth ord.side
      = deposit ord.side.before ord.price ord.quantity (b.depth ord.side) := by
  obtain ⟨l, r, v, hb, hb', hne⟩ := spec.own
  have hsorted := b'.sorted_side ord.side
  rw [hb', List.pairwise_append, List.pairwise_cons] at hsorted
  have hv : ((v.map (Prod.mk ord.price)).toList).map (rung Prod.fst fun e ↦ e.2.orders)
      = ((v.map fun level ↦ (level.orders.map fun n ↦ n.order.quantity).sum).map
          (Prod.mk ord.price)).toList := by
    cases v <;> rfl
  have hpush : rung Prod.fst (fun e : ℤ × LevelData τ ↦ e.2.orders)
      (ord.price, LevelData.push ⟨b.nextNode, ord⟩ v) = (ord.price,
        (v.map fun level ↦ (level.orders.map fun n ↦ n.order.quantity).sum).getD 0
          + ord.quantity) := by
    rw [rung, LevelData.orders_push, List.map_append, List.sum_append]
    cases v <;> simp [Weighted.weight]
  rw [OrderBook.depth, OrderBook.depth, hb, hb', List.map_append, List.map_append, List.map_append,
    List.map_cons, hv, hpush, deposit_split]
  · intro e he
    obtain ⟨e₀, he₀, rfl⟩ := List.mem_map.mp he
    refine ⟨fun heq ↦ hne e₀ (List.mem_append_left r he₀) heq.symm, fun hgt ↦ ?_⟩
    exact Std.Irrefl.irrefl e₀.1
      (IsTrans.trans _ _ _ (hsorted.2.2 e₀ he₀ _ List.mem_cons_self) hgt)
  · intro e he
    obtain ⟨e₀, he₀, rfl⟩ := List.mem_map.mp he
    exact hsorted.2.1.1 e₀ he₀

/-- What an order without an account does, the depth does. -/
theorem accept_depth {taker : Order} (hanon : taker.accountId = "") (h : b.WF) (env : CallEnv)
    (hadm : b.Admits taker) :
    b.depth.accept taker.side taker.type taker.price taker.quantity
      = ((b.accept env taker).depth,
        mergeRuns ((b.matchTaker env taker).2.fills.map fun f ↦ (f.price, f.quantity))) := by
  have spec := matchTaker_spec h env taker
  have hswept := swept_depth hanon h taker.quantity rfl
  have hopposite := accept_depth_opposite hanon h env hadm
  have hwf : (b.accept env taker).WF := accept_wf h hadm
  have hexecuted : (b.matchTaker env taker).2.fills.map (fun f ↦ (f.price, f.quantity))
      = (b.swept taker).taken.map fun t ↦ (t.1.order.price, t.2) := by
    rw [spec.fills]
    exact map_fillsOf _ (fun t ↦ (t.1.order.price, t.2)) env taker.id (fun _ _ _ ↦ rfl) 0 _
  rw [Depth.accept, hexecuted, hswept.2]
  refine Prod.ext (funext fun s ↦ ?_) rfl
  dsimp only
  rw [← hswept.1, ← hopposite]
  by_cases hs : s = taker.side
  · subst hs
    have hown := spec.own
    by_cases hrest : 0 < (b.swept taker).left ∧ taker.type = .limit
    · -- the book rests what is left, at the price of the taker
      have haccept : b.accept env taker
          = (b.matchTaker env taker).1.rest { taker with quantity := (b.swept taker).left } := by
        rw [OrderBook.accept, spec.taker]
        exact if_pos hrest
      rw [haccept] at hwf ⊢
      rw [if_pos hrest, Function.update_self]
      have hdeposit := rest_depth_own
        (rest_spec (b.matchTaker env taker).1 { taker with quantity := (b.swept taker).left })
      rw [OrderBook.depth_congr hown] at hdeposit
      exact hdeposit.symm
    · have haccept : b.accept env taker = (b.matchTaker env taker).1 := by
        rw [OrderBook.accept, spec.taker]
        exact if_neg hrest
      rw [if_neg hrest, Function.update_of_ne taker.side.opposite_ne.symm, haccept]
      exact (OrderBook.depth_congr hown).symm
  · obtain rfl := Side.eq_opposite_of_ne hs
    split_ifs
    · rw [Function.update_of_ne hs, Function.update_self]
    · rw [Function.update_self]

/-! ## One call -/

/-- A cancelled order leaves its price with what else rests there. -/
theorem CancelSpec.restingAt {b b' : OrderBook τ} {n : Node} (spec : CancelSpec b n b') (h : b.WF)
    (hn : n ∈ b.resting) (price : ℤ) : b'.restingAt n.order.side price
      = b.restingAt n.order.side price - if n.order.price = price then n.order.quantity else 0 := by
  have hnd := h.nodup_ids_side n.order.side
  obtain ⟨l, r, hsplit⟩ := List.append_of_mem (h.mem_nodes_side hn)
  rw [hsplit, List.map_append, List.map_cons, List.nodup_append, List.nodup_cons] at hnd
  have hother : ∀ m ∈ l ++ r, m.order.id ≠ n.order.id := by
    intro m hm heq
    rcases List.mem_append.mp hm with hm | hm
    · exact hnd.2.2 m.order.id (List.mem_map_of_mem hm) n.order.id List.mem_cons_self heq
    · exact hnd.2.1.1 (List.mem_map.mpr ⟨m, hm, heq⟩)
  have hfilter : ∀ l' : List Node, (∀ m ∈ l', m ∈ l ++ r) →
      l'.filter (fun m ↦ m.order.id ≠ n.order.id) = l' := fun l' hl' ↦
    List.filter_eq_self.mpr fun m hm ↦ decide_eq_true (hother m (hl' m hm))
  have hself : (n :: r).filter (fun m ↦ m.order.id ≠ n.order.id) = r := by
    rw [List.filter_cons_of_neg (by simp), hfilter r fun m ↦ List.mem_append_right l]
  have hnodes : b'.nodes n.order.side = l ++ r := by
    rw [spec.nodes, hsplit, List.filter_append, hself, hfilter l fun m ↦ List.mem_append_left r]
  rw [OrderBook.restingAt, OrderBook.restingAt, hnodes, hsplit, List.filter_append,
    List.filter_append, List.map_append, List.map_append, List.sum_append, List.sum_append,
    List.filter_cons]
  split_ifs with hat hprice hprice
  · rw [List.map_cons, List.sum_cons]
    ring
  · exact absurd (of_decide_eq_true hat) hprice
  · exact absurd (decide_eq_true hprice) hat
  · ring

theorem cancel_depth {b' : OrderBook τ} {n : Node} (spec : CancelSpec b n b') (h : b.WF)
    (h' : b'.WF) (hn : n ∈ b.resting) : b'.depth
      = Function.update b.depth n.order.side
          (settle n.order.price n.order.quantity (b.depth n.order.side)) := by
  have hnodes : n ∈ b.nodes n.order.side := h.mem_nodes_side hn
  funext s
  by_cases hs : s = n.order.side
  · subst hs
    have hkey : ∀ r w, Weighted.key (Weighted.withWeight r w : ℤ × ℤ) = Weighted.key r :=
      Weighted.key_withWeight
    have hkeys : ((settle n.order.price n.order.quantity (b.depth n.order.side)).map
        Prod.fst).Sublist ((b.depth n.order.side).map Prod.fst) := map_settle_sublist hkey _ _
    have hbefore := b.depth_sorted n.order.side
    have hsorted : (settle n.order.price n.order.quantity (b.depth n.order.side)).Pairwise
        fun r r' ↦ n.order.side.before r.1 r'.1 := by
      rw [← List.pairwise_map (f := Prod.fst)] at hbefore ⊢
      exact hbefore.sublist hkeys
    have hnd : ((b.depth n.order.side).map Weighted.key).Nodup := by
      refine (List.pairwise_map.mpr (hbefore.imp ?_))
      intro r r' hlt heq
      rw [show r.1 = r'.1 from heq] at hlt
      exact Std.Irrefl.irrefl r'.1 hlt
    have hmem : n.order.price ∈ (b.depth n.order.side).map Weighted.key := by
      obtain ⟨e, he, hne⟩ := mem_flat.mp hnodes
      rw [OrderBook.depth, h.price_eq he n hne]
      exact List.mem_map_of_mem (List.mem_map_of_mem he)
    have hweights : ∀ price, b'.restingAt n.order.side price = weightOf price
        (settle n.order.price n.order.quantity (b.depth n.order.side)) := by
      intro price
      rw [spec.restingAt h hn, weightOf_settle hnd hmem, h.weightOf_depth]
    rw [Function.update_self]
    refine h'.depth_eq_of_weights hsorted (fun r hr ↦ ?_) hweights
    -- a rung that stays is not empty, and it shows what rests there
    have hnonneg := h'.restingAt_nonneg n.order.side r.1
    rw [hweights, weightOf_of_mem hsorted hr] at hnonneg
    exact lt_of_le_of_ne hnonneg (ne_zero_of_mem_settle (h.depth_pos _) r hr).symm
  · rw [Function.update_of_ne hs]
    obtain rfl := Side.eq_opposite_of_ne hs
    have hside := h'.side_ext h ((spec.nodes n.order.side.opposite).trans (h.filter_opposite_eq hn))
    exact OrderBook.depth_congr hside

/-- **The depth foresees a call.** -/
theorem record_depth (h : b.WF) (c : Call)
    (hanon : ∀ env ord, c = .addOrder env ord → ord.accountId = "") :
    b.depth.follow (b.record c).2.published
      = ((b.record c).1.depth, (b.record c).2.executions) := by
  have hwf := call_wf h c
  cases c with
  | addOrder env ord =>
    rw [OrderBook.call] at hwf
    rw [OrderBook.record, OrderBook.call]
    rcases b.addOrder_cases env ord with ⟨message, hthrow, -⟩ | ⟨hadm, hok⟩
    · rw [hthrow]
      rfl
    · have hres := ord.resolve_eq env
      have hacc : (ord.resolve env).accountId = "" := by
        rw [hres]
        exact hanon env ord rfl
      have hterms : b.depth.accept ord.side ord.type ord.price ord.quantity
          = b.depth.accept (ord.resolve env).side (ord.resolve env).type (ord.resolve env).price
              (ord.resolve env).quantity := by rw [hres]
      rw [hok]
      exact hterms.trans (accept_depth hacc h env hadm)
  | cancelOrder id =>
    rw [OrderBook.call] at hwf
    rw [OrderBook.record, OrderBook.call]
    rcases cancelOrder_spec h id with ⟨-, hnone⟩ | ⟨n, hn, hid, hfound, spec⟩
    · rw [hnone]
      rfl
    · have hfind : b.resting.find? (fun m ↦ m.order.id = id) = some n := by
        have hsome : (b.resting.find? fun m ↦ m.order.id = id).isSome :=
          List.find?_isSome.mpr ⟨n, hn, by simpa using hid⟩
        obtain ⟨m, hm⟩ := Option.isSome_iff_exists.mp hsome
        have hmid : m.order.id = id := by simpa using List.find?_some hm
        rw [hm, h.eq_of_id_eq (List.mem_of_find?_eq_some hm) hn (hmid.trans hid.symm)]
      rw [hfound]
      simp only [Event.published, hfind, Option.map_some, Depth.follow]
      exact Prod.ext (cancel_depth spec h hwf hn).symm rfl

/-! ## Runs -/

/-- A client of the depth as a machine: it shows its depth and the executions it foresaw. -/
def Depth.watch (d : Depth) (event : Option DepthEvent) : Depth × Depth × List (ℤ × ℤ) :=
  ((d.follow event).1, d.follow event)

theorem mealyRun_watch (h : b.WF) {calls : List Call}
    (hanon : ∀ env ord, Call.addOrder env ord ∈ calls → ord.accountId = "") :
    (mealyRun Depth.watch b.depth ((mealyRun OrderBook.record b calls).2.map Event.published)).2
      = (mealyRun OrderBook.record b calls).2.map fun e ↦ (e.after.depth, e.executions) := by
  induction calls generalizing b with
  | nil => rfl
  | cons c calls ih =>
    have hstep := record_depth h c fun env ord heq ↦ hanon env ord (heq ▸ List.mem_cons_self)
    have hrest := ih (b := (b.record c).1) (call_wf h c) fun env ord hmem ↦
      hanon env ord (List.mem_cons_of_mem c hmem)
    rw [mealyRun_cons, List.map_cons, List.map_cons, mealyRun_cons, Depth.watch, hstep, hrest]
    rfl

/-- Totals that are exact stay exact while calls fit. -/
theorem exactTotals_of_fits {b : OrderBook64} (h : b.WF) (hexact : b.ExactTotals)
    {calls : List Call}
    (hfits : ∀ e ∈ (mealyRun OrderBook.record b calls).2, e.call.FitsTotal e.before) :
    ∀ e ∈ (mealyRun OrderBook.record b calls).2, e.after.WF ∧ e.after.ExactTotals := by
  induction calls generalizing b with
  | nil => nofun
  | cons c calls ih =>
    rw [mealyRun_cons] at hfits ⊢
    have hfirst : c.FitsTotal b := hfits _ List.mem_cons_self
    have hwf : (b.record c).1.WF := call_wf h c
    have hexact' : (b.record c).1.ExactTotals := (call_exactTotals_iff h hexact c).mp hfirst
    intro e he
    rcases List.mem_cons.mp he with rfl | he
    · exact ⟨hwf, hexact'⟩
    · exact ih hwf hexact' (fun e he ↦ hfits e (List.mem_cons_of_mem _ he)) e he

/-- **Depth is enough.** When no order carries an account and no level total overflows, a client
that knows only the depth, and of each call only the terms of the order that was accepted or
cancelled, knows beforehand what the call executes at each price, in which order of prices, and the
depth that every later snapshot shows. -/
theorem history_depth (symbol : String) (calls : List Call) (now : TimePoint)
    (hanon : ∀ env ord, Call.addOrder env ord ∈ calls → ord.accountId = "")
    (hfits : ∀ e ∈ history (BitVec 64) symbol calls, e.call.FitsTotal e.before) :
    (mealyRun Depth.watch (fun _ ↦ []) ((history (BitVec 64) symbol calls).map
        Event.published)).2
      = (history (BitVec 64) symbol calls).map
          fun e ↦ ((e.after.getSnapshot now).depth, e.executions) := by
  have hwf : (OrderBook.new symbol : OrderBook64).WF := OrderBook.wf_new symbol
  have hnew : (OrderBook.new symbol : OrderBook64).depth = fun _ ↦ [] := by
    funext s
    cases s
    · rfl
    · rfl
  have hempty : (OrderBook.new symbol : OrderBook64).ExactTotals := by
    refine hwf.exactTotals_iff.mpr fun s price ↦ ?_
    cases s <;> exact (by decide : (0 : ℤ) < 2 ^ 63)
  have hshown := exactTotals_of_fits hwf hempty hfits
  rw [← hnew, history, mealyRun_watch hwf hanon]
  refine List.map_congr_left fun e he ↦ ?_
  rw [(hshown e he).1.shown_depth (hshown e he).2]

/-- Two asks, a buy order that takes one and part of the other, and a cancel. -/
def depthCalls : List Call :=
  [.addOrder default ⟨"a1", "", .sell, .limit, 10, 3, 1⟩,
    .addOrder default ⟨"a2", "", .sell, .limit, 11, 3, 1⟩,
    .addOrder default ⟨"b1", "", .buy, .limit, 11, 5, 1⟩, .cancelOrder "a2"]

theorem history_depth_twoAsks :
    (mealyRun Depth.watch (fun _ ↦ []) ((history (BitVec 64) "ACME" depthCalls).map
          Event.published)).2
        = (history (BitVec 64) "ACME" depthCalls).map
            (fun e ↦ ((e.after.getSnapshot 0).depth, e.executions)) ∧
      (history (BitVec 64) "ACME" depthCalls).map Event.executions
        = [[], [], [(10, 3), (11, 2)], []] := by
  refine ⟨history_depth "ACME" depthCalls 0 (fun env ord hmem ↦ ?_) fun e he ↦ ?_, by decide⟩
  · simp only [depthCalls, List.mem_cons, Call.addOrder.injEq, reduceCtorEq, List.not_mem_nil,
      or_false] at hmem
    rcases hmem with ⟨-, rfl⟩ | ⟨-, rfl⟩ | ⟨-, rfl⟩ <;> rfl
  · have hall : (history (BitVec 64) "ACME" depthCalls).all
        (fun e ↦ decide (e.call.FitsTotal e.before)) = true := by decide +kernel
    exact of_decide_eq_true (List.all_eq_true.mp hall e he)

end BenchmarkPlatform
