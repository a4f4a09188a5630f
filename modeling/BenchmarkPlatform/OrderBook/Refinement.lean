import BenchmarkPlatform.Lib.StableSort
import BenchmarkPlatform.OrderBook.Levels
import BenchmarkPlatform.OrderBook.Reference

/-!
# `OrderBook` refines the naive book

The simulation relation says that each side of the book, in priority order, is the stable sort by
price of the naive book's orders of that side. A sweep of the sorted side then trades with the same
makers as the naive search for the best eligible order, and the relation survives every call.
-/

namespace BenchmarkPlatform

open Lib

variable {τ : Type}

/-! ## The simulation relation -/

def Node.toResting (n : Node) : Resting :=
  ⟨n.order.id, n.order.accountId, n.order.side, n.order.price, n.order.quantity⟩

/-- How late a side serves an order: the badness of its price for the takers on the other side. -/
def Side.rank (s : Side) (m : Resting) : ℤ := NaiveBook.badness s.opposite m.price

/-- The naive orders of one side, in order of acceptance. -/
def NaiveBook.ofSide (n : NaiveBook) (s : Side) : NaiveBook := n.filter fun m ↦ m.side = s

theorem Side.before_iff_rank_lt (s : Side) (m m' : Resting) :
    s.before m.price m'.price ↔ s.rank m < s.rank m' := by
  cases s with
  | buy => exact neg_lt_neg_iff.symm
  | sell => exact Iff.rfl

theorem Side.rank_eq_iff (s : Side) (m m' : Resting) :
    s.rank m = s.rank m' ↔ m.price = m'.price := by
  cases s with
  | buy => exact neg_inj
  | sell => exact Iff.rfl

/-- The naive book and one sorted side of it. -/
abbrev SortedSide (s : Side) (n : NaiveBook) (l : List Resting) : Prop :=
  StableSort s.rank (n.ofSide s) l

section

variable [AddGroupWithOne τ]

/-- The book holds the orders of the naive book, sorted. -/
structure Refines (b : OrderBook τ) (n : NaiveBook) : Prop where
  wf : b.WF
  nodup : (n.map Resting.id).Nodup
  sides : ∀ s, SortedSide s n ((b.nodes s).map Node.toResting)

/-- A well-formed side is sorted. -/
theorem OrderBook.WF.sorted_nodes {b : OrderBook τ} (h : b.WF) (s : Side) :
    ((b.nodes s).map Node.toResting).Pairwise fun m m' ↦ s.rank m ≤ s.rank m' := by
  rw [List.pairwise_map, OrderBook.nodes, flat, List.pairwise_flatMap]
  constructor
  · intro e he
    refine List.pairwise_of_forall_mem_list fun n hn n' hn' ↦ le_of_eq ?_
    rw [Side.rank_eq_iff]
    exact (h.price_eq he n hn).trans (h.price_eq he n' hn').symm
  · refine (b.sorted_side s).imp_of_mem fun {e e'} he he' hlt n hn n' hn' ↦ le_of_lt ?_
    rw [← Side.before_iff_rank_lt]
    have hprice : n.order.price = e.1 := h.price_eq he n hn
    have hprice' : n'.order.price = e'.1 := h.price_eq he' n' hn'
    simpa [Node.toResting, hprice, hprice'] using hlt

theorem Refines.mem_iff {b : OrderBook τ} {n : NaiveBook} (h : Refines b n) {m : Resting} :
    m ∈ n ↔ m ∈ b.resting.map Node.toResting := by
  have hside : ∀ s, m ∈ (b.nodes s).map Node.toResting ↔ m ∈ n ∧ m.side = s := by
    intro s
    rw [(h.sides s).perm.mem_iff, NaiveBook.ofSide, List.mem_filter, decide_eq_true_eq]
  rw [OrderBook.resting, List.map_append, List.mem_append, hside, hside]
  cases m.side <;> simp

theorem Refines.mem_ids_iff {b : OrderBook τ} {n : NaiveBook} (h : Refines b n) (id : String) :
    id ∈ n.map Resting.id ↔ id ∈ b.resting.map fun n ↦ n.order.id := by
  have hmap : (b.resting.map fun n ↦ n.order.id) = (b.resting.map Node.toResting).map
      Resting.id := by
    rw [List.map_map]
    rfl
  rw [hmap, List.mem_map, List.mem_map]
  exact ⟨fun ⟨m, hm, hid⟩ ↦ ⟨m, h.mem_iff.mp hm, hid⟩,
    fun ⟨m, hm, hid⟩ ↦ ⟨m, h.mem_iff.mpr hm, hid⟩⟩

end

/-! ## Matching -/

/-- On the side a taker trades with, the two notions of eligibility agree. -/
theorem eligible_toResting (taker : Order) {n : Node} (h : n.order.side = taker.side.opposite) :
    NaiveBook.eligible taker n.toResting = eligible taker n.order := by
  have hside : n.toResting.side = taker.side.opposite := h
  have haccount : (decide (taker.accountId = "") || decide (n.order.accountId ≠ taker.accountId))
      = !sameAccount taker n.order := by
    by_cases hempty : taker.accountId = ""
    · simp [sameAccount, hempty]
    · by_cases hsame : taker.accountId = n.order.accountId
      · simp [sameAccount, hsame]
      · simp [sameAccount, hempty, hsame, Ne.symm hsame]
  rw [NaiveBook.eligible, eligible, ← haccount, decide_eq_true hside, Bool.true_and]
  refine congrArg (· && _) (Bool.eq_iff_iff.mpr ?_)
  -- a price that is not too far is one that is good enough
  cases taker.type with
  | market => simp
  | limit =>
    cases taker.side <;> simp [Node.toResting, tooFar, tooExpensive, tooCheap] <;>
      exact decide_eq_true_iff

theorem bestEligible_eq {taker : Order} {n : NaiveBook} {l : List Resting}
    (h : SortedSide taker.side.opposite n l) :
    NaiveBook.bestEligible taker n = l.find? (NaiveBook.eligible taker) := by
  have hside : n.filter (NaiveBook.eligible taker)
      = (n.ofSide taker.side.opposite).filter (NaiveBook.eligible taker) := by
    rw [NaiveBook.ofSide, List.filter_filter]
    refine List.filter_congr fun m _ ↦ ?_
    rw [NaiveBook.eligible]
    cases decide (m.side = taker.side.opposite) <;> simp
  have hrank : (fun m ↦ NaiveBook.badness taker.side m.price) = taker.side.opposite.rank := by
    funext m
    rw [Side.rank, Side.opposite_opposite]
  rw [NaiveBook.bestEligible, hside, hrank, h.argmin_filter_eq_find?]

/-- The trades of a taker, from what a sweep took. -/
def tradesOf (takerId : String) (taken : List (Resting × ℤ)) : List Trade :=
  taken.map fun t ↦ ⟨t.1.id, takerId, t.1.price, t.2⟩

/-- What settling with an order of one side leaves of the naive book. -/
theorem ofSide_settle (n : NaiveBook) (s : Side) (k : String) (w : ℤ) :
    NaiveBook.ofSide (settle k w n) s = settle k w (n.ofSide s) :=
  filter_settle (fun _ _ ↦ rfl) k w

/-- **The naive search is a sweep** of the sorted opposite side; the taker's own side is not
touched. -/
theorem naive_matchTaker_eq (taker : Order) (q : ℤ) (n : NaiveBook) {l : List Resting}
    (hnd : (n.map Resting.id).Nodup) (h : SortedSide taker.side.opposite n l) :
    ∃ n', NaiveBook.matchTaker taker q n
        = (tradesOf taker.id (sweep (NaiveBook.eligible taker) q l).taken,
            (sweep (NaiveBook.eligible taker) q l).left, n') ∧
      (n'.map Resting.id).Nodup ∧
      SortedSide taker.side.opposite n' (sweep (NaiveBook.eligible taker) q l).kept ∧
      n'.ofSide taker.side = n.ofSide taker.side := by
  induction q, n using NaiveBook.matchTaker.induct taker generalizing l with
  -- no eligible order: nothing is swept
  | case1 q n hq hbest =>
    rw [NaiveBook.matchTaker, if_pos hq]
    rw [bestEligible_eq h] at hbest
    rw [sweep_eq_of_find?_eq_none hbest]
    refine ⟨n, ?_, hnd, h, rfl⟩
    split
    · rfl
    · rename_i m hm
      rw [bestEligible_eq h, hbest] at hm
      simp at hm
  | case2 q n hq m hbest w =>
    rename_i ih
    have hfind := hbest
    rw [bestEligible_eq h] at hfind
    have hl : (l.map Resting.id).Nodup :=
      (h.perm.map _).nodup_iff.mpr (hnd.sublist (List.filter_sublist.map _))
    have hm := List.mem_filter.mp (h.perm.mem_iff.mp (List.mem_of_find?_eq_some hfind))
    -- the best order is settled on both sides, and the search goes on with the rest
    have hsettled : SortedSide taker.side.opposite (settle m.id w n)
        (settle m.id w l) := by
      rw [SortedSide, ofSide_settle]
      exact h.settle (fun _ _ ↦ rfl) _ _
    obtain ⟨n', hrun, hnd', hsorted, hown⟩ := ih
      (hnd.sublist (map_settle_sublist (fun _ _ ↦ rfl) _ _)) hsettled
    rw [NaiveBook.matchTaker, if_pos hq, sweep_eq_of_find?_eq_some hl hq hfind]
    refine ⟨n', ?_, hnd', hsorted, ?_⟩
    · split
      · rename_i hnone
        rw [hbest] at hnone
        simp at hnone
      · rename_i m' hm'
        rw [hbest, Option.some_inj] at hm'
        subst hm'
        dsimp only
        rw [hrun]
        rfl
    · rw [hown, ofSide_settle]
      -- the maker is on the other side, and ids are unique
      refine settle_of_notMem fun hmem ↦ ?_
      obtain ⟨m', hm', hid⟩ := List.mem_map.mp hmem
      obtain ⟨hm', hside⟩ := List.mem_filter.mp hm'
      rw [List.inj_on_of_nodup_map hnd hm' hm.1 hid, of_decide_eq_true hm.2] at hside
      exact taker.side.opposite_ne (of_decide_eq_true hside)
  | case3 q n hq =>
    rw [NaiveBook.matchTaker, if_neg hq, sweep_of_nonpos (not_lt.mp hq)]
    exact ⟨n, rfl, hnd, h, rfl⟩

/-! ## One call -/

def Fill.toTrade (f : Fill) : Trade := ⟨f.makerOrderId, f.takerOrderId, f.price, f.quantity⟩

def CallResult.outcome : CallResult → NaiveBook.Outcome
  | .fills fs => .trades (fs.map Fill.toTrade)
  | .threw _ => .refused
  | .cancelled found => .cancelled found

variable [AddGroupWithOne τ] {b : OrderBook τ} {n : NaiveBook}

theorem Refines.matchTaker (h : Refines b n) (env : CallEnv) (ord : Order) (t : TimePoint) :
    ∃ n', n.matchTaker ord ord.quantity
        = ((b.matchTaker env { ord with timestamp := t }).2.fills.map Fill.toTrade,
            (b.swept { ord with timestamp := t }).left, n') ∧
      Refines (b.matchTaker env { ord with timestamp := t }).1 n' := by
  have spec := matchTaker_spec h.wf env { ord with timestamp := t }
  -- the concrete sweep, with addresses and levels forgotten
  have hsweep : sweep (NaiveBook.eligible ord) ord.quantity
      ((b.nodes ord.side.opposite).map Node.toResting)
        = ⟨(b.swept { ord with timestamp := t }).kept.map Node.toResting,
            (b.swept { ord with timestamp := t }).taken.map fun p ↦ (p.1.toResting, p.2),
            (b.swept { ord with timestamp := t }).left⟩ :=
    sweep_map (fun _ ↦ rfl) (fun _ _ ↦ rfl) fun m hm ↦
      eligible_toResting { ord with timestamp := t } (h.wf.of_mem_nodes hm).2.2.2
  obtain ⟨n', hrun, hnd, hopp, hown⟩ := naive_matchTaker_eq ord ord.quantity n h.nodup
    (h.sides ord.side.opposite)
  rw [hsweep] at hrun hopp
  refine ⟨n', ?_, matchTaker_wf h.wf _ _, hnd, fun s ↦ ?_⟩
  · rw [hrun, spec.state]
    refine congrArg (·, _, _) ?_
    rw [tradesOf, List.map_map]
    exact (map_fillsOf _ _ env ord.id (fun _ _ _ ↦ rfl) 0 _).symm
  · by_cases hs : s = ord.side
    · subst hs
      rw [SortedSide, spec.nodes_own, hown]
      exact h.sides _
    · obtain rfl := Side.eq_opposite_of_ne hs
      rw [spec.opposite]
      exact hopp

theorem Refines.rest (h : Refines b n) {ord : Order} (htype : ord.type = .limit)
    (hquantity : 0 < ord.quantity) (hprice : 0 < ord.price) (hnew : b.orders.lookup ord.id = none) :
    Refines (b.rest ord) (n ++ [Node.toResting ⟨b.nextNode, ord⟩]) := by
  have hwf := rest_wf h.wf htype hquantity hprice hnew
  have spec := rest_spec b ord
  refine ⟨hwf, ?_, fun s ↦ ?_⟩
  · have hid : ord.id ∉ n.map Resting.id := by
      rw [h.mem_ids_iff, ← h.wf.lookup_isSome_iff, hnew]
      simp
    rw [List.map_append, List.nodup_append]
    refine ⟨h.nodup, by simp, fun id hid' id' heq ↦ ?_⟩
    rintro rfl
    rw [List.mem_singleton.mp heq] at hid'
    exact hid hid'
  · have hside : NaiveBook.ofSide (n ++ [Node.toResting ⟨b.nextNode, ord⟩]) s
        = n.ofSide s ++ if ord.side = s then [Node.toResting ⟨b.nextNode, ord⟩] else [] := by
      rw [NaiveBook.ofSide, List.filter_append, NaiveBook.ofSide]
      congr 1
      by_cases hs : ord.side = s
      · rw [if_pos hs]
        exact List.filter_cons_of_pos (decide_eq_true hs)
      · rw [if_neg hs]
        exact List.filter_cons_of_neg fun h ↦ hs (of_decide_eq_true h)
    rw [SortedSide, hside]
    by_cases hs : ord.side = s
    · subst hs
      obtain ⟨l, m, r, hbefore, hafter, hne, -⟩ := spec.nodes_own
      have hsorted := hwf.sorted_nodes ord.side
      have hold := h.sides ord.side
      rw [hbefore, List.map_append] at hold
      rw [hafter, List.map_append, List.map_cons] at hsorted
      rw [if_pos rfl, hafter, List.map_append, List.map_cons]
      -- no order of its price stands behind the place of the new one
      refine hold.insert hsorted fun m' hm' ↦ ?_
      obtain ⟨x, hx, rfl⟩ := List.mem_map.mp hm'
      obtain ⟨e, he, hxe, hkey⟩ := hne x (List.mem_append_right l hx)
      rw [Ne, Side.rank_eq_iff]
      exact fun heq ↦ hkey ((h.wf.price_eq he x hxe).symm.trans heq)
    · obtain rfl := Side.eq_opposite_of_ne (Ne.symm hs)
      rw [if_neg hs, List.append_nil, spec.nodes_opposite]
      exact h.sides _

/-- An order with an id of its own is treated alike. -/
theorem Refines.addOrder (h : Refines b n) (env : CallEnv) {ord : Order} (hid : ord.id ≠ "") :
    (b.call (.addOrder env ord)).2.outcome = (n.addOrder ord).2 ∧
      Refines (b.call (.addOrder env ord)).1 (n.addOrder ord).1 := by
  obtain ⟨t, ht⟩ : ∃ t, ord.resolve env = { ord with timestamp := t } :=
    ⟨_, by rw [ord.resolve_eq env, Order.resolve_of_id_ne hid]⟩
  -- both refuse on the same three tests
  have hadmits : b.Admits (ord.resolve env) ↔ ¬(ord.quantity ≤ 0 ∨
      (ord.type = .limit ∧ ord.price ≤ 0) ∨ ord.id ∈ n.map Resting.id) := by
    have hnew : b.orders.lookup ord.id = none ↔ ord.id ∉ n.map Resting.id := by
      rw [h.mem_ids_iff, ← h.wf.lookup_isSome_iff, Option.not_isSome_iff_eq_none]
    rw [OrderBook.Admits, ht, hnew, not_or, not_or, not_le, not_and, not_le]
  rw [OrderBook.call, NaiveBook.addOrder]
  rcases b.addOrder_cases env ord with ⟨message, hthrow, hadm⟩ | ⟨hadm, hok⟩
  · rw [hadmits, not_not] at hadm
    rw [hthrow, if_pos hadm]
    exact ⟨rfl, h⟩
  · have hadm' := hadm
    rw [hadmits] at hadm'
    rw [hok, if_neg hadm']
    obtain ⟨n', hrun, hrefines⟩ := h.matchTaker env ord t
    have spec := matchTaker_spec h.wf env { ord with timestamp := t }
    rw [ht] at hadm ⊢
    rw [hrun]
    refine ⟨rfl, ?_⟩
    rw [OrderBook.accept]
    dsimp only
    rw [spec.taker]
    dsimp only
    by_cases hrest : 0 < (b.swept { ord with timestamp := t }).left ∧ ord.type = .limit
    · rw [if_pos hrest, if_pos hrest]
      refine hrefines.rest hrest.2 hrest.1 (hadm.2.1 hrest.2) ?_
      rw [spec.orders, lookup_eraseAll, hadm.2.2, ite_self]
    · rw [if_neg hrest, if_neg hrest]
      exact hrefines

theorem Refines.cancelOrder (h : Refines b n) (id : String) :
    (b.call (.cancelOrder id)).2.outcome = (n.cancelOrder id).2 ∧
      Refines (b.call (.cancelOrder id)).1 (n.cancelOrder id).1 := by
  rw [OrderBook.call, NaiveBook.cancelOrder]
  rcases cancelOrder_spec h.wf id with ⟨hnot, hnone⟩ | ⟨m, hm, rfl, htrue, spec⟩
  · rw [← h.mem_ids_iff] at hnot
    have hself : n.filter (fun m ↦ m.id ≠ id) = n :=
      List.filter_eq_self.mpr fun m hm ↦ decide_eq_true fun heq ↦
        hnot (heq ▸ List.mem_map_of_mem hm)
    rw [hnone, hself, decide_eq_false hnot]
    exact ⟨rfl, h⟩
  · have hmem : m.order.id ∈ n.map Resting.id :=
      (h.mem_ids_iff _).mpr (List.mem_map_of_mem hm)
    rw [htrue, decide_eq_true hmem]
    refine ⟨rfl, spec.wf h.wf, h.nodup.sublist (List.filter_sublist.map _), fun s ↦ ?_⟩
    have hside : NaiveBook.ofSide (n.filter fun m' ↦ m'.id ≠ m.order.id) s
        = (n.ofSide s).filter fun m' ↦ m'.id ≠ m.order.id := List.filter_comm _ _ _
    have hnodes : ((b.nodes s).filter fun m' ↦ m'.order.id ≠ m.order.id).map Node.toResting
        = ((b.nodes s).map Node.toResting).filter fun m' ↦ m'.id ≠ m.order.id := by
      rw [List.filter_map]
      rfl
    rw [SortedSide, hside, spec.nodes, hnodes]
    exact (h.sides s).filter _

theorem Refines.call (h : Refines b n) {c : Call}
    (hid : ∀ env ord, c = .addOrder env ord → ord.id ≠ "") :
    (b.call c).2.outcome = (n.call c).2 ∧ Refines (b.call c).1 (n.call c).1 := by
  cases c with
  | addOrder env ord => exact h.addOrder env (hid env ord rfl)
  | cancelOrder id => exact h.cancelOrder id

/-! ## What can be seen -/

theorem Refines.queue_eq (h : Refines b n) {s : Side} {e : ℤ × LevelData τ}
    (he : e ∈ b.side s) : n.queue s e.1 = e.2.orders.map Node.toResting := by
  have hrank : ∀ m : Resting, decide (m.price = e.1)
      = decide (s.rank m = s.rank ⟨"", "", s, e.1, 0⟩) := fun m ↦
    decide_eq_decide.mpr (s.rank_eq_iff m ⟨"", "", s, e.1, 0⟩).symm
  have hqueue : n.queue s e.1 = (n.ofSide s).filter fun m ↦ m.price = e.1 := by
    rw [NaiveBook.queue, NaiveBook.ofSide, List.filter_filter]
    exact List.filter_congr fun m _ ↦ by simp [and_comm]
  rw [hqueue, ← h.wf.filter_nodes he, List.filter_congr fun m _ ↦ hrank m, ← (h.sides s).classes,
    List.filter_congr fun m _ ↦ (hrank m).symm, List.filter_map]
  rfl

/-- The keys of a side are the naive prices. -/
theorem Refines.prices_eq (h : Refines b n) (s : Side) :
    n.prices s = (b.side s).map Prod.fst := by
  have hkeys : ((b.side s).map Prod.fst).Pairwise s.before := by
    rw [List.pairwise_map]
    exact b.sorted_side s
  have htotal : Std.Total fun p p' ↦ ¬s.before p' p := ⟨fun p p' ↦ by
    cases s <;> simp only [Side.before] <;> omega⟩
  have htrans : IsTrans ℤ fun p p' ↦ ¬s.before p' p := ⟨fun p p' p'' ↦ by
    cases s <;> simp only [Side.before] <;> omega⟩
  have hmem : ∀ p, p ∈ ((n.ofSide s).map Resting.price).dedup ↔ p ∈ (b.side s).map Prod.fst := by
    intro p
    rw [List.mem_dedup, ((h.sides s).perm.map Resting.price).mem_iff.symm, List.map_map,
      List.mem_map, List.mem_map]
    constructor
    · rintro ⟨m, hm, rfl⟩
      obtain ⟨e, he, hme⟩ := mem_flat.mp hm
      exact ⟨e, he, (h.wf.price_eq he m hme).symm⟩
    · rintro ⟨e, he, rfl⟩
      obtain ⟨m, hm⟩ := List.exists_mem_of_ne_nil _ (h.wf.levels s e he).nonempty
      exact ⟨m, mem_flat.mpr ⟨e, he, hm⟩, h.wf.price_eq he m hm⟩
  have hperm : (n.prices s).Perm ((b.side s).map Prod.fst) :=
    (List.perm_insertionSort _ _).trans
      ((List.perm_ext_iff_of_nodup (List.nodup_dedup _) hkeys.nodup).mpr hmem)
  have hprices : (n.prices s).Pairwise fun p p' ↦ ¬s.before p' p := List.pairwise_insertionSort _ _
  refine hperm.eq_of_pairwise (fun p p' _ _ hp hp' ↦ ?_) hprices
    (hkeys.imp fun {p p'} hlt hlt' ↦ ?_)
  · exact Std.Trichotomous.trichotomous p p' hp' hp
  · exact Std.Irrefl.irrefl p (IsTrans.trans _ _ _ hlt hlt')

theorem Refines.levels_eq (h : Refines b n) (s : Side) :
    snapshotLevels (b.side s) = n.levels τ s := by
  have hfull : (b.side s).filter (fun e ↦ !e.2.orders.isEmpty) = b.side s :=
    List.filter_eq_self.mpr fun e he ↦ by simpa using (h.wf.levels s e he).nonempty
  rw [snapshotLevels, hfull, NaiveBook.levels, h.prices_eq, List.map_map]
  refine List.map_congr_left fun e he ↦ ?_
  rw [Function.comp_apply, h.queue_eq he, (h.wf.levels s e he).total, List.map_map,
    List.length_map]
  rfl

theorem Refines.view_eq (h : Refines b n) : b.view = n.view τ := by
  have hbid : bestPrice (n.prices .buy) = b.bestBid := by
    rw [h.prices_eq, OrderBook.bestBid, OrderBook.side]
    cases b.bids.entries <;> rfl
  have hask : bestPrice (n.prices .sell) = b.bestAsk := by
    rw [h.prices_eq, OrderBook.bestAsk, OrderBook.side]
    cases b.asks.entries <;> rfl
  have hcount : b.orderCount = n.length := by
    have hids : b.orders.keys = (n.map Resting.id).toFinset := by
      ext id
      rw [Finmap.mem_keys, ← Finmap.lookup_isSome, h.wf.lookup_isSome_iff, ← h.mem_ids_iff,
        List.mem_toFinset]
    rw [OrderBook.orderCount, hids, List.toFinset_card_of_nodup h.nodup, List.length_map]
  rw [OrderBook.view, NaiveBook.view, hbid, hask, hcount, ← h.levels_eq, ← h.levels_eq]
  rfl

/-! ## Runs -/

/-- Serve a call and look at the book: its outcome and the view after it. -/
def OrderBook.observe (b : OrderBook τ) (c : Call) :
    OrderBook τ × NaiveBook.Outcome × BookView τ :=
  ((b.call c).1, (b.call c).2.outcome, (b.call c).1.view)

def NaiveBook.observe (τ : Type) [IntCast τ] (n : NaiveBook) (c : Call) :
    NaiveBook × NaiveBook.Outcome × BookView τ :=
  ((n.call c).1, (n.call c).2, (n.call c).1.view τ)

theorem refines_new (symbol : String) : Refines (OrderBook.new symbol : OrderBook τ) [] :=
  ⟨OrderBook.wf_new symbol, List.nodup_nil, fun s ↦ by cases s <;> exact StableSort.nil⟩

/-- **`OrderBook` is a price-time-priority book.** On every sequence of calls that give their
orders an id, it answers each call as the naive book does, and shows the same levels, best prices
and order count after it. -/
theorem run_refines_naive (symbol : String) (calls : List Call)
    (hids : ∀ env ord, Call.addOrder env ord ∈ calls → ord.id ≠ "") :
    (mealyRun OrderBook.observe (OrderBook.new symbol : OrderBook τ) calls).2
      = (mealyRun (NaiveBook.observe τ) [] calls).2 := by
  refine (mealyRun_simulation (R := Refines) (fun b n c hc h ↦ ?_) (refines_new symbol)).1
  obtain ⟨houtcome, hrefines⟩ := h.call fun env ord heq ↦ hids env ord (heq ▸ hc)
  refine ⟨?_, hrefines⟩
  rw [OrderBook.observe, NaiveBook.observe, houtcome, hrefines.view_eq]

/-- So the naive book's answers can be computed by running `OrderBook`: a bid is hit, an order under
a resting id and a worthless one are refused, the rest of the bid is cancelled. -/
theorem run_refines_naive_sample :
    (mealyRun (NaiveBook.observe ℤ) []
      [.addOrder default ⟨"b1", "", .buy, .limit, 10, 5, 0⟩,
        .addOrder default ⟨"a1", "", .sell, .limit, 9, 3, 0⟩,
        .addOrder default ⟨"b1", "", .buy, .limit, 8, 1, 0⟩,
        .addOrder default ⟨"m1", "", .buy, .market, 0, 0, 0⟩,
        .cancelOrder "b1", .cancelOrder "a1"]).2.map Prod.fst
      = [.trades [], .trades [⟨"b1", "a1", 10, 3⟩], .refused, .refused, .cancelled true,
          .cancelled false] := by
  have hids : ∀ env ord, Call.addOrder env ord ∈
      [.addOrder default ⟨"b1", "", .buy, .limit, 10, 5, 0⟩,
        .addOrder default ⟨"a1", "", .sell, .limit, 9, 3, 0⟩,
        .addOrder default ⟨"b1", "", .buy, .limit, 8, 1, 0⟩,
        .addOrder default ⟨"m1", "", .buy, .market, 0, 0, 0⟩,
        .cancelOrder "b1", .cancelOrder "a1"] → ord.id ≠ "" := by
    intro env ord hmem
    simp only [List.mem_cons, Call.addOrder.injEq, reduceCtorEq, List.not_mem_nil, or_false] at hmem
    rcases hmem with ⟨-, rfl⟩ | ⟨-, rfl⟩ | ⟨-, rfl⟩ | ⟨-, rfl⟩ <;> decide
  rw [← run_refines_naive (τ := ℤ) "X" _ hids]
  decide

end BenchmarkPlatform
