import BenchmarkPlatform.Lib.Mealy
import BenchmarkPlatform.OrderBook.Matching

/-!
# The representation invariant

`OrderBook` keeps the same orders three times: in the level lists, in the cached level totals and
in the index of list positions. `OrderBook.WF` says that the three agree, and this module proves
that the four places that update them by hand (resting an order, the two matching loops, cancelling)
each restore it.

Each operation first gets one lemma that says all it does to the two sides and the index, given the
invariant: `matchTaker_spec`, `rest_spec` and `cancelOrder_spec`. Preservation is read off these,
and so is everything the later modules say about the book.
-/

namespace BenchmarkPlatform

open Lib

variable {τ : Type}

/-! ## Reading a book -/

/-- The levels of a side, best first. -/
def OrderBook.side (b : OrderBook τ) : Side → List (ℤ × LevelData τ)
  | .buy => b.bids.entries
  | .sell => b.asks.entries

/-- The resting orders of a side, in priority order. -/
def OrderBook.nodes (b : OrderBook τ) (s : Side) : List Node := flat (b.side s)

/-- All resting orders. -/
def OrderBook.resting (b : OrderBook τ) : List Node := b.nodes .buy ++ b.nodes .sell

/-- Where the index has to point for a node. -/
def Node.location (n : Node) : OrderLocation := ⟨n.order.side, n.order.price, n.addr⟩

theorem OrderBook.sorted_side (b : OrderBook τ) (s : Side) :
    (b.side s).Pairwise fun e e' ↦ s.before e.1 e'.1 := by
  cases s with
  | buy => exact b.bids.sorted
  | sell => exact b.asks.sorted

theorem OrderBook.resting_perm (b : OrderBook τ) (s : Side) :
    b.resting.Perm (b.nodes s ++ b.nodes s.opposite) := by
  cases s with
  | buy => exact List.Perm.refl _
  | sell => exact List.perm_append_comm

theorem OrderBook.mem_resting {b : OrderBook τ} {n : Node} :
    n ∈ b.resting ↔ ∃ s, n ∈ b.nodes s := by
  rw [OrderBook.resting, List.mem_append]
  exact ⟨fun h ↦ h.elim (fun h ↦ ⟨_, h⟩) fun h ↦ ⟨_, h⟩,
    fun ⟨s, h⟩ ↦ by cases s; exacts [Or.inl h, Or.inr h]⟩

/-! ## The invariant -/

variable [AddGroupWithOne τ]

/-- A level is not empty, holds limit orders of its own price and side with something left to
trade, and its cached total is the sum of what they have left. -/
structure LevelWF (s : Side) (e : ℤ × LevelData τ) : Prop where
  nonempty : e.2.orders ≠ []
  resting : ∀ n ∈ e.2.orders, n.order.type = .limit ∧ 0 < n.order.quantity ∧
    0 < n.order.price ∧ n.order.price = e.1 ∧ n.order.side = s
  total : e.2.totalQuantity = ((e.2.orders.map fun n ↦ n.order.quantity).sum : ℤ)

/-- The index is the graph of the resting orders' positions, whose ids and addresses are distinct;
no node has yet been given an address from `nextNode` on. -/
structure OrderBook.WF (b : OrderBook τ) : Prop where
  levels : ∀ s, ∀ e ∈ b.side s, LevelWF s e
  ids : (b.resting.map fun n ↦ n.order.id).Nodup
  addrs : (b.resting.map Node.addr).Nodup
  index : ∀ id loc, b.orders.lookup id = some loc ↔
    ∃ n ∈ b.resting, n.order.id = id ∧ n.location = loc
  fresh : ∀ n ∈ b.resting, n.addr < b.nextNode

namespace OrderBook.WF

variable {b : OrderBook τ} (h : b.WF)

include h

theorem of_mem_nodes {s : Side} {n : Node} (hn : n ∈ b.nodes s) : n.order.type = .limit ∧
    0 < n.order.quantity ∧ 0 < n.order.price ∧ n.order.side = s := by
  obtain ⟨e, he, hne⟩ := mem_flat.mp hn
  obtain ⟨htype, hq, hp, -, hs⟩ := (h.levels s e he).resting n hne
  exact ⟨htype, hq, hp, hs⟩

theorem weight_pos {s : Side} : ∀ n ∈ b.nodes s, 0 < Weighted.weight n := fun _ hn ↦
  (h.of_mem_nodes hn).2.1

theorem price_eq {s : Side} {e : ℤ × LevelData τ} (he : e ∈ b.side s) :
    ∀ n ∈ e.2.orders, n.order.price = e.1 := fun n hn ↦
  ((h.levels s e he).resting n hn).2.2.2.1

theorem nodup_ids_side (s : Side) : ((b.nodes s).map fun n ↦ n.order.id).Nodup := by
  have hperm := (b.resting_perm s).map fun n ↦ n.order.id
  rw [List.map_append] at hperm
  exact (List.nodup_append.mp (hperm.nodup_iff.mp h.ids)).1

theorem id_ne_of_opposite {s : Side} {n m : Node} (hn : n ∈ b.nodes s)
    (hm : m ∈ b.nodes s.opposite) : m.order.id ≠ n.order.id := by
  have hids := ((b.resting_perm s).map fun n ↦ n.order.id).nodup_iff.mp h.ids
  rw [List.map_append, List.nodup_append] at hids
  exact (hids.2.2 _ (List.mem_map_of_mem hn) _ (List.mem_map_of_mem hm)).symm

/-- Two resting orders with one id are one order. -/
theorem eq_of_id_eq {n n' : Node} (hn : n ∈ b.resting) (hn' : n' ∈ b.resting)
    (hid : n.order.id = n'.order.id) : n = n' :=
  List.inj_on_of_nodup_map h.ids hn hn' hid

theorem nodup_addrs_side (s : Side) : ((b.nodes s).map Node.addr).Nodup := by
  have hperm := (b.resting_perm s).map Node.addr
  rw [List.map_append] at hperm
  exact (List.nodup_append.mp (hperm.nodup_iff.mp h.addrs)).1

theorem nodup_addrs_level {s : Side} {e : ℤ × LevelData τ} (he : e ∈ b.side s) :
    (e.2.orders.map Node.addr).Nodup :=
  (h.nodup_addrs_side s).sublist ((sublist_flat he).map _)

theorem mem_nodes_side {n : Node} (hn : n ∈ b.resting) : n ∈ b.nodes n.order.side := by
  obtain ⟨s, hs⟩ := OrderBook.mem_resting.mp hn
  rwa [(h.of_mem_nodes hs).2.2.2]

/-- The index answers exactly for the ids of resting orders. -/
theorem lookup_isSome_iff (id : String) : (b.orders.lookup id).isSome ↔
    id ∈ b.resting.map fun n ↦ n.order.id := by
  rw [Option.isSome_iff_exists, List.mem_map]
  constructor
  · rintro ⟨loc, hloc⟩
    obtain ⟨n, hn, hid, -⟩ := (h.index id loc).mp hloc
    exact ⟨n, hn, hid⟩
  · rintro ⟨n, hn, hid⟩
    exact ⟨n.location, (h.index id _).mpr ⟨n, hn, hid, rfl⟩⟩

end OrderBook.WF

theorem OrderBook.wf_new (symbol : String) : (OrderBook.new symbol : OrderBook τ).WF where
  levels s e he := by cases s <;> simp [OrderBook.side, OrderBook.new] at he
  ids := List.nodup_nil
  addrs := List.nodup_nil
  index id loc := by simp [OrderBook.new, OrderBook.resting, OrderBook.nodes, OrderBook.side]
  fresh n hn := by simp [OrderBook.new, OrderBook.resting, OrderBook.nodes, OrderBook.side] at hn

/-! ## Matching -/

/-- What a taker does to the opposite side. -/
def OrderBook.swept (b : OrderBook τ) (taker : Order) : Sweep Node :=
  sweep (fun n ↦ eligible taker n.order) taker.quantity (b.nodes taker.side.opposite)

/-- All that matching does. -/
structure MatchSpec (env : CallEnv) (b : OrderBook τ) (taker : Order)
    (r : OrderBook τ × MatchState) : Prop where
  state : r.2 = (⟨taker, b.orders, []⟩ : MatchState).after env (b.swept taker).taken
    (b.swept taker).left
  orders : r.1.orders = eraseAll (exhausted (b.swept taker).taken) b.orders
  symbol : r.1.symbol = b.symbol
  nextNode : r.1.nextNode = b.nextNode
  own : r.1.side taker.side = b.side taker.side
  opposite : r.1.nodes taker.side.opposite = (b.swept taker).kept
  levels : ∀ e ∈ r.1.side taker.side.opposite, LevelWF taker.side.opposite e

private theorem LevelWF.of_swept {s : Side} {e e₀ : ℤ × LevelData τ} (h : LevelWF s e₀)
    {ok : Node → Bool} {q : ℤ} (hprice : e.1 = e₀.1) (hne : e.2.orders ≠ [])
    (horders : e.2.orders = (sweep ok q e₀.2.orders).kept) (htotal : e.2.totalQuantity
      = e₀.2.totalQuantity - (((sweep ok q e₀.2.orders).taken.map Prod.snd).sum : ℤ)) :
    LevelWF s e where
  nonempty := hne
  resting n hn := by
    rw [horders] at hn
    have hpos := weight_pos_of_mem_kept (fun n hn ↦ (h.resting n hn).2.1) n hn
    obtain ⟨n₀, hn₀, hsame⟩ := exists_mem_of_mem_kept
      (g := fun n : Node ↦ (n.order.type, n.order.price, n.order.side)) (fun _ _ ↦ rfl) hn
    obtain ⟨htype, -, hp, hkey, hside⟩ := h.resting n₀ hn₀
    simp only [Prod.mk.injEq] at hsame
    obtain ⟨htype', hprice', hside'⟩ := hsame
    exact ⟨htype' ▸ htype, hpos, hprice' ▸ hp, by rw [← hprice', hprice, hkey], hside' ▸ hside⟩
  total := by
    have hsum := sum_weight_kept ok q e₀.2.orders
    rw [htotal, h.total, horders, ← Int.cast_sub]
    exact congrArg Int.cast hsum.symm

/-- **What matching does** to a well-formed book. -/
theorem matchTaker_spec {b : OrderBook τ} (h : b.WF) (env : CallEnv) (taker : Order) :
    MatchSpec env b taker (b.matchTaker env taker) := by
  have hkey := matchLevels_eq env (b.sorted_side taker.side.opposite)
    (fun e he ↦ h.price_eq he) ⟨taker, b.orders, []⟩ rfl
  have hmem := fun e ↦ mem_matchLevels env (tooFar taker.side)
    (fun e he ↦ (h.levels taker.side.opposite e he).nonempty) ⟨taker, b.orders, []⟩ (e := e)
  have hlevels : ∀ e ∈ (matchLevels env (tooFar taker.side) ⟨taker, b.orders, []⟩
      (b.side taker.side.opposite)).1, LevelWF taker.side.opposite e := by
    intro e he
    obtain ⟨e₀, he₀, ok, q, hprice, hne, horders, htotal⟩ := hmem e he
    exact (h.levels _ e₀ he₀).of_swept hprice hne horders htotal
  -- the two loops of the source, one for each side of the taker
  cases hside : taker.side with
  | buy =>
    simp only [hside] at hkey hlevels
    rw [OrderBook.matchTaker, hside]
    exact {
      state := by rw [OrderBook.swept, hside]; exact hkey.2
      orders := by rw [OrderBook.swept, hside]; exact congrArg MatchState.orders hkey.2
      symbol := rfl
      nextNode := rfl
      own := by rw [hside]; rfl
      opposite := by rw [OrderBook.swept, hside]; exact hkey.1
      levels := by rw [hside]; exact hlevels }
  | sell =>
    simp only [hside] at hkey hlevels
    rw [OrderBook.matchTaker, hside]
    exact {
      state := by rw [OrderBook.swept, hside]; exact hkey.2
      orders := by rw [OrderBook.swept, hside]; exact congrArg MatchState.orders hkey.2
      symbol := rfl
      nextNode := rfl
      own := by rw [hside]; rfl
      opposite := by rw [OrderBook.swept, hside]; exact hkey.1
      levels := by rw [hside]; exact hlevels }

theorem MatchSpec.nodes_own {env : CallEnv} {b : OrderBook τ} {taker : Order}
    {r : OrderBook τ × MatchState} (spec : MatchSpec env b taker r) :
    r.1.nodes taker.side = b.nodes taker.side :=
  congrArg flat spec.own

/-- Up to what is left to trade, the orders resting after a match are those that were not
exhausted. -/
theorem MatchSpec.perm_map_resting {env : CallEnv} {b : OrderBook τ} {taker : Order}
    {r : OrderBook τ × MatchState} (spec : MatchSpec env b taker r) (h : b.WF) {γ : Type*}
    {g : Node → γ} (hg : ∀ n w, g (Weighted.withWeight n w) = g n) :
    (r.1.resting.map g).Perm ((b.resting.filter fun n ↦
      decide (n.order.id ∉ exhausted (b.swept taker).taken)).map g) := by
  have hown : ∀ n ∈ b.nodes taker.side, n.order.id ∉ exhausted (b.swept taker).taken := by
    intro n hn hmem
    obtain ⟨m, hm, heq⟩ := List.mem_map.mp (mem_map_key_of_mem_exhausted hmem)
    exact h.id_ne_of_opposite hn hm heq
  have hfilter : (b.nodes taker.side).filter (fun n ↦
      decide (n.order.id ∉ exhausted (b.swept taker).taken)) = b.nodes taker.side :=
    List.filter_eq_self.mpr fun n hn ↦ by simpa using hown n hn
  have hkept : (b.swept taker).kept.map g = ((b.nodes taker.side.opposite).filter fun n ↦
      decide (n.order.id ∉ exhausted (b.swept taker).taken)).map g :=
    map_kept_eq_filter hg (h.nodup_ids_side _)
  refine ((r.1.resting_perm taker.side).map g).trans ?_
  rw [spec.nodes_own, spec.opposite, List.map_append, hkept, ← hfilter, ← List.map_append,
    ← List.filter_append]
  exact (((b.resting_perm taker.side).filter _).map g).symm

theorem matchTaker_wf {b : OrderBook τ} (h : b.WF) (env : CallEnv) (taker : Order) :
    (b.matchTaker env taker).1.WF := by
  have spec := matchTaker_spec h env taker
  refine ⟨fun s e he ↦ ?_, ?_, ?_, fun id loc ↦ ?_, fun n hn ↦ ?_⟩
  · by_cases hs : s = taker.side
    · subst hs
      rw [spec.own] at he
      exact h.levels _ e he
    · obtain rfl := Side.eq_opposite_of_ne hs
      exact spec.levels e he
  · have hperm := spec.perm_map_resting h (g := fun n ↦ n.order.id) fun _ _ ↦ rfl
    exact hperm.nodup_iff.mpr (h.ids.sublist (List.filter_sublist.map _))
  · have hperm := spec.perm_map_resting h (g := Node.addr) fun _ _ ↦ rfl
    exact hperm.nodup_iff.mpr (h.addrs.sublist (List.filter_sublist.map _))
  · have hperm := spec.perm_map_resting h
      (g := fun n ↦ (n.order.id, n.location)) fun _ _ ↦ rfl
    have hmem : (∃ n ∈ (b.matchTaker env taker).1.resting, n.order.id = id ∧ n.location = loc)
        ↔ ∃ n ∈ b.resting, n.order.id ∉ exhausted (b.swept taker).taken ∧
            n.order.id = id ∧ n.location = loc := by
      have h := hperm.mem_iff (a := (id, loc))
      simpa only [List.mem_map, List.mem_filter, Prod.mk.injEq, decide_eq_true_eq, and_assoc]
        using h
    -- the index loses the exhausted orders, as the nodes do
    rw [spec.orders, lookup_eraseAll, hmem]
    split_ifs with hex
    · constructor
      · intro hnone
        simp at hnone
      · rintro ⟨n, -, hnot, rfl, -⟩
        exact absurd hex hnot
    · rw [h.index id loc]
      constructor
      · rintro ⟨n, hn, rfl, hloc⟩
        exact ⟨n, hn, hex, rfl, hloc⟩
      · rintro ⟨n, hn, -, hid, hloc⟩
        exact ⟨n, hn, hid, hloc⟩
  · have hperm := spec.perm_map_resting h (g := Node.addr) fun _ _ ↦ rfl
    -- no node gets a new address
    obtain ⟨n', hn', heq⟩ := List.mem_map.mp (hperm.subset (List.mem_map_of_mem hn))
    rw [spec.nextNode, ← heq]
    exact h.fresh n' (List.mem_filter.mp hn').1

/-! ## Resting -/

/-- All that resting an order does. -/
structure RestSpec (b : OrderBook τ) (ord : Order) (b' : OrderBook τ) : Prop where
  own : ∃ (l r : List (ℤ × LevelData τ)) (v : Option (LevelData τ)),
    b.side ord.side = l ++ (v.map (Prod.mk ord.price)).toList ++ r ∧
      b'.side ord.side = l ++ (ord.price, LevelData.push ⟨b.nextNode, ord⟩ v) :: r ∧
        ∀ e ∈ l ++ r, e.1 ≠ ord.price
  opposite : b'.side ord.side.opposite = b.side ord.side.opposite
  orders : b'.orders = b.orders.insert ord.id (Node.location ⟨b.nextNode, ord⟩)
  symbol : b'.symbol = b.symbol
  nextNode : b'.nextNode = b.nextNode + 1

theorem rest_spec (b : OrderBook τ) (ord : Order) : RestSpec b ord (b.rest ord) := by
  cases hside : ord.side with
  | buy =>
    obtain ⟨l, r, v, hes, hup, hne⟩ := b.bids.entries_upsert ord.price
      (LevelData.push ⟨b.nextNode, ord⟩)
    rw [OrderBook.rest, hside]
    exact {
      own := ⟨l, r, v, by rw [hside]; exact hes, by rw [hside]; exact hup, hne⟩
      opposite := by rw [hside]; rfl
      orders := by rw [Node.location, hside]
      symbol := rfl
      nextNode := rfl }
  | sell =>
    obtain ⟨l, r, v, hes, hup, hne⟩ := b.asks.entries_upsert ord.price
      (LevelData.push ⟨b.nextNode, ord⟩)
    rw [OrderBook.rest, hside]
    exact {
      own := ⟨l, r, v, by rw [hside]; exact hes, by rw [hside]; exact hup, hne⟩
      opposite := by rw [hside]; rfl
      orders := by rw [Node.location, hside]
      symbol := rfl
      nextNode := rfl }

omit [AddGroupWithOne τ] in
theorem flat_toList (v : Option (LevelData τ)) (price : ℤ) :
    flat (v.map (Prod.mk price)).toList = v.elim [] LevelData.orders := by
  cases v <;> simp

theorem LevelData.orders_push (node : Node) (v : Option (LevelData τ)) :
    (LevelData.push node v).orders = v.elim [] LevelData.orders ++ [node] := by
  cases v <;> rfl

theorem RestSpec.nodes_opposite {b b' : OrderBook τ} {ord : Order} (spec : RestSpec b ord b') :
    b'.nodes ord.side.opposite = b.nodes ord.side.opposite :=
  congrArg flat spec.opposite

/-- The new order joins the back of its level; nothing else moves. -/
theorem RestSpec.nodes_own {b b' : OrderBook τ} {ord : Order} (spec : RestSpec b ord b') :
    ∃ l m r : List Node, b.nodes ord.side = l ++ m ++ r ∧
      b'.nodes ord.side = l ++ m ++ ⟨b.nextNode, ord⟩ :: r ∧
      (∀ n ∈ l ++ r, ∃ e ∈ b.side ord.side, n ∈ e.2.orders ∧ e.1 ≠ ord.price) ∧
      ∀ n ∈ m, ∃ e ∈ b.side ord.side, n ∈ e.2.orders ∧ e.1 = ord.price := by
  obtain ⟨l, r, v, hes, hup, hne⟩ := spec.own
  refine ⟨flat l, v.elim [] LevelData.orders, flat r, ?_, ?_, ?_, ?_⟩
  · rw [OrderBook.nodes, hes, flat_append, flat_append, flat_toList]
  · rw [OrderBook.nodes, hup, flat_append, flat_cons, LevelData.orders_push]
    simp
  · intro n hn
    rw [← flat_append] at hn
    obtain ⟨e, he, hne'⟩ := mem_flat.mp hn
    refine ⟨e, ?_, hne', hne e he⟩
    rw [hes]
    rcases List.mem_append.mp he with he | he
    · exact List.mem_append_left _ (List.mem_append_left _ he)
    · exact List.mem_append_right _ he
  · intro n hn
    cases v with
    | none => simp at hn
    | some lv => exact ⟨(ord.price, lv), by rw [hes]; simp, hn, rfl⟩

theorem RestSpec.perm_resting {b b' : OrderBook τ} {ord : Order} (spec : RestSpec b ord b') :
    b'.resting.Perm (⟨b.nextNode, ord⟩ :: b.resting) := by
  obtain ⟨l, m, r, hb, hb', -, -⟩ := spec.nodes_own
  refine (b'.resting_perm ord.side).trans (List.Perm.trans ?_
    ((b.resting_perm ord.side).symm.cons _))
  rw [hb', hb, spec.nodes_opposite, List.append_assoc (l ++ m), List.append_assoc (l ++ m)]
  exact List.perm_middle

/-- Pushing an order onto its level, or onto a new one. -/
theorem LevelWF.push {s : Side} {v : Option (LevelData τ)} (node : Node)
    (h : ∀ level ∈ v, LevelWF s (node.order.price, level)) (htype : node.order.type = .limit)
    (hq : 0 < node.order.quantity) (hp : 0 < node.order.price) (hside : node.order.side = s) :
    LevelWF s (node.order.price, LevelData.push node v) where
  nonempty := by
    rw [LevelData.orders_push]
    simp
  resting n hn := by
    rw [LevelData.orders_push, List.mem_append, List.mem_singleton] at hn
    rcases hn with hn | rfl
    · cases v with
      | none => simp at hn
      | some level => exact (h level rfl).resting n hn
    · exact ⟨htype, hq, hp, rfl, hside⟩
  total := by
    cases v with
    | none => simp [LevelData.push]
    | some level =>
      have htotal := (h level rfl).total
      rw [LevelData.orders_push, List.map_append, List.sum_append, Int.cast_add]
      simp only [LevelData.push, Option.getD_some, Option.elim_some, List.map_cons,
        List.map_nil, List.sum_cons, List.sum_nil, add_zero] at htotal ⊢
      rw [htotal]

theorem RestSpec.levels {b b' : OrderBook τ} {ord : Order} (spec : RestSpec b ord b') (h : b.WF)
    (htype : ord.type = .limit) (hq : 0 < ord.quantity) (hp : 0 < ord.price) :
    ∀ s, ∀ e ∈ b'.side s, LevelWF s e := by
  intro s e he
  by_cases hs : s = ord.side
  · subst hs
    obtain ⟨l, r, v, hes, hup, -⟩ := spec.own
    have hold : ∀ e ∈ l ++ (v.map (Prod.mk ord.price)).toList ++ r, LevelWF ord.side e :=
      fun e he ↦ h.levels _ e (hes ▸ he)
    rw [hup] at he
    rcases List.mem_append.mp he with he | he
    · exact hold e (List.mem_append_left _ (List.mem_append_left _ he))
    rcases List.mem_cons.mp he with rfl | he
    · exact LevelWF.push ⟨b.nextNode, ord⟩
        (fun level hlevel ↦ hold _ (by simp [Option.mem_def.mp hlevel])) htype hq hp rfl
    · exact hold e (List.mem_append_right _ he)
  · obtain rfl := Side.eq_opposite_of_ne hs
    rw [spec.opposite] at he
    exact h.levels _ e he

theorem rest_wf {b : OrderBook τ} (h : b.WF) {ord : Order} (htype : ord.type = .limit)
    (hq : 0 < ord.quantity) (hp : 0 < ord.price) (hnew : b.orders.lookup ord.id = none) :
    (b.rest ord).WF := by
  have spec := rest_spec b ord
  have hperm := spec.perm_resting
  have hid : ord.id ∉ b.resting.map fun n ↦ n.order.id := by
    rw [← h.lookup_isSome_iff, hnew]
    simp
  refine ⟨spec.levels h htype hq hp, ?_, ?_, fun id loc ↦ ?_, fun n hn ↦ ?_⟩
  · refine (hperm.map _).nodup_iff.mpr ?_
    rw [List.map_cons, List.nodup_cons]
    exact ⟨hid, h.ids⟩
  · refine (hperm.map _).nodup_iff.mpr ?_
    rw [List.map_cons, List.nodup_cons]
    -- the address is fresh
    refine ⟨fun hmem ↦ ?_, h.addrs⟩
    obtain ⟨n, hn, heq⟩ := List.mem_map.mp hmem
    exact absurd (h.fresh n hn) (by rw [heq]; exact lt_irrefl _)
  · have hmem : (∃ n ∈ (b.rest ord).resting, n.order.id = id ∧ n.location = loc) ↔
        (ord.id = id ∧ Node.location ⟨b.nextNode, ord⟩ = loc) ∨
          ∃ n ∈ b.resting, n.order.id = id ∧ n.location = loc := by
      simp only [hperm.mem_iff, List.mem_cons, or_and_right, exists_or, exists_eq_left]
    rw [hmem, spec.orders, ← h.index id loc]
    by_cases hi : id = ord.id
    · subst hi
      rw [Finmap.lookup_insert, hnew]
      simp
    · rw [Finmap.lookup_insert_of_ne _ hi]
      exact ⟨Or.inr, fun h ↦ h.resolve_left fun heq ↦ hi heq.1.symm⟩
  · rw [spec.nextNode]
    rcases List.mem_cons.mp (hperm.subset hn) with rfl | hn
    · exact Nat.lt_succ_self _
    · exact Nat.lt_succ_of_lt (h.fresh n hn)

/-! ## Cancelling -/

/-- All that a successful cancel of the resting order `n` does. -/
structure CancelSpec (b : OrderBook τ) (n : Node) (b' : OrderBook τ) : Prop where
  nodes : ∀ s, b'.nodes s = (b.nodes s).filter fun m ↦ m.order.id ≠ n.order.id
  orders : b'.orders = b.orders.erase n.order.id
  symbol : b'.symbol = b.symbol
  nextNode : b'.nextNode = b.nextNode
  levels : ∀ s, ∀ e ∈ b'.side s, LevelWF s e

/-- An iterator to a node of a list finds it there. -/
theorem derefIt_addr {orders : List Node} (hnd : (orders.map Node.addr).Nodup) {n : Node}
    (hn : n ∈ orders) : derefIt n.addr orders = some n := by
  rw [derefIt]
  cases hfind : orders.find? fun m ↦ m.addr = n.addr with
  | none =>
    have hne := List.find?_eq_none.mp hfind n hn
    simp at hne
  | some m =>
    have haddr : m.addr = n.addr := by simpa using List.find?_some hfind
    rw [List.inj_on_of_nodup_map hnd (List.mem_of_find?_eq_some hfind) hn haddr]

/-- Cancelling inside one well-formed level. -/
private theorem LevelWF.cancel {s : Side} {e : ℤ × LevelData τ} (h : LevelWF s e)
    (hnd : (e.2.orders.map Node.addr).Nodup) {n : Node} (hn : n ∈ e.2.orders) :
    flat ((e.2.cancel n.addr).map (Prod.mk e.1)).toList
        = e.2.orders.filter (fun m ↦ m.addr ≠ n.addr) ∧
      ∀ e' ∈ ((e.2.cancel n.addr).map (Prod.mk e.1)).toList, LevelWF s e' := by
  obtain ⟨l, r, hsplit⟩ := List.append_of_mem hn
  have hnd' := hnd
  have hne : ∀ m ∈ l ++ r, m.addr ≠ n.addr := by
    rw [hsplit, List.map_append, List.map_cons, List.nodup_append, List.nodup_cons] at hnd
    intro m hm heq
    rcases List.mem_append.mp hm with hm | hm
    · exact hnd.2.2 _ (List.mem_map_of_mem hm) _ List.mem_cons_self heq
    · exact hnd.2.1.1 (heq ▸ List.mem_map_of_mem hm)
  have hfilter : e.2.orders.filter (fun m ↦ m.addr ≠ n.addr) = l ++ r := by
    rw [hsplit, List.filter_append, List.filter_cons_of_neg (by simp),
      List.filter_eq_self.mpr fun m hm ↦ by simpa using hne m (List.mem_append_left r hm),
      List.filter_eq_self.mpr fun m hm ↦ by simpa using hne m (List.mem_append_right l hm)]
  rw [LevelData.cancel, derefIt_addr hnd' hn, hfilter]
  dsimp only [Option.map_some, Option.getD_some]
  by_cases hempty : (l ++ r).isEmpty = true
  · rw [if_pos hempty, List.isEmpty_iff.mp hempty]
    exact ⟨rfl, by simp⟩
  · rw [if_neg hempty]
    refine ⟨by simp, fun e' he' ↦ ?_⟩
    have he' : e' = (e.1, ⟨l ++ r, e.2.totalQuantity - (n.order.quantity : τ)⟩) := by
      simpa using he'
    subst he'
    refine ⟨fun hnil ↦ hempty (List.isEmpty_iff.mpr hnil), fun m hm ↦ ?_, ?_⟩
    · refine h.resting m ?_
      rw [hsplit]
      rcases List.mem_append.mp hm with hm | hm
      · exact List.mem_append_left _ hm
      · exact List.mem_append_right _ (List.mem_cons_of_mem _ hm)
    · rw [h.total, hsplit, ← Int.cast_sub]
      simp only [List.map_append, List.map_cons, List.sum_append, List.sum_cons]
      congr 1
      omega

omit [AddGroupWithOne τ] in
private theorem filter_ne_of_split {b : OrderBook τ} {s : Side} {l r : List (ℤ × LevelData τ)}
    {e : ℤ × LevelData τ} (hsplit : b.side s = l ++ e :: r) {n : Node} (hn : n ∈ e.2.orders)
    (haddrs : ((b.nodes s).map Node.addr).Nodup) :
    (b.nodes s).filter (fun m ↦ m.addr ≠ n.addr)
      = flat l ++ e.2.orders.filter (fun m ↦ m.addr ≠ n.addr) ++ flat r := by
  rw [OrderBook.nodes, hsplit, flat_append, flat_cons] at haddrs ⊢
  simp only [List.map_append, List.nodup_append] at haddrs
  obtain ⟨-, ⟨-, -, hr⟩, hl⟩ := haddrs
  have haddr : n.addr ∈ e.2.orders.map Node.addr := List.mem_map_of_mem hn
  rw [List.filter_append, List.filter_append, List.filter_eq_self.mpr fun m hm ↦ ?_,
    List.filter_eq_self (l := flat r) |>.mpr fun m hm ↦ ?_, List.append_assoc]
  · simpa using fun heq ↦ hr _ haddr _ (List.mem_map_of_mem hm) heq.symm
  · simpa using fun heq ↦ hl _ (List.mem_map_of_mem hm) _ (List.mem_append_left _ haddr) heq

namespace OrderBook.WF

variable {b : OrderBook τ} {n : Node} (h : b.WF)

include h

/-- Within a book, the address and the id of a resting order single out the same node. -/
theorem filter_addr_eq (hn : n ∈ b.resting) (s : Side) :
    (b.nodes s).filter (fun m ↦ m.addr ≠ n.addr)
      = (b.nodes s).filter fun m ↦ m.order.id ≠ n.order.id := by
  refine List.filter_congr fun m hm ↦ decide_eq_decide.mpr (not_congr ?_)
  have hm : m ∈ b.resting := OrderBook.mem_resting.mpr ⟨s, hm⟩
  constructor
  · intro heq
    rw [List.inj_on_of_nodup_map h.addrs hm hn heq]
  · intro heq
    rw [h.eq_of_id_eq hm hn heq]

theorem filter_opposite_eq (hn : n ∈ b.resting) :
    (b.nodes n.order.side.opposite).filter (fun m ↦ m.order.id ≠ n.order.id)
      = b.nodes n.order.side.opposite :=
  List.filter_eq_self.mpr fun m hm ↦ by simpa using h.id_ne_of_opposite (h.mem_nodes_side hn) hm

/-- The two sides of the book only differ in which map `cancel_order` alters. -/
theorem cancelSpec_of_alter (hn : n ∈ b.resting) {level : LevelData τ} (hlevel : n ∈ level.orders)
    (b' : OrderBook τ) (horders : b'.orders = b.orders.erase n.order.id)
    (hsymbol : b'.symbol = b.symbol) (hnext : b'.nextNode = b.nextNode)
    (hopp : b'.side n.order.side.opposite = b.side n.order.side.opposite)
    (hown : ∃ l r, b.side n.order.side = l ++ (n.order.price, level) :: r ∧
      b'.side n.order.side = l ++ ((LevelData.cancel n.addr level).map
        (Prod.mk n.order.price)).toList ++ r) : CancelSpec b n b' := by
  obtain ⟨l, r, hes, halt⟩ := hown
  have hmem : (n.order.price, level) ∈ b.side n.order.side := by
    rw [hes]
    exact List.mem_append_right _ List.mem_cons_self
  have hcancel := (h.levels _ _ hmem).cancel (h.nodup_addrs_level hmem) hlevel
  refine ⟨fun s ↦ ?_, horders, hsymbol, hnext, fun s e he ↦ ?_⟩
  · by_cases hs : s = n.order.side
    · subst hs
      rw [← h.filter_addr_eq hn, filter_ne_of_split hes hlevel (h.nodup_addrs_side _),
        OrderBook.nodes, halt, flat_append, flat_append, hcancel.1]
    · obtain rfl := Side.eq_opposite_of_ne hs
      rw [h.filter_opposite_eq hn, OrderBook.nodes, hopp, OrderBook.nodes]
  · by_cases hs : s = n.order.side
    · subst hs
      rw [halt, List.append_assoc] at he
      rcases List.mem_append.mp he with he | he
      · exact h.levels _ e (by rw [hes]; exact List.mem_append_left _ he)
      rcases List.mem_append.mp he with he | he
      · exact hcancel.2 e he
      · refine h.levels _ e ?_
        rw [hes]
        exact List.mem_append_right _ (List.mem_cons_of_mem _ he)
    · obtain rfl := Side.eq_opposite_of_ne hs
      rw [hopp] at he
      exact h.levels _ e he

end OrderBook.WF

/-- **What cancelling does** to a well-formed book: it finds the order through the index, if it
rests at all, and removes exactly that one. -/
theorem cancelOrder_spec {b : OrderBook τ} (h : b.WF) (id : String) :
    (id ∉ b.resting.map (fun n ↦ n.order.id) ∧ b.cancelOrder id = (false, b)) ∨
      ∃ n ∈ b.resting, n.order.id = id ∧ (b.cancelOrder id).1 = true ∧
        CancelSpec b n (b.cancelOrder id).2 := by
  cases hlookup : b.orders.lookup id with
  | none =>
    refine Or.inl ⟨?_, ?_⟩
    · rw [← h.lookup_isSome_iff, hlookup]
      simp
    · rw [OrderBook.cancelOrder, hlookup]
  | some loc =>
    obtain ⟨n, hn, rfl, rfl⟩ := (h.index id loc).mp hlookup
    refine Or.inr ⟨n, hn, rfl, ?_⟩
    obtain ⟨⟨price, level⟩, he, hlevel⟩ := mem_flat.mp (h.mem_nodes_side hn)
    obtain rfl : n.order.price = price := h.price_eq he n hlevel
    have hspec := h.cancelSpec_of_alter hn hlevel
    rw [OrderBook.cancelOrder, hlookup]
    cases hside : n.order.side with
    | buy =>
      rw [hside] at hspec he
      simp only [Node.location, hside]
      exact ⟨trivial, hspec _ rfl rfl rfl rfl (b.bids.entries_alter _ he)⟩
    | sell =>
      rw [hside] at hspec he
      simp only [Node.location, hside]
      exact ⟨trivial, hspec _ rfl rfl rfl rfl (b.asks.entries_alter _ he)⟩

omit [AddGroupWithOne τ] in
theorem OrderBook.resting_filter {b b' : OrderBook τ} {p : Node → Bool}
    (h : ∀ s, b'.nodes s = (b.nodes s).filter p) : b'.resting = b.resting.filter p := by
  rw [OrderBook.resting, OrderBook.resting, List.filter_append, h, h]

theorem CancelSpec.wf {b b' : OrderBook τ} {n : Node} (spec : CancelSpec b n b') (h : b.WF) :
    b'.WF := by
  have hresting := OrderBook.resting_filter spec.nodes
  refine ⟨spec.levels, ?_, ?_, fun id loc ↦ ?_, fun m hm ↦ ?_⟩
  · rw [hresting]
    exact h.ids.sublist (List.filter_sublist.map _)
  · rw [hresting]
    exact h.addrs.sublist (List.filter_sublist.map _)
  · rw [spec.orders, hresting]
    by_cases hid : id = n.order.id
    · subst hid
      rw [Finmap.lookup_erase]
      simp only [reduceCtorEq, false_iff, List.mem_filter, decide_eq_true_eq]
      exact fun ⟨_, ⟨_, hne⟩, heq, _⟩ ↦ hne heq
    · rw [Finmap.lookup_erase_ne hid, h.index]
      constructor
      · rintro ⟨m, hm, rfl, hloc⟩
        exact ⟨m, List.mem_filter.mpr ⟨hm, by simpa using hid⟩, rfl, hloc⟩
      · rintro ⟨m, hm, hmid, hloc⟩
        exact ⟨m, (List.mem_filter.mp hm).1, hmid, hloc⟩
  · rw [spec.nextNode]
    rw [hresting] at hm
    exact h.fresh m (List.mem_filter.mp hm).1

/-! ## Calls -/

/-- A call of the public interface, with what it reads from outside. -/
inductive Call where
  | addOrder (env : CallEnv) (ord : Order)
  | cancelOrder (orderId : String)

inductive CallResult where
  | fills (fills : List Fill)
  | threw (message : String)
  | cancelled (found : Bool)
  deriving DecidableEq, Repr

/-- Serve one call. A call that throws leaves the book as it was. -/
def OrderBook.call (b : OrderBook τ) : Call → OrderBook τ × CallResult
  | .addOrder env ord =>
    match b.addOrder env ord with
    | .ok (fills, b') => (b', .fills fills)
    | .error message => (b, .threw message)
  | .cancelOrder orderId => ((b.cancelOrder orderId).2, .cancelled (b.cancelOrder orderId).1)

/-- The book after a sequence of calls from the empty one. -/
def OrderBook.run (symbol : String) (calls : List Call) : OrderBook τ :=
  (mealyRun OrderBook.call (OrderBook.new symbol) calls).1

omit [AddGroupWithOne τ] in
/-- The defaults concern the id and the time only. -/
theorem Order.resolve_eq (env : CallEnv) (ord : Order) : ord.resolve env
    = { ord with id := (ord.resolve env).id, timestamp := (ord.resolve env).timestamp } := by
  rw [Order.resolve]
  split_ifs <;> rfl

omit [AddGroupWithOne τ] in
theorem Order.resolve_of_id_ne {env : CallEnv} {ord : Order} (h : ord.id ≠ "") :
    (ord.resolve env).id = ord.id := by
  rw [Order.resolve, if_neg h]
  split_ifs <;> rfl

/-- The order `add_order` would act on is admitted: nothing is thrown. -/
def OrderBook.Admits (b : OrderBook τ) (ord : Order) : Prop :=
  0 < ord.quantity ∧ (ord.type = .limit → 0 < ord.price) ∧ b.orders.lookup ord.id = none

/-- What an accepted `add_order` did: match, then rest what is left of a limit order. -/
def OrderBook.accept (env : CallEnv) (b : OrderBook τ) (ord : Order) : OrderBook τ :=
  let r := b.matchTaker env ord
  if 0 < r.2.taker.quantity ∧ r.2.taker.type = .limit then r.1.rest r.2.taker else r.1

/-- The three ways `add_order` can throw, and what it does otherwise. -/
theorem OrderBook.addOrder_cases (env : CallEnv) (b : OrderBook τ) (ord : Order) :
    (∃ message, b.addOrder env ord = .error message ∧ ¬b.Admits (ord.resolve env)) ∨
      b.Admits (ord.resolve env) ∧ b.addOrder env ord
        = .ok ((b.matchTaker env (ord.resolve env)).2.fills, b.accept env (ord.resolve env)) := by
  have hres := ord.resolve_eq env
  have hquantity : (ord.resolve env).quantity = ord.quantity := by rw [hres]
  have htype : (ord.resolve env).type = ord.type := by rw [hres]
  have hprice : (ord.resolve env).price = ord.price := by rw [hres]
  rw [OrderBook.addOrder, OrderBook.Admits, hquantity, htype, hprice]
  by_cases hq : ord.quantity ≤ 0
  · exact Or.inl ⟨_, if_pos hq, fun h ↦ absurd h.1 (not_lt.mpr hq)⟩
  rw [if_neg hq]
  by_cases hp : ord.type = .limit ∧ ord.price ≤ 0
  · exact Or.inl ⟨_, if_pos hp, fun h ↦ absurd (h.2.1 hp.1) (not_lt.mpr hp.2)⟩
  · rw [if_neg hp]
    by_cases hdup : (b.orders.lookup (ord.resolve env).id).isSome = true
    · refine Or.inl ⟨_, if_pos hdup, fun h ↦ ?_⟩
      rw [h.2.2] at hdup
      simp at hdup
    · refine Or.inr ⟨⟨not_le.mp hq, fun h ↦ ?_, by simpa using hdup⟩, if_neg hdup⟩
      by_contra hle
      exact hp ⟨h, not_lt.mp hle⟩

theorem OrderBook.addOrder_of_admits {env : CallEnv} {b : OrderBook τ} {ord : Order}
    (hadm : b.Admits (ord.resolve env)) : b.addOrder env ord
      = .ok ((b.matchTaker env (ord.resolve env)).2.fills, b.accept env (ord.resolve env)) := by
  rcases b.addOrder_cases env ord with ⟨message, -, hnot⟩ | ⟨-, hok⟩
  · exact absurd hadm hnot
  · exact hok

theorem MatchSpec.taker {env : CallEnv} {b : OrderBook τ} {taker : Order}
    {r : OrderBook τ × MatchState} (spec : MatchSpec env b taker r) :
    r.2.taker = { taker with quantity := (b.swept taker).left } := by
  rw [spec.state]
  rfl

theorem MatchSpec.fills {env : CallEnv} {b : OrderBook τ} {taker : Order}
    {r : OrderBook τ × MatchState} (spec : MatchSpec env b taker r) :
    r.2.fills = fillsOf env taker.id 0 (b.swept taker).taken := by
  rw [spec.state]
  rfl

theorem accept_wf {b : OrderBook τ} (h : b.WF) {env : CallEnv} {ord : Order}
    (hadm : b.Admits ord) : (b.accept env ord).WF := by
  have spec := matchTaker_spec h env ord
  have hwf := matchTaker_wf h env ord
  rw [OrderBook.accept]
  split_ifs with hrest
  · rw [spec.taker] at hrest ⊢
    refine rest_wf hwf hrest.2 hrest.1 (hadm.2.1 hrest.2) ?_
    rw [spec.orders, lookup_eraseAll, hadm.2.2, ite_self]
  · exact hwf

theorem call_wf {b : OrderBook τ} (h : b.WF) (c : Call) : (b.call c).1.WF := by
  cases c with
  | addOrder env ord =>
    rw [OrderBook.call]
    rcases b.addOrder_cases env ord with ⟨message, hthrow, -⟩ | ⟨hadm, hok⟩
    · rw [hthrow]
      exact h
    · rw [hok]
      exact accept_wf h hadm
  | cancelOrder id =>
    rw [OrderBook.call]
    rcases cancelOrder_spec h id with ⟨-, hnone⟩ | ⟨n, -, -, -, spec⟩
    · rw [hnone]
      exact h
    · exact spec.wf h

/-- **The invariant holds in every reachable state.** -/
theorem run_wf (symbol : String) (calls : List Call) :
    (OrderBook.run symbol calls : OrderBook τ).WF :=
  mealyRun_invariant (P := OrderBook.WF) (fun _ c _ h ↦ call_wf h c) (OrderBook.wf_new symbol)

/-- **The representation invariant**, spelled out: no level is empty; a resting order is a limit
order of its level's price and its map's side with a positive quantity and price; a level's cached
total is the sum of its quantities; and the index is a bijection onto the resting orders, each
entry designating its very order. -/
theorem run_representation (symbol : String) (calls : List Call) :
    let b : OrderBook ℤ := OrderBook.run symbol calls
    (∀ s, ∀ e ∈ b.side s, e.2.orders ≠ []) ∧
    (∀ s, ∀ e ∈ b.side s, ∀ n ∈ e.2.orders, n.order.type = .limit ∧ 0 < n.order.quantity ∧
      0 < n.order.price ∧ n.order.price = e.1 ∧ n.order.side = s) ∧
    (∀ s, ∀ e ∈ b.side s,
      e.2.totalQuantity = (e.2.orders.map fun n ↦ n.order.quantity).sum) ∧
    (∀ s, ∀ e ∈ b.side s, ∀ n ∈ e.2.orders,
      b.orders.lookup n.order.id = some ⟨s, e.1, n.addr⟩ ∧ derefIt n.addr e.2.orders = some n) ∧
    (b.resting.map fun n ↦ n.order.id).Nodup ∧
    ∀ id loc, b.orders.lookup id = some loc → ∃ e ∈ b.side loc.side, e.1 = loc.price ∧
      ∃ n, derefIt loc.it e.2.orders = some n ∧ n.order.id = id := by
  intro b
  have h : b.WF := run_wf symbol calls
  refine ⟨fun s e he ↦ (h.levels s e he).nonempty, fun s e he ↦ (h.levels s e he).resting,
    fun s e he ↦ ?_, fun s e he n hn ↦ ⟨?_, ?_⟩, h.ids, fun id loc hloc ↦ ?_⟩
  · rw [(h.levels s e he).total, Int.cast_id]
  · have hresting : n ∈ b.resting := OrderBook.mem_resting.mpr ⟨s, mem_flat.mpr ⟨e, he, hn⟩⟩
    obtain ⟨-, -, -, hprice, hside⟩ := (h.levels s e he).resting n hn
    rw [← hprice, ← hside]
    exact (h.index _ _).mpr ⟨n, hresting, rfl, rfl⟩
  · exact derefIt_addr (h.nodup_addrs_level he) hn
  · obtain ⟨n, hn, rfl, rfl⟩ := (h.index id loc).mp hloc
    obtain ⟨e, he, hne⟩ := mem_flat.mp (h.mem_nodes_side hn)
    exact ⟨e, he, (h.price_eq he n hne).symm, n, derefIt_addr (h.nodup_addrs_level he) hne, rfl⟩

end BenchmarkPlatform
