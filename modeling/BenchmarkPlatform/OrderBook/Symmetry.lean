import BenchmarkPlatform.OrderBook.Levels

/-!
# Buying and selling are mirror images

`match`, `add_order` and `cancel_order` each have a branch for buyers and one for sellers, written
out by hand with the comparisons the other way round. Reflecting a book exchanges its sides and
replaces every price `p` by `K - p`, which turns the better bid into the better ask; this module
proves that each operation commutes with the reflection, loop by loop. Nothing about the book is
assumed, so the two branches agree even on books no run can reach.

Only the price checks tell a book from its reflection: the reflected order has to have a positive
price again, which is what `K` is large enough for.
-/

namespace BenchmarkPlatform

open Lib

variable {τ : Type}

/-! ## Reflection -/

def Order.mirror (K : ℤ) (ord : Order) : Order :=
  { ord with side := ord.side.opposite, price := K - ord.price }

def Fill.mirror (K : ℤ) (f : Fill) : Fill := { f with price := K - f.price }

def Node.mirror (K : ℤ) (n : Node) : Node := { n with order := n.order.mirror K }

def LevelData.mirror (K : ℤ) (level : LevelData τ) : LevelData τ :=
  ⟨level.orders.map (Node.mirror K), level.totalQuantity⟩

def OrderLocation.mirror (K : ℤ) (loc : OrderLocation) : OrderLocation :=
  ⟨loc.side.opposite, K - loc.price, loc.it⟩

/-- A finite map with its values replaced. -/
def mapValues {α β γ : Type} (f : β → γ) (m : Finmap fun _ : α ↦ β) : Finmap fun _ : α ↦ γ :=
  ⟨m.entries.map (Sigma.map id fun _ ↦ f), by
    rw [← Multiset.nodup_keys, Multiset.keys, Multiset.map_map]
    exact Multiset.nodup_keys.mpr m.nodupKeys⟩

def OrderIndex.mirror (K : ℤ) (index : OrderIndex) : OrderIndex :=
  mapValues (OrderLocation.mirror K) index

theorem before_reflect (K : ℤ) (s : Side) (p p' : ℤ) :
    s.before p p' ↔ s.opposite.before (K - p) (K - p') := by
  cases s <;> simp only [Side.before, Side.opposite] <;> omega

/-- The book with its sides exchanged and every price `p` replaced by `K - p`. -/
def OrderBook.mirror (K : ℤ) (b : OrderBook τ) : OrderBook τ where
  symbol := b.symbol
  bids := b.asks.mapEntries (K - ·) (LevelData.mirror K) (before_reflect K .sell)
  asks := b.bids.mapEntries (K - ·) (LevelData.mirror K) (before_reflect K .buy)
  orders := OrderIndex.mirror K b.orders
  nextNode := b.nextNode

def MatchState.mirror (K : ℤ) (st : MatchState) : MatchState :=
  ⟨st.taker.mirror K, OrderIndex.mirror K st.orders, st.fills.map (Fill.mirror K)⟩

/-! ## The index -/

theorem lookup_mapValues {α β γ : Type} [DecidableEq α] (f : β → γ) (m : Finmap fun _ : α ↦ β)
    (a : α) : (mapValues f m).lookup a = (m.lookup a).map f := by
  induction m using Finmap.induction_on with
  | H l => exact List.dlookup_map₂ (f := fun _ ↦ f) a

theorem lookup_mirror (K : ℤ) (index : OrderIndex) (id : String) :
    (OrderIndex.mirror K index).lookup id = (index.lookup id).map (OrderLocation.mirror K) :=
  lookup_mapValues _ index id

theorem mirror_erase (K : ℤ) (index : OrderIndex) (id : String) :
    OrderIndex.mirror K (index.erase id) = (OrderIndex.mirror K index).erase id := by
  refine Finmap.ext_lookup fun id' ↦ ?_
  by_cases hid : id' = id
  · subst hid
    rw [lookup_mirror, Finmap.lookup_erase, Finmap.lookup_erase]
    rfl
  · rw [lookup_mirror, Finmap.lookup_erase_ne hid, Finmap.lookup_erase_ne hid, lookup_mirror]

theorem mirror_insert (K : ℤ) (index : OrderIndex) (id : String) (loc : OrderLocation) :
    OrderIndex.mirror K (index.insert id loc)
      = (OrderIndex.mirror K index).insert id (loc.mirror K) := by
  refine Finmap.ext_lookup fun id' ↦ ?_
  by_cases hid : id' = id
  · subst hid
    rw [lookup_mirror, Finmap.lookup_insert, Finmap.lookup_insert]
    rfl
  · rw [lookup_mirror, Finmap.lookup_insert_of_ne _ hid, Finmap.lookup_insert_of_ne _ hid,
      lookup_mirror]

/-! ## The matching loops -/

variable [AddGroupWithOne τ]

theorem trade_mirror (K : ℤ) (env : CallEnv) (st : MatchState) (maker : Order) (fillQty : ℤ) :
    (st.mirror K).trade env (maker.mirror K) fillQty = (st.trade env maker fillQty).mirror K := by
  rw [MatchState.trade, MatchState.trade, MatchState.mirror, MatchState.mirror]
  have hindex : (if maker.quantity - fillQty = 0 then (OrderIndex.mirror K st.orders).erase maker.id
        else OrderIndex.mirror K st.orders)
      = OrderIndex.mirror K
          (if maker.quantity - fillQty = 0 then st.orders.erase maker.id else st.orders) := by
    split_ifs
    · rw [mirror_erase]
    · rfl
  have hfills : st.fills.map (Fill.mirror K) ++ [(⟨maker.id, st.taker.id, K - maker.price, fillQty,
        env.now ((st.fills.map (Fill.mirror K)).length + 1)⟩ : Fill)]
      = (st.fills ++ [(⟨maker.id, st.taker.id, maker.price, fillQty,
          env.now (st.fills.length + 1)⟩ : Fill)]).map (Fill.mirror K) := by
    rw [List.map_append, List.length_map]
    rfl
  exact congrArg₂ (MatchState.mk _) hindex hfills

/-- The inner loop does not look at sides or prices. -/
theorem matchLevel_mirror (K : ℤ) (env : CallEnv) (st : MatchState) (total : τ) (l : List Node) :
    matchLevel env (st.mirror K) total (l.map (Node.mirror K))
      = ((matchLevel env st total l).1.mirror K, (matchLevel env st total l).2.mirror K) := by
  induction l generalizing st total with
  | nil => rfl
  | cons n l ih =>
    rw [List.map_cons, matchLevel, matchLevel]
    have hquantity : (st.mirror K).taker.quantity = st.taker.quantity := rfl
    have hsame : sameAccount (st.mirror K).taker (n.mirror K).order
        = sameAccount st.taker n.order := rfl
    have hmaker : (n.mirror K).order.quantity = n.order.quantity := rfl
    rw [hquantity, hsame, hmaker]
    by_cases hq : 0 < st.taker.quantity
    · rw [if_pos hq, if_pos hq]
      by_cases hskip : sameAccount st.taker n.order = true
      · rw [if_pos hskip, if_pos hskip, ih]
        rfl
      · rw [if_neg hskip, if_neg hskip]
        dsimp only
        rw [show (n.mirror K).order = n.order.mirror K from rfl, trade_mirror, ih]
        split_ifs <;> rfl
    · rw [if_neg hq, if_neg hq]
      rfl

/-- The outer loop does not either, but for its `break`. -/
theorem matchLevels_mirror (K : ℤ) (env : CallEnv) {far far' : ℤ → ℤ → Bool}
    (hfar : ∀ best limit, far' (K - best) (K - limit) = far best limit) (st : MatchState)
    (es : List (ℤ × LevelData τ)) :
    matchLevels env far' (st.mirror K) (es.map (Prod.map (K - ·) (LevelData.mirror K)))
      = ((matchLevels env far st es).1.map (Prod.map (K - ·) (LevelData.mirror K)),
          (matchLevels env far st es).2.mirror K) := by
  induction es generalizing st with
  | nil => rfl
  | cons e es ih =>
    obtain ⟨price, level⟩ := e
    rw [List.map_cons, Prod.map_apply, matchLevels, matchLevels]
    have hquantity : (st.mirror K).taker.quantity = st.taker.quantity := rfl
    have htype : (st.mirror K).taker.type = st.taker.type := rfl
    have hprice : far' (K - price) (st.mirror K).taker.price = far price st.taker.price :=
      hfar price st.taker.price
    rw [hquantity, htype, hprice]
    by_cases hq : 0 < st.taker.quantity
    · rw [if_pos hq, if_pos hq]
      by_cases hbreak : st.taker.type = .limit ∧ far price st.taker.price = true
      · rw [if_pos hbreak, if_pos hbreak]
        rfl
      · rw [if_neg hbreak, if_neg hbreak]
        have hlevel : matchLevel env (st.mirror K) (level.mirror K).totalQuantity
            (level.mirror K).orders = _ :=
          matchLevel_mirror K env st level.totalQuantity level.orders
        dsimp only
        rw [hlevel, ih]
        have hempty : (((matchLevel env st level.totalQuantity level.orders).1.mirror K).orders
            ).isEmpty = (matchLevel env st level.totalQuantity level.orders).1.orders.isEmpty := by
          rw [LevelData.mirror]
          exact List.isEmpty_map
        rw [hempty]
        split_ifs <;> rfl
    · rw [if_neg hq, if_neg hq]
      rfl

/-- The two `break` tests are each other's reflection. -/
theorem tooCheap_reflect (K best limit : ℤ) :
    tooCheap (K - best) (K - limit) = tooExpensive best limit :=
  decide_eq_decide.mpr (by omega)

theorem tooExpensive_reflect (K best limit : ℤ) :
    tooExpensive (K - best) (K - limit) = tooCheap best limit :=
  decide_eq_decide.mpr (by omega)

theorem matchTaker_mirror (K : ℤ) (env : CallEnv) (b : OrderBook τ) (taker : Order) :
    (b.mirror K).matchTaker env (taker.mirror K)
      = ((b.matchTaker env taker).1.mirror K, (b.matchTaker env taker).2.mirror K) := by
  have hside' : (taker.mirror K).side = taker.side.opposite := rfl
  rw [OrderBook.matchTaker, OrderBook.matchTaker, hside']
  cases taker.side with
  | buy =>
    have hloops := matchLevels_mirror K env (tooCheap_reflect K) ⟨taker, b.orders, []⟩
      b.asks.entries
    have hlevels := congrArg Prod.fst hloops
    have hstate := congrArg Prod.snd hloops
    refine Prod.ext (OrderBook.ext_sides (fun s ↦ ?_) rfl ?_ rfl) hstate
    · cases s with
      | buy => exact hlevels
      | sell => rfl
    · exact congrArg MatchState.orders hstate
  | sell =>
    have hloops := matchLevels_mirror K env (tooExpensive_reflect K) ⟨taker, b.orders, []⟩
      b.bids.entries
    have hlevels := congrArg Prod.fst hloops
    have hstate := congrArg Prod.snd hloops
    refine Prod.ext (OrderBook.ext_sides (fun s ↦ ?_) rfl ?_ rfl) hstate
    · cases s with
      | buy => rfl
      | sell => exact hlevels
    · exact congrArg MatchState.orders hstate

/-! ## Adding and cancelling -/

theorem push_mirror (K : ℤ) (node : Node) (v : Option (LevelData τ)) :
    LevelData.push (node.mirror K) (v.map (LevelData.mirror K))
      = (LevelData.push node v).mirror K := by
  cases v with
  | none => rfl
  | some level =>
    rw [LevelData.push, LevelData.push, LevelData.mirror, List.map_append]
    rfl

theorem reflect_injective (K : ℤ) : Function.Injective (K - · : ℤ → ℤ) := fun _ _ h ↦
  sub_right_injective h

theorem rest_mirror (K : ℤ) (b : OrderBook τ) (ord : Order) :
    (b.mirror K).rest (ord.mirror K) = (b.rest ord).mirror K := by
  have hside' : (ord.mirror K).side = ord.side.opposite := rfl
  rw [OrderBook.rest, OrderBook.rest, hside']
  have hpush : ∀ v, LevelData.push ⟨b.nextNode, ord.mirror K⟩ (v.map (LevelData.mirror K))
      = (LevelData.push ⟨b.nextNode, ord⟩ v : LevelData τ).mirror K := push_mirror K ⟨_, ord⟩
  have hinsert : ∀ s : Side, (OrderIndex.mirror K b.orders).insert ord.id
      ⟨s.opposite, K - ord.price, b.nextNode⟩ = _ := fun s ↦
    (mirror_insert K b.orders ord.id ⟨s, ord.price, b.nextNode⟩).symm
  cases ord.side with
  | buy =>
    refine OrderBook.ext_sides (fun s ↦ ?_) rfl (hinsert .buy) rfl
    cases s with
    | buy => rfl
    | sell =>
      exact congrArg SortedMap.entries (SortedMap.mapEntries_upsert (before_reflect K .buy)
        (reflect_injective K) hpush b.bids ord.price)
  | sell =>
    refine OrderBook.ext_sides (fun s ↦ ?_) rfl (hinsert .sell) rfl
    cases s with
    | buy =>
      exact congrArg SortedMap.entries (SortedMap.mapEntries_upsert (before_reflect K .sell)
        (reflect_injective K) hpush b.asks ord.price)
    | sell => rfl

omit [AddGroupWithOne τ] in
theorem resolve_mirror (K : ℤ) (env : CallEnv) (ord : Order) :
    (ord.mirror K).resolve env = (ord.resolve env).mirror K := by
  rw [Order.resolve, Order.resolve, Order.mirror]
  dsimp only
  split_ifs <;> rfl

/-- **Adding a reflected order** to the reflected book. -/
theorem addOrder_mirror (K : ℤ) (env : CallEnv) (b : OrderBook τ) {ord : Order}
    (hprice : ord.type = .limit → 0 < ord.price ∧ ord.price < K) :
    (b.mirror K).addOrder env (ord.mirror K)
      = (b.addOrder env ord).map fun r ↦ (r.1.map (Fill.mirror K), r.2.mirror K) := by
  rw [OrderBook.addOrder, OrderBook.addOrder]
  by_cases hq : ord.quantity ≤ 0
  · rw [if_pos hq, if_pos (show (ord.mirror K).quantity ≤ 0 from hq)]
    rfl
  have hvalid : ¬(ord.type = .limit ∧ ord.price ≤ 0) := fun h ↦
    absurd (hprice h.1).1 (not_lt.mpr h.2)
  have hvalid' : ¬((ord.mirror K).type = .limit ∧ (ord.mirror K).price ≤ 0) := by
    rintro ⟨htype, hle⟩
    have hlt := (hprice htype).2
    rw [Order.mirror] at hle
    dsimp only at hle
    omega
  rw [if_neg hq, if_neg (show ¬(ord.mirror K).quantity ≤ 0 from hq), if_neg hvalid,
    if_neg hvalid']
  dsimp only
  have hid : ((ord.resolve env).mirror K).id = (ord.resolve env).id := rfl
  have hlookup : ((b.mirror K).orders.lookup (ord.resolve env).id).isSome
      = (b.orders.lookup (ord.resolve env).id).isSome := by
    rw [OrderBook.mirror, lookup_mirror, Option.isSome_map]
  rw [resolve_mirror, hid, hlookup]
  by_cases hdup : (b.orders.lookup (ord.resolve env).id).isSome = true
  · rw [if_pos hdup, if_pos hdup]
    rfl
  · rw [if_neg hdup, if_neg hdup, matchTaker_mirror]
    have htaker : ∀ st : MatchState, (st.mirror K).taker = st.taker.mirror K := fun _ ↦ rfl
    have hrests : ∀ st : MatchState, (0 < (st.taker.mirror K).quantity ∧
        (st.taker.mirror K).type = .limit) ↔ (0 < st.taker.quantity ∧ st.taker.type = .limit) :=
      fun _ ↦ Iff.rfl
    dsimp only
    rw [htaker]
    split_ifs with hrest hrest' hrest'
    · rw [rest_mirror]
      rfl
    · exact absurd ((hrests _).mp hrest) hrest'
    · exact absurd ((hrests _).mpr hrest') hrest
    · rfl

theorem cancel_mirror (K : ℤ) (it : ℕ) (level : LevelData τ) :
    (level.mirror K).cancel it = (level.cancel it).map (LevelData.mirror K) := by
  have hfind : derefIt it (level.mirror K).orders
      = (derefIt it level.orders).map (Node.mirror K) := by
    rw [derefIt, derefIt, LevelData.mirror]
    exact List.find?_map
  have hfilter : (level.mirror K).orders.filter (fun n ↦ n.addr ≠ it)
      = (level.orders.filter fun n ↦ n.addr ≠ it).map (Node.mirror K) := by
    rw [LevelData.mirror]
    exact List.filter_map
  rw [LevelData.cancel, LevelData.cancel, hfind, hfilter, Option.map_map, List.isEmpty_map]
  split_ifs <;> rfl

/-- **Cancelling in the reflected book.** -/
theorem cancelOrder_mirror (K : ℤ) (b : OrderBook τ) (id : String) :
    (b.mirror K).cancelOrder id = ((b.cancelOrder id).1, (b.cancelOrder id).2.mirror K) := by
  have hlookup : (b.mirror K).orders.lookup id
      = (b.orders.lookup id).map (OrderLocation.mirror K) := lookup_mirror K b.orders id
  rw [OrderBook.cancelOrder, OrderBook.cancelOrder, hlookup]
  cases b.orders.lookup id with
  | none => rfl
  | some loc =>
    have herase := (mirror_erase K b.orders id).symm
    obtain ⟨side, price, it⟩ := loc
    cases side with
    | buy =>
      refine Prod.ext rfl (OrderBook.ext_sides (fun s ↦ ?_) rfl herase rfl)
      cases s with
      | buy => rfl
      | sell =>
        exact congrArg SortedMap.entries (SortedMap.mapEntries_alter (before_reflect K .buy)
          (reflect_injective K) (cancel_mirror K it) b.bids price)
    | sell =>
      refine Prod.ext rfl (OrderBook.ext_sides (fun s ↦ ?_) rfl herase rfl)
      cases s with
      | buy =>
        exact congrArg SortedMap.entries (SortedMap.mapEntries_alter (before_reflect K .sell)
          (reflect_injective K) (cancel_mirror K it) b.asks price)
      | sell => rfl

/-! ## Runs -/

def Call.mirror (K : ℤ) : Call → Call
  | .addOrder env ord => .addOrder env (ord.mirror K)
  | .cancelOrder id => .cancelOrder id

def CallResult.mirror (K : ℤ) : CallResult → CallResult
  | .fills fs => .fills (fs.map (Fill.mirror K))
  | .threw message => .threw message
  | .cancelled found => .cancelled found

/-- The price of a limit order in the call, and its reflection, pass the price check. -/
def Call.Reflects (K : ℤ) : Call → Prop
  | .addOrder _ ord => ord.type = .limit → 0 < ord.price ∧ ord.price < K
  | .cancelOrder _ => True

theorem call_mirror (K : ℤ) (b : OrderBook τ) {c : Call} (h : c.Reflects K) :
    (b.mirror K).call (c.mirror K) = ((b.call c).1.mirror K, (b.call c).2.mirror K) := by
  cases c with
  | addOrder env ord =>
    rw [Call.mirror, OrderBook.call, OrderBook.call, addOrder_mirror K env b h]
    cases b.addOrder env ord <;> rfl
  | cancelOrder id =>
    rw [Call.mirror, OrderBook.call, OrderBook.call, cancelOrder_mirror]
    rfl

/-- **The reflection of a reachable book is reachable**, by the reflected calls. -/
theorem run_mirror (K : ℤ) (symbol : String) {calls : List Call} (h : ∀ c ∈ calls, c.Reflects K) :
    (OrderBook.run symbol (calls.map (Call.mirror K)) : OrderBook τ)
      = (OrderBook.run symbol calls).mirror K := by
  have hrun : ∀ b : OrderBook τ,
      (mealyRun OrderBook.call (b.mirror K) (calls.map (Call.mirror K))).1
        = (mealyRun OrderBook.call b calls).1.mirror K := by
    induction calls with
    | nil => exact fun _ ↦ rfl
    | cons c calls ih =>
      intro b
      rw [List.map_cons, mealyRun_cons, mealyRun_cons, call_mirror K b (h c List.mem_cons_self)]
      exact ih (fun c hc ↦ h c (List.mem_cons_of_mem _ hc)) _
  exact hrun (OrderBook.new symbol)

/-- **Buying and selling are mirror images.** On every book, the reflected order or cancel gives the
reflected fills, the same success or failure, and the reflection of the book. -/
theorem sides_mirror (K : ℤ) (b : OrderBook τ) :
    (∀ env ord, (ord.type = .limit → 0 < ord.price ∧ ord.price < K) →
      (b.mirror K).addOrder env (ord.mirror K)
        = (b.addOrder env ord).map fun r ↦ (r.1.map (Fill.mirror K), r.2.mirror K)) ∧
    ∀ id, (b.mirror K).cancelOrder id = ((b.cancelOrder id).1, (b.cancelOrder id).2.mirror K) :=
  ⟨fun env _ hprice ↦ addOrder_mirror K env b hprice, cancelOrder_mirror K b⟩

end BenchmarkPlatform
