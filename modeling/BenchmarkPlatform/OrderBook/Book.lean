import Mathlib.Data.Finmap
import Mathlib.Data.Int.Cast.Lemmas
import Mathlib.Data.Int.Order.Basic
import BenchmarkPlatform.Lib.SortedMap

/-!
# The order book

`OrderBook` of `pkg/orderbook`: two price-sorted maps of FIFO levels and an index from order ids to
list positions. Everything here is translated from `orderbook.hpp` and `orderbook.cpp`.

Three things the C++ leaves to its library are made explicit.

* A `std::list` node has an address, and an iterator is such an address. Addresses are drawn from a
  counter, so a new node never sits where another one lives. Reading through an iterator looks the
  address up in the list it is used with.
* The clock and the random generator are inputs of a call: the `i`-th reading of the clock and the
  draws of `generate_uuid` are fields of `CallEnv`.
* The cached level totals live in an arithmetic `τ` of the reader's choice: `ℤ` reads quantities as
  unbounded integers, `BitVec 64` as the two's complement words the class declares. Nothing else in
  the book is read off a total.
-/

namespace BenchmarkPlatform

open Lib

/-! ## Orders, fills, snapshots -/

inductive Side where
  | buy
  | sell
  deriving DecidableEq, Repr

inductive OrderType where
  | limit
  | market
  deriving DecidableEq, Repr

/-- Ticks of the system clock. -/
abbrev TimePoint := ℤ

structure Order where
  id : String
  accountId : String
  side : Side
  type : OrderType
  price : ℤ
  quantity : ℤ
  timestamp : TimePoint
  deriving DecidableEq, Repr

structure Fill where
  makerOrderId : String
  takerOrderId : String
  price : ℤ
  quantity : ℤ
  timestamp : TimePoint
  deriving DecidableEq, Repr

structure PriceLevel (τ : Type) where
  price : ℤ
  quantity : τ
  count : ℤ
  deriving DecidableEq, Repr

structure OrderBookSnapshot (τ : Type) where
  symbol : String
  bids : List (PriceLevel τ)
  asks : List (PriceLevel τ)
  timestamp : TimePoint
  deriving DecidableEq, Repr

/-- The draws of one `generate_uuid` call: the `i`-th of `dis(0, 15)`, and that of `dis2(8, 11)`
counted from `8`. -/
structure UuidDraws where
  dis : ℕ → Fin 16
  dis2 : Fin 4

/-- The next `n` hexadecimal digits from draw number `i` on. -/
def UuidDraws.digits (r : UuidDraws) (i n : ℕ) : List Char :=
  (List.range n).map fun j ↦ Nat.digitChar (r.dis (i + j))

def generateUuid (r : UuidDraws) : String :=
  String.ofList (r.digits 0 8 ++ ['-'] ++ r.digits 8 4 ++ ['-', '4'] ++ r.digits 12 3
    ++ ['-', Nat.digitChar (8 + r.dis2)] ++ r.digits 15 3 ++ ['-'] ++ r.digits 18 12)

/-- What a call reads from outside the book. -/
structure CallEnv where
  now : ℕ → TimePoint
  uuid : UuidDraws

instance : Inhabited CallEnv := ⟨⟨fun _ ↦ 0, ⟨fun _ ↦ 0, 0⟩⟩⟩

/-! ## State -/

/-- A node of a level's `std::list`, with the address an iterator to it holds. -/
structure Node where
  addr : ℕ
  order : Order
  deriving DecidableEq, Repr

structure LevelData (τ : Type) where
  orders : List Node
  totalQuantity : τ
  deriving DecidableEq

/-- The price that a side of the book serves first: the higher bid, the lower ask. -/
def Side.before : Side → ℤ → ℤ → Prop
  | .buy => fun p p' ↦ p' < p
  | .sell => fun p p' ↦ p < p'

instance (s : Side) : DecidableRel s.before := fun p p' ↦ by
  cases s <;> exact inferInstanceAs (Decidable (_ < _))

instance (s : Side) : Std.Irrefl s.before := ⟨fun p ↦ by cases s <;> exact lt_irrefl p⟩

instance (s : Side) : IsTrans ℤ s.before := ⟨fun p p' p'' ↦ by
  cases s
  · exact fun h h' ↦ lt_trans h' h
  · exact fun h h' ↦ lt_trans h h'⟩

instance (s : Side) : Std.Trichotomous s.before := ⟨fun p p' ↦ by
  cases s
  · exact fun h h' ↦ le_antisymm (not_lt.mp h) (not_lt.mp h')
  · exact fun h h' ↦ le_antisymm (not_lt.mp h') (not_lt.mp h)⟩

/-- `std::map<int64_t, LevelData, std::greater<int64_t>>`. -/
abbrev BidsMap (τ : Type) := SortedMap (Side.before .buy) (LevelData τ)

/-- `std::map<int64_t, LevelData, std::less<int64_t>>`. -/
abbrev AsksMap (τ : Type) := SortedMap (Side.before .sell) (LevelData τ)

structure OrderLocation where
  side : Side
  price : ℤ
  it : ℕ
  deriving DecidableEq, Repr

/-- `std::unordered_map<std::string, OrderLocation>`. -/
abbrev OrderIndex := Finmap fun _ : String ↦ OrderLocation

structure OrderBook (τ : Type) where
  symbol : String
  bids : BidsMap τ
  asks : AsksMap τ
  orders : OrderIndex
  /-- The address of the next list node. -/
  nextNode : ℕ

/-- The constructor: an empty book. -/
def OrderBook.new {τ : Type} (symbol : String) : OrderBook τ :=
  ⟨symbol, SortedMap.empty, SortedMap.empty, ∅, 0⟩

variable {τ : Type} [AddGroupWithOne τ]

/-! ## Matching -/

/-- `!taker.account_id.empty() && taker.account_id == maker.account_id`: the makers self-trade
prevention skips. -/
def sameAccount (taker maker : Order) : Bool :=
  taker.accountId ≠ "" && taker.accountId == maker.accountId

/-- What the matching loops update besides the levels. -/
structure MatchState where
  taker : Order
  orders : OrderIndex
  fills : List Fill

/-- The updates of one trade of `fillQty` against `maker`, to everything but its level. -/
def MatchState.trade (env : CallEnv) (st : MatchState) (maker : Order) (fillQty : ℤ) :
    MatchState where
  taker := { st.taker with quantity := st.taker.quantity - fillQty }
  orders := if maker.quantity - fillQty = 0 then st.orders.erase maker.id else st.orders
  fills := st.fills ++
    [⟨maker.id, st.taker.id, maker.price, fillQty, env.now (st.fills.length + 1)⟩]

/-- The inner loop of `match`, over the orders of one level. -/
def matchLevel (env : CallEnv) : MatchState → τ → List Node → LevelData τ × MatchState
  | st, total, [] => (⟨[], total⟩, st)
  | st, total, node :: rest =>
    if 0 < st.taker.quantity then
      if sameAccount st.taker node.order then
        let r := matchLevel env st total rest
        ({ r.1 with orders := node :: r.1.orders }, r.2)
      else
        let fillQty := min st.taker.quantity node.order.quantity
        let maker : Order := { node.order with quantity := node.order.quantity - fillQty }
        let r := matchLevel env (st.trade env node.order fillQty) (total - (fillQty : τ)) rest
        if maker.quantity = 0 then r
        else ({ r.1 with orders := { node with order := maker } :: r.1.orders }, r.2)
    else (⟨node :: rest, total⟩, st)

/-- The outer loop of `match`, over the opposite levels from the best one. `tooFar best limit` is
the test that breaks out of it. -/
def matchLevels (env : CallEnv) (tooFar : ℤ → ℤ → Bool) :
    MatchState → List (ℤ × LevelData τ) → List (ℤ × LevelData τ) × MatchState
  | st, [] => ([], st)
  | st, (price, level) :: rest =>
    if 0 < st.taker.quantity then
      if st.taker.type = .limit ∧ tooFar price st.taker.price then ((price, level) :: rest, st)
      else
        let r := matchLevel env st level.totalQuantity level.orders
        let r' := matchLevels env tooFar r.2 rest
        if r.1.orders.isEmpty then r' else ((price, r.1) :: r'.1, r'.2)
    else ((price, level) :: rest, st)

theorem matchLevels_keys_sublist (env : CallEnv) (tooFar : ℤ → ℤ → Bool) (st : MatchState)
    (es : List (ℤ × LevelData τ)) :
    ((matchLevels env tooFar st es).1.map Prod.fst).Sublist (es.map Prod.fst) := by
  induction es generalizing st with
  | nil => simp [matchLevels]
  | cons e es ih =>
    obtain ⟨price, level⟩ := e
    rw [matchLevels]
    split_ifs
    · exact List.Sublist.refl _
    · dsimp only
      split_ifs
      · exact (ih _).cons price
      · exact (ih _).cons_cons price
    · exact List.Sublist.refl _

/-- `it->first > taker.price`: the best ask is too expensive. -/
def tooExpensive (best limit : ℤ) : Bool := limit < best

/-- `it->first < taker.price`: the best bid is too cheap. -/
def tooCheap (best limit : ℤ) : Bool := best < limit

/-- `OrderBook::match`: the book and the loop state after the taker has been matched. -/
def OrderBook.matchTaker (env : CallEnv) (b : OrderBook τ) (taker : Order) :
    OrderBook τ × MatchState :=
  match taker.side with
  | .buy =>
    let r := matchLevels env tooExpensive ⟨taker, b.orders, []⟩ b.asks.entries
    ({ b with
        asks := ⟨r.1, SortedMap.pairwise_of_keys_sublist (matchLevels_keys_sublist _ _ _ _)⟩
        orders := r.2.orders }, r.2)
  | .sell =>
    let r := matchLevels env tooCheap ⟨taker, b.orders, []⟩ b.bids.entries
    ({ b with
        bids := ⟨r.1, SortedMap.pairwise_of_keys_sublist (matchLevels_keys_sublist _ _ _ _)⟩
        orders := r.2.orders }, r.2)

/-! ## Adding and cancelling -/

/-- `level.orders.push_back(ord); level.total_quantity += ord.quantity;` on `operator[]`. -/
def LevelData.push (node : Node) (level : Option (LevelData τ)) : LevelData τ :=
  let level := level.getD ⟨[], 0⟩
  ⟨level.orders ++ [node], level.totalQuantity + (node.order.quantity : τ)⟩

/-- The end of `add_order`: a remainder joins the back of its level. -/
def OrderBook.rest (b : OrderBook τ) (ord : Order) : OrderBook τ :=
  match ord.side with
  | .buy =>
    { b with
      bids := b.bids.upsert ord.price (LevelData.push ⟨b.nextNode, ord⟩)
      orders := b.orders.insert ord.id ⟨.buy, ord.price, b.nextNode⟩
      nextNode := b.nextNode + 1 }
  | .sell =>
    { b with
      asks := b.asks.upsert ord.price (LevelData.push ⟨b.nextNode, ord⟩)
      orders := b.orders.insert ord.id ⟨.sell, ord.price, b.nextNode⟩
      nextNode := b.nextNode + 1 }

/-- The defaults `add_order` fills in: a generated id, the current time. -/
def Order.resolve (env : CallEnv) (ord : Order) : Order :=
  let ord := if ord.id = "" then { ord with id := generateUuid env.uuid } else ord
  if ord.timestamp = 0 then { ord with timestamp := env.now 0 } else ord

/-- `OrderBook::add_order`. An error is the message of the `std::invalid_argument` thrown; it
leaves the book as it was. -/
def OrderBook.addOrder (env : CallEnv) (b : OrderBook τ) (ord : Order) :
    Except String (List Fill × OrderBook τ) :=
  if ord.quantity ≤ 0 then .error "order quantity must be positive"
  else if ord.type = .limit ∧ ord.price ≤ 0 then .error "limit order price must be positive"
  else
    let ord := ord.resolve env
    if (b.orders.lookup ord.id).isSome then .error ("duplicate order ID: " ++ ord.id)
    else
      let r := b.matchTaker env ord
      .ok (r.2.fills,
        if 0 < r.2.taker.quantity ∧ r.2.taker.type = .limit then r.1.rest r.2.taker else r.1)

/-- `*it`, looked up in the list the iterator is used with. -/
def derefIt (it : ℕ) (orders : List Node) : Option Node := orders.find? fun n ↦ n.addr = it

/-- The level part of `cancel_order`: subtract `location.it->quantity`, erase the node, and erase
the level when it is empty. A dangling iterator, undefined behaviour in the source, finds no node
here; `OrderBook.WF` excludes it. -/
def LevelData.cancel (it : ℕ) (level : LevelData τ) : Option (LevelData τ) :=
  let quantity := ((derefIt it level.orders).map fun n ↦ n.order.quantity).getD 0
  let orders := level.orders.filter fun n ↦ n.addr ≠ it
  if orders.isEmpty then none else some ⟨orders, level.totalQuantity - (quantity : τ)⟩

/-- `OrderBook::cancel_order`. -/
def OrderBook.cancelOrder (b : OrderBook τ) (orderId : String) : Bool × OrderBook τ :=
  match b.orders.lookup orderId with
  | none => (false, b)
  | some location =>
    let orders := b.orders.erase orderId
    match location.side with
    | .buy =>
      (true, { b with
        orders := orders
        bids := b.bids.alter location.price (LevelData.cancel location.it) })
    | .sell =>
      (true, { b with
        orders := orders
        asks := b.asks.alter location.price (LevelData.cancel location.it) })

/-! ## Observers -/

/-- `static_cast<int32_t>` of a size. -/
def toInt32 (n : ℕ) : ℤ := Int.bmod n (2 ^ 32)

/-- The loop of `get_snapshot` over one side. -/
def snapshotLevels (es : List (ℤ × LevelData τ)) : List (PriceLevel τ) :=
  (es.filter fun e ↦ !e.2.orders.isEmpty).map fun e ↦
    ⟨e.1, e.2.totalQuantity, toInt32 e.2.orders.length⟩

namespace OrderBook

def getSnapshot (now : TimePoint) (b : OrderBook τ) : OrderBookSnapshot τ :=
  ⟨b.symbol, snapshotLevels b.bids.entries, snapshotLevels b.asks.entries, now⟩

def bestBid (b : OrderBook τ) : ℤ × Bool :=
  match b.bids.entries with
  | [] => (0, false)
  | e :: _ => (e.1, true)

def bestAsk (b : OrderBook τ) : ℤ × Bool :=
  match b.asks.entries with
  | [] => (0, false)
  | e :: _ => (e.1, true)

def spread (b : OrderBook τ) : ℤ × Bool :=
  match b.bids.entries, b.asks.entries with
  | bid :: _, ask :: _ =>
    let spr := ask.1 - bid.1
    if spr < 0 then (0, true) else (spr, true)
  | _, _ => (0, false)

def orderCount (b : OrderBook τ) : ℕ := b.orders.keys.card

end OrderBook

end BenchmarkPlatform
